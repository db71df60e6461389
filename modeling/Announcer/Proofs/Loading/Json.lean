import Announcer.Grammar.Load
import Announcer.Proofs.Json.Reading
import Mathlib

/-! # Rules read from JSON

The strings of rules in writing are strings of JSON, and their lists and objects are read item by item.
-/
namespace Announcer

open Spelling (Quoted Entry Member Object Enclosed)

namespace Json

variable {text rest : List Char}

theorem charText_printable {c : Char} (h : 0x20 ≤ c.toNat) : CharText c (Spelling.escapeChar c) := by
  unfold Spelling.escapeChar
  split
  next hspecial => rcases hspecial with rfl | rfl <;> exact .short rfl
  next hplain =>
    obtain ⟨hquote, hbackslash⟩ := not_or.mp hplain
    exact .plain hquote hbackslash h

theorem stringText_quoted {s : String} (h : Quoted s text) : StringText s text := by
  have hchars : ∀ cs : List Char, (∀ c ∈ cs, 0x20 ≤ c.toNat) →
      CharsText cs (cs.flatMap Spelling.escapeChar) := by
    intro cs
    induction cs with
    | nil => exact fun _ => .nil
    | cons c cs ih =>
      intro hcs
      exact .cons (charText_printable (hcs c (by simp))) (ih fun d hd => hcs d (by simp [hd]))
  obtain ⟨hs⟩ := h
  exact .mk (hchars s.toList hs)

theorem readValue_quoted {s : String} (h : Quoted s text) (steps levels : ℕ) (rest : List Char) :
    readValue steps levels (text ++ rest) = .ok (.string s, rest) := by
  obtain ⟨hs⟩ := stringText_quoted h
  have hread := readString_chars hs rest
  cases levels <;>
  · simp only [List.cons_append, List.append_assoc, List.nil_append, readValue, readValueWith, hread,
      bind, Except.bind]
    simp [pure, Except.pure]

theorem takes_quoted (steps levels : ℕ) :
    Takes (listItem (readValue steps levels)) (fun items s => .ok (.string s :: items)) Quoted := by
  intro items s text rest h _
  rw [listItem, readValue_quoted h]
  rfl

theorem readValue_list {ss : List String} (h : Enclosed '[' ']' Quoted ss text) (rest : List Char)
    {steps : ℕ} (hsteps : ss.length < steps) (levels : ℕ) :
    readValue steps (levels + 1) (text ++ rest) = .ok (.list (ss.map .string), rest) := by
  obtain ⟨inner, rfl, hfold⟩ := foldItems_enclosed (takes_quoted steps levels)
    Spelling.quoted_begins.begins (.inl rfl) h rest hsteps []
  have hitems : ss.foldlM (fun items s => .ok (Value.string s :: items)) [] =
      (.ok (ss.map Value.string).reverse : Except Fault _) :=
    List.foldlM_pure.trans (congrArg Except.ok (by simp))
  simp only [List.cons_append, readValue, readValueWith, hfold, hitems, Except.map, bind,
    Except.bind, List.reverse_reverse]
  rfl

theorem texts?_list (ss : List String) : (Value.list (ss.map .string)).texts? = some ss := by
  change (ss.map Value.string).mapM Value.text? = some ss
  induction ss with
  | nil => rfl
  | cons s rest ih => rw [List.map_cons, List.mapM_cons, ih]; rfl

theorem readValue_entry {ss : List String} (h : Entry ss text) (rest : List Char)
    {steps : ℕ} (hsteps : text.length ≤ steps) (levels : ℕ) :
    ∃ value, readValue steps (levels + 1) (text ++ rest) = .ok (value, rest) ∧
      value.texts? = some ss := by
  cases h with
  | one hs => exact ⟨_, readValue_quoted hs steps _ rest, rfl⟩
  | list hss =>
    have hlength := hss.length_lt
    exact ⟨_, readValue_list hss rest (by omega) levels, texts?_list ss⟩

end Json

namespace Grammar

open Json

theorem takes_member (steps : ℕ) :
    Takes (fun acc => readMember (jsonRule steps acc)) (fun t e => .ok (t.insert e.1 e.2))
      (fun rule text => Member rule text ∧ text.length < steps) := by
  rintro rules _ _ rest ⟨@⟨name, ss, _, before, after, text, hname, hbefore, hafter, hentry⟩, hsteps⟩ -
  simp only [List.length_append, List.length_cons] at hsteps
  obtain ⟨value, hvalue, htexts⟩ : ∃ value, readValue steps maxJsonDepth (text ++ rest) =
      .ok (value, rest) ∧ value.texts? = some ss := readValue_entry hentry rest (by omega) 125
  have hskip : skipBlank (text ++ rest) = text ++ rest := by
    obtain ⟨c, more, rfl, rfl | rfl⟩ := hentry.begins <;> exact skipBlank_cons (by decide) _
  simp only [List.append_assoc, List.cons_append, readMember_key _ (stringText_quoted hname), jsonRule,
    readColon_append hbefore hafter, hskip, hvalue, htexts, bind, Except.bind]
  rfl

theorem readObject_object {rules : List (String × List String)} {text : String}
    (h : Object rules text) : readObject jsonRule .empty text = .ok (.ofList rules) := by
  obtain ⟨hbefore, hobject, hafter⟩ := h
  rw [readObject_members takes_member Spelling.member_begins.begins (.mk hbefore hobject hafter)]
  exact List.foldlM_pure

end Grammar

end Announcer
