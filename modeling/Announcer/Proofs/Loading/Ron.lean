import Announcer.Proofs.Loading.Spelling
import Announcer.Ron
import Mathlib

/-! # Rules read from object notation

The second format reads what JSON spells in the same way: its blanks, its strings with the two
escapes, its lists in brackets and its maps in braces.
-/
namespace Announcer.Ron

open Spelling

variable {text rest blank : List Char}

theorem skipBlank_append (h : Blank blank) (text : List Char) :
    skipBlank (blank ++ text) = skipBlank text := by
  induction blank with
  | nil => rfl
  | cons c blank ih =>
    obtain ⟨hc, hblank⟩ : isBlank c = true ∧ Blank blank := List.forall_mem_cons.mp h
    have hslash : c ≠ '/' := by
      rintro rfl
      exact absurd hc (by decide)
    have hskip : skipBlank (c :: (blank ++ text)) =
        if isBlank c then skipBlank (blank ++ text) else some (c :: (blank ++ text)) := by
      rw [skipBlank]
      all_goals simp [hslash]
    rw [List.cons_append, hskip, if_pos hc]
    exact ih hblank

theorem skipBlank_cons {c : Char} (hslash : c ≠ '/') (h : isBlank c = false) (text : List Char) :
    skipBlank (c :: text) = some (c :: text) := by
  rw [skipBlank, if_neg (by simp [h])]
  all_goals simp [hslash]

theorem readEscape_escaped {c : Char} (h : c = '"' ∨ c = '\\') (rest : List Char) :
    readEscape (c :: rest) = some (c, rest) := by
  rcases h with rfl | rfl <;> rfl

theorem readQuoted_escaped (s rest : List Char) :
    readQuoted (s.flatMap escapeChar ++ '"' :: rest) = some (s, rest) := by
  induction s with
  | nil => simp [readQuoted]
  | cons c s ih =>
    rw [List.flatMap_cons, List.append_assoc, escapeChar]
    split
    next hescape =>
      simp only [List.cons_append, List.nil_append]
      rw [readQuoted]
      split
      next hnone => rw [readEscape_escaped hescape] at hnone; cases hnone
      next found after hfound =>
        rw [readEscape_escaped hescape] at hfound
        cases hfound
        rw [ih]
        rfl
    next hplain =>
      obtain ⟨hquote, hbackslash⟩ := not_or.mp hplain
      rw [List.singleton_append, readQuoted, ih]
      · rfl
      · exact hquote
      · exact hbackslash

theorem readString_quoted {s : String} (h : Quoted s text) (rest : List Char) :
    readString (text ++ rest) = some (s, rest) := by
  obtain ⟨-⟩ := h
  rw [quoted, List.cons_append, List.append_assoc, List.singleton_append, readString, escaped,
    readQuoted_escaped]
  simp

section Items

variable {α : Type} {close : Char} {item : Reader α} {spells : α → List Char → Prop}
  (hread : ∀ x text rest, spells x text → item (text ++ rest) = some (x, rest))
  (hbegins : BeginsQuoted spells)
  (hclose : isBlank close = false) (hslash : close ≠ '/') (hcomma : close ≠ ',')
  (hquote : close ≠ '"')

include hread hbegins hclose hslash hcomma hquote

theorem readItems_separated {xs : List α} (h : Separated spells xs text) (rest : List Char)
    {steps : ℕ} (hsteps : xs.length ≤ steps) :
    readItems close item steps (text ++ close :: rest) = some (xs, rest) := by
  have hskip : ∀ {x spelled}, spells x spelled → ∀ more, ∃ inner,
      spelled ++ more = '"' :: inner ∧ skipBlank (spelled ++ more) = some ('"' :: inner) := by
    intro x spelled hx more
    obtain ⟨left, rfl⟩ := hbegins _ _ hx
    exact ⟨_, rfl, skipBlank_cons (by decide) (by decide) _⟩
  induction h generalizing steps with
  | @last x before spelled after hbefore hx hafter =>
    obtain ⟨steps, rfl⟩ := Nat.exists_eq_add_one_of_ne_zero (Nat.ne_zero_of_lt hsteps)
    obtain ⟨inner, hinner, hstart⟩ := hskip hx (after ++ close :: rest)
    have hitem := hread _ _ (after ++ close :: rest) hx
    rw [hinner] at hitem
    simp only [List.append_assoc, readItems, skipBlank_append hbefore, hstart, hitem,
      skipBlank_append hafter, skipBlank_cons hslash hclose, bind, Option.bind]
    simp [hquote.symm, hcomma]
  | @more x xs before spelled after texts hbefore hx hafter _ ih =>
    obtain ⟨steps, rfl⟩ := Nat.exists_eq_add_one_of_ne_zero (Nat.ne_zero_of_lt hsteps)
    have hcommas : ∀ more, skipBlank (',' :: more) = some (',' :: more) :=
      skipBlank_cons (by decide) (by decide)
    obtain ⟨inner, hinner, hstart⟩ := hskip hx (after ++ ',' :: (texts ++ close :: rest))
    have hitem := hread _ _ (after ++ ',' :: (texts ++ close :: rest)) hx
    rw [hinner] at hitem
    have hrest := ih (Nat.le_of_succ_le_succ hsteps)
    simp only [List.append_assoc, List.cons_append, readItems, skipBlank_append hbefore, hstart,
      hitem, skipBlank_append hafter, hcommas, bind, Option.bind, hrest]
    simp [hquote.symm]

theorem readItems_enclosed {opening : Char} {xs : List α} (h : Enclosed opening close spells xs text)
    (rest : List Char) {steps : ℕ} (hsteps : xs.length < steps) :
    ∃ inner, text = opening :: inner ∧
      readItems close item steps (inner ++ rest) = some (xs, rest) := by
  cases h with
  | none hblank =>
    obtain ⟨steps, rfl⟩ := Nat.exists_eq_add_one_of_ne_zero (Nat.ne_zero_of_lt hsteps)
    refine ⟨_, rfl, ?_⟩
    simp only [List.append_assoc, List.singleton_append, readItems, skipBlank_append hblank,
      skipBlank_cons hslash hclose, bind, Option.bind]
    simp
  | some hitems =>
    refine ⟨_, rfl, ?_⟩
    rw [List.append_assoc, List.singleton_append]
    exact readItems_separated hread hbegins hclose hslash hcomma hquote hitems rest (by omega)

end Items

theorem readEntry_entry {ss : List String} (h : Entry ss text) (rest : List Char) {steps : ℕ}
    (hsteps : text.length ≤ steps) : readEntry steps (text ++ rest) = some (ss, rest) := by
  cases h with
  | one hs =>
    have hstring := readString_quoted hs rest
    obtain ⟨inner, rfl⟩ := quoted_begins _ _ hs
    have hentry : readEntry steps ('"' :: (inner ++ rest)) =
        (readString ('"' :: (inner ++ rest))).map fun found => ([found.1], found.2) := rfl
    rw [List.cons_append] at hstring ⊢
    rw [hentry, hstring]
    rfl
  | list hss =>
    have hlength := hss.length_lt
    obtain ⟨inner, rfl, hitems⟩ := readItems_enclosed (fun _ _ rest hx => readString_quoted hx rest)
      quoted_begins (by decide) (by decide) (by decide) (by decide) hss rest
      (Nat.lt_of_lt_of_le hlength hsteps)
    exact hitems

theorem readMember_member {rule : String × List String} (h : Member rule text) (rest : List Char)
    {steps : ℕ} (hsteps : text.length ≤ steps) :
    readMember steps (text ++ rest) = some (rule, rest) := by
  obtain @⟨name, ss, key, before, after, text, hkey, hbefore, hafter, hentry⟩ := h
  simp only [List.length_append, List.length_cons] at hsteps
  have hcolon : ∀ more, skipBlank (':' :: more) = some (':' :: more) :=
    skipBlank_cons (by decide) (by decide)
  have hskip : skipBlank (text ++ rest) = some (text ++ rest) := by
    obtain ⟨c, more, rfl, rfl | rfl⟩ := hentry.begins <;>
      exact skipBlank_cons (by decide) (by decide) _
  have hread : readEntry steps (text ++ rest) = some (ss, rest) :=
    readEntry_entry hentry rest (by omega)
  simp only [List.append_assoc, List.cons_append, readMember, readString_quoted hkey,
    skipBlank_append hbefore, hcolon, skipBlank_append hafter, hskip, hread, bind, Option.bind]
  rfl

theorem skipHeaders_brace (hblank : Blank blank) (text : List Char) (steps : ℕ) :
    skipHeaders (steps + 1) (blank ++ '{' :: text) = some ('{' :: text) := by
  have hbrace : skipBlank ('{' :: text) = some ('{' :: text) :=
    skipBlank_cons (by decide) (by decide) text
  simp only [skipHeaders, skipBlank_append hblank, hbrace, bind, Option.bind]
  rfl

theorem parse?_object {rules : List (String × List String)} {text : String}
    (h : Object rules text) : parse? text = some rules := by
  obtain @⟨before, object, after, hbefore, hobject, hafter⟩ := h
  let steps := (String.ofList (before ++ (object ++ after))).length + 1
  have hlength : object.length ≤ steps := by
    simp only [steps, String.length_ofList, List.length_append]
    omega
  have hrules : rules.length < steps :=
    Nat.lt_of_lt_of_le hobject.length_lt hlength
  obtain ⟨inner, rfl, hitems⟩ := readItems_enclosed
    (fun _ _ rest hx => readMember_member hx.1 rest hx.2.le)
    (fun rule text hx => member_begins rule text hx.1)
    (by decide) (by decide) (by decide) (by decide) (hobject.bounded hlength) after hrules
  have hstart : skipHeaders steps (before ++ ('{' :: inner ++ after)) =
      some ('{' :: (inner ++ after)) := skipHeaders_brace hbefore _ _
  have hend : skipBlank after = some [] := by
    rw [← List.append_nil after, skipBlank_append hafter]
    simp [skipBlank]
  simp only [steps] at hstart hitems
  simp only [parse?, String.toList_ofList, hstart, hitems, hend, bind, Option.bind]
  rfl

end Announcer.Ron
