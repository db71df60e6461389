import Announcer.Proofs.Chance.Script
import Announcer.Proofs.Expansion.Mirror
import Announcer.Proofs.Template.RoundTrip
import Mathlib

/-! # Texts after a merge

A merged grammar has every rule of the other one, so it makes the choices of the other one. It has
the modifiers of the first one, though, and those of the other are gone: where a run calls a modifier
that the first grammar has too its text stays, elsewhere another text comes out or none.
-/
namespace Announcer

open Chance (ChoiceSource Generator Script)

def Tag.CallsAlike (g h : Grammar) (tag : Tag) : Prop :=
  ∀ call ∈ tag.modifiers, ∀ modifier, g.modifiers.get? call.name = some modifier →
    h.modifiers.get? call.name = some modifier

namespace Grammar

variable {base other : Grammar}

theorem rule?_merge (base other : Grammar) (name : String) :
    (base.merge other).rule? name = (other.rule? name).or (base.rule? name) :=
  Table.get?_override _ _ name

theorem rule?_merge_of_other {name : String} {rule : Rule} (h : other.rule? name = some rule) :
    (base.merge other).rule? name = some rule := by
  rw [rule?_merge, h, Option.some_or]

open Expansion

/-- Tags that call the same modifiers in both grammars have the same texts. -/
def sameTexts (h : other.Each (Template.EachTag (Tag.CallsAlike other base))) :
    Mirror other (base.merge other) where
  tag := Tag.CallsAlike other base
  text := Eq
  fails _ := False
  same _ := rfl
  append _ _ _ _ hab hcd := by rw [hab, hcd]
  rules _ _ hrule := rule?_merge_of_other hrule
  tags := h
  modifier := by
    rintro tag call a _ made htag hcall rfl hmade
    obtain ⟨modifier, hget, rfl⟩ := Option.map_eq_some_iff.mp hmade
    exact .inl ⟨_, congrArg (Option.map _) (htag call hcall modifier hget), rfl⟩

/-- Whatever the modifiers are, the merged grammar goes on until it lacks one. -/
def someText (base other : Grammar) : Mirror other (base.merge other) where
  tag _ := True
  text _ _ := True
  fails e := ∃ name, e = .unknownModifier name ∧ other.modifiers.contains name = true ∧
    base.modifiers.contains name = false
  same _ := trivial
  append _ _ _ _ _ _ := trivial
  rules _ _ hrule := rule?_merge_of_other hrule
  tags _ _ _ _ _ _ _ := trivial
  modifier := by
    intro tag call a b made _ _ _ hmade
    obtain ⟨modifier, hget, -⟩ := Option.map_eq_some_iff.mp hmade
    cases hbase : base.modifiers.get? call.name with
    | some replaced => exact .inl ⟨_, congrArg (Option.map _) hbase, trivial⟩
    | none =>
      refine .inr ⟨congrArg (Option.map _) hbase, call.name, rfl, ?_, ?_⟩
      · simp [Table.contains, hget]
      · simp [Table.contains, hbase]

/-- After a merge an origin keeps the text that it has in the merged grammar when every modifier
called on the way is the same in both grammars. In any case the choices are the same; a text then
comes out, or the merge has lost a modifier of the other grammar. -/
theorem flatten_merge {σ : Type} [ChoiceSource σ] (base : Grammar) {other : Grammar}
    {origin : String} {source rest : σ} {text : String}
    (h : other.flatten origin source = (.ok text, rest)) :
    ((∀ t, Template.parse origin = .ok t → t.EachTag (Tag.CallsAlike other base)) →
      other.Each (Template.EachTag (Tag.CallsAlike other base)) →
        (base.merge other).flatten origin source = (.ok text, rest)) ∧
    ((∃ changed, (base.merge other).flatten origin source = (.ok changed, rest)) ∨
      ∃ name, other.modifiers.contains name = true ∧ base.modifiers.contains name = false ∧
        ((base.merge other).flatten origin source).1 =
          .error (.expansion (.unknownModifier name))) := by
  obtain ⟨t, ht, hrun⟩ := flatten_eq_ok.mp h
  constructor
  · intro horigin hother
    rcases (sameTexts hother).run_follows (horigin t ht) hrun with ⟨_, rfl, hsame⟩ | ⟨_, hfalse, -⟩
    · exact flatten_eq_ok.mpr ⟨t, ht, hsame⟩
    · exact hfalse.elim
  · rcases (someText base other).run_follows (fun _ _ => trivial) hrun with
      ⟨changed, -, hchanged⟩ | ⟨e, ⟨name, rfl, hhas, hlacks⟩, hfails⟩
    · exact .inl ⟨changed, flatten_eq_ok.mpr ⟨t, ht, hchanged⟩⟩
    · refine .inr ⟨name, hhas, hlacks, ?_⟩
      rw [flatten_of_parse ht, hfails]
      rfl

def shout : Modifier := fun text _ => text ++ "!"

def greetings : Grammar :=
  Grammar.addModifier ⟨.ofList [
    ("greeting", ⟨"greeting", [⟨[.tag ⟨[.push "word" [.literal "ahoy"]], "line", []⟩]⟩,
      ⟨[.tag (.bare "line")]⟩]⟩),
    ("line", ⟨"line", [⟨[.tag ⟨[], "word", [⟨"capitalize", []⟩]⟩, .literal " there"]⟩]⟩),
    ("word", ⟨"word", [.literal "hello", .literal "hi"]⟩)], English.modifiers⟩ "shout" shout

def farewells : Grammar where
  rules := .ofList [("word", ⟨"word", [.literal "bye"]⟩), ("end", ⟨"end", [.literal "over"]⟩)]
  modifiers := English.modifiers

theorem greetings_callsAlike :
    greetings.Each (Template.EachTag (Tag.CallsAlike greetings farewells)) := by
  have hcalls : ∀ entry ∈ greetings.rules.entries, ∀ t ∈ entry.2.alternatives, ∀ tag ∈ t.tags,
      ∀ call ∈ tag.modifiers, call.name ≠ "shout" := by decide
  intro name rule hrule t ht tag htag call hcall modifier hget
  have hname := hcalls _ (Table.get?_eq_some_iff.mp hrule) t ht tag htag call hcall
  exact (Table.get?_insert_of_ne English.modifiers shout hname).symm.trans hget

/-- The pushed word hides the words of both grammars. -/
theorem greetings_kept :
    (greetings.flatten "#greeting#" (Script.of [0, 0, 0])).1 = .ok "Ahoy there" ∧
      ((farewells.merge greetings).flatten "#greeting#" (Script.of [0, 0, 0])).1 =
        .ok "Ahoy there" := by
  have hname : IsName "greeting" := by decide
  have hparse : Template.parse "#greeting#" = .ok ⟨[.tag (.bare "greeting")]⟩ :=
    (Template.parse_bare hname :)
  have htext : greetings.flatten "#greeting#" (Script.of [0, 0, 0]) =
      (.ok "Ahoy there", Script.of []) := by
    rw [flatten_of_parse hparse]
    rfl
  obtain ⟨hkept, -⟩ := flatten_merge farewells htext
  refine ⟨congrArg Prod.fst htext, congrArg Prod.fst (hkept (fun t ht => ?_) greetings_callsAlike)⟩
  obtain rfl := Except.ok.inj (hparse.symm.trans ht)
  exact .bare (by simp [Tag.CallsAlike, Tag.bare])

def calls : Grammar :=
  Grammar.addModifier ⟨.ofList [("word", ⟨"word", [.literal "hey"]⟩)], English.modifiers⟩ "shout" shout

section Calls

variable {σ : Type} [ChoiceSource σ] {g : Grammar}

theorem parse_shouted :
    Template.parse "#word.shout#" = .ok ⟨[.tag ⟨[], "word", [⟨"shout", []⟩]⟩]⟩ := by
  have hbalanced : Scan.Balanced (fun _ => True) false "word.shout".toList :=
    Scan.balanced_of_plain (by simp [Scan.delimiters])
  have htokens : Scan.tokens "#word.shout#".toList = [.tag "word.shout".toList] := by
    rw [show "#word.shout#".toList = '#' :: ("word.shout".toList ++ '#' :: []) from rfl,
      tokens_tag hbalanced, Scan.tokens]
  have hbody : Scan.leadingActions? "word.shout".toList = some ([], "word.shout".toList) := by
    simp [Scan.leadingActions?]
  rw [Template.parse, Template.parseChars, Template.parseLevels, Template.parseWith, htokens]
  simp only [List.mapM_cons, List.mapM_nil, Segment.ofToken, Tag.parseWith, hbody]
  rfl

theorem flatten_shouted (h : g.rule? "word" = some ⟨"word", [.literal "hey"]⟩) (source : σ) :
    ∃ later, g.flatten "#word.shout#" source =
      (match g.modifiers.get? "shout" with
        | some modifier => .ok (modifier "hey" [])
        | none => .error (.expansion (.unknownModifier "shout")), later) := by
  obtain ⟨later, hselect⟩ : ∃ later, outcome (select g "word") ⟨.empty, source⟩ =
      (.ok (.literal "hey"), ⟨.empty, later⟩) :=
    outcome_select_single (by rw [alternatives?_empty, h, Option.map_some])
  have hsymbol : outcome (expandSymbol (expandTemplate g maxDepth maxDepth) g "word")
      ⟨.empty, source⟩ = (.ok "hey", ⟨.empty, later⟩) := by
    rw [expandSymbol_named (by decide), outcome_bind_of_ok hselect]
    rfl
  refine ⟨later, ?_⟩
  rw [flatten_of_parse parse_shouted, run_eq, expandTemplate_tag rfl, outcome_bind_of_ok hsymbol]
  simp only [applyModifiers, ModifierTable.transform?]
  cases g.modifiers.get? "shout" <;> rfl

end Calls

/-- The word is shouted by a modifier of its own grammar, and the merge keeps the word alone. -/
theorem merge_drops_modifiers : ¬ ∀ (base other : Grammar) (origin text : String)
    (source rest : Generator), base.modifiers = English.modifiers →
      other.flatten origin source = (.ok text, rest) →
        (base.merge other).flatten origin source = (.ok text, rest) := by
  intro hclaim
  obtain ⟨later, htext⟩ := flatten_shouted (g := calls) rfl (Generator.ofSeed 1)
  obtain ⟨last, hlost⟩ := flatten_shouted (g := empty.merge calls) rfl (Generator.ofSeed 1)
  have hkept := hclaim empty calls "#word.shout#" "hey!" (Generator.ofSeed 1) later rfl htext
  rw [hlost] at hkept
  cases hkept

end Grammar

end Announcer
