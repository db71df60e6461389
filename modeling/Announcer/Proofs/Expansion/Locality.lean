import Announcer.Proofs.Chance.Script
import Announcer.Proofs.Expansion.Contract
import Announcer.Proofs.Grammar.Reached
import Mathlib

/-! # Locality

An expansion looks up the symbols of its tags and nothing else. A push adds no symbol, since what it
puts in front of a rule is finished text. So two grammars that agree on a closed set of names are the
same to every origin whose symbols are in the set, from every source.
-/
namespace Announcer

open Chance (ChoiceSource Script)

/-- Every tag of the template, those in the rules of its pushes too, has its symbol in the set. -/
def Template.Within (S : String → Prop) (t : Template) : Prop := ∀ tag ∈ t.tags, S tag.symbol

namespace Template.Within

variable {S : String → Prop} {t : Template}

theorem literal (text : String) : (Template.literal text).Within S := by
  intro tag htag
  cases htag

theorem symbol {tag : Tag} (h : t.Within S) (htag : .tag tag ∈ t.segments) : S tag.symbol :=
  h tag (Template.mem_tags_iff.mpr (.here htag))

theorem rules {a : Action} (h : t.Within S) (ha : a ∈ t.actions) :
    ∀ r ∈ a.rules, r.Within S := by
  intro r hr tag htag
  have hrule : r ∈ t.rules := List.mem_flatMap.mpr ⟨a, ha, hr⟩
  exact h tag (Template.mem_tags_iff.mpr (.inside hrule (Template.mem_tags_iff.mp htag)))

end Template.Within

/-- The grammars have the same modifiers and, for the names in the set, the same alternatives or
both none; and these alternatives stay in the set. -/
structure Grammar.AgreeOn (S : String → Prop) (g h : Grammar) : Prop where
  modifiers : g.modifiers = h.modifiers
  alternatives : ∀ name, S name →
    (g.rule? name).map Rule.alternatives = (h.rule? name).map Rule.alternatives
  closed : ∀ name rule, S name → g.rule? name = some rule → ∀ t ∈ rule.alternatives, t.Within S

namespace Expansion

section Lockstep

variable {σ α β : Type}

theorem ext_outcome {m n : Expansion σ α} (h : ∀ s, outcome m s = outcome n s) : m = n :=
  funext h

theorem bind_congr_results {m : Expansion σ α} {R : α → Prop} {F : ExpansionError → Prop}
    {f k : α → Expansion σ β} (hm : Keeps (fun _ => True) m R F) (hf : ∀ a, R a → f a = k a) :
    m >>= f = m >>= k := by
  apply ext_outcome
  intro s
  rw [outcome_bind, outcome_bind]
  cases hend : outcome m s with
  | mk result t =>
    cases result with
    | error e => rfl
    | ok a =>
      have ha : R a := (hm.of_ok trivial hend).1
      exact congrArg (fun last => outcome last t) (hf a ha)

end Lockstep

section Agree

variable {σ : Type} {S : String → Prop} {g h : Grammar}

def AlikeOn (S : String → Prop) (left right : Template → Expansion σ String) : Prop :=
  ∀ t : Template, t.Within S → left t = right t

variable {left right : Template → Expansion σ String}

theorem runAction_congr {a : Action} (hdeeper : AlikeOn S left right)
    (ha : ∀ r ∈ a.rules, r.Within S) : runAction left a = runAction right a := by
  cases a with
  | push key rules =>
    have hrules : rules.mapM left = rules.mapM right := mapM_congr fun r hr => hdeeper r (ha r hr)
    rw [runAction, runAction, hrules]
  | pop key => rfl

theorem runActions_congr {actions : List Action} (hdeeper : AlikeOn S left right)
    (ha : ∀ a ∈ actions, ∀ r ∈ a.rules, r.Within S) (keys : List String) :
    runActions left actions keys = runActions right actions keys := by
  induction actions generalizing keys with
  | nil => rfl
  | cons a rest ih =>
    have hfirst : runAction left a = runAction right a := runAction_congr hdeeper (ha a (by simp))
    have hrest : ∀ keys, runActions left rest keys = runActions right rest keys :=
      ih fun b hb => ha b (by simp [hb])
    cases a <;> simp only [runActions, hfirst, hrest]

theorem applyModifiers_congr (hagree : g.AgreeOn S h) (calls : List ModifierCall) (text : String) :
    (applyModifiers g calls text : Expansion σ String) = applyModifiers h calls text := by
  induction calls generalizing text with
  | nil => rfl
  | cons call rest ih => simp only [applyModifiers, hagree.modifiers, ih]

variable [ChoiceSource σ]

theorem select_congr (hagree : g.AgreeOn S h) {symbol : String} (hsymbol : S symbol) :
    (select g symbol : Expansion σ Template) = select h symbol := by
  have hsame : ∀ pushes, alternatives? g pushes symbol = alternatives? h pushes symbol := by
    intro pushes
    rw [alternatives?, alternatives?, hagree.alternatives symbol hsymbol]
  apply ext_outcome
  intro s
  rw [outcome_select, outcome_select, hsame]

/-- A symbol of the set leads to a template in the set: to one of its rule, or to pushed text. -/
theorem select_within (hagree : g.AgreeOn S h) {symbol : String} (hsymbol : S symbol) :
    Keeps (fun _ => True) (select g symbol : Expansion σ Template) (Template.Within S)
      fun _ => True := by
  refine keeps_select (fun _ _ _ => trivial) (fun _ _ _ => trivial) fun pushes ts _ hts => ?_
  exact of_mem_alternatives? hts .literal fun rule => hagree.closed symbol rule hsymbol

theorem expandSymbol_congr (hagree : g.AgreeOn S h) (hdeeper : AlikeOn S left right)
    {symbol : String} (hsymbol : S symbol) :
    expandSymbol left g symbol = expandSymbol right h symbol := by
  by_cases hblank : symbol = ""
  · rw [hblank, expandSymbol_blank, expandSymbol_blank]
  · rw [expandSymbol_named hblank, expandSymbol_named hblank, ← select_congr hagree hsymbol]
    exact bind_congr_results (select_within hagree hsymbol) hdeeper

theorem expandTag_congr (hagree : g.AgreeOn S h) (hdeeper : AlikeOn S left right) {tag : Tag}
    (hsymbol : S tag.symbol) (hrules : ∀ a ∈ tag.actions, ∀ r ∈ a.rules, r.Within S) :
    expandTag left g tag = expandTag right h tag := by
  simp only [expandTag, runActions_congr hdeeper hrules, expandSymbol_congr hagree hdeeper hsymbol,
    applyModifiers_congr hagree]

theorem expandSegment_congr (hagree : g.AgreeOn S h) (hdeeper : AlikeOn S left right)
    {t : Template} {segment : Segment} (ht : t.Within S) (hs : segment ∈ t.segments) :
    expandSegment left g segment = expandSegment right h segment := by
  cases segment with
  | literal text => rfl
  | tag tag =>
    have hrules : ∀ a ∈ tag.actions, ∀ r ∈ a.rules, r.Within S :=
      fun a ha => ht.rules (Template.mem_actions.mpr (.inr ⟨tag, hs, ha⟩))
    exact expandTag_congr hagree hdeeper (ht.symbol hs) hrules
  | action a =>
    have hrules := ht.rules (Template.mem_actions.mpr (.inl hs))
    rw [expandSegment, expandSegment, runAction_congr hdeeper hrules]

theorem expandSegments_congr (hagree : g.AgreeOn S h) (hdeeper : AlikeOn S left right)
    {t : Template} {segments : List Segment} (ht : t.Within S)
    (hs : ∀ segment ∈ segments, segment ∈ t.segments) :
    expandSegments left g segments = expandSegments right h segments := by
  induction segments with
  | nil => rfl
  | cons segment rest ih =>
    rw [expandSegments, expandSegments,
      expandSegment_congr hagree hdeeper ht (hs segment (by simp)),
      ih fun other ho => hs other (by simp [ho])]

theorem expandTemplate_congr (hagree : g.AgreeOn S h) (limit levels : Nat) :
    AlikeOn (σ := σ) S (expandTemplate g limit levels) (expandTemplate h limit levels) := by
  induction levels with
  | zero => exact fun _ _ => rfl
  | succ levels ih => exact fun t ht => expandSegments_congr hagree ih ht fun _ hs => hs

end Agree

end Expansion

namespace Grammar

variable {S : String → Prop} {g h : Grammar}

theorem AgreeOn.insertRule (hagree : g.AgreeOn S h) {name : String} {texts : List String}
    {later : Grammar} (hname : ¬ S name) (hlater : g.insertRule name texts = .ok later) :
    g.AgreeOn S later := by
  unfold Grammar.insertRule at hlater
  rw [bind_eq_ok] at hlater
  obtain ⟨alternatives, -, hlater⟩ := hlater
  cases hlater
  refine ⟨rfl, fun other hother => ?_, hagree.closed⟩
  have hne : other ≠ name := by
    rintro rfl
    exact hname hother
  rw [rule?, rule?, Table.get?_insert_of_ne _ _ hne]

theorem AgreeOn.merge (hagree : g.AgreeOn S h) {other : Grammar}
    (hother : ∀ name, S name → other.rule? name = none) : g.AgreeOn S (g.merge other) := by
  refine ⟨rfl, fun name hname => ?_, hagree.closed⟩
  have hnone : other.rules.get? name = none := hother name hname
  rw [rule?, rule?, Grammar.merge, Table.get?_override, hnone, Option.none_or]

theorem flatten_congr {σ : Type} [ChoiceSource σ] (hagree : g.AgreeOn S h) {origin : String}
    (horigin : ∀ t, Template.parse origin = .ok t → t.Within S) (source : σ) :
    g.flatten origin source = h.flatten origin source := by
  unfold flatten flattenWithin
  cases hparse : Template.parse origin with
  | error cause => rfl
  | ok t =>
    have hrun := Expansion.expandTemplate_congr (σ := σ) hagree maxDepth (maxDepth + 1) t
      (horigin t hparse)
    simp only [Expansion.run, hrun]

/-- An origin has the same text or the same failure, and leaves the same source, by all grammars
that agree on a closed set with its symbols. So rules outside the set may be inserted, replaced and
merged without any change to it. -/
theorem flatten_local {σ : Type} [ChoiceSource σ] (hagree : g.AgreeOn S h) {origin : String}
    (horigin : ∀ t, Template.parse origin = .ok t → t.Within S) (source : σ) :
    g.flatten origin source = h.flatten origin source ∧
    (∀ name texts later, ¬ S name → g.insertRule name texts = .ok later →
      later.flatten origin source = g.flatten origin source) ∧
    ∀ other : Grammar, (∀ name, S name → other.rule? name = none) →
      (g.merge other).flatten origin source = g.flatten origin source := by
  refine ⟨flatten_congr hagree horigin source, ?_, ?_⟩
  · intro name texts later hname hlater
    exact (flatten_congr (hagree.insertRule hname hlater) horigin source).symm
  · intro other hother
    exact (flatten_congr (hagree.merge hother) horigin source).symm

def welcome : Grammar where
  rules := .ofList [
    ("bye", ⟨"bye", [⟨[.literal "bye ", .tag (.bare "to")]⟩]⟩),
    ("hi", ⟨"hi", [⟨[.literal "hello ", .tag (.bare "to")]⟩]⟩)]
  modifiers := English.modifiers

def parting : Grammar where
  rules := .ofList [
    ("bye", ⟨"bye", [.literal "see you"]⟩),
    ("hi", ⟨"hi", [⟨[.literal "hello ", .tag (.bare "to")]⟩]⟩)]
  modifiers := English.modifiers

/-- The same greeting by both, although only a push says who is greeted. -/
theorem greeting_ignores_farewell :
    welcome.flatten "#[to:Al]hi#" (Script.of [0, 0]) =
        parting.flatten "#[to:Al]hi#" (Script.of [0, 0]) ∧
      (welcome.flatten "#[to:Al]hi#" (Script.of [0, 0])).1 = .ok "hello Al" := by
  let S : String → Prop := fun name => name = "hi" ∨ name = "to"
  have horigin : Template.parse "#[to:Al]hi#" =
      .ok ⟨[.tag ⟨[.push "to" [.literal "Al"]], "hi", []⟩]⟩ := by cbv
  have hagree : welcome.AgreeOn S parting := by
    refine ⟨rfl, ?_, ?_⟩
    · rintro name (rfl | rfl) <;> rfl
    · rintro name rule (rfl | rfl) hrule t ht tag htag
      · obtain rfl := Option.some_inj.mp hrule
        obtain rfl := List.mem_singleton.mp ht
        obtain rfl := List.mem_singleton.mp htag
        exact .inr rfl
      · cases hrule
  have hwithin : ∀ t, Template.parse "#[to:Al]hi#" = .ok t → t.Within S := by
    intro t ht tag htag
    rw [horigin] at ht
    obtain rfl := Except.ok.inj ht
    obtain rfl := List.mem_singleton.mp htag
    exact .inl rfl
  refine ⟨(flatten_local hagree hwithin (Script.of [0, 0])).1, ?_⟩
  rw [flatten, flattenWithin, horigin]
  rfl

end Grammar

end Announcer
