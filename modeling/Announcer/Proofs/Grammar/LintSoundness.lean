import Announcer.Grammar.Lint
import Announcer.Proofs.Chance.Script
import Announcer.Proofs.Expansion.Contract
import Announcer.Proofs.Grammar.Reached
import Mathlib

/-! # What a clean check promises

The check looks at every tag of every alternative, and pushes have rules because their templates
were read from texts. So a grammar without problems only fails in ways that depend on the run: a
pop or a missing push, or too many levels.
-/
namespace Announcer.Grammar

open Chance (ChoiceSource Script)

def PushesKey (g : Grammar) (key : String) : Prop :=
  ∃ name rule, g.rule? name = some rule ∧
    ∃ t ∈ rule.alternatives, ∃ rules, (Action.push key rules).OccursIn t

namespace Lint

theorem mem_pushedKeys_iff {g : Grammar} {key : String} :
    key ∈ pushedKeys g ↔ g.PushesKey key := by
  simp only [pushedKeys, Table.values, List.mem_flatMap, List.mem_map]
  constructor
  · rintro ⟨rule, ⟨⟨name, _⟩, he, rfl⟩, t, ht, hkey⟩
    exact ⟨name, _, Table.get?_eq_some_iff.mpr he, t, ht, Template.mem_pushedKeys_iff.mp hkey⟩
  · rintro ⟨name, rule, hrule, t, ht, hkey⟩
    exact ⟨rule, ⟨(name, rule), Table.get?_eq_some_iff.mp hrule, rfl⟩, t, ht,
      Template.mem_pushedKeys_iff.mpr hkey⟩

def Sound (g : Grammar) (tag : Tag) : Prop :=
  (tag.symbol = "" ∨ g.rules.contains tag.symbol = true ∨ g.PushesKey tag.symbol) ∧
    ∀ call ∈ tag.modifiers, g.modifiers.contains call.name = true

theorem tagProblems_eq_nil {g : Grammar} {name : String} {tag : Tag} :
    tagProblems g (pushedKeys g) name tag = [] ↔ Sound g tag := by
  simp only [tagProblems, List.append_eq_nil_iff, List.map_eq_nil_iff, List.filter_eq_nil_iff,
    Sound]
  refine and_congr ?_ (by simp)
  constructor
  · intro h
    by_contra hunknown
    simp only [not_or] at hunknown
    obtain ⟨hsymbol, hrule, hpush⟩ := hunknown
    have hpushed : tag.symbol ∉ pushedKeys g := fun hkey => hpush (mem_pushedKeys_iff.mp hkey)
    rw [if_pos ⟨hsymbol, by simpa using hrule, hpushed⟩] at h
    cases h
  · intro h
    rw [if_neg]
    rintro ⟨hsymbol, hrule, hpush⟩
    rcases h with h | h | h
    · exact hsymbol h
    · rw [hrule] at h
      cases h
    · exact hpush (mem_pushedKeys_iff.mpr h)

theorem ruleProblems_eq_nil {g : Grammar} (h : g.lint.problems = []) {name : String} {rule : Rule}
    (hrule : g.rule? name = some rule) : ruleProblems g (pushedKeys g) name rule = [] :=
  List.flatMap_eq_nil_iff.mp h (name, rule) (Table.get?_eq_some_iff.mp hrule)

theorem rule_of_no_problems {g : Grammar} (h : g.lint.problems = []) {name : String} {rule : Rule}
    (hrule : g.rule? name = some rule) :
    rule.alternatives ≠ [] ∧
      ∀ t ∈ rule.alternatives, ∀ tag, tag.OccursIn t → Sound g tag := by
  have hnil := ruleProblems_eq_nil h hrule
  unfold ruleProblems at hnil
  split at hnil
  next => cases hnil
  next hempty =>
    refine ⟨by simpa using hempty, ?_⟩
    intro t ht tag htag
    have htags := List.flatMap_eq_nil_iff.mp (List.append_eq_nil_iff.mp hnil).1
    refine tagProblems_eq_nil.mp (htags tag ?_)
    exact List.mem_flatMap.mpr ⟨t, ht, Template.mem_tags_iff.mpr htag⟩

end Lint

section Clean

variable {g : Grammar}

def cleanTemplates (g : Grammar) : Template.Requirement where
  segments _ := True
  tag := Lint.Sound g
  action a :=
    match a with
    | .push _ rules => rules ≠ []
    | .pop _ => True

/-- The failures that a clean check leaves possible. -/
def Tolerated (g : Grammar) : ExpansionError → Prop
  | .ruleNotFound symbol => g.PushesKey symbol
  | .emptyRule _ => False
  | .unknownModifier _ => False
  | .popWithoutPush _ => True
  | .recursionLimit _ => True

theorem each_clean (hg : g.Reached) (h : g.lint.problems = []) :
    g.Each fun t => t.Meets (cleanTemplates g) := by
  intro name rule hrule t ht
  have hsound := (Lint.rule_of_no_problems h hrule).2 t ht
  refine (hg.normal name rule hrule t ht).mono (fun _ _ => trivial) (fun tag hin _ => ?_) ?_
  · exact hsound tag hin
  · intro a ha
    cases a with
    | push key rules => exact ha.2
    | pop key => trivial

open Expansion

/-- Expansions by a grammar without problems: every frame in force has a text, so no symbol that
is known lacks alternatives. -/
def cleanContract (hg : g.Reached) (h : g.lint.problems = []) : Contract g where
  asks := cleanTemplates g
  pushes := Pushes.Each fun frame => frame ≠ []
  text _ := True
  fails := Tolerated g
  blank := trivial
  append _ _ _ _ := trivial
  literal _ _ _ _ := trivial
  modifier _ _ _ _ _ _ _ _ := trivial
  unregistered tag call a htag hcall hnone := by
    have hknown := htag.2 call hcall
    simp only [ModifierTable.transform?, Option.map_eq_none_iff] at hnone
    simp [Table.contains, hnone] at hknown
  push p key rules frame hrules hlength _ hp := by
    refine hp.push ?_
    rintro rfl
    exact hrules (List.length_eq_zero_iff.mp hlength.symm)
  pop _ _ _ hp hq := hp.pop hq
  nothingPushed _ := trivial
  undefined p tag htag _ hsymbol hnone := by
    rcases htag.1 with hblank | hrule | hpush
    · exact absurd hblank hsymbol
    · rw [alternatives?_eq_none hnone] at hrule
      cases hrule
    · exact hpush
  noAlternative p tag _ hp _ hempty := by
    rcases alternatives?_eq_some hempty with ⟨frame, htop, hframe⟩ | ⟨rule, hrule, hnil⟩
    · exact hp.top htop (List.map_eq_nil_iff.mp hframe.symm)
    · exact (Lint.rule_of_no_problems h hrule).1 hnil.symm
  alternative p tag ts _ _ _ hsome :=
    of_mem_alternatives? hsome (fun _ => Template.meets_literal trivial) (each_clean hg h tag.symbol)
  tooDeep _ := trivial

end Clean

/-- A grammar about which nothing is reported fails neither on a modifier nor on a rule without
alternatives, and lacks only symbols that some push would define. -/
theorem lint_sound {g : Grammar} {σ : Type} [ChoiceSource σ] (hg : g.Reached)
    (hlint : g.lint.problems = []) {name : String} (hname : g.rules.contains name = true)
    (source : σ) :
    (∀ modifier, (g.expand name source).1 ≠ .error (.unknownModifier modifier)) ∧
      (∀ symbol, (g.expand name source).1 ≠ .error (.emptyRule symbol)) ∧
      ∀ symbol, (g.expand name source).1 = .error (.ruleNotFound symbol) →
        g.PushesKey symbol := by
  have htag : Lint.Sound g (.bare name) := ⟨.inr (.inl hname), by simp [Tag.bare]⟩
  have hfails : ∀ e, (g.expand name source).1 = .error e → Tolerated g e := fun e he =>
    (cleanContract hg hlint).run_failure (Template.meets_bare trivial htag) Pushes.each_empty he
  refine ⟨?_, ?_, ?_⟩
  · exact fun modifier he => hfails _ he
  · exact fun symbol he => hfails _ he
  · exact fun symbol he => hfails _ he

def visit : Grammar where
  rules := .ofList [
    ("origin", ⟨"origin", [
      ⟨[.tag ⟨[.push "host" [.literal "Ada"]], "host", []⟩]⟩,
      ⟨[.literal "Bye ", .tag (.bare "host")]⟩]⟩)]
  modifiers := English.modifiers

theorem visit_reached : visit.Reached := by
  have hpush : Template.parse "#[host:Ada]host#" =
      .ok ⟨[.tag ⟨[.push "host" [.literal "Ada"]], "host", []⟩]⟩ := by cbv
  have hbye : Template.parse "Bye #host#" = .ok ⟨[.literal "Bye ", .tag (.bare "host")]⟩ := by cbv
  have h : ofRules [("origin", ["#[host:Ada]host#", "Bye #host#"])] = .ok visit := by
    simp only [ofRules, insertRule, List.foldlM_cons, List.mapM_cons, hpush, hbye]
    rfl
  exact .rules h

/-- Nothing is reported, and still the second alternative lacks what only the first one pushes. -/
theorem visit_without_host : visit.lint.problems = [] ∧
    (visit.expand "origin" (Script.of [1])).1 = .error (.ruleNotFound "host") ∧
    visit.PushesKey "host" := by
  have hlint : visit.lint.problems = [] := by decide
  have hmissing : (visit.expand "origin" (Script.of [1])).1 = .error (.ruleNotFound "host") := rfl
  exact ⟨hlint, hmissing, (lint_sound visit_reached hlint (by decide) _).2.2 "host" hmissing⟩

end Announcer.Grammar
