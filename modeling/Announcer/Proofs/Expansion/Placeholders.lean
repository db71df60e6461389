import Announcer.Proofs.Chance.Script
import Announcer.Proofs.Expansion.Contract
import Announcer.Proofs.Grammar.Reached
import Announcer.Proofs.Modifier.Marks
import Mathlib

/-! # Texts without placeholders

Tags and actions are marked by `#`, `[` and `]`. A text can only get one of these from a literal, from
a parameter of a modifier or from a modifier itself. So a grammar that has none of them there gives
texts without any, however its texts are pushed, chosen again and modified.
-/
namespace Announcer

open Chance (ChoiceSource Script)

namespace Grammar

/-- No level of a template has a mark in a literal or in a parameter, and the modifiers that its
tags call bring in none. -/
def markFree (g : Grammar) : Template.Requirement where
  segments s := ∀ text, .literal text ∈ s → MarkFree text
  tag t := ∀ call ∈ t.modifiers, (∀ p ∈ call.params, MarkFree p) ∧
    ∀ modifier, g.modifiers.get? call.name = some modifier → modifier.KeepsMarkFree
  action _ := True

variable {g : Grammar}

theorem meets_markFree_literal {text : String} (h : MarkFree text) :
    (Template.literal text).Meets g.markFree := by
  refine Template.meets_literal fun other hother => ?_
  obtain rfl : other = text := by simpa using hother
  exact h

open Expansion

/-- Every frame that is in force holds texts without marks, so choosing from it again is as good as
choosing from a rule. -/
def markFreeContract (hg : g.Each fun t => t.Meets g.markFree) : Contract g where
  asks := g.markFree
  pushes := Pushes.Each fun frame => ∀ a ∈ frame, MarkFree a
  text := MarkFree
  fails _ := True
  blank := markFree_blank
  append _ _ ha hb := ha.append hb
  literal _ a hs ha := hs a ha
  modifier tag call a b htag hcall ha hb := by
    obtain ⟨hparams, hkeeps⟩ := htag call hcall
    obtain ⟨modifier, hget, rfl⟩ := Option.map_eq_some_iff.mp hb
    exact hkeeps modifier hget a call.params ha hparams
  unregistered _ _ _ _ _ _ := trivial
  push _ _ _ _ _ _ hframe hp := hp.push hframe
  pop _ _ _ hp hq := hp.pop hq
  nothingPushed _ := trivial
  undefined _ _ _ _ _ _ := trivial
  noAlternative _ _ _ _ _ _ := trivial
  alternative p tag ts _ hp _ hts := by
    intro t ht
    rcases alternatives?_eq_some hts with ⟨frame, htop, rfl⟩ | ⟨rule, hrule, rfl⟩
    · obtain ⟨a, ha, rfl⟩ := List.mem_map.mp ht
      exact meets_markFree_literal (hp.top htop a ha)
    · exact hg tag.symbol rule hrule t ht
  tooDeep _ := trivial

/-- Without marks in the literals and parameters of a grammar and an origin, and with modifiers that
bring in none, no text of the origin has one. -/
theorem flatten_markFree {σ : Type} [ChoiceSource σ] (hg : g.Each fun t => t.Meets g.markFree)
    {origin : String} (horigin : ∀ t, Template.parse origin = .ok t → t.Meets g.markFree)
    (source : σ) {text : String} (h : (g.flatten origin source).1 = .ok text) : MarkFree text := by
  obtain ⟨t, ht, hrun⟩ := flatten_eq_ok.mp (Prod.ext h rfl)
  have htext : (run g maxDepth t source).1 = .ok text := congrArg Prod.fst hrun
  exact (markFreeContract hg).run_text (horigin t ht) Pushes.each_empty htext

/-- Templates without pushes meet the requirement tag by tag. -/
theorem meets_markFree_of_no_actions {t : Template} (h : t.actions = [])
    (hliterals : ∀ text, .literal text ∈ t.segments → MarkFree text)
    (htags : ∀ tag, .tag tag ∈ t.segments → g.markFree.tag tag) : t.Meets g.markFree := by
  refine .level hliterals htags ?_ ?_
  · simp [h]
  · simp [Template.rules, h]

/-- The grammar of a party, whose host is chosen once and pushed beside another one. -/
def party : Grammar where
  rules := .ofList [
    ("name", ⟨"name", [.literal "ada", .literal "bo"]⟩),
    ("party", ⟨"party", [⟨[.tag ⟨[.push "host" [⟨[.tag ⟨[], "name", [⟨"capitalize", []⟩]⟩]⟩,
      .literal "the crew"]], "plan", []⟩]⟩]⟩),
    ("plan", ⟨"plan", [
      ⟨[.tag (.bare "host"), .literal " brings ", .tag ⟨[], "snack", [⟨"a", []⟩]⟩]⟩,
      ⟨[.tag ⟨[], "host", [⟨"replace", ["bo", "al"]⟩]⟩]⟩]⟩),
    ("snack", ⟨"snack", [.literal "apple", .literal "pie"]⟩)]
  modifiers := English.modifiers

theorem party_markFree_tag {tag : Tag}
    (h : ∀ call ∈ tag.modifiers, ∀ p ∈ call.params, MarkFree p) : party.markFree.tag tag :=
  fun call hcall => ⟨h call hcall, fun _ => English.modifiers_keepMarkFree⟩

theorem party_markFree : party.Each fun t => t.Meets party.markFree := by
  have hname : ∀ tag, .tag tag ∈ [Segment.tag ⟨[], "name", [⟨"capitalize", []⟩]⟩] →
      party.markFree.tag tag := by
    intro tag htag
    exact party_markFree_tag (by simp_all)
  intro name rule hrule t ht
  have hmem := Table.mem_of_get?_ofList hrule
  simp only [List.mem_cons, Prod.mk.injEq, List.not_mem_nil, or_false] at hmem
  rcases hmem with ⟨-, rfl⟩ | ⟨-, rfl⟩ | ⟨-, rfl⟩ | ⟨-, rfl⟩ <;>
    simp only [List.mem_cons, List.not_mem_nil, or_false] at ht
  · rcases ht with rfl | rfl <;> exact meets_markFree_literal (by simp [MarkFree, marks])
  · subst ht
    refine .level (by simp [markFree]) ?_ (fun _ _ => trivial) ?_
    · intro tag htag
      exact party_markFree_tag (by simp_all)
    · intro r hr
      simp only [Template.rules, Template.actions, Segment.actions, Action.rules,
        List.flatMap_cons, List.flatMap_nil, List.append_nil, List.mem_cons, List.not_mem_nil,
        or_false] at hr
      rcases hr with rfl | rfl
      · exact meets_markFree_of_no_actions rfl (by simp) hname
      · exact meets_markFree_literal (by simp [MarkFree, marks])
  · rcases ht with rfl | rfl
    · refine meets_markFree_of_no_actions rfl (by simp [MarkFree, marks]) fun tag htag => ?_
      simp only [List.mem_cons, Segment.tag.injEq, reduceCtorEq, List.not_mem_nil, or_false,
        false_or] at htag
      rcases htag with rfl | rfl <;> exact party_markFree_tag (by simp [Tag.bare])
    · refine meets_markFree_of_no_actions rfl (by simp) fun tag htag => party_markFree_tag ?_
      simp_all [MarkFree, marks]
  · rcases ht with rfl | rfl <;> exact meets_markFree_literal (by simp [MarkFree, marks])

/-- The host is capitalized before the push, and taken out of the frame by the plan. -/
theorem party_text_markFree :
    (party.flatten "#party#" (Script.of [0, 0, 0, 0, 0])).1 = .ok "Ada brings an apple" ∧
      MarkFree "Ada brings an apple" := by
  have hparse : Template.parse "#party#" = .ok ⟨[.tag (.bare "party")]⟩ := by cbv
  have htext : (party.flatten "#party#" (Script.of [0, 0, 0, 0, 0])).1 =
      .ok "Ada brings an apple" := by
    rw [flatten_of_parse hparse]
    rfl
  refine ⟨htext, flatten_markFree party_markFree (fun t ht => ?_) _ htext⟩
  obtain rfl := Except.ok.inj (hparse.symm.trans ht)
  exact Template.meets_bare (by simp [markFree]) (party_markFree_tag (by simp [Tag.bare]))

end Grammar

end Announcer
