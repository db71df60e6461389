import Announcer.Template.Basic
import Mathlib.Data.List.Basic

/-! # Levels of a template

The rules of the pushes that a template makes itself are templates one level further in. What
happens at any depth of a template is an induction over these levels, and everything that walks
over templates is given here by what it does on one level.
-/
namespace Announcer

/-- The actions that a segment runs itself, those that lead a tag or a bare one. -/
def Segment.actions : Segment → List Action
  | .literal _ => []
  | .tag t => t.actions
  | .action a => [a]

def Action.rules : Action → List Template
  | .push _ rules => rules
  | .pop _ => []

namespace Template

def actions (t : Template) : List Action := t.segments.flatMap Segment.actions

/-- The templates one level further in. -/
def rules (t : Template) : List Template := t.actions.flatMap Action.rules

theorem mem_actions {t : Template} {a : Action} :
    a ∈ t.actions ↔ .action a ∈ t.segments ∨ ∃ tag, .tag tag ∈ t.segments ∧ a ∈ tag.actions := by
  simp only [actions, List.mem_flatMap]
  constructor
  · rintro ⟨s, hs, ha⟩
    cases s with
    | literal text => simp [Segment.actions] at ha
    | tag tag => exact .inr ⟨tag, hs, ha⟩
    | action b =>
      obtain rfl : a = b := by simpa [Segment.actions] using ha
      exact .inl hs
  · rintro (hs | ⟨tag, hs, ha⟩)
    · exact ⟨_, hs, by simp [Segment.actions]⟩
    · exact ⟨_, hs, ha⟩

theorem mem_rules {t r : Template} :
    r ∈ t.rules ↔ ∃ key rules, .push key rules ∈ t.actions ∧ r ∈ rules := by
  simp only [rules, List.mem_flatMap]
  constructor
  · rintro ⟨a, ha, hr⟩
    cases a with
    | push key rules => exact ⟨key, rules, ha, hr⟩
    | pop key => simp [Action.rules] at hr
  · rintro ⟨key, rules, ha, hr⟩
    exact ⟨_, ha, hr⟩

theorem sizeOf_lt_of_mem_rules {t r : Template} (h : r ∈ t.rules) : sizeOf r < sizeOf t := by
  obtain ⟨key, rules, ha, hr⟩ := mem_rules.mp h
  have hrule := List.sizeOf_lt_of_mem hr
  have hpush : sizeOf rules < sizeOf (Action.push key rules) := by
    rw [Action.push.sizeOf_spec]
    omega
  have hsegments : sizeOf t.segments < sizeOf t := by cases t; simp
  rcases mem_actions.mp ha with hs | ⟨tag, hs, hmem⟩
  · have hsegment := List.sizeOf_lt_of_mem hs
    simp only [Segment.action.sizeOf_spec] at hsegment
    omega
  · have hsegment := List.sizeOf_lt_of_mem hs
    have haction := List.sizeOf_lt_of_mem hmem
    have htag : sizeOf tag.actions < sizeOf tag := by cases tag; simp; omega
    simp only [Segment.tag.sizeOf_spec] at hsegment
    omega

/-- What holds of a template whenever it holds of its rules holds of all templates. -/
theorem levelInduction {P : Template → Prop} (step : ∀ t, (∀ r ∈ t.rules, P r) → P t)
    (t : Template) : P t :=
  step t fun r hr =>
    have := sizeOf_lt_of_mem_rules hr
    levelInduction step r
termination_by sizeOf t

end Template

/-- The tag stands in the template or, at any depth, in the rules of its pushes. -/
inductive Tag.OccursIn (tag : Tag) : Template → Prop where
  | here {t} : .tag tag ∈ t.segments → tag.OccursIn t
  | inside {t r} : r ∈ t.rules → tag.OccursIn r → tag.OccursIn t

/-- The action is run by the template or, at any depth, by the rules of its pushes. -/
inductive Action.OccursIn (a : Action) : Template → Prop where
  | here {t} : a ∈ t.actions → a.OccursIn t
  | inside {t r} : r ∈ t.rules → a.OccursIn r → a.OccursIn t

namespace Template

theorem tags_eq (t : Template) :
    t.tags = t.segments.flatMap fun s =>
      (s.actions.flatMap fun a => a.rules.flatMap tags) ++
        match s with
        | .tag tag => [tag]
        | _ => [] := by
  have haction : Action.tags = fun a => a.rules.flatMap tags := by
    funext a
    cases a with
    | push key rules => simp [Action.tags, Action.rules, tagsOfTemplates_eq]
    | pop key => simp [Action.tags, Action.rules]
  obtain ⟨segments⟩ := t
  rw [tags, tagsOfSegments_eq]
  congr 1
  funext s
  cases s with
  | literal text => simp [Segment.tags, Segment.actions]
  | tag tag =>
    obtain ⟨actions, symbol, modifiers⟩ := tag
    simp [Segment.tags, Segment.actions, tagsOfActions_eq, haction]
  | action a => simp [Segment.tags, Segment.actions, haction]

theorem pushedKeys_eq (t : Template) :
    t.pushedKeys = t.actions.flatMap fun a =>
      match a with
      | .push key rules => key :: rules.flatMap pushedKeys
      | .pop _ => [] := by
  have haction : Action.pushedKeys = fun a => match a with
      | .push key rules => key :: rules.flatMap pushedKeys
      | .pop _ => [] := by
    funext a
    cases a with
    | push key rules => simp [Action.pushedKeys, pushedKeysOfTemplates_eq]
    | pop key => simp [Action.pushedKeys]
  obtain ⟨segments⟩ := t
  rw [pushedKeys, pushedKeysOfSegments_eq, actions, List.flatMap_assoc]
  congr 1
  funext s
  cases s with
  | literal text => simp [Segment.pushedKeys, Segment.actions]
  | tag tag =>
    obtain ⟨actions, symbol, modifiers⟩ := tag
    simp [Segment.pushedKeys, Segment.actions, pushedKeysOfActions_eq, haction]
  | action a => simp [Segment.pushedKeys, Segment.actions, haction]

theorem mem_tags_iff {tag : Tag} {t : Template} : tag ∈ t.tags ↔ tag.OccursIn t := by
  induction t using levelInduction with
  | step t ih =>
    rw [tags_eq]
    simp only [List.mem_flatMap, List.mem_append]
    constructor
    · rintro ⟨s, hs, ⟨a, ha, r, hr, hmem⟩ | htag⟩
      · have hrule : r ∈ t.rules := List.mem_flatMap.mpr ⟨a, List.mem_flatMap.mpr ⟨s, hs, ha⟩, hr⟩
        exact .inside hrule ((ih r hrule).mp hmem)
      · cases s with
        | tag other =>
          obtain rfl : tag = other := by simpa using htag
          exact .here hs
        | literal text => simp at htag
        | action a => simp at htag
    · intro h
      cases h with
      | here hs => exact ⟨_, hs, .inr (by simp)⟩
      | @inside _ r hrule hin =>
        obtain ⟨a, ha, hr⟩ := List.mem_flatMap.mp hrule
        obtain ⟨s, hs, hsa⟩ := List.mem_flatMap.mp ha
        exact ⟨s, hs, .inl ⟨a, hsa, r, hr, (ih r hrule).mpr hin⟩⟩

theorem mem_pushedKeys_iff {key : String} {t : Template} :
    key ∈ t.pushedKeys ↔ ∃ rules, (Action.push key rules).OccursIn t := by
  induction t using levelInduction with
  | step t ih =>
    rw [pushedKeys_eq]
    simp only [List.mem_flatMap]
    constructor
    · rintro ⟨a, ha, hkey⟩
      cases a with
      | pop other => simp at hkey
      | push other rules =>
        rcases List.mem_cons.mp hkey with rfl | hkey
        · exact ⟨rules, .here ha⟩
        · obtain ⟨r, hr, hmem⟩ := List.mem_flatMap.mp hkey
          have hrule := mem_rules.mpr ⟨other, rules, ha, hr⟩
          obtain ⟨inner, hin⟩ := (ih r hrule).mp hmem
          exact ⟨inner, .inside hrule hin⟩
    · rintro ⟨rules, h⟩
      cases h with
      | here ha => exact ⟨_, ha, by simp⟩
      | @inside _ r hrule hin =>
        obtain ⟨other, others, ha, hr⟩ := mem_rules.mp hrule
        refine ⟨_, ha, List.mem_cons_of_mem _ (List.mem_flatMap.mpr ⟨r, hr, ?_⟩)⟩
        exact (ih r hrule).mpr ⟨rules, hin⟩

/-- What is asked of a template on every level. -/
structure Requirement where
  segments : List Segment → Prop
  tag : Tag → Prop
  action : Action → Prop

/-- A template meets a requirement when its levels all do. -/
inductive Meets (q : Requirement) : Template → Prop where
  | level {t} : q.segments t.segments → (∀ tag, .tag tag ∈ t.segments → q.tag tag) →
      (∀ a ∈ t.actions, q.action a) → (∀ r ∈ t.rules, Meets q r) → Meets q t

theorem meets_iff {q : Requirement} {t : Template} :
    t.Meets q ↔ q.segments t.segments ∧ (∀ tag, .tag tag ∈ t.segments → q.tag tag) ∧
      (∀ a ∈ t.actions, q.action a) ∧ ∀ r ∈ t.rules, r.Meets q := by
  constructor
  · rintro ⟨hs, ht, ha, hr⟩
    exact ⟨hs, ht, ha, hr⟩
  · rintro ⟨hs, ht, ha, hr⟩
    exact .level hs ht ha hr

theorem meets_literal {q : Requirement} {text : String} (h : q.segments [.literal text]) :
    (literal text).Meets q := by
  refine .level h ?_ ?_ ?_ <;> simp [literal, rules, actions, Segment.actions]

theorem meets_bare {q : Requirement} {symbol : String}
    (hs : q.segments [.tag (.bare symbol)]) (ht : q.tag (.bare symbol)) :
    Meets q ⟨[.tag (.bare symbol)]⟩ := by
  refine .level hs ?_ ?_ ?_ <;> simp [rules, actions, Segment.actions, Tag.bare]
  exact ht

theorem Meets.mono {q p : Requirement} {t : Template} (h : t.Meets q)
    (hs : ∀ segments, q.segments segments → p.segments segments)
    (ht : ∀ tag, tag.OccursIn t → q.tag tag → p.tag tag)
    (ha : ∀ a, q.action a → p.action a) : t.Meets p := by
  induction h with
  | level hsegments htags hactions _ ih =>
    refine .level (hs _ hsegments) ?_ (fun a hm => ha a (hactions a hm)) ?_
    · exact fun tag hm => ht tag (.here hm) (htags tag hm)
    · exact fun r hr => ih r hr fun tag hm => ht tag (.inside hr hm)

end Template

end Announcer
