import Announcer.Proofs.Expansion.ScopedPushes

/-! # Stack discipline

The stack of a key is as high as the pushes of the key exceed its pops, at every moment of an
expansion, and a key without pushes in force has no stack. Frames are never empty, because every
push that was read from a text has a rule. So an expansion fails on a pop only when there is
nothing to take back, and for want of alternatives only where no push is in force.
-/
namespace Announcer

open Chance (ChoiceSource Script)

def pushCount (key : String) (events : List Event) : Nat :=
  events.countP fun
    | .push other _ => other == key
    | _ => false

/-- The pops of a key that were made, those at the ends of tags too. -/
def popCount (key : String) (events : List Event) : Nat :=
  events.countP fun
    | .pop other => other == key
    | _ => false

section Counts

variable (key other : String) (frame : Frame) (events : List Event)

@[simp] theorem pushCount_push : pushCount key (.push other frame :: events) =
    pushCount key events + if other = key then 1 else 0 := by
  simp [pushCount, List.countP_cons]

@[simp] theorem pushCount_pop : pushCount key (.pop other :: events) = pushCount key events := rfl

@[simp] theorem popCount_push :
    popCount key (.push other frame :: events) = popCount key events := rfl

@[simp] theorem popCount_pop : popCount key (.pop other :: events) =
    popCount key events + if other = key then 1 else 0 := by
  simp [popCount, List.countP_cons]

end Counts

namespace Pushes

def frames (p : Pushes) (key : String) : List Frame := (p.get? key).getD []

variable {p q : Pushes} {key : String}

theorem frames_push (frame : Frame) (other : String) :
    (p.push key frame).frames other =
      if other = key then frame :: p.frames key else p.frames other := by
  unfold frames
  rw [get?_push]
  by_cases h : other = key
  · rw [if_pos h, if_pos h]
    rfl
  · rw [if_neg h, if_neg h]

theorem frames_pop (h : p.pop? key = some q) (other : String) :
    q.frames other = if other = key then (p.frames key).tail else p.frames other := by
  obtain ⟨held, hheld, hget⟩ := get?_of_pop h
  unfold frames
  rw [hget, hheld]
  by_cases heq : other = key
  · rw [if_pos heq, if_pos heq]
    by_cases htail : held.tail = [] <;> simp [htail]
  · rw [if_neg heq, if_neg heq]

end Pushes

namespace Recorded

open Expansion (Ends outcome outcome_pure outcome_throw alternatives? of_mem_alternatives?
  applyModifiers_pure_or_throw)
open MadePush

variable {σ : Type} {g : Grammar} {K : String → Prop} {s t : ExpansionState (Recorded σ)}

theorem Agrees.frames_eq (h : Agrees s) (key : String) :
    s.pushes.frames key = (ofKey key (inForce s.events)).map frame := by
  unfold Pushes.frames
  rw [h key]
  cases ofKey key (inForce s.events) <;> rfl

theorem Agrees.absent (h : Agrees s) {key : String} (hframes : s.pushes.frames key = []) :
    s.pushes.get? key = none := by
  rw [h.frames_eq key, List.map_eq_nil_iff] at hframes
  rw [h key, hframes]
  rfl

/-- For each key the pushes in force are what the pops have left of the pushes. -/
def Counted (s : ExpansionState (Recorded σ)) : Prop :=
  ∀ key, (s.pushes.frames key).length + popCount key s.events = pushCount key s.events

theorem Step.counted (h : Step g K s t) (hagrees : Agrees s) (hs : Counted s) : Counted t := by
  intro other
  have hother := hs other
  cases h with
  | @push key frame _ =>
    change _ + popCount other (.push key frame :: s.events) =
      pushCount other (.push key frame :: s.events)
    rw [Pushes.frames_push, popCount_push, pushCount_push]
    by_cases heq : other = key
    · subst heq
      simp only [if_true, List.length_cons]
      omega
    · simp only [heq, Ne.symm heq, if_false]
      exact hother
  | @pop key pushes hpop =>
    change _ + popCount other (.pop key :: s.events) = pushCount other (.pop key :: s.events)
    rw [Pushes.frames_pop hpop, popCount_pop, pushCount_pop]
    by_cases heq : other = key
    · subst heq
      -- a pop needs a stack, and no stack is empty
      have hheld : s.pushes.frames other ≠ [] := by
        intro hnone
        rw [Pushes.pop?_eq_none.mpr (hagrees.absent hnone)] at hpop
        cases hpop
      have hpos := List.length_pos_iff.mpr hheld
      simp only [if_true, List.length_tail]
      omega
    · simp only [heq, Ne.symm heq, if_false]
      exact hother
  | choose => exact hother

theorem counted_of_path {source : σ} (h : Path g K (.start source) s) : Agrees s ∧ Counted s :=
  h.preserves (I := fun s => Agrees s ∧ Counted s)
    (fun _ _ hstep hs => ⟨hstep.agrees hs.1, hstep.counted hs.1 hs.2⟩)
    ⟨fun _ => rfl, fun _ => rfl⟩

theorem pushed_of_inForce {events : List Event} {made : MadePush} (h : made ∈ inForce events) :
    .push made.key made.frame ∈ events := by
  induction events with
  | nil => cases h
  | cons e earlier ih =>
    cases e with
    | push key frame =>
      rcases List.mem_cons.mp h with rfl | hmem
      · exact List.mem_cons_self
      · exact List.mem_cons_of_mem _ (ih hmem)
    | pop key => exact List.mem_cons_of_mem _ (ih (List.mem_of_mem_eraseP h))
    | choose symbol alternative => exact List.mem_cons_of_mem _ (ih h)

def withRules : Template.Requirement where
  segments _ := True
  tag _ := True
  action a :=
    match a with
    | .push _ rules => rules ≠ []
    | .pop _ => True

theorem meets_withRules {r : Template} (h : r.Normal) : r.Meets withRules := by
  refine h.mono (fun _ _ => trivial) (fun _ _ _ => trivial) fun a ha => ?_
  cases a with
  | push key rules => exact ha.2
  | pop key => trivial

/-- The state in which an expansion fails shows why. -/
def Explains (g : Grammar) (s : ExpansionState (Recorded σ)) : ExpansionError → Prop
  | .ruleNotFound symbol => alternatives? g s.pushes symbol = none
  | .emptyRule symbol => alternatives? g s.pushes symbol = some []
  | .unknownModifier name => g.modifiers.contains name = false
  | .popWithoutPush key => s.pushes.get? key = none
  | .recursionLimit _ => True

def Filled (s : ExpansionState (Recorded σ)) : Prop :=
  ∀ key frame, .push key frame ∈ s.events → frame ≠ []

section Fills

variable {α β γ : Type}

/-- The expansion makes no empty push, ends with a result in `R` or in a state that explains its
failure. -/
def Fills (g : Grammar) (m : Expansion (Recorded σ) α) (R : α → Prop) : Prop :=
  ∀ s, Filled s → Ends m s (fun a t => R a ∧ Filled t) fun e t => Explains g t e ∧ Filled t

theorem fills_pure {a : α} {R : α → Prop} (h : R a) :
    Fills g (pure a : Expansion (Recorded σ) α) R := fun _ hs => ⟨h, hs⟩

theorem Fills.bind {m : Expansion (Recorded σ) α} {f : α → Expansion (Recorded σ) β}
    {R : α → Prop} {T : β → Prop} (hm : Fills g m R) (hf : ∀ a, R a → Fills g (f a) T) :
    Fills g (m >>= f) T :=
  fun s hs => (hm s hs).bind fun a t h => hf a h.1 t h.2

theorem fills_mapM {f : γ → Expansion (Recorded σ) β} {xs : List γ}
    (h : ∀ x ∈ xs, Fills g (f x) fun _ => True) :
    Fills g (xs.mapM f) fun ys => ys.length = xs.length := by
  induction xs with
  | nil => exact fills_pure rfl
  | cons x rest ih =>
    rw [List.mapM_cons]
    apply Fills.bind (h x (by simp))
    intro y _
    apply Fills.bind (ih fun z hz => h z (by simp [hz]))
    intro ys hlength
    exact fills_pure (by simp [hlength])

theorem fills_push {key : String} {frame : Frame} (h : frame ≠ []) :
    Fills g (push key frame : Expansion (Recorded σ) Nat) fun _ => True := by
  intro s hs
  rw [Ends, outcome_push]
  refine ⟨trivial, fun other made hmem => ?_⟩
  rcases List.mem_cons.mp hmem with heq | hold
  · cases heq
    exact h
  · exact hs other made hold

theorem fills_pop (key : String) :
    Fills g (pop key : Expansion (Recorded σ) Unit) fun _ => True := by
  intro s hs
  rw [Ends, outcome_pop]
  cases hpop : s.pushes.pop? key with
  | none => exact ⟨Pushes.pop?_eq_none.mp hpop, hs⟩
  | some pushes =>
    exact ⟨trivial, fun other made hmem => hs other made (by simpa [ExpansionState.events] using hmem)⟩

theorem fills_applyModifiers (calls : List ModifierCall) (text : String) :
    Fills g (Expansion.applyModifiers g calls text : Expansion (Recorded σ) String)
      fun _ => True := by
  rcases applyModifiers_pure_or_throw g calls text with ⟨changed, -, heq⟩ | ⟨call, -, hunknown, heq⟩
  · rw [heq]
    exact fills_pure trivial
  · rw [heq]
    exact fun s hs => ⟨hunknown, hs⟩

theorem fills_popAll (own : List MadePush) :
    Fills g (popAll own : Expansion (Recorded σ) Unit) fun _ => True := by
  induction own with
  | nil => exact fills_pure trivial
  | cons made rest ih => exact (fills_pop made.key).bind fun _ _ => ih

section Deeper

variable {deeper : Template → Expansion (Recorded σ) String}
  (hdeeper : ∀ r : Template, r.Meets withRules → Fills g (deeper r) fun _ => True)

include hdeeper

theorem fills_runAction {r : Template} {a : Action} (hr : r.Meets withRules) (ha : a ∈ r.actions) :
    Fills g (runAction deeper a) fun _ => True := by
  obtain ⟨-, -, hactions, hrules⟩ := Template.meets_iff.mp hr
  cases a with
  | push key rules =>
    have hne : rules ≠ [] := hactions _ ha
    have hin : ∀ rule ∈ rules, rule ∈ r.rules := fun rule hrule =>
      Template.mem_rules.mpr ⟨key, rules, ha, hrule⟩
    apply Fills.bind (fills_mapM fun rule hrule => hdeeper rule (hrules rule (hin rule hrule)))
    intro frame hlength
    have hframe : frame ≠ [] := by
      rintro rfl
      exact hne (List.length_eq_zero_iff.mp hlength.symm)
    exact (fills_push hframe).bind fun _ _ => fills_pure trivial
  | pop key => exact (fills_pop key).bind fun _ _ => fills_pure trivial

theorem fills_runActions {r : Template} {actions : List Action} (hr : r.Meets withRules)
    (ha : ∀ a ∈ actions, a ∈ r.actions) (own : List MadePush) :
    Fills g (runActions deeper actions own) fun _ => True := by
  induction actions generalizing own with
  | nil => exact fills_pure trivial
  | cons a rest ih =>
    apply Fills.bind (fills_runAction hdeeper hr (ha a (by simp)))
    intro made _
    exact ih (fun b hb => ha b (by simp [hb])) (made ++ own)

variable [ChoiceSource σ] (hg : g.Each fun r => r.Meets withRules)

include hg

omit hdeeper in
theorem fills_select (symbol : String) :
    Fills g (select g symbol : Expansion (Recorded σ) Template) fun r => r.Meets withRules := by
  intro s hs
  rw [Ends]
  cases hend : outcome (select g symbol) s with
  | mk result t =>
    cases result with
    | ok alternative =>
      obtain ⟨alternatives, source, hts, hmem, rfl⟩ := outcome_select_eq_ok hend
      have hmeets := of_mem_alternatives? hts (fun _ => Template.meets_literal trivial) (hg symbol)
      refine ⟨hmeets alternative hmem, fun other made hmade => ?_⟩
      exact hs other made (by simpa [ExpansionState.events] using hmade)
    | error e =>
      obtain ⟨rfl, ⟨rfl, hts⟩ | ⟨rfl, hts⟩⟩ := outcome_select_eq_error hend
      · exact ⟨hts, hs⟩
      · exact ⟨hts, hs⟩

theorem fills_expandSymbol (symbol : String) :
    Fills g (expandSymbol deeper g symbol) fun _ => True := by
  by_cases hblank : symbol = ""
  · rw [hblank, expandSymbol_blank]
    exact fills_pure trivial
  · rw [expandSymbol_named hblank]
    exact (fills_select hg symbol).bind hdeeper

theorem fills_expandTag {r : Template} {tag : Tag} (hr : r.Meets withRules)
    (htag : .tag tag ∈ r.segments) : Fills g (expandTag deeper g tag) fun _ => True := by
  have hactions : ∀ a ∈ tag.actions, a ∈ r.actions := fun a ha =>
    Template.mem_actions.mpr (.inr ⟨tag, htag, ha⟩)
  have hopen : Fills g (openTag deeper g tag) fun _ => True := by
    apply Fills.bind (fills_runActions hdeeper hr hactions [])
    intro own _
    apply Fills.bind (fills_expandSymbol hdeeper hg tag.symbol)
    intro text _
    exact (fills_applyModifiers tag.modifiers text).bind fun _ _ => fills_pure trivial
  apply Fills.bind hopen
  intro opened _
  exact (fills_popAll opened.1).bind fun _ _ => fills_pure trivial

theorem fills_expandSegments {r : Template} {segments : List Segment} (hr : r.Meets withRules)
    (hs : ∀ segment ∈ segments, segment ∈ r.segments) :
    Fills g (expandSegments deeper g segments) fun _ => True := by
  induction segments with
  | nil => exact fills_pure trivial
  | cons segment rest ih =>
    have hin := hs segment (by simp)
    have hfirst : Fills g (expandSegment deeper g segment) fun _ => True := by
      cases segment with
      | literal text => exact fills_pure trivial
      | tag tag => exact fills_expandTag hdeeper hg hr hin
      | action a =>
        have ha : a ∈ r.actions := Template.mem_actions.mpr (.inl hin)
        exact (fills_runAction hdeeper hr ha).bind fun _ _ => fills_pure trivial
    apply Fills.bind hfirst
    intro text _
    exact (ih fun other ho => hs other (by simp [ho])).bind fun _ _ => fills_pure trivial

end Deeper

theorem fills_expandTemplate [ChoiceSource σ] (hg : g.Each fun r => r.Meets withRules)
    (limit levels : Nat) (r : Template) (hr : r.Meets withRules) :
    Fills (σ := σ) g (expandTemplate g limit levels r) fun _ => True := by
  induction levels generalizing r with
  | zero => exact fun _ hs => ⟨trivial, hs⟩
  | succ levels ih => exact fills_expandSegments ih hg hr fun _ h => h

end Fills

theorem Filled.earlier (h : Filled t) (hpath : Path g K s t) : Filled s :=
  fun key frame hmem => h key frame (hpath.events_suffix.subset hmem)

structure Disciplined (g : Grammar) (s : ExpansionState (Recorded σ)) : Prop where
  count : ∀ key,
    (s.pushes.frames key).length + popCount key s.events = pushCount key s.events
  absent : ∀ key, s.pushes.frames key = [] → s.pushes.get? key = none
  filled : ∀ key, ∀ frame ∈ s.pushes.frames key, frame ≠ []
  latest : ∀ key frame rest, s.pushes.frames key = frame :: rest →
    alternatives? g s.pushes key = some (frame.map Template.literal)
  popFails : ∀ key,
    outcome (Expansion.pop key) s.forget = (.error (.popWithoutPush key), s.forget) ↔
      pushCount key s.events = popCount key s.events
  noAlternative : ∀ symbol, alternatives? g s.pushes symbol = some [] →
    s.pushes.frames symbol = [] ∧ (g.rule? symbol).map Rule.alternatives = some []

theorem alternatives?_of_frames {p : Pushes} {key : String} :
    alternatives? g p key = match p.frames key with
      | frame :: _ => some (frame.map Template.literal)
      | [] => (g.rule? key).map Rule.alternatives := by
  unfold Expansion.alternatives? Pushes.top? Pushes.frames
  cases p.get? key with
  | none => rfl
  | some frames => cases frames <;> rfl

theorem pop_fails_iff {p : ExpansionState σ} {key : String} :
    outcome (Expansion.pop key) p = (.error (.popWithoutPush key), p) ↔
      p.pushes.get? key = none := by
  rw [Expansion.outcome_pop, ← Pushes.pop?_eq_none]
  cases p.pushes.pop? key <;> simp

theorem disciplined_of_path {source : σ} (h : Path g K (.start source) s) (hs : Filled s) :
    Disciplined g s := by
  obtain ⟨hagrees, hcount⟩ := counted_of_path h
  have hfilled : ∀ key, ∀ frame ∈ s.pushes.frames key, frame ≠ [] := by
    intro key frame hframe
    rw [hagrees.frames_eq, List.mem_map] at hframe
    obtain ⟨made, hmade, rfl⟩ := hframe
    exact hs made.key made.frame (pushed_of_inForce (mem_ofKey.mp hmade).1)
  refine ⟨hcount, fun key => hagrees.absent, hfilled, ?_, ?_, ?_⟩
  · intro key frame rest hframes
    rw [alternatives?_of_frames, hframes]
  · intro key
    have hheight := hcount key
    rw [pop_fails_iff]
    change s.pushes.get? key = none ↔ _
    constructor
    · intro hnone
      have hempty : s.pushes.frames key = [] := by rw [Pushes.frames, hnone]; rfl
      simpa [hempty, eq_comm] using hheight
    · intro heq
      exact hagrees.absent (List.length_eq_zero_iff.mp (by omega))
  · intro symbol hnothing
    rw [alternatives?_of_frames] at hnothing
    cases hframes : s.pushes.frames symbol with
    | nil => exact ⟨rfl, by rwa [hframes] at hnothing⟩
    | cons frame rest =>
      -- the latest frame would be empty
      simp only [hframes, Option.some_inj, List.map_eq_nil_iff] at hnothing
      exact absurd hnothing (hfilled symbol frame (by simp [hframes]))

end Recorded

/-- What a whole expansion begins with: an origin that was read, or the tag of a symbol. -/
inductive Template.IsRoot : Template → Prop where
  | origin {text t} : Template.parse text = .ok t → IsRoot t
  | symbol (symbol : String) : IsRoot ⟨[.tag (.bare symbol)]⟩

namespace Recorded

open Expansion (outcome alternatives?)

variable {σ : Type} {g : Grammar}

theorem withRules_of_isRoot {t : Template} (h : t.IsRoot) : t.Meets withRules := by
  cases h with
  | origin hparse => exact meets_withRules (Template.parse_normal hparse)
  | symbol symbol => exact Template.meets_bare trivial trivial

/-- In every state of a whole expansion the stack of each key is as high as its pushes exceed its
pops, a key without a stack is absent and frames have texts. The expansion fails on a pop just
where the pops of the key have come up with its pushes, and for want of alternatives only at a
symbol without pushes whose own rule has none. -/
theorem stack_discipline [ChoiceSource σ] {t : Template} {result : Except ExpansionError String}
    {final : ExpansionState (Recorded σ)} (hg : g.Reached) (ht : t.IsRoot) (source : σ)
    (h : outcome (expandTemplate g maxDepth (maxDepth + 1) t) (.start source) = (result, final)) :
    Expansion.run g maxDepth t source = (result, final.source.source) ∧
      Path g (fun _ => True) (.start source) final ∧
      (∀ s, Path g (fun _ => True) (.start source) s → Path g (fun _ => True) s final →
        Disciplined g s) ∧
      (∀ key, result = .error (.popWithoutPush key) →
        pushCount key final.events = popCount key final.events) ∧
      ∀ symbol, result = .error (.emptyRule symbol) →
        final.pushes.frames symbol = [] ∧ (g.rule? symbol).map Rule.alternatives = some [] := by
  have hrules : g.Each fun r => r.Meets withRules := fun name rule hrule r hr =>
    meets_withRules (hg.normal name rule hrule r hr)
  have hfills := fills_expandTemplate (σ := σ) hrules maxDepth (maxDepth + 1) t
    (withRules_of_isRoot ht)
  have hstart : Filled (.start source : ExpansionState (Recorded σ)) := fun _ _ hmem => by cases hmem
  have hfilled : Filled final := by
    cases result with
    | ok text => exact ((hfills _ hstart).of_ok h).2
    | error e => exact ((hfills _ hstart).of_error h).2
  have hpath : Path g (fun _ => True) (.start source) final := by
    have hmoves := (moves_freely g maxDepth (maxDepth + 1) t).path (.start source)
    rwa [h] at hmoves
  have hfinal := disciplined_of_path hpath hfilled
  refine ⟨by rw [run_eq, h], hpath, fun s hs hlater => ?_, ?_, ?_⟩
  · exact disciplined_of_path hs (hfilled.earlier hlater)
  · rintro key rfl
    have hnone : final.pushes.get? key = none := ((hfills _ hstart).of_error h).1
    exact (hfinal.popFails key).mp (pop_fails_iff.mpr hnone)
  · rintro symbol rfl
    exact hfinal.noAlternative symbol ((hfills _ hstart).of_error h).1

/-- The second pop finds nothing to take back. -/
theorem second_pop_fails :
    ∃ t final, Template.parse "[k:a][k:POP][k:POP]" = .ok t ∧
      outcome (expandTemplate .empty maxDepth (maxDepth + 1) t) (.start (Script.of [])) =
        (.error (.popWithoutPush "k"), final) ∧
      Disciplined .empty final ∧ pushCount "k" final.events = popCount "k" final.events := by
  have hparse : Template.parse "[k:a][k:POP][k:POP]" =
      .ok ⟨[.action (.push "k" [.literal "a"]), .action (.pop "k"), .action (.pop "k")]⟩ := by cbv
  refine ⟨_, _, hparse, rfl, ?_⟩
  obtain ⟨-, hpath, hstates, hpops, -⟩ :=
    stack_discipline (g := .empty) .empty (.origin hparse) (Script.of []) rfl
  exact ⟨hstates _ hpath .refl, hpops "k" rfl⟩

end Recorded

end Announcer
