import Announcer.Proofs.Expansion.Record
import Announcer.Proofs.Grammar.Reached
import Mathlib.Logic.Relation

/-! # Steps of an expansion

A recorded expansion goes from state to state by pushing, popping and choosing. What each step
keeps, every expansion keeps, however it ends. An expansion that gives a text leaves nothing out: it
expands every alternative it takes and every tag of its template.
-/
namespace Announcer

open Chance (ChoiceSource)

def Template.PushesOnly (K : String → Prop) (t : Template) : Prop :=
  ∀ key rules, (Action.push key rules).OccursIn t → K key

theorem Template.PushesOnly.rule {K : String → Prop} {t r : Template} (h : t.PushesOnly K)
    (hr : r ∈ t.rules) : r.PushesOnly K :=
  fun key rules hin => h key rules (.inside hr hin)

theorem Template.pushesOnly_of_no_actions {K : String → Prop} {t : Template}
    (h : t.actions = []) : t.PushesOnly K := by
  intro key rules hin
  cases hin with
  | here ha => simp [h] at ha
  | inside hr _ => simp [Template.rules, h] at hr

namespace Recorded

open Expansion (outcome outcome_bind outcome_bind_eq_ok outcome_pure outcome_throw alternatives?
  of_mem_alternatives? applyModifiers_pure_or_throw)

section Step

variable {σ : Type}

/-- One step of an expansion that pushes only keys in `K`. -/
inductive Step (g : Grammar) (K : String → Prop) :
    ExpansionState (Recorded σ) → ExpansionState (Recorded σ) → Prop where
  | push {s} {key : String} (frame : Frame) : K key →
      Step g K s ⟨s.pushes.push key frame, ⟨s.source.source, .push key frame :: s.events⟩⟩
  | pop {s} {key : String} {pushes : Pushes} : s.pushes.pop? key = some pushes →
      Step g K s ⟨pushes, ⟨s.source.source, .pop key :: s.events⟩⟩
  | choose {s} {symbol : String} {alternatives : List Template} {alternative : Template}
      (source : σ) : alternatives? g s.pushes symbol = some alternatives →
      alternative ∈ alternatives →
      Step g K s ⟨s.pushes, ⟨source, .choose symbol alternative :: s.events⟩⟩

abbrev Path (g : Grammar) (K : String → Prop) :
    ExpansionState (Recorded σ) → ExpansionState (Recorded σ) → Prop :=
  Relation.ReflTransGen (Step g K)

/-- The states that steps lead to from the start of an expansion, whatever is pushed. -/
def Reachable (g : Grammar) (s : ExpansionState (Recorded σ)) : Prop :=
  ∃ source, Path g (fun _ => True) (.start source) s

variable {g : Grammar} {K : String → Prop} {s t : ExpansionState (Recorded σ)}

theorem Step.events_suffix (h : Step g K s t) : s.events <:+ t.events := by
  cases h <;> exact List.suffix_cons _ _

theorem Path.events_suffix (h : Path g K s t) : s.events <:+ t.events := by
  induction h with
  | refl => exact List.suffix_rfl
  | tail _ step ih => exact ih.trans step.events_suffix

theorem Path.preserves {I : ExpansionState (Recorded σ) → Prop}
    (hstep : ∀ s t, Step g K s t → I s → I t) (h : Path g K s t) (hs : I s) : I t := by
  induction h with
  | refl => exact hs
  | tail _ step ih => exact hstep _ _ step ih

theorem Step.keys (h : Step g K s t) (hs : ∀ key, s.pushes.get? key ≠ none → K key) :
    ∀ key, t.pushes.get? key ≠ none → K key := by
  intro other hother
  cases h with
  | @push key frame hkey =>
    rw [Pushes.get?_push] at hother
    by_cases heq : other = key
    · exact heq ▸ hkey
    · rw [if_neg heq] at hother
      exact hs other hother
  | @pop key pushes hpop =>
    obtain ⟨frames, hframes, hget⟩ := Pushes.get?_of_pop hpop
    by_cases heq : other = key
    · exact hs other (by simp [heq, hframes])
    · rw [hget, if_neg heq] at hother
      exact hs other hother
  | choose => exact hs other hother

theorem Step.pushed (h : Step g K s t) (hs : ∀ key frame, .push key frame ∈ s.events → K key) :
    ∀ key frame, .push key frame ∈ t.events → K key := by
  intro key frame hmem
  cases h with
  | push _ hkey =>
    rcases List.mem_cons.mp hmem with heq | hold
    · cases heq
      exact hkey
    · exact hs key frame hold
  | pop => exact hs key frame (by simpa [ExpansionState.events] using hmem)
  | choose => exact hs key frame (by simpa [ExpansionState.events] using hmem)

end Step

section Moves

variable {σ α β : Type} [ChoiceSource σ] {g : Grammar} {limit : Nat} {K : String → Prop}

/-- From `s` to `t`, an alternative was only taken to be expanded to a text. -/
def Completes (g : Grammar) (limit : Nat) (K : String → Prop)
    (s t : ExpansionState (Recorded σ)) : Prop :=
  ∀ symbol alternative, .choose symbol alternative ∈ t.events →
    .choose symbol alternative ∈ s.events ∨
      ∃ levels text v w, Path g K s v ∧
        outcome (expandTemplate g limit levels alternative) v = (.ok text, w)

/-- The expansion goes step by step, and expands what it chooses when it gives a result. -/
structure Moves (g : Grammar) (limit : Nat) (K : String → Prop)
    (m : Expansion (Recorded σ) α) : Prop where
  path : ∀ s, Path g K s (outcome m s).2
  completes : ∀ s a t, outcome m s = (.ok a, t) → Completes g limit K s t

theorem Moves.of_ok {m : Expansion (Recorded σ) α} (h : Moves g limit K m)
    {s t : ExpansionState (Recorded σ)} {a : α} (hm : outcome m s = (.ok a, t)) :
    Path g K s t := by
  have hpath := h.path s
  rwa [hm] at hpath

theorem completes_of_events {s t : ExpansionState (Recorded σ)}
    (h : ∀ symbol alternative, .choose symbol alternative ∈ t.events →
      .choose symbol alternative ∈ s.events) : Completes g limit K s t :=
  fun symbol alternative hmem => .inl (h symbol alternative hmem)

theorem Completes.trans {s t u : ExpansionState (Recorded σ)} (h : Completes g limit K s t)
    (hpath : Path g K s t) (h' : Completes g limit K t u) : Completes g limit K s u := by
  intro symbol alternative hu
  rcases h' symbol alternative hu with ht | ⟨levels, text, v, w, hv, hw⟩
  · exact h symbol alternative ht
  · exact .inr ⟨levels, text, v, w, hpath.trans hv, hw⟩

theorem moves_pure (a : α) : Moves g limit K (pure a : Expansion (Recorded σ) α) where
  path _ := .refl
  completes s b t h := by
    cases h
    exact completes_of_events fun _ _ hmem => hmem

theorem moves_throw (e : ExpansionError) :
    Moves g limit K (throw e : Expansion (Recorded σ) α) where
  path _ := .refl
  completes s b t h := by cases h

theorem Moves.bind {m : Expansion (Recorded σ) α} {f : α → Expansion (Recorded σ) β}
    (hm : Moves g limit K m) (hf : ∀ a, Moves g limit K (f a)) : Moves g limit K (m >>= f) where
  path s := by
    have hfirst := hm.path s
    rw [outcome_bind]
    cases hend : outcome m s with
    | mk result t =>
      rw [hend] at hfirst
      cases result with
      | ok a => exact hfirst.trans ((hf a).path t)
      | error e => exact hfirst
  completes s b u h := by
    obtain ⟨a, t, hfirst, hlast⟩ := outcome_bind_eq_ok.mp h
    exact (hm.completes s a t hfirst).trans (hm.of_ok hfirst) ((hf a).completes t b u hlast)

theorem moves_mapM {f : α → Expansion (Recorded σ) β} {xs : List α}
    (h : ∀ x ∈ xs, Moves g limit K (f x)) : Moves g limit K (xs.mapM f) := by
  induction xs with
  | nil => exact moves_pure []
  | cons x rest ih =>
    rw [List.mapM_cons]
    apply Moves.bind (h x (by simp))
    intro y
    apply Moves.bind (ih fun z hz => h z (by simp [hz]))
    intro ys
    exact moves_pure (y :: ys)

theorem moves_push {key : String} (frame : Frame) (hkey : K key) :
    Moves g limit K (push key frame : Expansion (Recorded σ) Nat) where
  path s := by
    rw [outcome_push]
    exact .single (.push frame hkey)
  completes s a t h := by
    cases h
    exact completes_of_events fun _ _ hmem => by simpa [ExpansionState.events] using hmem

theorem moves_pop (key : String) : Moves g limit K (pop key : Expansion (Recorded σ) Unit) where
  path s := by
    rw [outcome_pop]
    cases hq : s.pushes.pop? key with
    | none => exact .refl
    | some pushes => exact .single (.pop hq)
  completes s a t h := by
    obtain ⟨pushes, -, rfl⟩ := outcome_pop_eq_ok h
    exact completes_of_events fun _ _ hmem => by simpa [ExpansionState.events] using hmem

theorem path_select (symbol : String) (s : ExpansionState (Recorded σ)) :
    Path g K s (outcome (select g symbol) s).2 := by
  cases hend : outcome (select g symbol) s with
  | mk result t =>
    cases result with
    | ok alternative =>
      obtain ⟨alternatives, source, hts, hmem, rfl⟩ := outcome_select_eq_ok hend
      exact .single (.choose source hts hmem)
    | error e =>
      obtain ⟨rfl, -⟩ := outcome_select_eq_error hend
      exact .refl

theorem moves_applyModifiers (calls : List ModifierCall) (text : String) :
    Moves g limit K (Expansion.applyModifiers g calls text : Expansion (Recorded σ) String) := by
  rcases applyModifiers_pure_or_throw g calls text with ⟨changed, -, heq⟩ | ⟨call, -, -, heq⟩
  · rw [heq]
    exact moves_pure changed
  · rw [heq]
    exact moves_throw _

theorem moves_popAll (own : List MadePush) :
    Moves g limit K (popAll own : Expansion (Recorded σ) Unit) := by
  induction own with
  | nil => exact moves_pure ()
  | cons made rest ih => exact (moves_pop made.key).bind fun _ => ih

/-- What is known of the templates one level further in. -/
def DeeperMoves (g : Grammar) (limit : Nat) (K : String → Prop)
    (deeper : Template → Expansion (Recorded σ) String) : Prop :=
  ∀ t, t.PushesOnly K → Moves g limit K (deeper t)

section Deeper

variable {deeper : Template → Expansion (Recorded σ) String} (hdeeper : DeeperMoves g limit K deeper)

include hdeeper

theorem moves_runAction {t : Template} {a : Action} (ht : t.PushesOnly K) (ha : a ∈ t.actions) :
    Moves g limit K (runAction deeper a) := by
  cases a with
  | push key rules =>
    have hrules : ∀ r ∈ rules, Moves g limit K (deeper r) := fun r hr =>
      hdeeper r (ht.rule (Template.mem_rules.mpr ⟨key, rules, ha, hr⟩))
    apply Moves.bind (moves_mapM hrules)
    intro frame
    exact (moves_push frame (ht key rules (.here ha))).bind fun _ => moves_pure _
  | pop key => exact (moves_pop key).bind fun _ => moves_pure _

theorem moves_tagActions {t : Template} {tag : Tag} (ht : t.PushesOnly K)
    (htag : .tag tag ∈ t.segments) : ∀ a ∈ tag.actions, Moves g limit K (runAction deeper a) :=
  fun _ ha => moves_runAction hdeeper ht (Template.mem_actions.mpr (.inr ⟨tag, htag, ha⟩))

end Deeper

theorem moves_runActions {deeper : Template → Expansion (Recorded σ) String}
    {actions : List Action} (h : ∀ a ∈ actions, Moves g limit K (runAction deeper a))
    (own : List MadePush) : Moves g limit K (runActions deeper actions own) := by
  induction actions generalizing own with
  | nil => exact moves_pure own
  | cons a rest ih =>
    apply Moves.bind (h a (by simp))
    intro made
    exact ih (fun b hb => h b (by simp [hb])) (made ++ own)

theorem pushesOnly_of_alternatives? (hg : g.Each (Template.PushesOnly K)) {p : Pushes}
    {symbol : String} {alternatives : List Template} {alternative : Template}
    (h : alternatives? g p symbol = some alternatives) (hmem : alternative ∈ alternatives) :
    alternative.PushesOnly K :=
  of_mem_alternatives? h (fun _ => Template.pushesOnly_of_no_actions rfl) (hg symbol)
    alternative hmem

section Levels

variable {levels : Nat} (hg : g.Each (Template.PushesOnly K))
  (hdeeper : DeeperMoves (σ := σ) g limit K (expandTemplate g limit levels))

include hg hdeeper

theorem moves_expandSymbol (symbol : String) :
    Moves (σ := σ) g limit K (expandSymbol (expandTemplate g limit levels) g symbol) := by
  by_cases hblank : symbol = ""
  · rw [hblank, expandSymbol_blank]
    exact moves_pure ""
  rw [expandSymbol_named hblank]
  refine ⟨fun s => ?_, fun s text u h => ?_⟩
  · have hfirst := path_select (g := g) (K := K) symbol s
    rw [outcome_bind]
    cases hend : outcome (select g symbol) s with
    | mk result t =>
      rw [hend] at hfirst
      cases result with
      | error e => exact hfirst
      | ok alternative =>
        obtain ⟨alternatives, source, hts, hmem, -⟩ := outcome_select_eq_ok hend
        exact hfirst.trans ((hdeeper _ (pushesOnly_of_alternatives? hg hts hmem)).path t)
  · obtain ⟨alternative, t, hselect, hlast⟩ := outcome_bind_eq_ok.mp h
    obtain ⟨alternatives, source, hts, hmem, ht⟩ := outcome_select_eq_ok hselect
    have hstep : Path g K s t := by
      rw [ht]
      exact .single (.choose source hts hmem)
    have hdone := (hdeeper _ (pushesOnly_of_alternatives? hg hts hmem)).completes t text u hlast
    refine Completes.trans (fun other taken hevent => ?_) hstep hdone
    -- the only event of the choice is fulfilled by what follows it
    subst ht
    rcases List.mem_cons.mp hevent with heq | hold
    · cases heq
      exact .inr ⟨levels, text, _, u, hstep, hlast⟩
    · exact .inl hold

theorem moves_openTag {t : Template} {tag : Tag} (ht : t.PushesOnly K)
    (htag : .tag tag ∈ t.segments) :
    Moves (σ := σ) g limit K (openTag (expandTemplate g limit levels) g tag) := by
  apply Moves.bind (moves_runActions (moves_tagActions hdeeper ht htag) [])
  intro own
  apply Moves.bind (moves_expandSymbol hg hdeeper tag.symbol)
  intro text
  exact (moves_applyModifiers tag.modifiers text).bind fun _ => moves_pure _

theorem moves_expandTag {t : Template} {tag : Tag} (ht : t.PushesOnly K)
    (htag : .tag tag ∈ t.segments) :
    Moves (σ := σ) g limit K (expandTag (expandTemplate g limit levels) g tag) := by
  apply Moves.bind (moves_openTag hg hdeeper ht htag)
  intro opened
  exact (moves_popAll opened.1).bind fun _ => moves_pure opened.2

theorem moves_expandSegment {t : Template} {segment : Segment} (ht : t.PushesOnly K)
    (hs : segment ∈ t.segments) :
    Moves (σ := σ) g limit K (expandSegment (expandTemplate g limit levels) g segment) := by
  cases segment with
  | literal text => exact moves_pure text
  | tag tag => exact moves_expandTag hg hdeeper ht hs
  | action a =>
    have ha : a ∈ t.actions := Template.mem_actions.mpr (.inl hs)
    exact (moves_runAction hdeeper ht ha).bind fun _ => moves_pure ""

theorem moves_expandSegments {t : Template} {segments : List Segment} (ht : t.PushesOnly K)
    (hs : ∀ segment ∈ segments, segment ∈ t.segments) :
    Moves (σ := σ) g limit K (expandSegments (expandTemplate g limit levels) g segments) := by
  induction segments with
  | nil => exact moves_pure ""
  | cons segment rest ih =>
    apply Moves.bind (moves_expandSegment hg hdeeper ht (hs segment (by simp)))
    intro text
    apply Moves.bind (ih fun other ho => hs other (by simp [ho]))
    intro more
    exact moves_pure (text ++ more)

end Levels

theorem moves_expandTemplate (hg : g.Each (Template.PushesOnly K)) (limit levels : Nat) :
    DeeperMoves (σ := σ) g limit K (expandTemplate g limit levels) := by
  induction levels with
  | zero => exact fun _ _ => moves_throw _
  | succ levels ih => exact fun t ht => moves_expandSegments hg ih ht fun _ h => h

end Moves

section Visits

variable {σ α β : Type} {g : Grammar} {limit : Nat} {K : String → Prop}
  {s t u v : ExpansionState (Recorded σ)}

/-- On the way from `s` to `t` the expansion is run and gives a result. -/
def Visits (g : Grammar) (K : String → Prop) (m : Expansion (Recorded σ) α)
    (s t : ExpansionState (Recorded σ)) : Prop :=
  ∃ v a w, Path g K s v ∧ outcome m v = (.ok a, w) ∧ Path g K w t

theorem visits_self {m : Expansion (Recorded σ) α} {a : α} (h : outcome m s = (.ok a, t)) :
    Visits g K m s t := ⟨s, a, t, .refl, h, .refl⟩

theorem Visits.widen {m : Expansion (Recorded σ) α} (h : Visits g K m t u) (hs : Path g K s t)
    (hv : Path g K u v) : Visits g K m s v := by
  obtain ⟨w, a, x, hw, hm, hx⟩ := h
  exact ⟨w, a, x, hs.trans hw, hm, hx.trans hv⟩

theorem Visits.inside {m : Expansion (Recorded σ) α} {n : Expansion (Recorded σ) β}
    (h : Visits g K m s t) (hin : ∀ v a w, outcome m v = (.ok a, w) → Visits g K n v w) :
    Visits g K n s t := by
  obtain ⟨v, a, w, hv, hm, hw⟩ := h
  exact (hin v a w hm).widen hv hw

variable [ChoiceSource σ]

theorem visits_mapM {f : α → Expansion (Recorded σ) β} {xs : List α} {ys : List β}
    (hf : ∀ x ∈ xs, Moves g limit K (f x)) (h : outcome (xs.mapM f) s = (.ok ys, t)) {x : α}
    (hx : x ∈ xs) : Visits g K (f x) s t := by
  induction xs generalizing s ys with
  | nil => simp at hx
  | cons first rest ih =>
    have hrest : ∀ z ∈ rest, Moves g limit K (f z) := fun z hz => hf z (by simp [hz])
    rw [List.mapM_cons] at h
    obtain ⟨y, u, hfirst, h⟩ := outcome_bind_eq_ok.mp h
    obtain ⟨tail, w, htail, h⟩ := outcome_bind_eq_ok.mp h
    cases h
    rcases List.mem_cons.mp hx with rfl | hx
    · exact (visits_self hfirst).widen .refl ((moves_mapM hrest).of_ok htail)
    · exact (ih hrest htail hx).widen ((hf first (by simp)).of_ok hfirst) .refl

theorem visits_runActions {deeper : Template → Expansion (Recorded σ) String}
    {actions : List Action} {own made : List MadePush}
    (hactions : ∀ a ∈ actions, Moves g limit K (runAction deeper a))
    (h : outcome (runActions deeper actions own) s = (.ok made, t)) {a : Action}
    (ha : a ∈ actions) : Visits g K (runAction deeper a) s t := by
  induction actions generalizing s own with
  | nil => simp at ha
  | cons first rest ih =>
    have hrest : ∀ b ∈ rest, Moves g limit K (runAction deeper b) :=
      fun b hb => hactions b (by simp [hb])
    obtain ⟨new, u, hfirst, hlast⟩ := outcome_bind_eq_ok.mp h
    rcases List.mem_cons.mp ha with rfl | ha
    · have hlater := (moves_runActions hrest (new ++ own)).of_ok hlast
      exact (visits_self hfirst).widen .refl hlater
    · exact (ih hrest hlast ha).widen ((hactions first (by simp)).of_ok hfirst) .refl

/-- A tag that gives a text ran its actions, expanded its symbol and took its pushes back. -/
theorem expandTag_eq_ok {tag : Tag} {levels : Nat} {text : String}
    (h : outcome (expandTag (expandTemplate g limit levels) g tag) s = (.ok text, t)) :
    (∀ call ∈ tag.modifiers, g.modifiers.contains call.name = true) ∧
      ∃ own v inner w, outcome (runActions (expandTemplate g limit levels) tag.actions []) s =
          (.ok own, v) ∧
        outcome (expandSymbol (expandTemplate g limit levels) g tag.symbol) v = (.ok inner, w) ∧
        outcome (popAll own) w = (.ok (), t) := by
  obtain ⟨opened, x, hopen, h⟩ := outcome_bind_eq_ok.mp h
  obtain ⟨own, v, hactions, hopen⟩ := outcome_bind_eq_ok.mp hopen
  obtain ⟨inner, w, hsymbol, hopen⟩ := outcome_bind_eq_ok.mp hopen
  obtain ⟨changed, y, hmodifiers, hopen⟩ := outcome_bind_eq_ok.mp hopen
  cases hopen
  obtain ⟨_, z, hpops, h⟩ := outcome_bind_eq_ok.mp h
  cases h
  obtain ⟨rfl, hregistered⟩ := applyModifiers_eq_ok hmodifiers
  exact ⟨hregistered, own, v, inner, _, hactions, hsymbol, hpops⟩

variable {levels : Nat} (hg : g.Each (Template.PushesOnly K))

include hg

theorem visits_expandSegments {r : Template} {segments : List Segment} {text : String}
    (hr : r.PushesOnly K) (hsegments : ∀ segment ∈ segments, segment ∈ r.segments)
    (h : outcome (expandSegments (expandTemplate g limit levels) g segments) s = (.ok text, t))
    {segment : Segment} (hs : segment ∈ segments) :
    Visits g K (expandSegment (expandTemplate g limit levels) g segment) s t := by
  have hdeeper := moves_expandTemplate (σ := σ) hg limit levels
  induction segments generalizing s text with
  | nil => simp at hs
  | cons first rest ih =>
    have hrest : ∀ other ∈ rest, other ∈ r.segments := fun other ho => hsegments other (by simp [ho])
    obtain ⟨head, u, hfirst, h⟩ := outcome_bind_eq_ok.mp h
    obtain ⟨more, w, hlast, h⟩ := outcome_bind_eq_ok.mp h
    cases h
    rcases List.mem_cons.mp hs with rfl | hs
    · have hlater := (moves_expandSegments hg hdeeper hr hrest).of_ok hlast
      exact (visits_self hfirst).widen .refl hlater
    · have hbefore := (moves_expandSegment hg hdeeper hr (hsegments first (by simp))).of_ok hfirst
      exact (ih hrest hlast hs).widen hbefore .refl

variable {r : Template} (hr : r.PushesOnly K) {text : String}

include hr

theorem visits_segment (h : outcome (expandTemplate g limit (levels + 1) r) s = (.ok text, t))
    {segment : Segment} (hs : segment ∈ r.segments) :
    Visits g K (expandSegment (expandTemplate g limit levels) g segment) s t :=
  visits_expandSegments hg hr (fun _ h => h) h hs

theorem visits_action (h : outcome (expandTemplate g limit (levels + 1) r) s = (.ok text, t))
    {a : Action} (ha : a ∈ r.actions) :
    Visits g K (runAction (expandTemplate g limit levels) a) s t := by
  have hdeeper := moves_expandTemplate (σ := σ) hg limit levels
  rcases Template.mem_actions.mp ha with hs | ⟨tag, hs, htag⟩
  · apply (visits_segment hg hr h hs).inside
    intro v empty w hbare
    obtain ⟨made, x, haction, hend⟩ := outcome_bind_eq_ok.mp hbare
    cases hend
    exact visits_self haction
  · apply (visits_segment hg hr h hs).inside
    intro v changed w hexpand
    have hactions := moves_tagActions hdeeper hr hs
    obtain ⟨-, own, x, inner, y, hrun, hsymbol, hpops⟩ := expandTag_eq_ok hexpand
    have hmiddle := (moves_expandSymbol hg hdeeper tag.symbol).of_ok hsymbol
    have hend : Moves g limit K (popAll own : Expansion (Recorded σ) Unit) := moves_popAll own
    have hlater := hmiddle.trans (hend.of_ok hpops)
    exact (visits_runActions hactions hrun htag).widen .refl hlater

theorem visits_rule (h : outcome (expandTemplate g limit (levels + 1) r) s = (.ok text, t))
    {rule : Template} (hrule : rule ∈ r.rules) :
    Visits g K (expandTemplate g limit levels rule) s t := by
  have hdeeper := moves_expandTemplate (σ := σ) hg limit levels
  obtain ⟨key, rules, ha, hmem⟩ := Template.mem_rules.mp hrule
  have hrules : ∀ other ∈ rules, Moves (σ := σ) g limit K (expandTemplate g limit levels other) :=
    fun other ho => hdeeper other (hr.rule (Template.mem_rules.mpr ⟨key, rules, ha, ho⟩))
  have hkey : K key := hr key rules (.here ha)
  apply (visits_action hg hr h ha).inside
  intro v made w hpush
  obtain ⟨frame, x, hframe, hlast⟩ := outcome_bind_eq_ok.mp hpush
  have hend : Moves (σ := σ) g limit K (push key frame) := moves_push frame hkey
  exact (visits_mapM hrules hframe hmem).widen .refl ((hend.bind fun _ => moves_pure _).of_ok hlast)

/-- A template that gives a text has expanded all its tags, those in the rules of its pushes too. -/
theorem visits_tag {tag : Tag} (htag : tag.OccursIn r)
    (h : outcome (expandTemplate g limit levels r) s = (.ok text, t)) :
    ∃ fewer < levels, (∀ a ∈ tag.actions, Moves (σ := σ) g limit K
        (runAction (expandTemplate g limit fewer) a)) ∧
      Visits g K (expandTag (expandTemplate g limit fewer) g tag) s t := by
  induction htag generalizing levels s text t with
  | @here r hs =>
    cases levels with
    | zero => simp [expandTemplate] at h
    | succ levels =>
      have hdeeper := moves_expandTemplate (σ := σ) hg limit levels
      exact ⟨levels, Nat.lt_succ_self levels, moves_tagActions hdeeper hr hs,
        visits_segment hg hr h hs⟩
  | @inside r rule hrule _ ih =>
    cases levels with
    | zero => simp [expandTemplate] at h
    | succ levels =>
      obtain ⟨v, inner, w, hv, hinner, hw⟩ := visits_rule hg hr h hrule
      obtain ⟨fewer, hlt, hactions, hvisits⟩ := ih (hr.rule hrule) hinner
      exact ⟨fewer, by omega, hactions, hvisits.widen hv hw⟩

/-- Each tag of a template that gives a text found its symbol, the alternative taken gave a text,
and the modifiers are registered. -/
theorem tag_of_text {tag : Tag} (htag : tag.OccursIn r)
    (h : outcome (expandTemplate g limit levels r) s = (.ok text, t)) :
    (∀ call ∈ tag.modifiers, g.modifiers.contains call.name = true) ∧
      (tag.symbol ≠ "" → ∃ fewer < levels, ∃ v alternatives alternative, Path g K s v ∧
        alternatives? g v.pushes tag.symbol = some alternatives ∧ alternative ∈ alternatives ∧
        Visits g K (expandTemplate g limit fewer alternative) v t) := by
  obtain ⟨fewer, hlt, hactions, x, changed, y, hx, hexpand, hy⟩ := visits_tag hg hr htag h
  obtain ⟨hregistered, own, v, inner, w, hrun, hsymbol, hpops⟩ := expandTag_eq_ok hexpand
  refine ⟨hregistered, fun hnamed => ⟨fewer, hlt, v, ?_⟩⟩
  rw [expandSymbol_named hnamed] at hsymbol
  obtain ⟨alternative, z, hselect, hinner⟩ := outcome_bind_eq_ok.mp hsymbol
  obtain ⟨alternatives, source, hts, hmem, rfl⟩ := outcome_select_eq_ok hselect
  have hbefore := (moves_runActions hactions []).of_ok hrun
  have hend : Moves g limit K (popAll own : Expansion (Recorded σ) Unit) := moves_popAll own
  refine ⟨alternatives, alternative, hx.trans hbefore, hts, hmem, ?_⟩
  exact (visits_self hinner).widen (.single (.choose source hts hmem)) ((hend.of_ok hpops).trans hy)

end Visits

end Recorded

end Announcer
