import Announcer.Proofs.Expansion.Contract

/-! # Recorded expansions

The end of an expansion does not tell which pushes were made on the way and which alternatives were
taken. A recorded expansion does the same and keeps a record of it, the latest event first, and a
tag knows its own pushes and not only their keys. Without the record it is the expansion itself.
-/
namespace Announcer

open Chance (ChoiceSource)

inductive Event where
  | push (key : String) (frame : Frame)
  | pop (key : String)
  | choose (symbol : String) (alternative : Template)

structure Recorded (σ : Type) where
  source : σ
  events : List Event

/-- A push that was made. The number of events before it tells it from all others. -/
structure MadePush where
  serial : Nat
  key : String
  frame : Frame
deriving DecidableEq, Repr

namespace Recorded

variable {σ : Type}

instance [ChoiceSource σ] : ChoiceSource (Recorded σ) where
  choose n h record :=
    let (chosen, source) := ChoiceSource.choose n h record.source
    (chosen, { record with source })

def note (e : Event) : Expansion (Recorded σ) Unit :=
  modify fun state =>
    { state with source := { state.source with events := e :: state.source.events } }

def pop (key : String) : Expansion (Recorded σ) Unit := do
  Expansion.pop key
  note (.pop key)

def push (key : String) (frame : Frame) : Expansion (Recorded σ) Nat := do
  let state ← get
  Expansion.push key frame
  note (.push key frame)
  return state.source.events.length

def select [ChoiceSource σ] (g : Grammar) (symbol : String) : Expansion (Recorded σ) Template := do
  let alternative ← Expansion.select g symbol
  note (.choose symbol alternative)
  return alternative

variable (deeper : Template → Expansion (Recorded σ) String)

def runAction : Action → Expansion (Recorded σ) (List MadePush)
  | .push key rules => do
    let frame ← rules.mapM deeper
    let serial ← push key frame
    return [⟨serial, key, frame⟩]
  | .pop key => do
    pop key
    return []

/-- Runs the actions of a tag and lists the pushes they make, the last one first. -/
def runActions : List Action → List MadePush → Expansion (Recorded σ) (List MadePush)
  | [], own => pure own
  | action :: rest, own => do
    let made ← runAction deeper action
    runActions rest (made ++ own)

def popAll : List MadePush → Expansion (Recorded σ) Unit
  | [] => pure ()
  | made :: rest => do
    pop made.key
    popAll rest

variable [ChoiceSource σ]

def expandSymbol (g : Grammar) (symbol : String) : Expansion (Recorded σ) String :=
  if symbol.isEmpty then pure ""
  else do
    let alternative ← select g symbol
    deeper alternative

/-- A tag up to the end of its text, with the pushes that are still to be taken back. -/
def openTag (g : Grammar) (tag : Tag) : Expansion (Recorded σ) (List MadePush × String) := do
  let own ← runActions deeper tag.actions []
  let text ← expandSymbol deeper g tag.symbol
  let changed ← Expansion.applyModifiers g tag.modifiers text
  return (own, changed)

def expandTag (g : Grammar) (tag : Tag) : Expansion (Recorded σ) String := do
  let opened ← openTag deeper g tag
  popAll opened.1
  return opened.2

def expandSegment (g : Grammar) : Segment → Expansion (Recorded σ) String
  | .literal text => pure text
  | .tag tag => expandTag deeper g tag
  | .action action => do
    let _ ← runAction deeper action
    return ""

def expandSegments (g : Grammar) : List Segment → Expansion (Recorded σ) String
  | [] => pure ""
  | segment :: rest => do
    let text ← expandSegment deeper g segment
    let more ← expandSegments g rest
    return text ++ more

def expandTemplate (g : Grammar) (limit : Nat) : Nat → Template → Expansion (Recorded σ) String
  | 0, _ => throw (.recursionLimit limit)
  | levels + 1, template => expandSegments (expandTemplate g limit levels) g template.segments

end Recorded

namespace ExpansionState

variable {σ : Type}

def start (source : σ) : ExpansionState (Recorded σ) := ⟨.empty, ⟨source, []⟩⟩

def events (s : ExpansionState (Recorded σ)) : List Event := s.source.events

def forget (s : ExpansionState (Recorded σ)) : ExpansionState σ := ⟨s.pushes, s.source.source⟩

end ExpansionState

/-- What happens when a symbol is expanded, the latest event first. -/
def Grammar.record {σ : Type} [ChoiceSource σ] (g : Grammar) (symbol : String) (source : σ) :
    List Event :=
  (Expansion.outcome
    (Recorded.expandTemplate g maxDepth (maxDepth + 1) ⟨[.tag (.bare symbol)]⟩)
    (.start source)).2.events

namespace Recorded

open Expansion (outcome outcome_bind outcome_get outcome_pure outcome_throw alternatives?
  applyModifiers_pure_or_throw)

section Steps

variable {σ : Type} (s : ExpansionState (Recorded σ))

theorem outcome_push (key : String) (frame : Frame) :
    outcome (push key frame) s =
      (.ok s.events.length,
        ⟨s.pushes.push key frame, ⟨s.source.source, .push key frame :: s.events⟩⟩) := rfl

theorem outcome_pop (key : String) :
    outcome (pop key) s =
      match s.pushes.pop? key with
      | none => (.error (.popWithoutPush key), s)
      | some pushes => (.ok (), ⟨pushes, ⟨s.source.source, .pop key :: s.events⟩⟩) := by
  rw [pop, outcome_bind, Expansion.outcome_pop]
  cases s.pushes.pop? key <;> rfl

theorem outcome_select [ChoiceSource σ] (g : Grammar) (symbol : String) :
    outcome (select g symbol) s =
      match alternatives? g s.pushes symbol with
      | none => (.error (.ruleNotFound symbol), s)
      | some alternatives =>
        if h : 0 < alternatives.length then
          let (chosen, source) := ChoiceSource.choose alternatives.length h s.source.source
          (.ok (alternatives.get chosen),
            ⟨s.pushes, ⟨source, .choose symbol (alternatives.get chosen) :: s.events⟩⟩)
        else (.error (.emptyRule symbol), s) := by
  rw [select, outcome_bind, Expansion.outcome_select]
  cases alternatives? g s.pushes symbol with
  | none => rfl
  | some alternatives =>
    by_cases h : 0 < alternatives.length
    · simp only [h, dite_true]
      rfl
    · simp only [h, dite_false]

variable {s} {t : ExpansionState (Recorded σ)}

theorem outcome_pop_eq_ok {key : String} (h : outcome (pop key) s = (.ok (), t)) :
    ∃ pushes, s.pushes.pop? key = some pushes ∧
      t = ⟨pushes, ⟨s.source.source, .pop key :: s.events⟩⟩ := by
  rw [outcome_pop] at h
  cases hq : s.pushes.pop? key with
  | none => simp [hq] at h
  | some pushes =>
    rw [hq] at h
    cases h
    exact ⟨pushes, rfl, rfl⟩

theorem outcome_select_eq_ok [ChoiceSource σ] {g : Grammar} {symbol : String}
    {alternative : Template} (h : outcome (select g symbol) s = (.ok alternative, t)) :
    ∃ alternatives source, alternatives? g s.pushes symbol = some alternatives ∧
      alternative ∈ alternatives ∧
      t = ⟨s.pushes, ⟨source, .choose symbol alternative :: s.events⟩⟩ := by
  rw [outcome_select] at h
  cases hts : alternatives? g s.pushes symbol with
  | none => simp [hts] at h
  | some alternatives =>
    by_cases hlength : 0 < alternatives.length
    · simp only [hts, hlength, dite_true] at h
      cases h
      exact ⟨alternatives, _, rfl, List.getElem_mem _, rfl⟩
    · simp [hts, hlength] at h

theorem outcome_select_eq_error [ChoiceSource σ] {g : Grammar} {symbol : String}
    {e : ExpansionError} (h : outcome (select g symbol) s = (.error e, t)) :
    t = s ∧ (e = .ruleNotFound symbol ∧ alternatives? g s.pushes symbol = none ∨
      e = .emptyRule symbol ∧ alternatives? g s.pushes symbol = some []) := by
  rw [outcome_select] at h
  cases hts : alternatives? g s.pushes symbol with
  | none =>
    rw [hts] at h
    cases h
    exact ⟨rfl, .inl ⟨rfl, rfl⟩⟩
  | some alternatives =>
    by_cases hlength : 0 < alternatives.length
    · simp [hts, hlength] at h
    · simp only [hts, hlength, dite_false] at h
      cases h
      obtain rfl : alternatives = [] := List.length_eq_zero_iff.mp (by omega)
      exact ⟨rfl, .inr ⟨rfl, rfl⟩⟩

theorem expandSymbol_blank [ChoiceSource σ] {g : Grammar}
    {deeper : Template → Expansion (Recorded σ) String} :
    expandSymbol deeper g "" = pure "" := rfl

theorem expandSymbol_named [ChoiceSource σ] {g : Grammar}
    {deeper : Template → Expansion (Recorded σ) String} {symbol : String}
    (h : symbol ≠ "") : expandSymbol deeper g symbol = select g symbol >>= deeper := by
  rw [expandSymbol, if_neg (by simpa using h)]

theorem applyModifiers_eq_ok {g : Grammar} {calls : List ModifierCall} {text changed : String}
    (h : outcome (Expansion.applyModifiers g calls text) s = (.ok changed, t)) :
    t = s ∧ ∀ call ∈ calls, g.modifiers.contains call.name = true := by
  rcases applyModifiers_pure_or_throw g calls text with ⟨_, hregistered, heq⟩ | ⟨_, -, -, heq⟩
  · rw [heq] at h
    cases h
    exact ⟨rfl, hregistered⟩
  · rw [heq] at h
    cases h

end Steps

section Forgets

variable {σ α β γ δ : Type}

/-- The expansions fail alike, and their results and states are the same up to the record. -/
def Forgets (f : α → β) (recorded : Expansion (Recorded σ) α) (plain : Expansion σ β) : Prop :=
  ∀ s, outcome plain s.forget =
    ((outcome recorded s).1.map f, (outcome recorded s).2.forget)

theorem Forgets.of_ok {f : α → β} {m : Expansion (Recorded σ) α} {n : Expansion σ β}
    (h : Forgets f m n) {s : ExpansionState (Recorded σ)} {b : β} {e : ExpansionState σ}
    (hn : outcome n s.forget = (.ok b, e)) :
    ∃ a t, outcome m s = (.ok a, t) ∧ f a = b ∧ t.forget = e := by
  rw [h s] at hn
  cases hend : outcome m s with
  | mk result t =>
    rw [hend] at hn
    cases result with
    | ok a =>
      cases hn
      exact ⟨a, t, rfl, rfl, rfl⟩
    | error cause => cases hn

theorem forgets_pure (f : α → β) (a : α) :
    Forgets f (pure a : Expansion (Recorded σ) α) (pure (f a)) := fun _ => rfl

theorem forgets_throw (f : α → β) (e : ExpansionError) :
    Forgets f (throw e : Expansion (Recorded σ) α) (throw e) := fun _ => rfl

theorem Forgets.bind {f : α → β} {p : γ → δ} {m : Expansion (Recorded σ) α} {n : Expansion σ β}
    {k : α → Expansion (Recorded σ) γ} {l : β → Expansion σ δ} (h : Forgets f m n)
    (hk : ∀ a, Forgets p (k a) (l (f a))) : Forgets p (m >>= k) (n >>= l) := by
  intro s
  rw [outcome_bind, outcome_bind, h s]
  cases outcome m s with
  | mk result t =>
    cases result with
    | ok a => exact hk a t
    | error e => rfl

theorem forgets_mapM {deeper : γ → Expansion (Recorded σ) α} {plain : γ → Expansion σ α}
    {xs : List γ} (h : ∀ x ∈ xs, Forgets id (deeper x) (plain x)) :
    Forgets id (xs.mapM deeper) (xs.mapM plain) := by
  induction xs with
  | nil => exact forgets_pure id []
  | cons x rest ih =>
    rw [List.mapM_cons, List.mapM_cons]
    apply Forgets.bind (h x (by simp))
    intro a
    apply Forgets.bind (ih fun y hy => h y (by simp [hy]))
    intro as
    exact forgets_pure id (a :: as)

theorem forgets_push (key : String) (frame : Frame) :
    Forgets (fun _ => ()) (push key frame : Expansion (Recorded σ) Nat)
      (Expansion.push key frame) := fun _ => rfl

theorem forgets_pop (key : String) :
    Forgets id (pop key : Expansion (Recorded σ) Unit) (Expansion.pop key) := by
  intro s
  rw [outcome_pop, Expansion.outcome_pop]
  have hpushes : s.forget.pushes = s.pushes := rfl
  rw [hpushes]
  cases s.pushes.pop? key <;> rfl

theorem forgets_popAll (own : List MadePush) :
    Forgets id (popAll own : Expansion (Recorded σ) Unit)
      (Expansion.popAll (own.map MadePush.key)) := by
  induction own with
  | nil => exact forgets_pure id ()
  | cons made rest ih => exact (forgets_pop made.key).bind fun _ => ih

theorem forgets_select [ChoiceSource σ] (g : Grammar) (symbol : String) :
    Forgets id (select g symbol : Expansion (Recorded σ) Template) (Expansion.select g symbol) := by
  intro s
  rw [outcome_select, Expansion.outcome_select]
  have hpushes : s.forget.pushes = s.pushes := rfl
  rw [hpushes]
  cases alternatives? g s.pushes symbol with
  | none => rfl
  | some alternatives =>
    by_cases h : 0 < alternatives.length
    · simp only [h, dite_true]
      rfl
    · simp only [h, dite_false]
      rfl

theorem forgets_applyModifiers (g : Grammar) (calls : List ModifierCall) (text : String) :
    Forgets id (Expansion.applyModifiers g calls text : Expansion (Recorded σ) String)
      (Expansion.applyModifiers g calls text) := by
  rcases applyModifiers_pure_or_throw g calls text with ⟨changed, -, heq⟩ | ⟨call, -, -, heq⟩
  · rw [heq, heq]
    exact forgets_pure id changed
  · rw [heq, heq]
    exact forgets_throw id _

variable {deeper : Template → Expansion (Recorded σ) String} {plain : Template → Expansion σ String}
  (hdeeper : ∀ t, Forgets id (deeper t) (plain t))

include hdeeper

theorem forgets_runAction (a : Action) :
    Forgets (fun _ => ()) (runAction deeper a) (Expansion.runAction plain a) := by
  cases a with
  | push key rules =>
    apply Forgets.bind (forgets_mapM fun r _ => hdeeper r)
    intro frame
    have hpush := (forgets_push (σ := σ) key frame).bind (p := fun _ => ()) (l := pure)
      fun serial => forgets_pure _ [MadePush.mk serial key frame]
    rwa [bind_pure] at hpush
  | pop key =>
    have hpop := (forgets_pop (σ := σ) key).bind (p := fun _ => ()) (l := pure)
      fun _ => forgets_pure _ ([] : List MadePush)
    rwa [bind_pure] at hpop

theorem forgets_runActions (actions : List Action) (own : List MadePush) :
    Forgets (List.map MadePush.key) (runActions deeper actions own)
      (Expansion.runActions plain actions (own.map MadePush.key)) := by
  induction actions generalizing own with
  | nil => exact forgets_pure _ own
  | cons a rest ih =>
    cases a with
    | push key rules =>
      simp only [runActions, runAction, Expansion.runActions, Expansion.runAction, bind_assoc,
        pure_bind]
      apply Forgets.bind (forgets_mapM fun r _ => hdeeper r)
      intro frame
      apply Forgets.bind (forgets_push key frame)
      intro serial
      exact ih (⟨serial, key, frame⟩ :: own)
    | pop key =>
      simp only [runActions, runAction, Expansion.runActions, Expansion.runAction, bind_assoc,
        pure_bind]
      exact (forgets_pop key).bind fun _ => ih own

variable [ChoiceSource σ] (g : Grammar)

theorem forgets_expandSymbol (symbol : String) :
    Forgets id (expandSymbol deeper g symbol) (Expansion.expandSymbol plain g symbol) := by
  by_cases hblank : symbol.isEmpty
  · rw [expandSymbol, Expansion.expandSymbol, if_pos hblank, if_pos hblank]
    exact forgets_pure id ""
  · rw [expandSymbol, Expansion.expandSymbol, if_neg hblank, if_neg hblank]
    exact (forgets_select g symbol).bind fun t => hdeeper t

theorem forgets_expandTag (tag : Tag) :
    Forgets id (expandTag deeper g tag) (Expansion.expandTag plain g tag) := by
  simp only [expandTag, openTag, Expansion.expandTag, bind_assoc, pure_bind]
  apply Forgets.bind (forgets_runActions hdeeper tag.actions [])
  intro own
  apply Forgets.bind (forgets_expandSymbol hdeeper g tag.symbol)
  intro text
  apply Forgets.bind (forgets_applyModifiers g tag.modifiers text)
  intro changed
  exact (forgets_popAll own).bind fun _ => forgets_pure id changed

theorem forgets_expandSegment (segment : Segment) :
    Forgets id (expandSegment deeper g segment) (Expansion.expandSegment plain g segment) := by
  cases segment with
  | literal text => exact forgets_pure id text
  | tag tag => exact forgets_expandTag hdeeper g tag
  | action a => exact (forgets_runAction hdeeper a).bind fun _ => forgets_pure id ""

theorem forgets_expandSegments (segments : List Segment) :
    Forgets id (expandSegments deeper g segments) (Expansion.expandSegments plain g segments) := by
  induction segments with
  | nil => exact forgets_pure id ""
  | cons segment rest ih =>
    apply Forgets.bind (forgets_expandSegment hdeeper g segment)
    intro text
    apply Forgets.bind ih
    intro more
    exact forgets_pure id (text ++ more)

end Forgets

section Template

variable {σ : Type} [ChoiceSource σ] (g : Grammar)

theorem forgets_expandTemplate (limit levels : Nat) (t : Template) :
    Forgets (σ := σ) id (expandTemplate g limit levels t)
      (Expansion.expandTemplate g limit levels t) := by
  induction levels generalizing t with
  | zero => exact forgets_throw id _
  | succ levels ih => exact forgets_expandSegments ih g t.segments

theorem run_eq (limit : Nat) (t : Template) (source : σ) :
    Expansion.run g limit t source =
      ((outcome (expandTemplate g limit (limit + 1) t) (.start source)).1,
        (outcome (expandTemplate g limit (limit + 1) t) (.start source)).2.source.source) := by
  have hrun := forgets_expandTemplate g limit (limit + 1) t (.start source)
  have hstart : (ExpansionState.start source).forget = ⟨.empty, source⟩ := rfl
  rw [Expansion.run_eq, ← hstart, hrun]
  cases (outcome (expandTemplate g limit (limit + 1) t) (.start source)).1 <;> rfl

end Template

end Recorded

theorem Grammar.expand_eq {σ : Type} [ChoiceSource σ] (g : Grammar) (symbol : String)
    (source : σ) :
    (g.expand symbol source).1 =
      (Expansion.outcome (Recorded.expandTemplate g maxDepth (maxDepth + 1)
        ⟨[.tag (.bare symbol)]⟩) (.start source)).1 := by
  rw [Grammar.expand, Recorded.run_eq]

end Announcer
