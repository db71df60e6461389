import Announcer.Proofs.Expansion.ScopedPushes

/-! # Traversal

A template can be walked without expanding it, for the tags in it and for the keys it pushes. What
an expansion does for the template itself is kept apart here from what happens inside the
alternatives it takes: the outline of an expansion is the same expansion with a record from which
the insides of the alternatives are left out. The outline of an expansion that gives a text has
chosen the symbols of the tags in the order of the walk and has pushed the keys of the walk.
-/
namespace Announcer

open Chance (ChoiceSource Script)

def Event.symbol? : Event → Option String
  | .choose symbol _ => some symbol
  | _ => none

def Event.pushedKey? : Event → Option String
  | .push key _ => some key
  | _ => none

def chosenSymbols (events : List Event) : List String := (events.filterMap Event.symbol?).reverse

def madeKeys (events : List Event) : List String := (events.filterMap Event.pushedKey?).reverse

section Record

variable (key symbol : String) (frame : Frame) (alternative : Template) (events : List Event)

@[simp] theorem chosenSymbols_push :
    chosenSymbols (.push key frame :: events) = chosenSymbols events := rfl

@[simp] theorem chosenSymbols_pop :
    chosenSymbols (.pop key :: events) = chosenSymbols events := rfl

@[simp] theorem chosenSymbols_choose :
    chosenSymbols (.choose symbol alternative :: events) = chosenSymbols events ++ [symbol] := by
  simp [chosenSymbols, Event.symbol?]

@[simp] theorem madeKeys_push : madeKeys (.push key frame :: events) = madeKeys events ++ [key] := by
  simp [madeKeys, Event.pushedKey?]

@[simp] theorem madeKeys_pop : madeKeys (.pop key :: events) = madeKeys events := rfl

@[simp] theorem madeKeys_choose :
    madeKeys (.choose symbol alternative :: events) = madeKeys events := rfl

end Record

/-- The symbols of some tags, without those of tags that have only actions. -/
def namedSymbols (tags : List Tag) : List String := (tags.map Tag.symbol).filter (· ≠ "")

@[simp] theorem namedSymbols_append (tags more : List Tag) :
    namedSymbols (tags ++ more) = namedSymbols tags ++ namedSymbols more := by
  simp [namedSymbols]

theorem namedSymbols_flatMap {α : Type} (f : α → List Tag) (xs : List α) :
    namedSymbols (xs.flatMap f) = xs.flatMap fun x => namedSymbols (f x) := by
  induction xs with
  | nil => rfl
  | cons x rest ih => simp [ih]

namespace ExpansionState

variable {σ : Type}

def unrecorded (s : ExpansionState σ) : ExpansionState (Recorded σ) := ⟨s.pushes, ⟨s.source, []⟩⟩

end ExpansionState

namespace Recorded

open Expansion (outcome outcome_bind_eq_ok alternatives? applyModifiers_pure_or_throw)
open MadePush

variable {σ α β γ : Type}

/-- Runs an expansion and leaves what happens in it out of the record. -/
def aside (m : Expansion (Recorded σ) α) : Expansion (Recorded σ) α := do
  let before ← get
  let result ← m
  modify fun after => { after with source := { after.source with events := before.source.events } }
  return result

theorem aside_eq_ok {m : Expansion (Recorded σ) α} {s t : ExpansionState (Recorded σ)} {a : α} :
    outcome (aside m) s = (.ok a, t) ↔
      ∃ u, outcome m s = (.ok a, u) ∧ t = ⟨u.pushes, ⟨u.source.source, s.events⟩⟩ := by
  constructor
  · intro h
    obtain ⟨before, v, hget, h⟩ := outcome_bind_eq_ok.mp h
    cases hget
    obtain ⟨b, u, hm, h⟩ := outcome_bind_eq_ok.mp h
    cases h
    exact ⟨u, hm, rfl⟩
  · rintro ⟨u, hm, rfl⟩
    exact outcome_bind_eq_ok.mpr ⟨s, s, rfl, outcome_bind_eq_ok.mpr ⟨a, u, hm, rfl⟩⟩

namespace Outline

variable [ChoiceSource σ] (deeper : Template → Expansion (Recorded σ) String)

def expandSymbol (g : Grammar) (symbol : String) : Expansion (Recorded σ) String :=
  if symbol.isEmpty then pure ""
  else do
    let alternative ← select g symbol
    aside (deeper alternative)

def expandTag (g : Grammar) (tag : Tag) : Expansion (Recorded σ) String := do
  let own ← runActions deeper tag.actions []
  let text ← expandSymbol deeper g tag.symbol
  let changed ← Expansion.applyModifiers g tag.modifiers text
  popAll own
  return changed

def expandSegment (g : Grammar) : Segment → Expansion (Recorded σ) String
  | .literal text => pure text
  | .tag tag => expandTag deeper g tag
  | .action action => do
    let _ ← runAction deeper action
    return ""

def expandSegments (g : Grammar) : List Segment → Expansion (Recorded σ) String
  | [] => pure ""
  | segment :: rest => do
    let text ← expandSegment deeper g segment
    let more ← expandSegments g rest
    return text ++ more

/-- The rules of a push belong to the template, the alternatives of its symbols do not. -/
def expandTemplate (g : Grammar) (limit : Nat) : Nat → Template → Expansion (Recorded σ) String
  | 0, _ => throw (.recursionLimit limit)
  | levels + 1, template => expandSegments (expandTemplate g limit levels) g template.segments

end Outline

structure Within (s t : ExpansionState (Recorded σ)) : Prop where
  forget : s.forget = t.forget
  events : s.events.Sublist t.events

theorem Within.pushes {s t : ExpansionState (Recorded σ)} (h : Within s t) : s.pushes = t.pushes :=
  congrArg (fun u : ExpansionState σ => u.pushes) h.forget

theorem Within.source {s t : ExpansionState (Recorded σ)} (h : Within s t) :
    s.source.source = t.source.source := congrArg (fun u : ExpansionState σ => u.source) h.forget

section Follows

/-- Begun within a state, the outline ends within the state in which the whole ends, and with a
result that `R` relates to that of the whole. -/
def Follows (R : α → β → Prop) (outline : Expansion (Recorded σ) α)
    (whole : Expansion (Recorded σ) β) : Prop :=
  ∀ s t, Within s t → ∀ b v, outcome whole t = (.ok b, v) →
    ∃ a u, outcome outline s = (.ok a, u) ∧ R a b ∧ Within u v

theorem follows_pure {R : α → β → Prop} {a : α} {b : β} (h : R a b) :
    Follows R (pure a : Expansion (Recorded σ) α) (pure b) := by
  intro s t hst c v hwhole
  cases hwhole
  exact ⟨a, s, rfl, h, hst⟩

theorem Follows.bind {R : α → β → Prop} {T : γ → γ → Prop} {m : Expansion (Recorded σ) α}
    {n : Expansion (Recorded σ) β} {k : α → Expansion (Recorded σ) γ}
    {l : β → Expansion (Recorded σ) γ} (h : Follows R m n)
    (hk : ∀ a b, R a b → Follows T (k a) (l b)) : Follows T (m >>= k) (n >>= l) := by
  intro s t hst c w hwhole
  obtain ⟨b, v, hn, hl⟩ := outcome_bind_eq_ok.mp hwhole
  obtain ⟨a, u, hm, hab, huv⟩ := h s t hst b v hn
  obtain ⟨c', x, hkend, hc, hx⟩ := hk a b hab u v huv c w hl
  exact ⟨c', x, outcome_bind_eq_ok.mpr ⟨a, u, hm, hkend⟩, hc, hx⟩

theorem follows_mapM {deeper whole : γ → Expansion (Recorded σ) α} (xs : List γ)
    (h : ∀ x, Follows Eq (deeper x) (whole x)) :
    Follows Eq (xs.mapM deeper) (xs.mapM whole) := by
  induction xs with
  | nil => exact follows_pure rfl
  | cons x rest ih =>
    rw [List.mapM_cons, List.mapM_cons]
    apply (h x).bind
    rintro a _ rfl
    apply ih.bind
    rintro as _ rfl
    exact follows_pure rfl

theorem follows_push (key : String) (frame : Frame) :
    Follows (fun _ _ => True) (push key frame : Expansion (Recorded σ) Nat) (push key frame) := by
  intro s t hst serial v hwhole
  cases hwhole
  refine ⟨_, _, outcome_push s key frame, trivial, ?_, hst.events.cons_cons _⟩
  simp only [ExpansionState.forget, hst.pushes, hst.source]

theorem follows_pop (key : String) :
    Follows Eq (pop key : Expansion (Recorded σ) Unit) (pop key) := by
  intro s t hst _ v hwhole
  obtain ⟨pushes, hpop, rfl⟩ := outcome_pop_eq_ok hwhole
  refine ⟨(), ⟨pushes, ⟨s.source.source, .pop key :: s.events⟩⟩, ?_, rfl, ?_,
    hst.events.cons_cons _⟩
  · rw [outcome_pop, hst.pushes, hpop]
  · simp only [ExpansionState.forget, hst.source]

theorem follows_popAll {own made : List MadePush} (h : own.map key = made.map key) :
    Follows Eq (popAll own : Expansion (Recorded σ) Unit) (popAll made) := by
  induction own generalizing made with
  | nil =>
    obtain rfl : made = [] := List.map_eq_nil_iff.mp h.symm
    exact follows_pure rfl
  | cons first rest ih =>
    obtain ⟨other, others, rfl, hkey, hrest⟩ := List.map_eq_cons_iff.mp h.symm
    simp only [popAll, hkey]
    exact (follows_pop first.key).bind fun _ _ _ => ih hrest.symm

theorem follows_applyModifiers (g : Grammar) (calls : List ModifierCall) (text : String) :
    Follows Eq (Expansion.applyModifiers g calls text : Expansion (Recorded σ) String)
      (Expansion.applyModifiers g calls text) := by
  rcases applyModifiers_pure_or_throw g calls text with ⟨changed, -, heq⟩ | ⟨call, -, -, heq⟩
  · rw [heq]
    exact follows_pure rfl
  · intro s t _ changed v hwhole
    rw [heq] at hwhole
    cases hwhole

section Deeper

variable {deeper whole : Template → Expansion (Recorded σ) String}
  (hdeeper : ∀ r, Follows Eq (deeper r) (whole r))

include hdeeper

theorem follows_runAction (a : Action) :
    Follows (fun own made => own.map key = made.map key) (runAction deeper a)
      (runAction whole a) := by
  cases a with
  | push key rules =>
    apply (follows_mapM rules hdeeper).bind
    rintro frame _ rfl
    apply (follows_push key frame).bind
    intro serial other _
    exact follows_pure rfl
  | pop key => exact (follows_pop key).bind fun _ _ _ => follows_pure rfl

theorem follows_runActions (actions : List Action) {own made : List MadePush}
    (h : own.map key = made.map key) :
    Follows (fun own made => own.map key = made.map key) (runActions deeper actions own)
      (runActions whole actions made) := by
  induction actions generalizing own made with
  | nil => exact follows_pure h
  | cons a rest ih =>
    apply (follows_runAction hdeeper a).bind
    intro new other hnew
    exact ih (by rw [List.map_append, List.map_append, hnew, h])

omit hdeeper in
theorem follows_select [ChoiceSource σ] (g : Grammar) (symbol : String) :
    Follows Eq (select g symbol : Expansion (Recorded σ) Template) (select g symbol) := by
  intro s t hst alternative v hwhole
  rw [outcome_select] at hwhole
  rw [outcome_select, hst.pushes, hst.source]
  cases hts : alternatives? g t.pushes symbol with
  | none => simp [hts] at hwhole
  | some alternatives =>
    by_cases hlength : 0 < alternatives.length
    · simp only [hts, hlength, dite_true] at hwhole ⊢
      cases hwhole
      exact ⟨_, _, rfl, rfl, rfl, hst.events.cons_cons _⟩
    · simp [hts, hlength] at hwhole

/-- What the outline leaves out the whole has on record. -/
theorem follows_aside (hgrows : ∀ r t text v, outcome (whole r) t = (.ok text, v) →
    t.events <:+ v.events) (r : Template) : Follows Eq (aside (deeper r)) (whole r) := by
  intro s t hst text v hwhole
  obtain ⟨_, u, hinner, rfl, huv⟩ := hdeeper r s t hst text v hwhole
  refine ⟨_, _, aside_eq_ok.mpr ⟨u, hinner, rfl⟩, rfl, huv.forget, ?_⟩
  exact hst.events.trans (hgrows r t _ v hwhole).sublist

variable [ChoiceSource σ]
  (hgrows : ∀ r t text v, outcome (whole r) t = (.ok text, v) → t.events <:+ v.events)

include hgrows

theorem follows_expandSymbol (g : Grammar) (symbol : String) :
    Follows Eq (Outline.expandSymbol deeper g symbol) (expandSymbol whole g symbol) := by
  by_cases hblank : symbol.isEmpty
  · rw [Outline.expandSymbol, expandSymbol, if_pos hblank, if_pos hblank]
    exact follows_pure rfl
  · rw [Outline.expandSymbol, expandSymbol, if_neg hblank, if_neg hblank]
    apply (follows_select g symbol).bind
    rintro alternative _ rfl
    exact follows_aside hdeeper hgrows alternative

theorem follows_expandTag (g : Grammar) (tag : Tag) :
    Follows Eq (Outline.expandTag deeper g tag) (expandTag whole g tag) := by
  simp only [Outline.expandTag, expandTag, openTag, bind_assoc, pure_bind]
  apply (follows_runActions hdeeper tag.actions rfl).bind
  intro own made hkeys
  apply (follows_expandSymbol hdeeper hgrows g tag.symbol).bind
  rintro text _ rfl
  apply (follows_applyModifiers g tag.modifiers text).bind
  rintro changed _ rfl
  exact (follows_popAll hkeys).bind fun _ _ _ => follows_pure rfl

theorem follows_expandSegments (g : Grammar) (segments : List Segment) :
    Follows Eq (Outline.expandSegments deeper g segments) (expandSegments whole g segments) := by
  induction segments with
  | nil => exact follows_pure rfl
  | cons segment rest ih =>
    have hfirst : Follows Eq (Outline.expandSegment deeper g segment)
        (expandSegment whole g segment) := by
      cases segment with
      | literal text => exact follows_pure rfl
      | tag tag => exact follows_expandTag hdeeper hgrows g tag
      | action a => exact (follows_runAction hdeeper a).bind fun _ _ _ => follows_pure rfl
    apply hfirst.bind
    rintro text _ rfl
    apply ih.bind
    rintro more _ rfl
    exact follows_pure rfl

end Deeper

theorem follows_expandTemplate [ChoiceSource σ] (g : Grammar) (limit levels : Nat) (r : Template) :
    Follows (σ := σ) Eq (Outline.expandTemplate g limit levels r)
      (expandTemplate g limit levels r) := by
  induction levels generalizing r with
  | zero =>
    intro s t _ text v hwhole
    cases hwhole
  | succ levels ih =>
    apply follows_expandSegments ih
    intro other t text v hwhole
    exact ((moves_freely g limit levels other).of_ok hwhole).events_suffix

end Follows

section Notes

/-- With a result, what is added to the record are choices of some symbols in turn and, in any
order, pushes of some keys. -/
def Notes (m : Expansion (Recorded σ) α) (symbols keys : List String) : Prop :=
  ∀ s a t, outcome m s = (.ok a, t) →
    chosenSymbols t.events = chosenSymbols s.events ++ symbols ∧
      (madeKeys t.events).Perm (madeKeys s.events ++ keys)

theorem notes_of_unrecorded {m : Expansion (Recorded σ) α}
    (h : ∀ s a t, outcome m s = (.ok a, t) → t.events = s.events) : Notes m [] [] := by
  intro s a t hm
  rw [h s a t hm, List.append_nil, List.append_nil]
  exact ⟨rfl, .refl _⟩

theorem notes_pure (a : α) : Notes (pure a : Expansion (Recorded σ) α) [] [] := by
  apply notes_of_unrecorded
  intro s b t h
  cases h
  rfl

theorem Notes.bind {m : Expansion (Recorded σ) α} {f : α → Expansion (Recorded σ) β}
    {symbols keys later more : List String} (hm : Notes m symbols keys)
    (hf : ∀ a, Notes (f a) later more) : Notes (m >>= f) (symbols ++ later) (keys ++ more) := by
  intro s b u h
  obtain ⟨a, t, hfirst, hlast⟩ := outcome_bind_eq_ok.mp h
  obtain ⟨hsymbols, hkeys⟩ := hm s a t hfirst
  obtain ⟨hlater, hmore⟩ := hf a t b u hlast
  constructor
  · rw [hlater, hsymbols, List.append_assoc]
  · rw [← List.append_assoc]
    exact hmore.trans (hkeys.append_right more)

theorem Notes.quietly {m : Expansion (Recorded σ) α} {f : α → Expansion (Recorded σ) β}
    {symbols keys : List String} (hm : Notes m symbols keys) (hf : ∀ a, Notes (f a) [] []) :
    Notes (m >>= f) symbols keys := by
  have hboth := hm.bind hf
  rwa [List.append_nil, List.append_nil] at hboth

theorem Notes.perm {m : Expansion (Recorded σ) α} {symbols keys others : List String}
    (h : Notes m symbols keys) (hperm : keys.Perm others) : Notes m symbols others :=
  fun s a t hm => ⟨(h s a t hm).1, (h s a t hm).2.trans (hperm.append_left _)⟩

theorem notes_mapM {f : α → Expansion (Recorded σ) β} {symbols keys : α → List String}
    (xs : List α) (h : ∀ x, Notes (f x) (symbols x) (keys x)) :
    Notes (xs.mapM f) (xs.flatMap symbols) (xs.flatMap keys) := by
  induction xs with
  | nil => exact notes_pure []
  | cons x rest ih =>
    rw [List.mapM_cons]
    have hrest : ∀ y, Notes (do let ys ← rest.mapM f; pure (y :: ys)) (rest.flatMap symbols)
        (rest.flatMap keys) := fun y => ih.quietly fun ys => notes_pure (y :: ys)
    exact (h x).bind hrest

theorem notes_push (key : String) (frame : Frame) :
    Notes (push key frame : Expansion (Recorded σ) Nat) [] [key] := by
  intro s serial t h
  cases h
  change chosenSymbols (.push key frame :: s.events) = _ ∧
    (madeKeys (.push key frame :: s.events)).Perm _
  simp

theorem notes_pop (key : String) : Notes (pop key : Expansion (Recorded σ) Unit) [] [] := by
  intro s _ t h
  obtain ⟨pushes, -, rfl⟩ := outcome_pop_eq_ok h
  change chosenSymbols (.pop key :: s.events) = _ ∧ (madeKeys (.pop key :: s.events)).Perm _
  simp

theorem notes_popAll (own : List MadePush) :
    Notes (popAll own : Expansion (Recorded σ) Unit) [] [] := by
  induction own with
  | nil => exact notes_pure ()
  | cons made rest ih => exact (notes_pop made.key).bind fun _ => ih

theorem notes_applyModifiers (g : Grammar) (calls : List ModifierCall) (text : String) :
    Notes (Expansion.applyModifiers g calls text : Expansion (Recorded σ) String) [] [] := by
  apply notes_of_unrecorded
  intro s changed t h
  rw [(applyModifiers_eq_ok h).1]

theorem notes_aside (m : Expansion (Recorded σ) α) : Notes (aside m) [] [] := by
  apply notes_of_unrecorded
  intro s a t h
  obtain ⟨u, -, rfl⟩ := aside_eq_ok.mp h
  rfl

section Deeper

variable {deeper : Template → Expansion (Recorded σ) String}
  (hdeeper : ∀ r, Notes (deeper r) (namedSymbols r.tags) r.pushedKeys)

include hdeeper

/-- The push comes after the pushes in its rules, and before them in the walk. -/
theorem notes_runAction (a : Action) :
    Notes (runAction deeper a) (namedSymbols a.tags) a.pushedKeys := by
  cases a with
  | push key rules =>
    have hpush : ∀ frame, Notes (do
        let serial ← push key frame
        return [MadePush.mk serial key frame] : Expansion (Recorded σ) (List MadePush)) [] [key] :=
      fun frame => (notes_push key frame).bind fun _ => notes_pure _
    have haction := (notes_mapM rules hdeeper).bind hpush
    rw [List.append_nil, ← namedSymbols_flatMap, ← tagsOfTemplates_eq,
      ← pushedKeysOfTemplates_eq] at haction
    exact haction.perm (List.perm_append_singleton key _)
  | pop key => exact (notes_pop key).bind fun _ => notes_pure _

theorem notes_runActions (actions : List Action) (own : List MadePush) :
    Notes (runActions deeper actions own) (namedSymbols (tagsOfActions actions))
      (pushedKeysOfActions actions) := by
  induction actions generalizing own with
  | nil => exact notes_pure own
  | cons a rest ih =>
    rw [tagsOfActions, pushedKeysOfActions, namedSymbols_append]
    exact (notes_runAction hdeeper a).bind fun made => ih (made ++ own)

variable [ChoiceSource σ]

omit hdeeper in
theorem notes_select (g : Grammar) (symbol : String) :
    Notes (select g symbol : Expansion (Recorded σ) Template) [symbol] [] := by
  intro s alternative t h
  obtain ⟨alternatives, source, -, -, rfl⟩ := outcome_select_eq_ok h
  change chosenSymbols (.choose symbol alternative :: s.events) = _ ∧
    (madeKeys (.choose symbol alternative :: s.events)).Perm _
  simp

omit hdeeper in
/-- The symbol of a tag is all that the outline has of what the tag selects. -/
theorem notes_expandSymbol (g : Grammar) (tag : Tag) :
    Notes (Outline.expandSymbol deeper g tag.symbol) (namedSymbols [tag]) [] := by
  by_cases hblank : tag.symbol = ""
  · have hsymbols : namedSymbols [tag] = [] := by simp [namedSymbols, hblank]
    rw [hsymbols, hblank]
    exact notes_pure ""
  · have hsymbols : namedSymbols [tag] = [tag.symbol] := by simp [namedSymbols, hblank]
    rw [hsymbols, Outline.expandSymbol, if_neg (by simpa using hblank)]
    exact (notes_select g tag.symbol).bind fun alternative => notes_aside (deeper alternative)

theorem notes_expandTag (g : Grammar) (tag : Tag) :
    Notes (Outline.expandTag deeper g tag) (namedSymbols (Segment.tag tag).tags)
      (Segment.tag tag).pushedKeys := by
  obtain ⟨actions, symbol, modifiers⟩ := tag
  rw [Segment.tags, Segment.pushedKeys, namedSymbols_append]
  have hsymbol : Notes (Outline.expandSymbol deeper g symbol)
      (namedSymbols [⟨actions, symbol, modifiers⟩]) [] :=
    notes_expandSymbol g ⟨actions, symbol, modifiers⟩
  have hrest : ∀ own : List MadePush, Notes (do
      let text ← Outline.expandSymbol deeper g symbol
      let changed ← Expansion.applyModifiers g modifiers text
      popAll own
      return changed) (namedSymbols [⟨actions, symbol, modifiers⟩]) [] := by
    intro own
    apply hsymbol.quietly
    intro text
    apply (notes_applyModifiers g modifiers text).quietly
    intro changed
    exact (notes_popAll own).quietly fun _ => notes_pure changed
  have htag := (notes_runActions hdeeper actions []).bind hrest
  rwa [List.append_nil] at htag

theorem notes_expandSegments (g : Grammar) (segments : List Segment) :
    Notes (Outline.expandSegments deeper g segments) (namedSymbols (tagsOfSegments segments))
      (pushedKeysOfSegments segments) := by
  induction segments with
  | nil => exact notes_pure ""
  | cons segment rest ih =>
    have hfirst : Notes (Outline.expandSegment deeper g segment) (namedSymbols segment.tags)
        segment.pushedKeys := by
      cases segment with
      | literal text => exact notes_pure text
      | tag tag => exact notes_expandTag hdeeper g tag
      | action a =>
        exact (notes_runAction hdeeper a).quietly fun _ => notes_pure ""
    rw [tagsOfSegments, pushedKeysOfSegments, namedSymbols_append]
    apply hfirst.bind
    intro text
    exact ih.quietly fun more => notes_pure (text ++ more)

end Deeper

theorem notes_expandTemplate [ChoiceSource σ] (g : Grammar) (limit levels : Nat) (r : Template) :
    Notes (σ := σ) (Outline.expandTemplate g limit levels r) (namedSymbols r.tags)
      r.pushedKeys := by
  induction levels generalizing r with
  | zero =>
    intro s text t h
    cases h
  | succ levels ih =>
    obtain ⟨segments⟩ := r
    exact notes_expandSegments ih g segments

end Notes

/-- A template that gives a text has, in its outline, chosen exactly from the symbols of the tags of
its walk, in that order, and pushed exactly the keys of its walk. The outline is that of the
expansion: it gives the text, ends in the same state and has nothing on record that the whole
expansion has not. -/
theorem outline_matches_walk [ChoiceSource σ] {g : Grammar} {limit levels : Nat} {r : Template}
    {s e : ExpansionState σ} {text : String}
    (h : outcome (Expansion.expandTemplate g limit levels r) s = (.ok text, e)) :
    ∃ outline whole,
      outcome (Outline.expandTemplate g limit levels r) s.unrecorded = (.ok text, outline) ∧
      outcome (expandTemplate g limit levels r) s.unrecorded = (.ok text, whole) ∧
      outline.forget = e ∧ whole.forget = e ∧ outline.events.Sublist whole.events ∧
      chosenSymbols outline.events = (r.tags.map Tag.symbol).filter (· ≠ "") ∧
      (madeKeys outline.events).Perm r.pushedKeys := by
  obtain ⟨_, whole, hwhole, rfl, hforget⟩ :=
    (forgets_expandTemplate g limit levels r).of_ok (s := s.unrecorded) h
  obtain ⟨_, outline, houtline, rfl, hwithin⟩ := follows_expandTemplate g limit levels r
    s.unrecorded s.unrecorded ⟨rfl, .refl _⟩ _ whole hwhole
  obtain ⟨hsymbols, hkeys⟩ := notes_expandTemplate g limit levels r s.unrecorded _ outline houtline
  exact ⟨outline, whole, houtline, hwhole, hwithin.forget.trans hforget, hforget, hwithin.events,
    hsymbols, hkeys⟩

def moodyStory : Grammar where
  rules := .ofList [
    ("story", ⟨"story",
      [⟨[.tag ⟨[.push "mood" [⟨[.tag (.bare "pet")]⟩]], "mood", []⟩, .literal " sleeps"]⟩]⟩),
    ("animal", ⟨"animal", [⟨[.tag (.bare "kind"), .literal " cat"]⟩]⟩)]
  modifiers := English.modifiers

/-- `#[pet:#[kind:big]animal#]story#`: the kind is pushed before the pet it is part of. -/
def bigCatStory : Template :=
  ⟨[.tag ⟨[.push "pet" [⟨[.tag ⟨[.push "kind" [.literal "big"]], "animal", []⟩]⟩]], "story", []⟩]⟩

theorem bigCatStory_outline :
    bigCatStory.pushedKeys = ["pet", "kind"] ∧
    ∃ outline whole : ExpansionState (Recorded Script),
      outcome (Outline.expandTemplate moodyStory 64 65 bigCatStory)
        (.start (Script.of [0, 0, 0, 0, 0])) = (.ok "big cat sleeps", outline) ∧
      outcome (expandTemplate moodyStory 64 65 bigCatStory)
        (.start (Script.of [0, 0, 0, 0, 0])) = (.ok "big cat sleeps", whole) ∧
      chosenSymbols outline.events = ["animal", "story"] ∧
      (madeKeys outline.events).Perm ["pet", "kind"] ∧
      chosenSymbols whole.events = ["animal", "kind", "story", "pet", "mood"] := by
  have htext : outcome (Expansion.expandTemplate moodyStory 64 65 bigCatStory)
      ⟨.empty, Script.of [0, 0, 0, 0, 0]⟩ = (.ok "big cat sleeps", ⟨.empty, Script.of []⟩) := rfl
  obtain ⟨outline, whole, houtline, hwhole, -, -, -, hsymbols, hkeys⟩ := outline_matches_walk htext
  refine ⟨rfl, outline, whole, houtline, hwhole, hsymbols, hkeys, ?_⟩
  have hend : (outcome (expandTemplate moodyStory 64 65 bigCatStory)
      (.start (Script.of [0, 0, 0, 0, 0]))).2 = whole := congrArg Prod.snd hwhole
  rw [← hend]
  rfl

end Recorded

end Announcer
