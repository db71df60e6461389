import Announcer.Proofs.Expansion.ScopedPushes

/-! # Restoration

Where every push leads a tag and nothing is popped in a text, a tag that gives a text ends with the
pushes it began with, although its own rules and its symbol may push the same keys again. The keys
still to be popped always lead back to the pushes from before the tag, and what is expanded in
between changes nothing, so no pop is without its push.
-/
namespace Announcer

open Chance (ChoiceSource Script)

namespace Pushes

def NoEmpty (p : Pushes) : Prop := ∀ key, p.get? key ≠ some []

def popAll? : List String → Pushes → Option Pushes
  | [], p => some p
  | key :: rest, p => (p.pop? key).bind (popAll? rest)

variable {p : Pushes} {key : String}

theorem noEmpty_empty : NoEmpty .empty := by
  intro key h
  cases h

theorem NoEmpty.push (hp : p.NoEmpty) (key : String) (frame : Frame) :
    (p.push key frame).NoEmpty := by
  intro other h
  rw [get?_push] at h
  split at h
  · cases h
  · exact hp other h

/-- A pop undoes a push, also the first one of a key. -/
theorem pop?_push (hp : p.get? key ≠ some []) (frame : Frame) :
    (p.push key frame).pop? key = some p := by
  have hpop : ((p.push key frame).pop? key).isSome := by
    rw [Option.isSome_iff_ne_none, ne_eq, pop?, get?_push, if_pos rfl]
    cases (p.get? key).getD [] <;> simp
  obtain ⟨q, hq⟩ := Option.isSome_iff_exists.mp hpop
  obtain ⟨frames, hframes, hget⟩ := get?_of_pop hq
  rw [get?_push, if_pos rfl, Option.some_inj] at hframes
  rw [hq, Option.some_inj]
  apply Table.ext_get?
  intro other
  rw [hget, get?_push, ← hframes, List.tail_cons]
  by_cases heq : other = key
  · subst heq
    rw [if_pos rfl]
    cases hold : p.get? other with
    | none => rfl
    | some below =>
      have hbelow : below ≠ [] := fun hnone => hp (by rw [hold, hnone])
      simp [hbelow]
  · rw [if_neg heq, if_neg heq]

end Pushes

def scopedPushes : Template.Requirement where
  segments segments := ∀ a, .action a ∉ segments
  tag _ := True
  action a :=
    match a with
    | .push _ _ => True
    | .pop _ => False

theorem meets_scopedPushes_iff {t : Template} :
    t.Meets scopedPushes ↔ (∀ a, .action a ∉ t.segments) ∧ (∀ key, .pop key ∉ t.actions) ∧
      ∀ r ∈ t.rules, r.Meets scopedPushes := by
  rw [Template.meets_iff]
  constructor
  · rintro ⟨hsegments, -, hactions, hrules⟩
    exact ⟨hsegments, fun key hpop => hactions _ hpop, hrules⟩
  · rintro ⟨hsegments, hpops, hrules⟩
    refine ⟨hsegments, fun _ _ => trivial, fun a ha => ?_, hrules⟩
    cases a with
    | push key rules => trivial
    | pop key => exact hpops key ha

namespace Expansion

section Restores

variable {σ α β γ : Type} {p : Pushes} {g : Grammar}

/-- Begun with pushes `p`, the expansion ends with a result and pushes in `Q`, and it does not fail
on a pop. -/
def Leads (p : Pushes) (m : Expansion σ α) (Q : α → Pushes → Prop) : Prop :=
  ∀ s, s.pushes = p → Ends m s (fun a t => Q a t.pushes) fun e _ => ∀ key, e ≠ .popWithoutPush key

theorem leads_pure {a : α} {Q : α → Pushes → Prop} (h : Q a p) :
    Leads p (pure a : Expansion σ α) Q := by
  rintro s rfl
  exact h

theorem Leads.bind {m : Expansion σ α} {f : α → Expansion σ β} {Q : α → Pushes → Prop}
    {T : β → Pushes → Prop} (hm : Leads p m Q) (hf : ∀ a q, Q a q → Leads q (f a) T) :
    Leads p (m >>= f) T :=
  fun s hs => (hm s hs).bind fun a t ha => hf a t.pushes ha t rfl

def Restores (m : Expansion σ α) (R : α → Prop) : Prop :=
  ∀ p : Pushes, p.NoEmpty → Keeps (· = p) m R fun e => ∀ key, e ≠ .popWithoutPush key

theorem Restores.leads {m : Expansion σ α} {R : α → Prop} (h : Restores m R) (hp : p.NoEmpty) :
    Leads p m fun a q => R a ∧ q = p := h p hp

theorem restores_pure {a : α} {R : α → Prop} (h : R a) : Restores (pure a : Expansion σ α) R :=
  fun _ _ => keeps_pure h

theorem Restores.bind {m : Expansion σ α} {f : α → Expansion σ β} {R : α → Prop} {T : β → Prop}
    (hm : Restores m R) (hf : ∀ a, R a → Restores (f a) T) : Restores (m >>= f) T :=
  fun p hp => (hm p hp).bind fun a ha => hf a ha p hp

theorem restores_applyModifiers (calls : List ModifierCall) (text : String) :
    Restores (applyModifiers g calls text : Expansion σ String) fun _ => True := by
  rcases applyModifiers_pure_or_throw g calls text with ⟨changed, -, heq⟩ | ⟨call, -, -, heq⟩
  · rw [heq]
    exact restores_pure trivial
  · rw [heq]
    exact fun _ _ => keeps_throw fun key h => by cases h

/-- Keys that lead back to some pushes can be popped, and then these are in force. -/
theorem leads_popAll {q : Pushes} {keys : List String} (h : q.popAll? keys = some p) :
    Leads q (popAll keys : Expansion σ Unit) fun _ r => r = p := by
  induction keys generalizing q with
  | nil => exact leads_pure (Option.some_inj.mp h)
  | cons key rest ih =>
    obtain ⟨below, hpop, hrest⟩ := Option.bind_eq_some_iff.mp h
    have hfirst : Leads q (pop key : Expansion σ Unit) fun _ r => r = below := by
      rintro s rfl
      rw [Ends, outcome_pop, hpop]
    apply Leads.bind hfirst
    rintro _ _ rfl
    exact ih hrest

section Deeper

variable {deeper : Template → Expansion σ String}
  (hdeeper : ∀ t : Template, t.Meets scopedPushes → Restores (deeper t) fun _ => True)

include hdeeper

theorem leads_push {key : String} {rules : List Template} (hp : p.NoEmpty)
    (hrules : ∀ r ∈ rules, r.Meets scopedPushes) :
    Leads p (runAction deeper (.push key rules)) fun _ q => ∃ frame, q = p.push key frame := by
  have hframe : Restores (rules.mapM deeper) _ := fun p hp =>
    keeps_mapM fun r hr => hdeeper r (hrules r hr) p hp
  apply (hframe.leads hp).bind
  rintro frame _ ⟨-, rfl⟩ s rfl
  exact ⟨frame, rfl⟩

/-- The keys that the actions list lead back to where the keys before them did. -/
theorem leads_runActions {t : Template} {actions : List Action} {keys : List String} {q : Pushes}
    (ht : t.Meets scopedPushes) (ha : ∀ a ∈ actions, a ∈ t.actions) (hq : q.NoEmpty)
    (hkeys : q.popAll? keys = some p) :
    Leads q (runActions deeper actions keys) fun made r => r.NoEmpty ∧ r.popAll? made = some p := by
  obtain ⟨-, hpops, hrules⟩ := meets_scopedPushes_iff.mp ht
  induction actions generalizing keys q with
  | nil => exact leads_pure ⟨hq, hkeys⟩
  | cons a rest ih =>
    have hin := ha a (by simp)
    cases a with
    | pop key => exact absurd hin (hpops key)
    | push key rules =>
      have hmeets : ∀ r ∈ rules, r.Meets scopedPushes := fun r hr =>
        hrules r (Template.mem_rules.mpr ⟨key, rules, hin, hr⟩)
      apply Leads.bind (leads_push hdeeper hq hmeets)
      rintro _ _ ⟨frame, rfl⟩
      refine ih (fun b hb => ha b (by simp [hb])) (hq.push key frame) ?_
      rw [Pushes.popAll?, Pushes.pop?_push (hq key)]
      exact hkeys

variable [ChoiceSource σ] (hg : g.Each fun t => t.Meets scopedPushes)

include hg

omit hdeeper in
theorem restores_select (symbol : String) :
    Restores (select g symbol : Expansion σ Template) fun t => t.Meets scopedPushes := by
  intro p _
  refine keeps_select (fun _ _ _ key h => by cases h) (fun _ _ _ key h => by cases h) ?_
  intro q alternatives _ halternatives
  refine of_mem_alternatives? halternatives (fun text => ?_) (hg symbol)
  exact Template.meets_literal (by simp [scopedPushes])

theorem restores_expandSymbol (symbol : String) :
    Restores (expandSymbol deeper g symbol) fun _ => True := by
  by_cases hblank : symbol = ""
  · rw [hblank, expandSymbol_blank]
    exact restores_pure trivial
  · rw [expandSymbol_named hblank]
    exact (restores_select hg symbol).bind hdeeper

theorem restores_expandTag {t : Template} {tag : Tag} (ht : t.Meets scopedPushes)
    (htag : .tag tag ∈ t.segments) : Restores (expandTag deeper g tag) fun _ => True := by
  intro p hp
  have hactions : ∀ a ∈ tag.actions, a ∈ t.actions := fun a ha =>
    Template.mem_actions.mpr (.inr ⟨tag, htag, ha⟩)
  have hopens : Leads p (runActions deeper tag.actions []) _ :=
    leads_runActions hdeeper ht hactions hp rfl
  have hends : Leads p (expandTag deeper g tag) fun _ r => True ∧ r = p := by
    apply hopens.bind
    rintro keys q ⟨hq, hkeys⟩
    -- the text is made with the pushes of the tag in force, and leaves them so
    apply Leads.bind ((restores_expandSymbol hdeeper hg tag.symbol).leads hq)
    rintro text _ ⟨-, rfl⟩
    apply Leads.bind ((restores_applyModifiers tag.modifiers text).leads hq)
    rintro changed _ ⟨-, rfl⟩
    apply Leads.bind (leads_popAll hkeys)
    rintro _ _ rfl
    exact leads_pure ⟨trivial, rfl⟩
  exact hends

theorem restores_expandSegments {t : Template} {segments : List Segment}
    (ht : t.Meets scopedPushes) (hs : ∀ segment ∈ segments, segment ∈ t.segments) :
    Restores (expandSegments deeper g segments) fun _ => True := by
  induction segments with
  | nil => exact restores_pure trivial
  | cons segment rest ih =>
    have hin := hs segment (by simp)
    have hfirst : Restores (expandSegment deeper g segment) fun _ => True := by
      cases segment with
      | literal text => exact restores_pure trivial
      | tag tag => exact restores_expandTag hdeeper hg ht hin
      | action a => exact absurd hin ((meets_scopedPushes_iff.mp ht).1 a)
    apply Restores.bind hfirst
    intro text _
    exact (ih fun other ho => hs other (by simp [ho])).bind fun _ _ => restores_pure trivial

end Deeper

theorem restores_expandTemplate [ChoiceSource σ] (hg : g.Each fun t => t.Meets scopedPushes)
    (limit levels : Nat) (t : Template) (ht : t.Meets scopedPushes) :
    Restores (expandTemplate g limit levels t : Expansion σ String) fun _ => True := by
  induction levels generalizing t with
  | zero => exact fun _ _ => keeps_throw fun key h => by cases h
  | succ levels ih => exact restores_expandSegments ih hg ht fun _ h => h

end Restores

end Expansion

namespace Recorded

open Expansion (outcome)

theorem Agrees.noEmpty {σ : Type} {s : ExpansionState (Recorded σ)} (h : Agrees s) :
    s.pushes.NoEmpty := by
  intro key hempty
  rw [h key] at hempty
  cases hmade : MadePush.ofKey key (inForce s.events) with
  | nil => simp [hmade, MadePush.frames?] at hempty
  | cons made rest => simp [hmade, MadePush.frames?] at hempty

end Recorded

namespace Grammar

open Expansion (outcome Restores restores_expandTemplate restores_expandTag)

section Runs

variable {σ : Type} [ChoiceSource σ] {g : Grammar}

theorem run_pops_only_pushes (hg : g.Each fun t => t.Meets scopedPushes) {t : Template}
    (ht : t.Meets scopedPushes) (source : σ) (key : String) :
    (Expansion.run g maxDepth t source).1 ≠ .error (.popWithoutPush key) := by
  intro h
  rw [Expansion.run_eq] at h
  have hrestores := restores_expandTemplate (σ := σ) hg maxDepth (maxDepth + 1) t ht
  have hfails := (hrestores .empty Pushes.noEmpty_empty).of_error (s := ⟨.empty, source⟩) rfl
    (Prod.ext h rfl)
  exact hfails key rfl

/-- Where every push leads a tag and there are no pops, whatever gives a text leaves the pushes as
it found them, at every depth and in every state of an expansion, and no expansion ever fails for
want of a push. -/
theorem scoped_pushes_restored (hg : g.Each fun t => t.Meets scopedPushes) :
    (∀ s : ExpansionState (Recorded σ), Recorded.Reachable g s → ∀ limit levels,
      (∀ t : Template, t.Meets scopedPushes → ∀ text e,
        outcome (Expansion.expandTemplate g limit levels t) s.forget = (.ok text, e) →
        e.pushes = s.pushes) ∧
      ∀ tag : Tag, Template.Meets scopedPushes ⟨[.tag tag]⟩ → ∀ text e,
        outcome (Expansion.expandTag (Expansion.expandTemplate g limit levels) g tag) s.forget =
          (.ok text, e) →
        e.pushes = s.pushes) ∧
    (∀ origin, (∀ t, Template.parse origin = .ok t → t.Meets scopedPushes) →
      ∀ (source : σ) key,
        (g.flatten origin source).1 ≠ .error (.expansion (.popWithoutPush key))) ∧
    ∀ symbol (source : σ) key, (g.expand symbol source).1 ≠ .error (.popWithoutPush key) := by
  refine ⟨fun s hs limit levels => ?_, ?_, ?_⟩
  · have hs := (Recorded.agrees_of_reachable hs).noEmpty
    have hdeeper := restores_expandTemplate (σ := σ) hg limit levels
    constructor
    · intro t ht text e h
      exact ((hdeeper t ht s.pushes hs).of_ok rfl h).2
    · intro tag htag text e h
      have hrestores := restores_expandTag hdeeper hg htag (List.mem_singleton_self _)
      exact ((hrestores s.pushes hs).of_ok rfl h).2
  · intro origin horigin source key h
    unfold flatten flattenWithin at h
    cases hparse : Template.parse origin with
    | error cause => simp [hparse] at h
    | ok t =>
      have hrun := run_pops_only_pushes hg (horigin t hparse) source key
      cases hend : (Expansion.run g maxDepth t source).1 with
      | ok text => simp [hparse, hend, Except.mapError] at h
      | error cause =>
        simp only [hparse, hend, Except.mapError, Except.error.injEq,
          FlattenError.expansion.injEq] at h
        exact hrun (by rw [hend, h])
  · intro symbol source key
    exact run_pops_only_pushes hg (Template.meets_bare (by simp [scopedPushes]) trivial) source key

end Runs

/-- Two pushes of one key, and the second pushes the key again to say what it is. -/
def oldCatTag : Tag :=
  ⟨[.push "pet" [.literal "cat"],
    .push "pet" [⟨[.literal "big ",
      .tag ⟨[.push "pet" [⟨[.literal "old ", .tag (.bare "pet")]⟩]], "pet", []⟩]⟩]], "story", []⟩

theorem oldCatTag_scoped : Template.Meets scopedPushes ⟨[.tag oldCatTag]⟩ := by
  have hold : Template.Meets scopedPushes ⟨[.literal "old ", .tag (.bare "pet")]⟩ := by
    rw [meets_scopedPushes_iff]
    simp [Template.actions, Template.rules, Segment.actions, Tag.bare]
  have hbig : Template.Meets scopedPushes ⟨[.literal "big ",
      .tag ⟨[.push "pet" [⟨[.literal "old ", .tag (.bare "pet")]⟩]], "pet", []⟩]⟩ := by
    rw [meets_scopedPushes_iff]
    simpa [Template.actions, Template.rules, Segment.actions, Action.rules] using hold
  have hcat : (Template.literal "cat").Meets scopedPushes :=
    Template.meets_literal (by simp [scopedPushes])
  rw [meets_scopedPushes_iff]
  simpa [Template.actions, Template.rules, Segment.actions, Action.rules, oldCatTag] using
    ⟨hcat, hbig⟩

theorem oldCatTag_leaves_no_push :
    ∃ e, outcome (Expansion.expandTag (Expansion.expandTemplate Recorded.bedtime 64 64)
        Recorded.bedtime oldCatTag) ⟨.empty, Script.of [0, 0, 0, 0]⟩ =
      (.ok "big old cat sleeps", e) ∧ e.pushes = .empty := by
  have htext : outcome (Expansion.expandTag (Expansion.expandTemplate Recorded.bedtime 64 64)
      Recorded.bedtime oldCatTag) (ExpansionState.start (Script.of [0, 0, 0, 0])).forget =
        (.ok "big old cat sleeps", ⟨.empty, Script.of []⟩) := by rfl
  have hgrammar : Recorded.bedtime.Each fun t => t.Meets scopedPushes := by
    intro name rule hrule t ht
    obtain ⟨-, rfl⟩ := Prod.mk.inj (List.mem_singleton.mp (Table.get?_eq_some_iff.mp hrule))
    obtain rfl := List.mem_singleton.mp ht
    rw [meets_scopedPushes_iff]
    simp [Template.actions, Template.rules, Segment.actions, Tag.bare]
  have hstart : Recorded.Reachable Recorded.bedtime (.start (Script.of [0, 0, 0, 0])) :=
    ⟨_, .refl⟩
  have hrestored := (scoped_pushes_restored hgrammar).1 _ hstart 64 64
  exact ⟨_, htext, hrestored.2 oldCatTag oldCatTag_scoped _ _ htext⟩

end Grammar

end Announcer
