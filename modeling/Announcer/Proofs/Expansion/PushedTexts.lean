import Announcer.Proofs.Expansion.StackDiscipline
import Announcer.Proofs.Expansion.ModifierChain
import Announcer.Proofs.Expansion.DepthLimit
import Announcer.Proofs.Expansion.Mirror

/-! # Pushed texts

The rules of a push are expanded once, when the push is made. From then on the key stands for the
texts that came out, and these are never read as templates: whatever else is pushed, popped and
chosen, the key alone gives one of the texts as it is, until the key itself is pushed or popped. The
push lies on the pushes of its key that were in force before it, so when it is taken back they are the
latest again.
-/
namespace Announcer

open Chance (ChoiceSource Script)

namespace Recorded

open Expansion (outcome outcome_bind_eq_ok outcome_bind_of_ok outcome_throw alternatives?)
open MadePush

section Steps

variable {σ : Type} {g : Grammar} {K : String → Prop} {s t u v : ExpansionState (Recorded σ)}

theorem Step.ofKey_cases (h : Step g K s t) (key : String) :
    (pushCount key t.events = pushCount key s.events + 1 ∧ ∃ frame,
      ofKey key (inForce t.events) =
        ⟨s.events.length, key, frame⟩ :: ofKey key (inForce s.events)) ∨
    (popCount key t.events = popCount key s.events + 1 ∧
      ofKey key (inForce t.events) = (ofKey key (inForce s.events)).tail) ∨
    ofKey key (inForce t.events) = ofKey key (inForce s.events) := by
  cases h with
  | @push other frame _ =>
    by_cases heq : other = key
    · subst heq
      refine .inl ⟨?_, frame, ofKey_cons_self rfl⟩
      change pushCount other (.push other frame :: s.events) = _
      simp
    · exact .inr (.inr (ofKey_cons_of_ne heq))
  | @pop other pushes _ =>
    by_cases heq : other = key
    · subst heq
      refine .inr (.inl ⟨?_, ofKey_eraseP_self⟩)
      change popCount other (.pop other :: s.events) = _
      simp
    · exact .inr (.inr (ofKey_eraseP_of_ne (Ne.symm heq)))
  | choose => exact .inr (.inr rfl)

structure Untouched (key : String) (s t : ExpansionState (Recorded σ)) : Prop where
  pushes : pushCount key t.events = pushCount key s.events
  pops : popCount key t.events = popCount key s.events

theorem Path.counts_le (h : Path g K s t) (key : String) :
    pushCount key s.events ≤ pushCount key t.events ∧
      popCount key s.events ≤ popCount key t.events :=
  ⟨h.events_suffix.sublist.countP_le, h.events_suffix.sublist.countP_le⟩

theorem Path.ofKey_of_untouched (h : Path g K s t) {key : String} (hkey : Untouched key s t) :
    ofKey key (inForce t.events) = ofKey key (inForce s.events) := by
  induction h with
  | refl => rfl
  | @tail u v hpath hstep ih =>
    -- counts never fall, so the key is untouched up to the last step and by it
    obtain ⟨hpushes, hpops⟩ := hkey
    obtain ⟨hearlierPushes, hearlierPops⟩ := Path.counts_le hpath key
    obtain ⟨hlaterPushes, hlaterPops⟩ := Path.counts_le (.single hstep) key
    rcases hstep.ofKey_cases key with ⟨hpush, -⟩ | ⟨hpop, -⟩ | hsame
    · omega
    · omega
    · rw [hsame]
      exact ih ⟨by omega, by omega⟩

/-- A push that was made, and that is in force only on the pushes of its key from before it. -/
structure LiesOn (made : MadePush) (before s : ExpansionState (Recorded σ)) : Prop where
  earlier : made.serial < s.events.length
  below : made ∈ inForce s.events → ∃ newer,
    ofKey made.key (inForce s.events) = newer ++ made :: ofKey made.key (inForce before.events)

variable {made : MadePush} {before : ExpansionState (Recorded σ)}

/-- A push that is gone does not come back, since later pushes have other numbers. -/
theorem Step.liesOn (h : Step g K s t) (hserial : made.serial = before.events.length)
    (hs : LiesOn made before s) : LiesOn made before t := by
  refine ⟨lt_of_lt_of_le hs.earlier h.events_suffix.length_le, fun hin => ?_⟩
  have hkey : made ∈ ofKey made.key (inForce t.events) := mem_ofKey.mpr ⟨hin, rfl⟩
  rcases h.ofKey_cases made.key with ⟨-, frame, ht⟩ | ⟨-, ht⟩ | ht
  · rw [ht] at hkey
    rcases List.mem_cons.mp hkey with heq | hold
    · have hnumber : made.serial = s.events.length := congrArg serial heq
      exact absurd hnumber hs.earlier.ne
    · obtain ⟨newer, hnewer⟩ := hs.below (mem_ofKey.mp hold).1
      exact ⟨⟨s.events.length, made.key, frame⟩ :: newer, by rw [ht, hnewer, List.cons_append]⟩
  · rw [ht] at hkey
    obtain ⟨newer, hnewer⟩ := hs.below (mem_ofKey.mp (List.mem_of_mem_tail hkey)).1
    rw [hnewer] at ht hkey
    cases newer with
    | nil =>
      -- the push itself was popped, and what lay below it was made before it
      have hbelow := serial_lt_of_inForce (mem_ofKey.mp hkey).1
      exact absurd hserial hbelow.ne
    | cons latest rest => exact ⟨rest, ht⟩
  · rw [ht] at hkey ⊢
    exact hs.below (mem_ofKey.mp hkey).1

/-- The step that takes the push back leaves the pushes of its key from before it. -/
theorem Step.ofKey_of_gone (h : Step g K s t) (hs : LiesOn made before s)
    (hin : made ∈ inForce s.events) (hout : made ∉ inForce t.events) :
    ofKey made.key (inForce t.events) = ofKey made.key (inForce before.events) := by
  obtain ⟨newer, hnewer⟩ := hs.below hin
  have hkey : made ∈ ofKey made.key (inForce s.events) := mem_ofKey.mpr ⟨hin, rfl⟩
  have hgone : made ∉ ofKey made.key (inForce t.events) := fun hmem => hout (mem_ofKey.mp hmem).1
  rcases h.ofKey_cases made.key with ⟨-, frame, ht⟩ | ⟨-, ht⟩ | ht
  · rw [ht] at hgone
    exact absurd (List.mem_cons_of_mem _ hkey) hgone
  · rw [hnewer] at ht
    cases newer with
    | nil => exact ht
    | cons latest rest =>
      rw [ht] at hgone
      exact absurd (by simp) hgone
  · rw [ht] at hgone
    exact absurd hkey hgone

end Steps

section Texts

variable {σ : Type} {g : Grammar} {symbol : String} {texts : List String}

theorem alternatives?_of_latest {s : ExpansionState (Recorded σ)} {made : MadePush}
    {older : List MadePush} (hs : Agrees s)
    (h : ofKey made.key (inForce s.events) = made :: older) (g : Grammar) :
    alternatives? g s.pushes made.key = some (made.frame.map Template.literal) := by
  rw [alternatives?_of_frames, hs.frames_eq, h]
  rfl

variable [ChoiceSource σ]

/-- In this state the symbol alone, with or without a rule for it in the grammar, is one choice
among the texts. Its text is the chosen one, and only the source is another one afterwards. -/
structure Draws (symbol : String) (texts : List String) (s : ExpansionState σ) : Prop where
  drawn : ∀ (g : Grammar) limit levels text e,
    outcome (Expansion.expandTag (Expansion.expandTemplate g limit levels) g (.bare symbol)) s =
      (.ok text, e) →
    text ∈ texts ∧ ∃ h : 0 < texts.length,
      text = texts.get (ChoiceSource.choose texts.length h s.source).1 ∧
      e = ⟨s.pushes, (ChoiceSource.choose texts.length h s.source).2⟩
  succeeds : texts ≠ [] → ∀ (g : Grammar) limit levels, ∃ text e,
    outcome (Expansion.expandTag (Expansion.expandTemplate g limit (levels + 1)) g (.bare symbol))
      s = (.ok text, e)

theorem outcome_select_texts {s : ExpansionState σ}
    (h : alternatives? g s.pushes symbol = some (texts.map Template.literal))
    (hlength : 0 < texts.length) :
    outcome (Expansion.select g symbol) s =
      (.ok (.literal (texts.get (ChoiceSource.choose texts.length hlength s.source).1)),
        ⟨s.pushes, (ChoiceSource.choose texts.length hlength s.source).2⟩) := by
  have hpositive : 0 < (texts.map Template.literal).length := by simpa using hlength
  have htwins : List.Forall₂ (fun t text => t = Template.literal text) (texts.map Template.literal)
      texts := by simp [List.forall₂_map_left_iff, List.forall₂_same]
  obtain ⟨hchosen, hrest⟩ := Expansion.Mirror.chosen_twins htwins hpositive hlength s.source
  rw [Expansion.outcome_select, h]
  simp only [hpositive, dite_true]
  rw [hchosen, hrest]

theorem expandTemplate_literal (text : String) (limit levels : ℕ) :
    (Expansion.expandTemplate g limit (levels + 1) (.literal text) : Expansion σ String) =
      pure text := by
  rw [Expansion.expandTemplate_plain rfl]
  simp [Template.plainText, Template.literal]

theorem draws_of_alternatives {s : ExpansionState σ} (hsymbol : symbol ≠ "")
    (h : ∀ g, alternatives? g s.pushes symbol = some (texts.map Template.literal)) :
    Draws symbol texts s := by
  constructor
  · intro g limit levels text e hexpand
    rw [Expansion.expandTag_bare, Expansion.expandSymbol_named hsymbol] at hexpand
    obtain ⟨chosen, t, hselect, hinner⟩ := outcome_bind_eq_ok.mp hexpand
    have hlength : 0 < texts.length := by
      by_contra hnone
      obtain rfl : texts = [] := List.length_eq_zero_iff.mp (by omega)
      rw [Expansion.outcome_select, h g] at hselect
      cases hselect
    rw [outcome_select_texts (h g) hlength] at hselect
    cases hselect
    cases levels with
    | zero => cases hinner
    | succ levels =>
      rw [expandTemplate_literal] at hinner
      cases hinner
      exact ⟨List.get_mem _ _, hlength, rfl, rfl⟩
  · intro hne g limit levels
    have hselect := outcome_select_texts (h g) (List.length_pos_iff.mpr hne)
    rw [Expansion.expandTag_bare, Expansion.expandSymbol_named hsymbol, outcome_bind_of_ok hselect,
      expandTemplate_literal]
    exact ⟨_, _, rfl⟩

end Texts

/-- What a push promises for the rest of the call. As long as its key is neither pushed nor popped
the key draws from its texts. The pop that takes the push back gives the key what it stood for before.
A tag without a symbol does not name the empty key. -/
structure Freezes {σ : Type} [ChoiceSource σ] (g : Grammar) (made : MadePush)
    (before after : ExpansionState (Recorded σ)) : Prop where
  frozen : made.key ≠ "" → ∀ u, Path g (fun _ => True) after u → Untouched made.key after u →
    Draws made.key made.frame u.forget
  restored : ∀ u v, Path g (fun _ => True) after u → outcome (pop made.key) u = (.ok (), v) →
    made ∈ inForce u.events → made ∉ inForce v.events →
    v.pushes.get? made.key = before.pushes.get? made.key ∧
      ∀ other : Grammar,
        alternatives? other v.pushes made.key = alternatives? other before.pushes made.key

section Push

variable {σ : Type} [ChoiceSource σ] {g : Grammar}

theorem freezes_of_push {before : ExpansionState (Recorded σ)} (hbefore : Reachable g before)
    (key : String) (texts : List String) :
    Freezes g ⟨before.events.length, key, texts⟩ before
      ⟨before.pushes.push key texts, ⟨before.source.source, .push key texts :: before.events⟩⟩ := by
  obtain ⟨source, hstart⟩ := hbefore
  have hpush := hstart.tail (.push texts trivial : Step g (fun _ => True) before
    ⟨before.pushes.push key texts, ⟨before.source.source, .push key texts :: before.events⟩⟩)
  have hlatest : ofKey key (inForce (.push key texts :: before.events)) =
      ⟨before.events.length, key, texts⟩ :: ofKey key (inForce before.events) := ofKey_cons_self rfl
  constructor
  · intro hkey u hu huntouched
    have hagrees : Agrees u := agrees_of_reachable ⟨source, hpush.trans hu⟩
    have hstill := (hu.ofKey_of_untouched huntouched).trans hlatest
    exact draws_of_alternatives hkey (alternatives?_of_latest hagrees hstill)
  · intro u v hu hpop hin hout
    obtain ⟨pushes, hbelow, rfl⟩ := outcome_pop_eq_ok hpop
    have hstep : Step g (fun _ => True) u ⟨pushes, ⟨u.source.source, .pop key :: u.events⟩⟩ :=
      .pop hbelow
    have hlies : LiesOn ⟨before.events.length, key, texts⟩ before u :=
      hu.preserves (fun _ _ hstep => hstep.liesOn rfl)
        ⟨Nat.lt_succ_self _, fun _ => ⟨[], hlatest⟩⟩
    have hreturn := hstep.ofKey_of_gone hlies hin hout
    have hpast : Agrees before := agrees_of_reachable ⟨source, hstart⟩
    have hagrees := agrees_of_reachable ⟨source, (hpush.trans hu).tail hstep⟩
    have hget : pushes.get? key = before.pushes.get? key :=
      (hagrees key).trans ((congrArg frames? hreturn).trans (hpast key).symm)
    refine ⟨hget, fun other => ?_⟩
    simp only [alternatives?, Pushes.top?, hget]

/-- A push expands its rules and gives its key their texts. Until the key is pushed or popped again,
the key alone gives one of them as it is, by one choice among them and without a look at the rules of
the grammar, at every depth and in every state that the call may come to. Once the push is taken back
the key is what it was. -/
theorem push_freezes {limit levels : ℕ} {key : String} {rules : List Template}
    {s : ExpansionState (Recorded σ)} {e : ExpansionState σ} (hs : Reachable g s)
    (h : outcome (Expansion.runAction (Expansion.expandTemplate g limit levels) (.push key rules))
      s.forget = (.ok (), e)) :
    ∃ texts before after,
      outcome (rules.mapM (expandTemplate g limit levels)) s = (.ok texts, before) ∧
      texts.length = rules.length ∧
      outcome (push key texts) before = (.ok before.events.length, after) ∧ after.forget = e ∧
      Freezes g ⟨before.events.length, key, texts⟩ before after := by
  obtain ⟨made, after, hrun, -, hafter⟩ :=
    (forgets_runAction (forgets_expandTemplate g limit levels) (.push key rules)).of_ok h
  obtain ⟨texts, before, htexts, hrest⟩ := outcome_bind_eq_ok.mp hrun
  obtain ⟨serial, u, hpush, hend⟩ := outcome_bind_eq_ok.mp hrest
  cases hpush
  cases hend
  obtain ⟨source, hstart⟩ := hs
  have hmoves : Moves (σ := σ) g limit (fun _ => True)
      (rules.mapM (expandTemplate g limit levels)) :=
    moves_mapM fun r _ => moves_freely g limit levels r
  have hbefore : Reachable g before := ⟨source, hstart.trans (hmoves.of_ok htexts)⟩
  exact ⟨texts, before, _, htexts, Expansion.length_of_mapM htexts, rfl, hafter,
    freezes_of_push hbefore key texts⟩

def hotel : Grammar where
  rules := .ofList [("room", ⟨"room", [.literal "hall"]⟩)]
  modifiers := English.modifiers

/-- The text would be a mistake if it was read as a template. A pet is pushed and one of two pets is
asked for, and the room is still called what it was called. -/
theorem room_keeps_its_sign :
    Template.parse "#1 [x\\" = .error .unclosedBracket ∧
    ∃ after u v : ExpansionState (Recorded Script),
      outcome (runAction (expandTemplate hotel 64 64) (.push "room" [.literal "#1 [x\\"]))
        (.start (Script.of [1, 0])) = (.ok [⟨0, "room", ["#1 [x\\"]⟩], after) ∧
      outcome (do
        let _ ← push "pet" ["cat", "dog"]
        expandTag (expandTemplate hotel 64 64) hotel (.bare "pet")) after = (.ok "dog", u) ∧
      outcome (pop "room") u = (.ok (), v) ∧
      Draws "room" ["#1 [x\\"] u.forget ∧
      alternatives? hotel v.pushes "room" = some [.literal "hall"] := by
  have hparse : Template.parse "#1 [x\\" = .error .unclosedBracket := by cbv
  have hpushed : outcome (Expansion.runAction (Expansion.expandTemplate hotel 64 64)
      (.push "room" [.literal "#1 [x\\"])) (ExpansionState.start (Script.of [1, 0])).forget =
      (.ok (), ⟨.ofList [("room", [["#1 [x\\"]])], Script.of [1, 0]⟩) := rfl
  obtain ⟨texts, before, after, htexts, -, hpush, -, hfreezes⟩ :=
    push_freezes ⟨Script.of [1, 0], .refl⟩ hpushed
  cases htexts
  cases hpush
  have hmoves : Moves (σ := Script) hotel 64 (fun _ => True) (do
      let _ ← push "pet" ["cat", "dog"]
      expandTag (expandTemplate hotel 64 64) hotel (.bare "pet")) :=
    (moves_push _ trivial).bind fun _ => moves_expandTag (t := ⟨[.tag (.bare "pet")]⟩)
      (fun _ _ _ _ _ _ _ _ => trivial) (fun r _ => moves_freely hotel 64 64 r)
      (fun _ _ _ => trivial) (by simp)
  refine ⟨hparse, _, _, _, rfl, rfl, rfl, ?_, ?_⟩
  · exact hfreezes.frozen (by decide) _ (hmoves.path _) ⟨rfl, rfl⟩
  · obtain ⟨-, hmeaning⟩ := hfreezes.restored _ _ (hmoves.path _) rfl (by decide) (by decide)
    exact hmeaning hotel

end Push

end Recorded

end Announcer
