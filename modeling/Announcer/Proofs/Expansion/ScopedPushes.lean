import Announcer.Proofs.Chance.Script
import Announcer.Proofs.Expansion.Steps
import Mathlib

/-! # Scoped pushes

The record tells which pushes are in force, and the pushes of a state are these. A tag ends by as
many pops of a key as it made pushes of it. Each pop takes the latest push of its key, whoever made
it, so the end of a tag takes back its own pushes and no others exactly when they are the latest of
their keys.
-/
namespace Announcer

open Chance (ChoiceSource Script)

def Action.pushKey? : Action → Option String
  | .push key _ => some key
  | .pop _ => none

def Tag.ownKeys (tag : Tag) : List String := tag.actions.filterMap Action.pushKey?

def inForce : List Event → List MadePush
  | [] => []
  | .push key frame :: earlier => ⟨earlier.length, key, frame⟩ :: inForce earlier
  | .pop key :: earlier => (inForce earlier).eraseP fun made => made.key == key
  | .choose _ _ :: earlier => inForce earlier

namespace MadePush

def ofKey (key : String) (pushes : List MadePush) : List MadePush :=
  pushes.filter fun made => made.key == key

def frames? : List MadePush → Option (List Frame)
  | [] => none
  | pushes => some (pushes.map frame)

variable {key other : String} {made : MadePush} {pushes : List MadePush}

theorem mem_ofKey : made ∈ ofKey key pushes ↔ made ∈ pushes ∧ made.key = key := by
  simp [ofKey]

theorem ofKey_cons_self (h : made.key = key) :
    ofKey key (made :: pushes) = made :: ofKey key pushes := by
  simp [ofKey, h]

theorem ofKey_cons_of_ne (h : made.key ≠ key) : ofKey key (made :: pushes) = ofKey key pushes := by
  simp [ofKey, h]

theorem ofKey_eraseP_self :
    ofKey key (pushes.eraseP fun made => made.key == key) = (ofKey key pushes).tail := by
  induction pushes with
  | nil => rfl
  | cons made rest ih =>
    by_cases h : made.key = key
    · rw [List.eraseP_cons_of_pos (by simpa using h), ofKey_cons_self h, List.tail_cons]
    · rw [List.eraseP_cons_of_neg (by simpa using h), ofKey_cons_of_ne h, ofKey_cons_of_ne h, ih]

theorem ofKey_eraseP_of_ne (hne : other ≠ key) :
    ofKey other (pushes.eraseP fun made => made.key == key) = ofKey other pushes := by
  induction pushes with
  | nil => rfl
  | cons made rest ih =>
    by_cases h : made.key = key
    · rw [List.eraseP_cons_of_pos (by simpa using h), ofKey_cons_of_ne (by simpa [h] using hne.symm)]
    · rw [List.eraseP_cons_of_neg (by simpa using h)]
      by_cases ho : made.key = other
      · rw [ofKey_cons_self ho, ofKey_cons_self ho, ih]
      · rw [ofKey_cons_of_ne ho, ofKey_cons_of_ne ho, ih]

end MadePush

open MadePush

theorem serial_lt_of_inForce {events : List Event} {made : MadePush} (h : made ∈ inForce events) :
    made.serial < events.length := by
  induction events with
  | nil => simp [inForce] at h
  | cons e earlier ih =>
    have hearlier : made ∈ inForce earlier → made.serial < (e :: earlier).length := by
      intro hmem
      have := ih hmem
      simp
      omega
    cases e with
    | push key frame =>
      rcases List.mem_cons.mp h with rfl | hmem
      · simp
      · exact hearlier hmem
    | pop key => exact hearlier (List.mem_of_mem_eraseP h)
    | choose symbol alternative => exact hearlier h

def LatestFirst (pushes : List MadePush) : Prop :=
  pushes.Pairwise fun made older => older.serial < made.serial

theorem LatestFirst.nodup {pushes : List MadePush} (h : LatestFirst pushes) : pushes.Nodup := by
  apply h.imp
  intro made older hlt heq
  rw [heq] at hlt
  exact Nat.lt_irrefl _ hlt

theorem LatestFirst.ofKey {pushes : List MadePush} (h : LatestFirst pushes) (key : String) :
    LatestFirst (ofKey key pushes) := h.sublist List.filter_sublist

theorem latestFirst_inForce (events : List Event) : LatestFirst (inForce events) := by
  induction events with
  | nil => exact List.Pairwise.nil
  | cons e earlier ih =>
    cases e with
    | push key frame =>
      exact List.Pairwise.cons (fun older hmem => serial_lt_of_inForce hmem) ih
    | pop key => exact ih.sublist List.eraseP_sublist
    | choose symbol alternative => exact ih

/-- A list in order that another list of the same length covers is that list. -/
theorem LatestFirst.eq_of_subset {pushes others : List MadePush} (h : LatestFirst pushes)
    (ho : LatestFirst others) (hsub : pushes ⊆ others) (hlength : others.length ≤ pushes.length) :
    pushes = others := by
  have hperm := (h.nodup.subperm hsub).perm_of_length_le hlength
  exact hperm.eq_of_pairwise
    (fun _ _ _ _ hab hba => absurd hab (Nat.lt_asymm hba)) h ho

namespace Recorded

open Expansion (outcome outcome_bind_eq_ok)

variable {σ : Type}

def Agrees (s : ExpansionState (Recorded σ)) : Prop :=
  ∀ key, s.pushes.get? key = frames? (ofKey key (inForce s.events))

theorem Step.agrees {g : Grammar} {K : String → Prop} {s t : ExpansionState (Recorded σ)}
    (h : Step g K s t) (hs : Agrees s) : Agrees t := by
  intro other
  cases h with
  | @push key frame _ =>
    rw [Pushes.get?_push]
    change _ = frames? (ofKey other (_ :: inForce s.events))
    by_cases heq : other = key
    · subst heq
      have hlatest : ofKey other (⟨s.events.length, other, frame⟩ :: inForce s.events) =
          ⟨s.events.length, other, frame⟩ :: ofKey other (inForce s.events) := ofKey_cons_self rfl
      rw [if_pos rfl, hlatest, hs other]
      cases ofKey other (inForce s.events) <;> rfl
    · rw [if_neg heq, ofKey_cons_of_ne (Ne.symm heq), hs other]
  | @pop key pushes hpop =>
    obtain ⟨frames, hframes, hget⟩ := Pushes.get?_of_pop hpop
    rw [hget]
    change _ = frames? (ofKey other ((inForce s.events).eraseP _))
    by_cases heq : other = key
    · subst heq
      rw [if_pos rfl, ofKey_eraseP_self]
      rw [hs other] at hframes
      cases hmade : ofKey other (inForce s.events) with
      | nil => simp [hmade, frames?] at hframes
      | cons made rest =>
        rw [hmade] at hframes
        obtain rfl := Option.some_inj.mp hframes
        cases rest <;> rfl
    · rw [if_neg heq, ofKey_eraseP_of_ne heq, hs other]
  | choose => exact hs other

/-- In every state that an expansion reaches, the record is right about the pushes. -/
theorem agrees_of_reachable {g : Grammar} {s : ExpansionState (Recorded σ)}
    (h : Reachable g s) : Agrees s := by
  obtain ⟨source, hpath⟩ := h
  exact hpath.preserves (fun _ _ hstep => hstep.agrees) fun key => rfl

/-- The pops take, of each key, as many of the latest pushes as the tag made. -/
theorem popAll_takes_latest {own : List MadePush} {s t : ExpansionState (Recorded σ)}
    (hs : Agrees s) (h : outcome (popAll own) s = (.ok (), t)) (key : String) :
    (ofKey key own).length ≤ (ofKey key (inForce s.events)).length ∧
      ofKey key (inForce t.events) = (ofKey key (inForce s.events)).drop (ofKey key own).length := by
  induction own generalizing s with
  | nil =>
    cases h
    exact ⟨Nat.zero_le _, rfl⟩
  | cons made rest ih =>
    obtain ⟨_, u, hpop, hrest⟩ := outcome_bind_eq_ok.mp h
    obtain ⟨pushes, hq, rfl⟩ := outcome_pop_eq_ok hpop
    have hstep : Step .empty (fun _ => True) s ⟨pushes, ⟨s.source.source, .pop made.key :: s.events⟩⟩ :=
      .pop hq
    obtain ⟨hcount, hdrop⟩ := ih (hstep.agrees hs) hrest
    change _ ≤ (ofKey key ((inForce s.events).eraseP _)).length at hcount
    change _ = (ofKey key ((inForce s.events).eraseP _)).drop _ at hdrop
    by_cases heq : made.key = key
    · subst heq
      obtain ⟨frames, hframes, -⟩ := Pushes.get?_of_pop hq
      have hpos : 0 < (ofKey made.key (inForce s.events)).length := by
        rw [hs made.key] at hframes
        cases hmade : ofKey made.key (inForce s.events) with
        | nil => simp [hmade, frames?] at hframes
        | cons first others => simp
      rw [ofKey_eraseP_self, List.length_tail] at hcount
      rw [ofKey_eraseP_self, ← List.drop_one, List.drop_drop] at hdrop
      rw [ofKey_cons_self rfl, List.length_cons]
      refine ⟨by omega, ?_⟩
      rw [hdrop, Nat.add_comm]
    · rw [ofKey_eraseP_of_ne (Ne.symm heq)] at hcount hdrop
      rw [ofKey_cons_of_ne heq]
      exact ⟨hcount, hdrop⟩

/-- None of the tag's pushes is left, and no other push is gone. -/
def TakesExactly (own before after : List MadePush) : Prop :=
  (∀ made ∈ own, made ∉ after) ∧ ∀ made ∈ before, made ∉ own → made ∈ after

section Exact

variable {own before after : List MadePush} (hbefore : LatestFirst before)
  (hafter : ∀ key, ofKey key after = (ofKey key before).drop (ofKey key own).length)

include hbefore hafter

theorem stays_iff {made : MadePush} (hmade : made ∈ before) :
    made ∈ after ↔ made ∉ (ofKey made.key before).take (ofKey made.key own).length := by
  have hmem : made ∈ after ↔ made ∈ (ofKey made.key before).drop (ofKey made.key own).length := by
    rw [← hafter made.key, mem_ofKey, and_iff_left rfl]
  have hkey : made ∈ ofKey made.key before := mem_ofKey.mpr ⟨hmade, rfl⟩
  have hnodup : (ofKey made.key before).Nodup := hbefore.nodup.filter _
  rw [hmem]
  rw [← List.take_append_drop (ofKey made.key own).length (ofKey made.key before)] at hkey hnodup
  constructor
  · exact fun hdrop htake => (List.nodup_append.mp hnodup).2.2 made htake made hdrop rfl
  · exact (List.mem_append.mp hkey).resolve_left

/-- Pops that take the latest pushes take those of a tag exactly when these are the latest. -/
theorem takesExactly_iff (hown : LatestFirst own)
    (hcount : ∀ key, (ofKey key own).length ≤ (ofKey key before).length) :
    TakesExactly own before after ↔ ∀ key, ofKey key own <+: ofKey key before := by
  constructor
  · rintro ⟨-, hothers⟩ key
    have hsub : (ofKey key before).take (ofKey key own).length ⊆ ofKey key own := by
      intro made htake
      obtain ⟨hmade, rfl⟩ := mem_ofKey.mp (List.mem_of_mem_take htake)
      have hgone : made ∉ after := fun hstays => (stays_iff hbefore hafter hmade).mp hstays htake
      by_contra hnot
      exact hgone (hothers made hmade fun hmem => hnot (mem_ofKey.mpr ⟨hmem, rfl⟩))
    have hlength : (ofKey key own).length ≤
        ((ofKey key before).take (ofKey key own).length).length := by
      rw [List.length_take]
      exact le_min le_rfl (hcount key)
    -- the latest pushes are the tag's: both lists are in order, and there are as many of them
    have hlatest : LatestFirst ((ofKey key before).take (ofKey key own).length) :=
      (hbefore.ofKey key).sublist (List.take_sublist _ _)
    rw [← hlatest.eq_of_subset (hown.ofKey key) hsub hlength]
    exact List.take_prefix _ _
  · intro hfirst
    have htake : ∀ key, ofKey key own = (ofKey key before).take (ofKey key own).length :=
      fun key => List.prefix_iff_eq_take.mp (hfirst key)
    constructor
    · intro made hmade hstays
      have hkey : made ∈ ofKey made.key own := mem_ofKey.mpr ⟨hmade, rfl⟩
      have hold : made ∈ before := (mem_ofKey.mp ((hfirst made.key).subset hkey)).1
      rw [htake made.key] at hkey
      exact (stays_iff hbefore hafter hold).mp hstays hkey
    · intro made hmade hnot
      refine (stays_iff hbefore hafter hmade).mpr fun hmem => hnot ?_
      rw [← htake made.key] at hmem
      exact (mem_ofKey.mp hmem).1

end Exact

section Tags

variable [ChoiceSource σ] {g : Grammar} {limit levels : Nat} {s t : ExpansionState (Recorded σ)}

theorem moves_freely (g : Grammar) (limit levels : Nat) (t : Template) :
    Moves (σ := σ) g limit (fun _ => True) (expandTemplate g limit levels t) :=
  moves_expandTemplate (fun _ _ _ _ _ _ _ _ => trivial) limit levels t fun _ _ _ => trivial

section Deeper

variable {deeper : Template → Expansion (Recorded σ) String}
  (hdeeper : ∀ t, Moves g limit (fun _ => True) (deeper t))

include hdeeper

theorem runAction_made {a : Action} {made : List MadePush}
    (h : outcome (runAction deeper a) s = (.ok made, t)) :
    made.map key = a.pushKey?.toList ∧ LatestFirst made ∧
      ∀ push ∈ made, s.events.length ≤ push.serial ∧ push.serial < t.events.length := by
  cases a with
  | push key rules =>
    obtain ⟨frame, u, hframe, h⟩ := outcome_bind_eq_ok.mp h
    cases h
    have hmoves : Moves g limit (fun _ => True) (rules.mapM deeper) :=
      moves_mapM fun r _ => hdeeper r
    have hbefore := (hmoves.of_ok hframe).events_suffix.length_le
    refine ⟨rfl, List.pairwise_singleton _ _, fun push hpush => ?_⟩
    obtain rfl := List.mem_singleton.mp hpush
    exact ⟨hbefore, Nat.lt_succ_self _⟩
  | pop key =>
    obtain ⟨_, u, -, h⟩ := outcome_bind_eq_ok.mp h
    cases h
    exact ⟨rfl, List.Pairwise.nil, by simp⟩

theorem runActions_own {actions : List Action} {earlier own : List MadePush} {start : Nat}
    (h : outcome (runActions deeper actions earlier) s = (.ok own, t))
    (hstart : start ≤ s.events.length) (hlatest : LatestFirst earlier)
    (hearlier : ∀ push ∈ earlier, start ≤ push.serial ∧ push.serial < s.events.length) :
    own.map key = (actions.filterMap Action.pushKey?).reverse ++ earlier.map key ∧
      LatestFirst own ∧ ∀ push ∈ own, start ≤ push.serial := by
  induction actions generalizing s earlier with
  | nil =>
    cases h
    exact ⟨by simp, hlatest, fun push hpush => (hearlier push hpush).1⟩
  | cons a rest ih =>
    obtain ⟨made, u, hmade, h⟩ := outcome_bind_eq_ok.mp h
    obtain ⟨hkeys, hnew, hserials⟩ := runAction_made hdeeper hmade
    have hmoves : Moves g limit (fun _ => True) (runAction deeper a) :=
      moves_runAction (t := ⟨[.action a]⟩) (fun r _ => hdeeper r) (fun _ _ _ => trivial)
        (Template.mem_actions.mpr (.inl (by simp)))
    have hsu := (hmoves.of_ok hmade).events_suffix.length_le
    obtain ⟨hall, hown, hfrom⟩ := ih h (hstart.trans hsu)
      (List.pairwise_append.mpr ⟨hnew, hlatest, fun push hpush older holder =>
        lt_of_lt_of_le (hearlier older holder).2 (hserials push hpush).1⟩)
      (fun push hpush => by
        rcases List.mem_append.mp hpush with hpush | hpush
        · exact ⟨hstart.trans (hserials push hpush).1, (hserials push hpush).2⟩
        · exact ⟨(hearlier push hpush).1, lt_of_lt_of_le (hearlier push hpush).2 hsu⟩)
    refine ⟨?_, hown, hfrom⟩
    rw [hall, List.map_append, hkeys]
    cases hkey : a.pushKey? <;> simp [hkey]

end Deeper

/-- Up to its pops a tag makes one push for each key of its own. -/
theorem openTag_own {tag : Tag} {own : List MadePush} {text : String}
    (h : outcome (openTag (expandTemplate g limit levels) g tag) s = (.ok (own, text), t)) :
    Path g (fun _ => True) s t ∧ own.map key = tag.ownKeys.reverse ∧ LatestFirst own ∧
      ∀ made ∈ own, s.events.length ≤ made.serial := by
  have hopens : Moves (σ := σ) g limit (fun _ => True)
      (openTag (expandTemplate g limit levels) g tag) :=
    moves_openTag (t := ⟨[.tag tag]⟩) (fun _ _ _ _ _ _ _ _ => trivial)
      (fun r _ => moves_freely g limit levels r) (fun _ _ _ => trivial) (by simp)
  refine ⟨hopens.of_ok h, ?_⟩
  obtain ⟨made, u, hactions, h⟩ := outcome_bind_eq_ok.mp h
  obtain ⟨inner, v, -, h⟩ := outcome_bind_eq_ok.mp h
  obtain ⟨changed, w, -, h⟩ := outcome_bind_eq_ok.mp h
  cases h
  simpa [Tag.ownKeys] using
    runActions_own (moves_freely g limit levels) hactions le_rfl List.Pairwise.nil (by simp)

theorem tagEnd_of_ok {tag : Tag} {text : String} {e : ExpansionState σ}
    (h : outcome (Expansion.expandTag (Expansion.expandTemplate g limit levels) g tag) s.forget =
      (.ok text, e)) :
    ∃ own before after,
      outcome (openTag (expandTemplate g limit levels) g tag) s = (.ok (own, text), before) ∧
      outcome (popAll own) before = (.ok (), after) ∧ after.forget = e := by
  obtain ⟨_, after, hexpand, rfl, hforget⟩ :=
    (forgets_expandTag (forgets_expandTemplate g limit levels) g tag).of_ok h
  obtain ⟨⟨own, last⟩, before, hopen, hexpand⟩ := outcome_bind_eq_ok.mp hexpand
  obtain ⟨_, finished, hpops, hexpand⟩ := outcome_bind_eq_ok.mp hexpand
  cases hexpand
  exact ⟨own, before, after, hopen, hpops, hforget⟩

/-- A tag that gives a text ends with as many pops of each key as it made pushes of it, and each pop
takes the latest push of its key. So they take exactly the tag's own pushes just when these are the
latest of their keys. -/
theorem tagEnd_exact_iff {tag : Tag} {text : String} {e : ExpansionState σ} (hs : Reachable g s)
    (h : outcome (Expansion.expandTag (Expansion.expandTemplate g limit levels) g tag) s.forget =
      (.ok text, e)) :
    ∃ own before after,
      outcome (openTag (expandTemplate g limit levels) g tag) s = (.ok (own, text), before) ∧
      outcome (popAll own) before = (.ok (), after) ∧ after.forget = e ∧
      Agrees before ∧ Agrees after ∧
      own.map key = tag.ownKeys.reverse ∧ (∀ made ∈ own, s.events.length ≤ made.serial) ∧
      (∀ key, ofKey key (inForce after.events) =
        (ofKey key (inForce before.events)).drop (ofKey key own).length) ∧
      (TakesExactly own (inForce before.events) (inForce after.events) ↔
        ∀ key, ofKey key own <+: ofKey key (inForce before.events)) := by
  obtain ⟨own, before, after, hopen, hpops, hforget⟩ := tagEnd_of_ok h
  obtain ⟨hpath, hkeys, hlatest, hserials⟩ := openTag_own hopen
  obtain ⟨source, hstart⟩ := hs
  have hbefore : Agrees before := agrees_of_reachable ⟨source, hstart.trans hpath⟩
  have hcloses : Moves (σ := σ) g limit (fun _ => True) (popAll own) := moves_popAll own
  have hafter : Agrees after :=
    agrees_of_reachable ⟨source, (hstart.trans hpath).trans (hcloses.of_ok hpops)⟩
  have htaken := popAll_takes_latest hbefore hpops
  refine ⟨own, before, after, hopen, hpops, hforget, hbefore, hafter, hkeys, hserials,
    fun key => (htaken key).2, ?_⟩
  exact takesExactly_iff (latestFirst_inForce _) (fun key => (htaken key).2) hlatest
    fun key => (htaken key).1

end Tags

def bedtime : Grammar where
  rules := .ofList [("story", ⟨"story", [⟨[.tag (.bare "pet"), .literal " sleeps"]⟩]⟩)]
  modifiers := English.modifiers

def catTag : Tag := ⟨[.push "pet" [.literal "cat"]], "story", []⟩

theorem catTag_takes_own :
    ∃ own before after,
      outcome (openTag (expandTemplate bedtime 64 64) bedtime catTag) (.start (Script.of [0, 0])) =
        (.ok (own, "cat sleeps"), before) ∧
      outcome (popAll own) before = (.ok (), after) ∧
      TakesExactly own (inForce before.events) (inForce after.events) := by
  have hstart : Reachable bedtime (.start (Script.of [0, 0])) := ⟨Script.of [0, 0], .refl⟩
  have htext : outcome (Expansion.expandTag (Expansion.expandTemplate bedtime 64 64) bedtime catTag)
      (ExpansionState.start (Script.of [0, 0])).forget =
      (.ok "cat sleeps", ⟨.empty, Script.of []⟩) := rfl
  obtain ⟨own, before, after, hopen, hpops, -, -, -, -, -, -, hexact⟩ := tagEnd_exact_iff hstart htext
  refine ⟨own, before, after, hopen, hpops, hexact.mpr fun key => ?_⟩
  -- the tag's push is the only one in force
  cases hopen
  exact List.prefix_rfl

/-- The rule makes a push and leaves it to whoever comes after. -/
def untidy : Grammar where
  rules := .ofList [("x", ⟨"x", [⟨[.action (.push "k" [.literal "b"])]⟩]⟩)]
  modifiers := English.modifiers

def aroundUntidy : Tag := ⟨[.push "k" [.literal "a"]], "x", []⟩

/-- The tag takes the push of the rule, and its own stays for the next tag. -/
theorem aroundUntidy_takes_another :
    Grammar.ofRules [("x", ["[k:b]"])] = .ok untidy ∧
    (untidy.flatten "#[k:a]x##k#" (Script.of [0, 0])).1 = .ok "a" ∧
    ∃ own before after,
      outcome (openTag (expandTemplate untidy 64 64) untidy aroundUntidy)
        (.start (Script.of [0])) = (.ok (own, ""), before) ∧
      outcome (popAll own) before = (.ok (), after) ∧
      ¬ TakesExactly own (inForce before.events) (inForce after.events) := by
  refine ⟨?_, ?_, ?_⟩
  · have hparse : Template.parse "[k:b]" = .ok ⟨[.action (.push "k" [.literal "b"])]⟩ := by cbv
    simp only [Grammar.ofRules, Grammar.insertRule, List.foldlM_cons, List.mapM_cons, hparse]
    rfl
  · have hparse : Template.parse "#[k:a]x##k#" = .ok ⟨[.tag aroundUntidy, .tag (.bare "k")]⟩ := by
      cbv
    rw [Grammar.flatten, Grammar.flattenWithin, hparse]
    rfl
  · refine ⟨_, _, _, rfl, rfl, ?_⟩
    rintro ⟨hgone, -⟩
    exact hgone ⟨0, "k", ["a"]⟩ (by decide) (by decide)

end Recorded

end Announcer
