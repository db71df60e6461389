import Announcer.Proofs.Expansion.Contract
import Announcer.Proofs.Grammar.Reached
import Mathlib

/-! # Expansions side by side

Which symbols an expansion asks for, which choices it makes and which keys it pushes depends on the
templates and the source, never on the texts that come out. So a grammar with all rules of another one
follows every expansion of it, whatever its modifiers make of the texts, up to the end or to a
modifier that it lacks.
-/
namespace Announcer

open Chance (ChoiceSource)

/-- Every tag of the template has the property, those in the rules of its pushes too. -/
def Template.EachTag (P : Tag → Prop) (t : Template) : Prop := ∀ tag ∈ t.tags, P tag

namespace Template.EachTag

variable {P : Tag → Prop} {t : Template}

theorem self {tag : Tag} (h : t.EachTag P) (htag : .tag tag ∈ t.segments) : P tag :=
  h tag (Template.mem_tags_iff.mpr (.here htag))

theorem rules {a : Action} (h : t.EachTag P) (ha : a ∈ t.actions) : ∀ r ∈ a.rules, r.EachTag P := by
  intro r hr tag htag
  have hrule : r ∈ t.rules := List.mem_flatMap.mpr ⟨a, ha, hr⟩
  exact h tag (Template.mem_tags_iff.mpr (.inside hrule (Template.mem_tags_iff.mp htag)))

theorem bare {symbol : String} (h : P (.bare symbol)) :
    Template.EachTag P ⟨[.tag (.bare symbol)]⟩ := List.forall_mem_singleton.mpr h

end Template.EachTag

namespace Pushes

variable {T : String → String → Prop} {p q : Pushes} {key : String}

/-- The same keys are pushed equally often, and the texts of the frames are in pairs. -/
def Alike (T : String → String → Prop) (p q : Pushes) : Prop :=
  ∀ key, Option.Rel (List.Forall₂ (List.Forall₂ T)) (p.get? key) (q.get? key)

theorem alike_empty : Alike T .empty .empty := fun _ => .none

theorem Alike.getD (h : p.Alike T q) (key : String) :
    List.Forall₂ (List.Forall₂ T) ((p.get? key).getD []) ((q.get? key).getD []) := by
  have hkey := h key
  revert hkey
  cases p.get? key <;> cases q.get? key <;> intro hkey <;> cases hkey
  · exact .nil
  · assumption

theorem Alike.push (h : p.Alike T q) {as bs : Frame} (hframe : List.Forall₂ T as bs) :
    (p.push key as).Alike T (q.push key bs) := by
  intro other
  rw [get?_push, get?_push]
  by_cases heq : other = key
  · rw [if_pos heq, if_pos heq]
    exact .some (.cons hframe (h.getD key))
  · rw [if_neg heq, if_neg heq]
    exact h other

theorem Alike.pop (h : p.Alike T q) {p' : Pushes} (hp : p.pop? key = some p') :
    ∃ q', q.pop? key = some q' ∧ p'.Alike T q' := by
  obtain ⟨frames, hframes, hleft⟩ := get?_of_pop hp
  have hkey := h key
  rw [hframes] at hkey
  cases hothers : q.get? key with
  | none => rw [hothers] at hkey; cases hkey
  | some others =>
    rw [hothers] at hkey
    have hpops : q.pop? key ≠ none := fun hnone => by simp [pop?_eq_none.mp hnone] at hothers
    obtain ⟨q', hq⟩ := Option.ne_none_iff_exists'.mp hpops
    obtain ⟨_, hsame, hright⟩ := get?_of_pop hq
    obtain rfl := Option.some_inj.mp (hothers.symm.trans hsame)
    refine ⟨q', hq, fun other => ?_⟩
    rw [hleft, hright]
    by_cases heq : other = key
    · rw [if_pos heq, if_pos heq]
      cases hkey with
      | some hall =>
        cases hall with
        | nil => exact .none
        | cons _ hbelow =>
          cases hbelow with
          | nil => exact .none
          | cons hframe hrest => exact .some (.cons hframe hrest)
    · rw [if_neg heq, if_neg heq]
      exact h other

theorem Alike.top (h : p.Alike T q) : Option.Rel (List.Forall₂ T) (p.top? key) (q.top? key) := by
  have hkey := h key
  unfold top?
  revert hkey
  cases p.get? key <;> cases q.get? key <;> intro hkey <;> cases hkey
  · exact .none
  next hframes =>
    cases hframes with
    | nil => exact .none
    | cons hframe _ => exact .some hframe

end Pushes

namespace Expansion

variable {σ α β γ δ : Type}

structure AlikeStates (T : String → String → Prop) (s t : ExpansionState σ) : Prop where
  source : s.source = t.source
  pushes : s.pushes.Alike T t.pushes

/-- Whenever the first expansion gives a result, the second one gives a related result and is left in
an alike state, or it has one of the failures. -/
def Mirrors (T : String → String → Prop) (F : ExpansionError → Prop) (R : α → β → Prop)
    (m : Expansion σ α) (n : Expansion σ β) : Prop :=
  ∀ s t a s', AlikeStates T s t → outcome m s = (.ok a, s') →
    Ends n t (fun b t' => R a b ∧ AlikeStates T s' t') fun e _ => F e

section Mirrors

variable {T : String → String → Prop} {F : ExpansionError → Prop} {R : α → β → Prop}
  {Q : γ → δ → Prop}

theorem mirrors_pure {a : α} {b : β} (h : R a b) :
    Mirrors T F R (pure a : Expansion σ α) (pure b) := by
  intro s t a' s' hst hm
  cases hm
  exact ⟨h, hst⟩

theorem Mirrors.bind {m : Expansion σ α} {n : Expansion σ β} {f : α → Expansion σ γ}
    {k : β → Expansion σ δ} (hm : Mirrors T F R m n)
    (hf : ∀ a b, R a b → Mirrors T F Q (f a) (k b)) : Mirrors T F Q (m >>= f) (n >>= k) := by
  intro s t c u hst h
  obtain ⟨a, v, hfirst, hlast⟩ := outcome_bind_eq_ok.mp h
  apply Ends.bind (hm s t a v hst hfirst)
  intro b w hbw
  exact hf a b hbw.1 v w c u hbw.2 hlast

theorem mirrors_mapM {f : γ → Expansion σ α} {k : γ → Expansion σ β} {xs : List γ}
    (h : ∀ x ∈ xs, Mirrors T F R (f x) (k x)) :
    Mirrors T F (List.Forall₂ R) (xs.mapM f) (xs.mapM k) := by
  induction xs with
  | nil => exact mirrors_pure .nil
  | cons x rest ih =>
    rw [List.mapM_cons, List.mapM_cons]
    apply Mirrors.bind (h x (by simp))
    intro a b hab
    apply Mirrors.bind (ih fun y hy => h y (by simp [hy]))
    intro as bs hrest
    exact mirrors_pure (.cons hab hrest)

theorem mirrors_push {key : String} {as bs : Frame} (h : List.Forall₂ T as bs) :
    Mirrors T F (fun _ _ => True) (push key as : Expansion σ Unit) (push key bs) := by
  intro s t _ s' hst hm
  cases hm
  exact ⟨trivial, hst.source, hst.pushes.push h⟩

theorem mirrors_pop (key : String) :
    Mirrors T F (fun _ _ => True) (pop key : Expansion σ Unit) (pop key) := by
  intro s t _ s' hst hm
  rw [outcome_pop] at hm
  cases hpop : s.pushes.pop? key with
  | none => simp [hpop] at hm
  | some p =>
    rw [hpop] at hm
    cases hm
    obtain ⟨q, hq, halike⟩ := hst.pushes.pop hpop
    rw [Ends, outcome_pop, hq]
    exact ⟨trivial, hst.source, halike⟩

theorem mirrors_popAll (keys : List String) :
    Mirrors T F (fun _ _ => True) (popAll keys : Expansion σ Unit) (popAll keys) := by
  induction keys with
  | nil => exact mirrors_pure trivial
  | cons key rest ih => exact (mirrors_pop key).bind fun _ _ _ => ih

end Mirrors

/-- What a symbol leads to in both: one template of the first grammar, or two pushed texts. -/
inductive Twins (T : String → String → Prop) (P : Template → Prop) : Template → Template → Prop where
  | same {t} : P t → Twins T P t t
  | texts {a b} : T a b → Twins T P (.literal a) (.literal b)

/-- How a second grammar follows the expansions of a first one. -/
structure Mirror (g h : Grammar) where
  tag : Tag → Prop
  text : String → String → Prop
  fails : ExpansionError → Prop
  same : ∀ a, text a a
  append : ∀ a b c d, text a b → text c d → text (a ++ c) (b ++ d)
  rules : ∀ name rule, g.rule? name = some rule → h.rule? name = some rule
  tags : g.Each (Template.EachTag tag)
  modifier : ∀ t call a b c, tag t → call ∈ t.modifiers → text a b →
    g.modifiers.transform? call.name a call.params = some c →
    (∃ d, h.modifiers.transform? call.name b call.params = some d ∧ text c d) ∨
      h.modifiers.transform? call.name b call.params = none ∧ fails (.unknownModifier call.name)

namespace Mirror

variable {g h : Grammar} (m : Mirror g h) {left right : Template → Expansion σ String}

def Deeper (m : Mirror g h) (left right : Template → Expansion σ String) : Prop :=
  ∀ t u, Twins m.text (Template.EachTag m.tag) t u →
    Mirrors m.text m.fails m.text (left t) (right u)

theorem mirrors_action {a : Action} (hdeeper : m.Deeper left right)
    (ha : ∀ r ∈ a.rules, r.EachTag m.tag) :
    Mirrors m.text m.fails (fun _ _ => True) (runAction left a) (runAction right a) := by
  cases a with
  | push key rules =>
    apply Mirrors.bind (mirrors_mapM fun r hr => hdeeper r r (.same (ha r hr)))
    intro as bs hframe
    exact mirrors_push hframe
  | pop key => exact mirrors_pop key

theorem mirrors_actions {actions : List Action} (hdeeper : m.Deeper left right)
    (ha : ∀ a ∈ actions, ∀ r ∈ a.rules, r.EachTag m.tag) (keys : List String) :
    Mirrors m.text m.fails Eq (runActions left actions keys) (runActions right actions keys) := by
  induction actions generalizing keys with
  | nil => exact mirrors_pure rfl
  | cons a rest ih =>
    have hrest : ∀ keys, Mirrors m.text m.fails Eq (runActions left rest keys)
        (runActions right rest keys) := ih fun b hb => ha b (by simp [hb])
    apply Mirrors.bind (m.mirrors_action hdeeper (ha a (by simp)))
    intro _ _ _
    cases a with
    | push key rules => exact hrest _
    | pop key => exact hrest _

theorem mirrors_modifiers {tag : Tag} (htag : m.tag tag) {calls : List ModifierCall}
    (hcalls : ∀ call ∈ calls, call ∈ tag.modifiers) {a b : String} (hab : m.text a b) :
    Mirrors m.text m.fails m.text (applyModifiers g calls a : Expansion σ String)
      (applyModifiers h calls b) := by
  induction calls generalizing a b with
  | nil => exact mirrors_pure hab
  | cons call rest ih =>
    intro s t c s' hst hm
    unfold applyModifiers at hm ⊢
    cases hc : g.modifiers.transform? call.name a call.params with
    | none => simp [hc] at hm
    | some made =>
      rw [hc] at hm
      rcases m.modifier tag call a b made htag (hcalls call (by simp)) hab hc with
        ⟨d, hd, hmade⟩ | ⟨hnone, hfails⟩
      · rw [hd]
        exact ih (fun other ho => hcalls other (by simp [ho])) hmade s t c s' hst hm
      · rw [hnone]
        exact hfails

variable [ChoiceSource σ]

theorem alternatives_twins {p q : Pushes} (hpq : p.Alike m.text q) {symbol : String}
    {ts : List Template} (hts : alternatives? g p symbol = some ts) :
    ∃ us, alternatives? h q symbol = some us ∧
      List.Forall₂ (Twins m.text (Template.EachTag m.tag)) ts us := by
  have htop : Option.Rel (List.Forall₂ m.text) (p.top? symbol) (q.top? symbol) := hpq.top
  unfold alternatives? at hts ⊢
  cases hp : p.top? symbol with
  | none =>
    rw [hp] at htop hts
    cases hq : q.top? symbol with
    | some bs => rw [hq] at htop; cases htop
    | none =>
      obtain ⟨rule, hrule, rfl⟩ := Option.map_eq_some_iff.mp hts
      refine ⟨rule.alternatives, by rw [m.rules symbol rule hrule]; rfl, ?_⟩
      exact List.forall₂_same.mpr fun t ht => .same (m.tags symbol rule hrule t ht)
  | some as =>
    rw [hp] at htop hts
    cases hq : q.top? symbol with
    | none => rw [hq] at htop; cases htop
    | some bs =>
      rw [hq] at htop
      cases hts
      cases htop with
      | some hframe =>
        refine ⟨bs.map Template.literal, rfl, ?_⟩
        rw [List.forall₂_map_left_iff, List.forall₂_map_right_iff]
        exact hframe.imp fun _ _ hab => .texts hab

theorem chosen_twins {R : α → β → Prop} {ts : List α} {us : List β}
    (h : List.Forall₂ R ts us) (hts : 0 < ts.length) (hus : 0 < us.length) (source : σ) :
    R (ts.get (ChoiceSource.choose ts.length hts source).1)
        (us.get (ChoiceSource.choose us.length hus source).1) ∧
      (ChoiceSource.choose ts.length hts source).2 =
        (ChoiceSource.choose us.length hus source).2 := by
  have hsame : ∀ n (hn : 0 < n), n = ts.length →
      (ChoiceSource.choose n hn source).1.val = (ChoiceSource.choose ts.length hts source).1.val ∧
        (ChoiceSource.choose n hn source).2 = (ChoiceSource.choose ts.length hts source).2 := by
    rintro n hn rfl
    exact ⟨rfl, rfl⟩
  obtain ⟨hplace, hrest⟩ := hsame us.length hus h.length_eq.symm
  refine ⟨?_, hrest.symm⟩
  have hbound := hplace ▸ (ChoiceSource.choose us.length hus source).1.isLt
  have hpair := h.get (ChoiceSource.choose ts.length hts source).1.isLt hbound
  rwa [← Fin.ext (a := (ChoiceSource.choose us.length hus source).1) (b := ⟨_, hbound⟩) hplace]
    at hpair

theorem mirrors_select (symbol : String) :
    Mirrors m.text m.fails (Twins m.text (Template.EachTag m.tag))
      (select g symbol : Expansion σ Template) (select h symbol) := by
  intro s t chosen s' hst hm
  rw [outcome_select] at hm
  cases hts : alternatives? g s.pushes symbol with
  | none => simp [hts] at hm
  | some ts =>
    obtain ⟨us, hus, htwins⟩ := m.alternatives_twins hst.pushes hts
    simp only [hts] at hm
    split at hm
    next hpositive =>
      cases hm
      have hothers : 0 < us.length := htwins.length_eq ▸ hpositive
      obtain ⟨hchosen, hrest⟩ := chosen_twins htwins hpositive hothers s.source
      rw [Ends, outcome_select, hus]
      simp only [hothers, dite_true, ← hst.source]
      exact ⟨hchosen, hrest, hst.pushes⟩
    next => cases hm

theorem mirrors_symbol {symbol : String} (hdeeper : m.Deeper left right) :
    Mirrors m.text m.fails m.text (expandSymbol left g symbol) (expandSymbol right h symbol) := by
  by_cases hblank : symbol = ""
  · rw [hblank, expandSymbol_blank, expandSymbol_blank]
    exact mirrors_pure (m.same "")
  · rw [expandSymbol_named hblank, expandSymbol_named hblank]
    exact (m.mirrors_select symbol).bind hdeeper

theorem mirrors_tag {tag : Tag} (hdeeper : m.Deeper left right) (htag : m.tag tag)
    (hrules : ∀ a ∈ tag.actions, ∀ r ∈ a.rules, r.EachTag m.tag) :
    Mirrors m.text m.fails m.text (expandTag left g tag) (expandTag right h tag) := by
  apply Mirrors.bind (m.mirrors_actions hdeeper hrules [])
  rintro keys _ rfl
  apply Mirrors.bind (m.mirrors_symbol hdeeper)
  intro a b hab
  apply Mirrors.bind (m.mirrors_modifiers htag (fun _ hcall => hcall) hab)
  intro c d hcd
  exact (mirrors_popAll keys).bind fun _ _ _ => mirrors_pure hcd

theorem mirrors_segment {t : Template} {segment : Segment} (hdeeper : m.Deeper left right)
    (ht : t.EachTag m.tag) (hs : segment ∈ t.segments) :
    Mirrors m.text m.fails m.text (expandSegment left g segment)
      (expandSegment right h segment) := by
  cases segment with
  | literal text => exact mirrors_pure (m.same text)
  | tag tag =>
    have hrules : ∀ a ∈ tag.actions, ∀ r ∈ a.rules, r.EachTag m.tag :=
      fun a ha => ht.rules (Template.mem_actions.mpr (.inr ⟨tag, hs, ha⟩))
    exact m.mirrors_tag hdeeper (ht.self hs) hrules
  | action a =>
    have hrules := ht.rules (Template.mem_actions.mpr (.inl hs))
    exact (m.mirrors_action hdeeper hrules).bind fun _ _ _ => mirrors_pure (m.same "")

theorem mirrors_segments {t : Template} {segments : List Segment} (hdeeper : m.Deeper left right)
    (ht : t.EachTag m.tag) (hs : ∀ segment ∈ segments, segment ∈ t.segments) :
    Mirrors m.text m.fails m.text (expandSegments left g segments)
      (expandSegments right h segments) := by
  induction segments with
  | nil => exact mirrors_pure (m.same "")
  | cons segment rest ih =>
    apply Mirrors.bind (m.mirrors_segment hdeeper ht (hs segment (by simp)))
    intro a b hab
    apply Mirrors.bind (ih fun other ho => hs other (by simp [ho]))
    intro c d hcd
    exact mirrors_pure (m.append a b c d hab hcd)

theorem mirrors_template (limit levels : ℕ) :
    m.Deeper (σ := σ) (expandTemplate g limit levels) (expandTemplate h limit levels) := by
  induction levels with
  | zero =>
    intro t u _ s v a s' _ hm
    cases hm
  | succ levels ih =>
    intro t u htwins
    cases htwins with
    | same ht => exact m.mirrors_segments ih ht fun _ hs => hs
    | texts hab => exact mirrors_pure (m.append _ _ _ _ hab (m.same ""))

/-- Where the first grammar gives a text, the second one gives a text that goes with it and leaves
the same source, or it fails as the mirror lets it. -/
theorem run_follows {t : Template} (ht : t.EachTag m.tag) {limit : ℕ} {source rest : σ}
    {text : String} (hrun : run g limit t source = (.ok text, rest)) :
    (∃ other, m.text text other ∧ run h limit t source = (.ok other, rest)) ∨
      ∃ e, m.fails e ∧ (run h limit t source).1 = .error e := by
  rw [run_eq] at hrun
  obtain ⟨hok, hrest⟩ := Prod.mk.inj hrun
  have hends := m.mirrors_template limit (limit + 1) t t (.same ht) ⟨.empty, source⟩
    ⟨.empty, source⟩ text _ ⟨rfl, Pushes.alike_empty⟩ (Prod.ext hok rfl)
  rw [run_eq]
  cases hend : outcome (expandTemplate h limit (limit + 1) t) ⟨.empty, source⟩ with
  | mk result u =>
    cases result with
    | ok other =>
      obtain ⟨hother, halike⟩ := hends.of_ok hend
      exact .inl ⟨other, hother, Prod.ext rfl (halike.source.symm.trans hrest)⟩
    | error e => exact .inr ⟨e, hends.of_error hend, rfl⟩

end Mirror

end Expansion

end Announcer
