import Announcer.Grammar.Expansion
import Announcer.Proofs.Template.Levels

/-! # What an expansion keeps

An expansion ends with a result or a failure, and with the state that was reached. A contract says
what holds of the pushes at any time, which texts may come out and which failures may happen; its
laws are about one step each. Every expansion keeps a contract whose templates are as it asks.
-/
namespace Announcer

open Chance (ChoiceSource)

namespace Pushes

theorem get?_push (p : Pushes) (key other : String) (frame : Frame) :
    (p.push key frame).get? other =
      if other = key then some (frame :: (p.get? key).getD []) else p.get? other :=
  Table.get?_insert p key other _

theorem get?_of_pop {p q : Pushes} {key : String} (h : p.pop? key = some q) :
    ∃ frames, p.get? key = some frames ∧ ∀ other, q.get? other =
      if other = key then if frames.tail = [] then none else some frames.tail
      else p.get? other := by
  unfold pop? at h
  cases hold : p.get? key with
  | none => simp [hold] at h
  | some frames =>
    simp only [hold] at h
    refine ⟨frames, rfl, fun other => ?_⟩
    cases hbelow : frames.tail with
    | nil =>
      rw [hbelow] at h
      cases h
      simp [Table.get?_erase]
    | cons frame rest =>
      rw [hbelow] at h
      cases h
      simp [Table.get?_insert]

theorem pop?_eq_none {p : Pushes} {key : String} : p.pop? key = none ↔ p.get? key = none := by
  unfold pop?
  cases p.get? key with
  | none => simp
  | some held => cases hbelow : held.tail <;> simp [hbelow]

def Each (R : Frame → Prop) (p : Pushes) : Prop :=
  ∀ key frames, p.get? key = some frames → ∀ frame ∈ frames, R frame

variable {R : Frame → Prop} {p q : Pushes} {key : String} {frame : Frame}

theorem each_empty : Each R .empty := by
  intro key frames h
  cases h

theorem Each.push (hp : p.Each R) (h : R frame) : (p.push key frame).Each R := by
  intro other frames hget
  unfold Pushes.push at hget
  rw [Table.get?_insert] at hget
  split at hget
  next =>
    cases hget
    intro f hf
    rcases List.mem_cons.mp hf with rfl | hf
    · exact h
    · cases hold : p.get? key with
      | none => simp [hold] at hf
      | some frames => exact hp key frames hold f (by simpa [hold] using hf)
  next => exact hp other frames hget

theorem Each.pop (hp : p.Each R) (h : p.pop? key = some q) : q.Each R := by
  unfold pop? at h
  cases hold : p.get? key with
  | none => simp [hold] at h
  | some frames =>
    have hbelow : ∀ f ∈ frames.tail, R f := fun f hf => hp key frames hold f (List.mem_of_mem_tail hf)
    simp only [hold] at h
    intro other rest hget
    split at h
    all_goals
      cases h
      simp only [Table.get?_erase, Table.get?_insert] at hget
      split at hget
    next => cases hget
    next => exact hp other rest hget
    next heq _ =>
      cases hget
      exact hbelow
    next => exact hp other rest hget

theorem Each.top (hp : p.Each R) (h : p.top? key = some frame) : R frame := by
  unfold top? at h
  rw [Option.bind_eq_some_iff] at h
  obtain ⟨frames, hget, hhead⟩ := h
  exact hp key frames hget frame (List.mem_of_head? hhead)

end Pushes

namespace Expansion

theorem alternatives?_eq_some {g : Grammar} {pushes : Pushes} {symbol : String} {ts : List Template}
    (h : alternatives? g pushes symbol = some ts) :
    (∃ frame, pushes.top? symbol = some frame ∧ ts = frame.map Template.literal) ∨
      ∃ rule, g.rule? symbol = some rule ∧ ts = rule.alternatives := by
  unfold alternatives? at h
  cases htop : pushes.top? symbol with
  | some frame =>
    rw [htop] at h
    exact .inl ⟨frame, rfl, (Option.some_inj.mp h).symm⟩
  | none =>
    rw [htop] at h
    obtain ⟨rule, hrule, rfl⟩ := Option.map_eq_some_iff.mp h
    exact .inr ⟨rule, hrule, rfl⟩

theorem of_mem_alternatives? {P : Template → Prop} {g : Grammar} {pushes : Pushes}
    {symbol : String} {ts : List Template} (h : alternatives? g pushes symbol = some ts)
    (hliteral : ∀ text, P (.literal text))
    (hrule : ∀ rule, g.rule? symbol = some rule → ∀ t ∈ rule.alternatives, P t) :
    ∀ t ∈ ts, P t := by
  intro t ht
  rcases alternatives?_eq_some h with ⟨frame, -, rfl⟩ | ⟨rule, hfound, rfl⟩
  · obtain ⟨text, -, rfl⟩ := List.mem_map.mp ht
    exact hliteral text
  · exact hrule rule hfound t ht

theorem alternatives?_empty {g : Grammar} (symbol : String) :
    alternatives? g .empty symbol = (g.rule? symbol).map Rule.alternatives := by
  simp [alternatives?, Pushes.top?]

theorem alternatives?_eq_none {g : Grammar} {pushes : Pushes} {symbol : String}
    (h : alternatives? g pushes symbol = none) : g.rules.contains symbol = false := by
  unfold alternatives? at h
  cases htop : pushes.top? symbol with
  | some frame => simp [htop] at h
  | none => simpa [htop, Table.contains, Grammar.rule?] using h

/-- Modifiers neither choose nor push. Their calls give a text when all of them are registered and
fail at one that is not, whatever the source and the state. -/
theorem applyModifiers_pure_or_throw (g : Grammar) (calls : List ModifierCall) (text : String) :
    (∃ changed, (∀ call ∈ calls, g.modifiers.contains call.name = true) ∧
      ∀ σ : Type, (applyModifiers g calls text : Expansion σ String) = pure changed) ∨
    ∃ call ∈ calls, g.modifiers.contains call.name = false ∧ ∀ σ : Type,
      (applyModifiers g calls text : Expansion σ String) = throw (.unknownModifier call.name) := by
  induction calls generalizing text with
  | nil => exact .inl ⟨text, by simp, fun _ => rfl⟩
  | cons call rest ih =>
    cases hmodifier : g.modifiers.get? call.name with
    | none =>
      refine .inr ⟨call, by simp, by simp [Table.contains, hmodifier], fun σ => ?_⟩
      simp [applyModifiers, ModifierTable.transform?, hmodifier]
    | some modifier =>
      have hcall : g.modifiers.contains call.name = true := by simp [Table.contains, hmodifier]
      have hnext : ∀ σ : Type, (applyModifiers g (call :: rest) text : Expansion σ String) =
          applyModifiers g rest (modifier text call.params) := by
        intro σ
        simp [applyModifiers, ModifierTable.transform?, hmodifier]
      rcases ih (modifier text call.params) with ⟨changed, hrest, heq⟩ | ⟨other, hin, hunknown, heq⟩
      · exact .inl ⟨changed, by simpa [hcall] using hrest, fun σ => (hnext σ).trans (heq σ)⟩
      · exact .inr ⟨other, by simp [hin], hunknown, fun σ => (hnext σ).trans (heq σ)⟩

section Symbol

variable {σ : Type} [ChoiceSource σ] {g : Grammar} {deeper : Template → Expansion σ String}

theorem expandSymbol_blank : expandSymbol deeper g "" = pure "" := rfl

theorem expandSymbol_named {symbol : String} (h : symbol ≠ "") :
    expandSymbol deeper g symbol = select g symbol >>= deeper := by
  rw [expandSymbol, if_neg (by simpa using h)]

theorem expandTag_of_no_actions {tag : Tag} (h : tag.actions = []) :
    expandTag deeper g tag = expandSymbol deeper g tag.symbol >>= applyModifiers g tag.modifiers := by
  simp [expandTag, h, runActions, popAll]

theorem expandTemplate_tag {tag : Tag} (h : tag.actions = []) (limit levels : Nat) :
    (expandTemplate g limit (levels + 1) ⟨[.tag tag]⟩ : Expansion σ String) =
      expandSymbol (expandTemplate g limit levels) g tag.symbol >>=
        applyModifiers g tag.modifiers := by
  simp [expandTemplate, expandSegments, expandSegment, expandTag_of_no_actions h]

end Symbol

section Outcome

variable {σ α β : Type}

/-- How an expansion ends that begins in a state. -/
def outcome (m : Expansion σ α) (s : ExpansionState σ) :
    Except ExpansionError α × ExpansionState σ :=
  Id.run (StateT.run (ExceptT.run m) s)

@[simp] theorem outcome_pure (a : α) (s : ExpansionState σ) :
    outcome (pure a : Expansion σ α) s = (.ok a, s) := rfl

@[simp] theorem outcome_throw (e : ExpansionError) (s : ExpansionState σ) :
    outcome (throw e : Expansion σ α) s = (.error e, s) := rfl

theorem outcome_bind (m : Expansion σ α) (f : α → Expansion σ β) (s : ExpansionState σ) :
    outcome (m >>= f) s =
      match outcome m s with
      | (.ok a, t) => outcome (f a) t
      | (.error e, t) => (.error e, t) := by
  simp only [outcome, ExceptT.run_bind, StateT.run_bind, Id.run_bind]
  rcases Id.run ((ExceptT.run m).run s) with ⟨_ | _, t⟩ <;> rfl

@[simp] theorem outcome_get (s : ExpansionState σ) :
    outcome (get : Expansion σ (ExpansionState σ)) s = (.ok s, s) := rfl

theorem outcome_bind_of_ok {m : Expansion σ α} {f : α → Expansion σ β} {s t : ExpansionState σ}
    {a : α} (h : outcome m s = (.ok a, t)) : outcome (m >>= f) s = outcome (f a) t := by
  rw [outcome_bind, h]

theorem outcome_bind_eq_ok {m : Expansion σ α} {f : α → Expansion σ β} {s t : ExpansionState σ}
    {b : β} :
    outcome (m >>= f) s = (.ok b, t) ↔
      ∃ a u, outcome m s = (.ok a, u) ∧ outcome (f a) u = (.ok b, t) := by
  rw [outcome_bind]
  cases hm : outcome m s with
  | mk result u =>
    cases result with
    | ok a => simp
    | error e => simp

theorem length_of_mapM {f : α → Expansion σ β} {xs : List α} {ys : List β}
    {s t : ExpansionState σ} (h : outcome (xs.mapM f) s = (.ok ys, t)) : ys.length = xs.length := by
  induction xs generalizing s ys with
  | nil =>
    cases h
    rfl
  | cons x rest ih =>
    rw [List.mapM_cons] at h
    obtain ⟨y, u, -, h⟩ := outcome_bind_eq_ok.mp h
    obtain ⟨others, w, hothers, h⟩ := outcome_bind_eq_ok.mp h
    cases h
    rw [List.length_cons, List.length_cons, ih hothers]

theorem outcome_push (key : String) (frame : Frame) (s : ExpansionState σ) :
    outcome (push key frame) s = (.ok (), { s with pushes := s.pushes.push key frame }) := rfl

theorem outcome_pop (key : String) (s : ExpansionState σ) :
    outcome (pop key) s =
      match s.pushes.pop? key with
      | none => (.error (.popWithoutPush key), s)
      | some pushes => (.ok (), { s with pushes }) := by
  simp only [pop, outcome_bind, outcome_get]
  cases s.pushes.pop? key <;> rfl

theorem outcome_select [ChoiceSource σ] (g : Grammar) (symbol : String) (s : ExpansionState σ) :
    outcome (select g symbol) s =
      match alternatives? g s.pushes symbol with
      | none => (.error (.ruleNotFound symbol), s)
      | some alternatives =>
        if h : 0 < alternatives.length then
          (.ok (alternatives.get (ChoiceSource.choose alternatives.length h s.source).1),
            { s with source := (ChoiceSource.choose alternatives.length h s.source).2 })
        else (.error (.emptyRule symbol), s) := by
  simp only [select, outcome_bind, outcome_get]
  cases alternatives? g s.pushes symbol with
  | none => rfl
  | some alternatives =>
    by_cases h : 0 < alternatives.length
    · simp only [h, dite_true]
      rfl
    · simp only [h, dite_false]
      rfl

theorem outcome_select_single [ChoiceSource σ] {g : Grammar} {symbol : String} {t : Template}
    {s : ExpansionState σ} (h : alternatives? g s.pushes symbol = some [t]) :
    ∃ source, outcome (select g symbol) s = (.ok t, { s with source }) := by
  rw [outcome_select, h]
  exact ⟨_, by simp; rfl⟩

theorem run_eq [ChoiceSource σ] (g : Grammar) (limit : Nat) (t : Template) (source : σ) :
    run g limit t source =
      ((outcome (expandTemplate g limit (limit + 1) t) ⟨.empty, source⟩).1,
        (outcome (expandTemplate g limit (limit + 1) t) ⟨.empty, source⟩).2.source) := rfl

/-- The expansion ends with a result in `Q` or with a failure in `E`, and the state at its end is
part of what is asked. -/
def Ends (m : Expansion σ α) (s : ExpansionState σ) (Q : α → ExpansionState σ → Prop)
    (E : ExpansionError → ExpansionState σ → Prop) : Prop :=
  match outcome m s with
  | (.ok a, t) => Q a t
  | (.error e, t) => E e t

section Ends

variable {m : Expansion σ α} {f : α → Expansion σ β} {s t : ExpansionState σ}
  {Q : α → ExpansionState σ → Prop} {T : β → ExpansionState σ → Prop}
  {E : ExpansionError → ExpansionState σ → Prop}

theorem Ends.of_ok {a : α} (h : Ends m s Q E) (hm : outcome m s = (.ok a, t)) : Q a t := by
  rw [Ends, hm] at h
  exact h

theorem Ends.of_error {e : ExpansionError} (h : Ends m s Q E) (hm : outcome m s = (.error e, t)) :
    E e t := by
  rw [Ends, hm] at h
  exact h

theorem Ends.bind (hm : Ends m s Q E) (hf : ∀ a u, Q a u → Ends (f a) u T E) :
    Ends (m >>= f) s T E := by
  rw [Ends, outcome_bind]
  cases hend : outcome m s with
  | mk result u =>
    cases result with
    | ok a => exact hf a u (hm.of_ok hend)
    | error e => exact hm.of_error hend

end Ends

end Outcome

section Keeps

variable {σ α β : Type} {I : Pushes → Prop} {F : ExpansionError → Prop}

/-- Begun with pushes in `I`, the expansion ends with a result in `R` and pushes in `I`, or with a
failure in `F`. -/
def Keeps (I : Pushes → Prop) (m : Expansion σ α) (R : α → Prop) (F : ExpansionError → Prop) :
    Prop :=
  ∀ s, I s.pushes →
    match outcome m s with
    | (.ok a, t) => R a ∧ I t.pushes
    | (.error e, _) => F e

theorem Keeps.of_ok {m : Expansion σ α} {R : α → Prop} (h : Keeps I m R F)
    {s t : ExpansionState σ} {a : α} (hs : I s.pushes) (hm : outcome m s = (.ok a, t)) :
    R a ∧ I t.pushes := Ends.of_ok (h s hs) hm

theorem Keeps.of_error {m : Expansion σ α} {R : α → Prop} (h : Keeps I m R F)
    {s t : ExpansionState σ} {e : ExpansionError} (hs : I s.pushes)
    (hm : outcome m s = (.error e, t)) : F e := Ends.of_error (h s hs) hm

theorem keeps_pure {a : α} {R : α → Prop} (h : R a) : Keeps I (pure a : Expansion σ α) R F := by
  intro s hs
  rw [outcome_pure]
  exact ⟨h, hs⟩

theorem keeps_throw {e : ExpansionError} {R : α → Prop} (h : F e) :
    Keeps I (throw e : Expansion σ α) R F := by
  intro s _
  rw [outcome_throw]
  exact h

theorem Keeps.bind {m : Expansion σ α} {f : α → Expansion σ β} {R : α → Prop} {T : β → Prop}
    (hm : Keeps I m R F) (hf : ∀ a, R a → Keeps I (f a) T F) : Keeps I (m >>= f) T F :=
  fun s hs => Ends.bind (hm s hs) fun a t h => hf a h.1 t h.2

theorem Keeps.mono {m : Expansion σ α} {R T : α → Prop} (h : Keeps I m R F)
    (hR : ∀ a, R a → T a) : Keeps I m T F := by
  intro s hs
  cases hend : outcome m s with
  | mk result t =>
    cases result with
    | ok a =>
      obtain ⟨ha, ht⟩ := h.of_ok hs hend
      exact ⟨hR a ha, ht⟩
    | error e => exact h.of_error hs hend

theorem keeps_mapM {f : α → Expansion σ β} {R : β → Prop} {xs : List α}
    (h : ∀ x ∈ xs, Keeps I (f x) R F) :
    Keeps I (xs.mapM f) (fun ys => ys.length = xs.length ∧ ∀ y ∈ ys, R y) F := by
  induction xs with
  | nil =>
    rw [List.mapM_nil]
    exact keeps_pure ⟨rfl, by simp⟩
  | cons x rest ih =>
    rw [List.mapM_cons]
    apply Keeps.bind (h x (by simp))
    intro y hy
    apply Keeps.bind (ih fun z hz => h z (by simp [hz]))
    intro ys hys
    obtain ⟨hlength, hall⟩ := hys
    refine keeps_pure ⟨by simp [hlength], ?_⟩
    intro z hz
    rcases List.mem_cons.mp hz with rfl | hz
    · exact hy
    · exact hall z hz

theorem keeps_push {key : String} {frame : Frame} (h : ∀ p, I p → I (p.push key frame)) :
    Keeps I (push key frame : Expansion σ Unit) (fun _ => True) F := by
  intro s hs
  rw [outcome_push]
  exact ⟨trivial, h s.pushes hs⟩

theorem keeps_pop {key : String} (h : ∀ p q, I p → p.pop? key = some q → I q)
    (hnone : F (.popWithoutPush key)) :
    Keeps I (pop key : Expansion σ Unit) (fun _ => True) F := by
  intro s hs
  rw [outcome_pop]
  cases hq : s.pushes.pop? key with
  | none => exact hnone
  | some q => exact ⟨trivial, h s.pushes q hs hq⟩

theorem keeps_select [ChoiceSource σ] {g : Grammar} {symbol : String} {R : Template → Prop}
    (hnone : ∀ p, I p → alternatives? g p symbol = none → F (.ruleNotFound symbol))
    (hempty : ∀ p, I p → alternatives? g p symbol = some [] → F (.emptyRule symbol))
    (hmem : ∀ p ts, I p → alternatives? g p symbol = some ts → ∀ t ∈ ts, R t) :
    Keeps I (select g symbol : Expansion σ Template) R F := by
  intro s hs
  rw [outcome_select]
  cases hts : alternatives? g s.pushes symbol with
  | none => exact hnone s.pushes hs hts
  | some ts =>
    by_cases hlength : 0 < ts.length
    · simp only [hlength, dite_true]
      exact ⟨hmem s.pushes ts hs hts _ (List.getElem_mem _), hs⟩
    · obtain rfl : ts = [] := List.length_eq_zero_iff.mp (by omega)
      exact hempty s.pushes hs hts

end Keeps

/-- What the expansions by a grammar keep, and the laws of the single steps. -/
structure Contract (g : Grammar) where
  asks : Template.Requirement
  pushes : Pushes → Prop
  text : String → Prop
  fails : ExpansionError → Prop
  blank : text ""
  append : ∀ a b, text a → text b → text (a ++ b)
  literal : ∀ segments a, asks.segments segments → .literal a ∈ segments → text a
  modifier : ∀ tag call a b, asks.tag tag → call ∈ tag.modifiers → text a →
    g.modifiers.transform? call.name a call.params = some b → text b
  unregistered : ∀ tag call a, asks.tag tag → call ∈ tag.modifiers →
    g.modifiers.transform? call.name a call.params = none → fails (.unknownModifier call.name)
  push : ∀ p key rules frame, asks.action (.push key rules) → frame.length = rules.length →
    (∀ a ∈ frame, text a) → pushes p → pushes (p.push key frame)
  pop : ∀ p q key, pushes p → p.pop? key = some q → pushes q
  nothingPushed : ∀ key, fails (.popWithoutPush key)
  undefined : ∀ p tag, asks.tag tag → pushes p → tag.symbol ≠ "" →
    alternatives? g p tag.symbol = none → fails (.ruleNotFound tag.symbol)
  noAlternative : ∀ p tag, asks.tag tag → pushes p → tag.symbol ≠ "" →
    alternatives? g p tag.symbol = some [] → fails (.emptyRule tag.symbol)
  alternative : ∀ p tag ts, asks.tag tag → pushes p → tag.symbol ≠ "" →
    alternatives? g p tag.symbol = some ts → ∀ t ∈ ts, t.Meets asks
  tooDeep : ∀ levels, fails (.recursionLimit levels)

namespace Contract

variable {σ : Type} {g : Grammar} (c : Contract g) {deeper : Template → Expansion σ String}

def Deeper (c : Contract g) (deeper : Template → Expansion σ String) : Prop :=
  ∀ t, t.Meets c.asks → Keeps c.pushes (deeper t) c.text c.fails

theorem keeps_action {a : Action} (hdeeper : c.Deeper deeper) (ha : c.asks.action a)
    (hrules : ∀ r ∈ a.rules, r.Meets c.asks) :
    Keeps c.pushes (runAction deeper a) (fun _ => True) c.fails := by
  cases a with
  | push key rules =>
    apply Keeps.bind (keeps_mapM fun r hr => hdeeper r (hrules r hr))
    intro frame hframe
    exact keeps_push fun p hp => c.push p key rules frame ha hframe.1 hframe.2 hp
  | pop key => exact keeps_pop (fun p q hp hq => c.pop p q key hp hq) (c.nothingPushed key)

theorem keeps_actions {actions : List Action} (hdeeper : c.Deeper deeper)
    (ha : ∀ a ∈ actions, c.asks.action a)
    (hrules : ∀ a ∈ actions, ∀ r ∈ a.rules, r.Meets c.asks) (keys : List String) :
    Keeps c.pushes (runActions deeper actions keys) (fun _ => True) c.fails := by
  induction actions generalizing keys with
  | nil => exact keeps_pure trivial
  | cons a rest ih =>
    have hhead := c.keeps_action hdeeper (ha a (by simp)) (hrules a (by simp))
    have hrest : ∀ keys, Keeps c.pushes (runActions deeper rest keys) (fun _ => True) c.fails :=
      ih (fun b hb => ha b (by simp [hb])) fun b hb => hrules b (by simp [hb])
    apply Keeps.bind hhead
    intro _ _
    cases a with
    | push key rules => exact hrest _
    | pop key => exact hrest _

theorem keeps_popAll (keys : List String) :
    Keeps c.pushes (popAll keys : Expansion σ Unit) (fun _ => True) c.fails := by
  induction keys with
  | nil => exact keeps_pure trivial
  | cons key rest ih =>
    have hpop := keeps_pop (σ := σ) (fun p q hp hq => c.pop p q key hp hq) (c.nothingPushed key)
    exact hpop.bind fun _ _ => ih

theorem keeps_modifiers {tag : Tag} (htag : c.asks.tag tag) {calls : List ModifierCall}
    (hcalls : ∀ call ∈ calls, call ∈ tag.modifiers) {a : String} (ha : c.text a) :
    Keeps c.pushes (applyModifiers g calls a : Expansion σ String) c.text c.fails := by
  induction calls generalizing a with
  | nil => exact keeps_pure ha
  | cons call rest ih =>
    have hcall := hcalls call (by simp)
    unfold applyModifiers
    cases hb : g.modifiers.transform? call.name a call.params with
    | none => exact keeps_throw (c.unregistered tag call a htag hcall hb)
    | some b =>
      have htext := c.modifier tag call a b htag hcall ha hb
      exact ih (fun other ho => hcalls other (by simp [ho])) htext

variable [ChoiceSource σ]

theorem keeps_symbol {tag : Tag} (hdeeper : c.Deeper deeper) (htag : c.asks.tag tag) :
    Keeps c.pushes (expandSymbol deeper g tag.symbol) c.text c.fails := by
  by_cases hblank : tag.symbol = ""
  · rw [hblank, expandSymbol_blank]
    exact keeps_pure c.blank
  · have hselect : Keeps c.pushes (select g tag.symbol : Expansion σ Template)
        (Template.Meets c.asks) c.fails :=
      keeps_select (fun p hp h => c.undefined p tag htag hp hblank h)
        (fun p hp h => c.noAlternative p tag htag hp hblank h)
        fun p ts hp h => c.alternative p tag ts htag hp hblank h
    rw [expandSymbol_named hblank]
    exact hselect.bind fun t ht => hdeeper t ht

theorem keeps_tag {tag : Tag} (hdeeper : c.Deeper deeper) (htag : c.asks.tag tag)
    (ha : ∀ a ∈ tag.actions, c.asks.action a)
    (hrules : ∀ a ∈ tag.actions, ∀ r ∈ a.rules, r.Meets c.asks) :
    Keeps c.pushes (expandTag deeper g tag) c.text c.fails := by
  apply Keeps.bind (c.keeps_actions hdeeper ha hrules [])
  intro keys _
  apply Keeps.bind (c.keeps_symbol hdeeper htag)
  intro text htext
  apply Keeps.bind (c.keeps_modifiers htag (fun _ h => h) htext)
  intro changed hchanged
  exact (c.keeps_popAll keys).bind fun _ _ => keeps_pure hchanged

theorem keeps_segment {t : Template} {s : Segment} (hdeeper : c.Deeper deeper)
    (ht : t.Meets c.asks) (hs : s ∈ t.segments) :
    Keeps c.pushes (expandSegment deeper g s) c.text c.fails := by
  obtain ⟨hsegments, htags, hactions, hrules⟩ := Template.meets_iff.mp ht
  have hmem : ∀ a ∈ s.actions, a ∈ t.actions :=
    fun a ha => List.mem_flatMap.mpr ⟨s, hs, ha⟩
  have hdown : ∀ a ∈ s.actions, ∀ r ∈ a.rules, r.Meets c.asks :=
    fun a ha r hr => hrules r (List.mem_flatMap.mpr ⟨a, hmem a ha, hr⟩)
  cases s with
  | literal a => exact keeps_pure (c.literal _ a hsegments hs)
  | tag tag =>
    exact c.keeps_tag hdeeper (htags tag hs) (fun a ha => hactions a (hmem a ha)) hdown
  | action a =>
    have hself : a ∈ (Segment.action a).actions := by simp [Segment.actions]
    apply Keeps.bind (c.keeps_action hdeeper (hactions a (hmem a hself)) (hdown a hself))
    intro _ _
    exact keeps_pure c.blank

theorem keeps_segments {t : Template} {segments : List Segment} (hdeeper : c.Deeper deeper)
    (ht : t.Meets c.asks) (hs : ∀ s ∈ segments, s ∈ t.segments) :
    Keeps c.pushes (expandSegments deeper g segments) c.text c.fails := by
  induction segments with
  | nil => exact keeps_pure c.blank
  | cons s rest ih =>
    apply Keeps.bind (c.keeps_segment hdeeper ht (hs s (by simp)))
    intro a ha
    apply Keeps.bind (ih fun other ho => hs other (by simp [ho]))
    intro b hb
    exact keeps_pure (c.append a b ha hb)

theorem keeps_template (limit levels : Nat) :
    c.Deeper (σ := σ) (expandTemplate g limit levels) := by
  induction levels with
  | zero =>
    intro t _
    exact keeps_throw (c.tooDeep limit)
  | succ levels ih =>
    intro t ht
    exact c.keeps_segments ih ht fun _ h => h

theorem run_text {t : Template} (ht : t.Meets c.asks) (hstart : c.pushes .empty) {limit : Nat}
    {source : σ} {text : String} (h : (run g limit t source).1 = .ok text) : c.text text := by
  rw [run_eq] at h
  exact ((c.keeps_template limit (limit + 1) t ht).of_ok hstart (Prod.ext h rfl)).1

theorem run_failure {t : Template} (ht : t.Meets c.asks) (hstart : c.pushes .empty) {limit : Nat}
    {source : σ} {e : ExpansionError} (h : (run g limit t source).1 = .error e) : c.fails e := by
  rw [run_eq] at h
  exact (c.keeps_template limit (limit + 1) t ht).of_error hstart (Prod.ext h rfl)

end Contract

end Expansion

namespace Grammar

variable {σ : Type} [ChoiceSource σ] {g : Grammar} {origin : String} {source : σ}

theorem flatten_of_parse {t : Template} (h : Template.parse origin = .ok t) :
    g.flatten origin source = ((Expansion.run g maxDepth t source).1.mapError .expansion,
      (Expansion.run g maxDepth t source).2) := by
  rw [flatten, flattenWithin, h]

theorem flatten_eq_ok {text : String} {rest : σ} :
    g.flatten origin source = (.ok text, rest) ↔
      ∃ t, Template.parse origin = .ok t ∧ Expansion.run g maxDepth t source = (.ok text, rest) := by
  cases hparse : Template.parse origin with
  | error cause => simp [flatten, flattenWithin, hparse]
  | ok t =>
    rw [flatten_of_parse hparse]
    simp only [Except.ok.injEq, exists_eq_left']
    rcases Expansion.run g maxDepth t source with ⟨_ | made, left⟩ <;> simp [Except.mapError]

end Grammar

end Announcer
