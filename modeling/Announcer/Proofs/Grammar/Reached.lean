import Announcer.Grammar.Load
import Announcer.Proofs.Template.NormalForm

/-! # Reached grammars

Grammars come from the loaders and change by insertions, merges and new modifiers. Every template
in such a grammar was read from a text, so it is in normal form.
-/
namespace Announcer

namespace Table

variable {β : Type}

theorem get?_foldl_insert (key : String) {entries : List (String × β)}
    (h : entries.Pairwise (fun a b => a.1 < b.1)) (t : Table β) :
    (entries.foldl (fun t e => t.insert e.1 e.2) t).get? key =
      (entries.lookup key).or (t.get? key) := by
  induction entries generalizing t with
  | nil => rfl
  | cons head rest ih =>
    obtain ⟨name, value⟩ := head
    obtain ⟨hhead, hrest⟩ := List.pairwise_cons.mp h
    rw [List.foldl_cons, ih hrest, get?_insert, List.lookup_cons]
    by_cases hkey : key = name
    · subst hkey
      -- the order keeps a name from coming a second time
      have hnone : rest.lookup key = none := by
        rw [List.lookup_eq_none_iff]
        intro e he
        have hne : key ≠ e.1 := fun heq => String.lt_irrefl e.1 (heq ▸ hhead e he)
        simpa using hne
      simp [hnone]
    · simp [hkey, beq_eq_false_iff_ne.mpr hkey]

theorem get?_override (t other : Table β) (key : String) :
    (t.override other).get? key = (other.get? key).or (t.get? key) :=
  get?_foldl_insert key other.ordered t

end Table

namespace Grammar

/-- The grammars that the loaders and the changes to a grammar lead to. -/
inductive Reached : Grammar → Prop where
  | empty : Reached empty
  | rules {rules g} : ofRules rules = .ok g → Reached g
  | text {format text g} : ofText format text = .ok g → Reached g
  | file {format files path g} : loadAs format files path = .ok g → Reached g
  | insert {g name texts h} : Reached g → g.insertRule name texts = .ok h → Reached h
  | merge {g h} : Reached g → Reached h → Reached (g.merge h)
  | modifier {g} (name modifier) : Reached g → Reached (g.addModifier name modifier)

section Induction

variable {P : Grammar → Prop} (hempty : P Grammar.empty)
  (hinsert : ∀ g name texts h, P g → g.insertRule name texts = .ok h → P h)

include hempty hinsert

theorem ofRules_induction {rules : List (String × List String)} {g : Grammar}
    (h : ofRules rules = .ok g) : P g := by
  have hfold : ∀ (rules : List (String × List String)) (start : Grammar), P start →
      rules.foldlM (fun g rule => g.insertRule rule.1 rule.2) start = .ok g → P g := by
    intro rules
    induction rules with
    | nil =>
      intro start hstart h
      cases h
      exact hstart
    | cons rule rest ih =>
      intro start hstart h
      rw [List.foldlM_cons, bind_eq_ok] at h
      obtain ⟨next, hnext, h⟩ := h
      exact ih next (hinsert start rule.1 rule.2 next hstart hnext) h
  exact hfold rules empty hempty h

theorem ofText_induction {format : RuleFormat} {text : String} {g : Grammar}
    (h : ofText format text = .ok g) : P g := by
  have htable : ∀ rules, ofTable rules = .ok g → P g := by
    intro rules h
    unfold ofTable at h
    cases hrules : ofRules rules.entries with
    | error e => simp [hrules, Except.mapError] at h
    | ok other =>
      obtain rfl : other = g := by simpa [hrules, Except.mapError] using h
      exact ofRules_induction hempty hinsert hrules
  cases format with
  | json =>
    change ofJson text = .ok g at h
    unfold ofJson at h
    rw [bind_eq_ok] at h
    obtain ⟨rules, -, h⟩ := h
    exact htable rules h
  | ron =>
    change ofRon text = .ok g at h
    unfold ofRon at h
    split at h
    next => cases h
    next rules _ => exact htable _ h

/-- What the changes to a grammar preserve holds of every reached grammar: the loaders insert one
rule after the other. -/
theorem Reached.changes {g : Grammar} (h : g.Reached)
    (hmerge : ∀ g h, P g → P h → P (g.merge h))
    (hmodifier : ∀ g name modifier, P g → P (g.addModifier name modifier)) : P g := by
  induction h with
  | empty => exact hempty
  | rules h => exact ofRules_induction hempty hinsert h
  | text h => exact ofText_induction hempty hinsert h
  | file h =>
    unfold loadAs at h
    rw [bind_eq_ok] at h
    obtain ⟨text, -, h⟩ := h
    exact ofText_induction hempty hinsert h
  | insert _ hinserted ih => exact hinsert _ _ _ _ ih hinserted
  | merge _ _ ihg ihh => exact hmerge _ _ ihg ihh
  | modifier name modifier _ ih => exact hmodifier _ name modifier ih

end Induction

def Each (P : Template → Prop) (g : Grammar) : Prop :=
  ∀ name rule, g.rule? name = some rule → ∀ t ∈ rule.alternatives, P t

theorem Each.insertRule {P : Template → Prop} {g h : Grammar} {name : String}
    {texts : List String} (hg : g.Each P) (hparse : ∀ text t, Template.parse text = .ok t → P t)
    (hinserted : g.insertRule name texts = .ok h) : h.Each P := by
  unfold Grammar.insertRule at hinserted
  rw [bind_eq_ok] at hinserted
  obtain ⟨alternatives, hall, hinserted⟩ := hinserted
  cases hinserted
  intro other rule hrule t ht
  unfold rule? at hrule
  rw [Table.get?_insert] at hrule
  split at hrule
  next =>
    cases hrule
    obtain ⟨text, -, htext⟩ := mem_of_mapM hall ht
    exact hparse text t htext
  next => exact hg other rule hrule t ht

theorem Each.merge {P : Template → Prop} {g h : Grammar} (hg : g.Each P) (hh : h.Each P) :
    (g.merge h).Each P := by
  intro name rule hrule t ht
  unfold rule? Grammar.merge at hrule
  rw [Table.get?_override, Option.or_eq_some_iff] at hrule
  rcases hrule with hrule | ⟨-, hrule⟩
  · exact hh name rule hrule t ht
  · exact hg name rule hrule t ht

theorem Reached.each {P : Template → Prop} {g : Grammar} (h : g.Reached)
    (hparse : ∀ text t, Template.parse text = .ok t → P t) : g.Each P := by
  refine h.changes ?_ ?_ ?_ ?_
  · intro name rule hrule
    cases hrule
  · exact fun g name texts h hg hinserted => hg.insertRule hparse hinserted
  · exact fun g h hg hh => hg.merge hh
  · exact fun g name modifier hg => hg

theorem Reached.normal {g : Grammar} (h : g.Reached) : g.Each Template.Normal :=
  h.each fun _ _ => Template.parse_normal

end Grammar

end Announcer
