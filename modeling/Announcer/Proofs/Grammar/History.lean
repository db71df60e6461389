import Announcer.Proofs.Grammar.Reached

/-! # The history of a grammar

A grammar is loaded, gets rules and modifiers and takes in the rules of others. Whatever fails on
the way leaves it as it was. At the end of any history each rule stands under its own name and all
templates are in normal form, so nothing that uses a grammar has to check it again.
-/
namespace Announcer

/-- What is done to a grammar. One that is merged has a history of its own. -/
inductive Change where
  | load (rules : List (String × List String))
  | read (format : RuleFormat) (text : String)
  | insert (name : String) (texts : List String)
  | merge (other : List Change)
  | addModifier (name : String) (modifier : Modifier)

namespace Grammar

mutual

/-- Loading starts anew. What cannot be read is no change. -/
def change (g : Grammar) : Change → Grammar
  | .load rules => (ofRules rules).toOption.getD g
  | .read format text => (ofText format text).toOption.getD g
  | .insert name texts => (g.insertRule name texts).toOption.getD g
  | .merge other => g.merge (changeAll empty other)
  | .addModifier name modifier => g.addModifier name modifier

def changeAll (g : Grammar) : List Change → Grammar
  | [] => g
  | first :: rest => changeAll (g.change first) rest

end

def ofHistory (history : List Change) : Grammar := changeAll empty history

/-- Every rule stands under its own name, and its templates are in normal form on every level. -/
structure WellFormed (g : Grammar) : Prop where
  named : ∀ entry ∈ g.rules.entries, entry.2.name = entry.1
  normal : ∀ entry ∈ g.rules.entries, ∀ t ∈ entry.2.alternatives, t.Normal

def Named (g : Grammar) : Prop := ∀ name rule, g.rule? name = some rule → rule.name = name

theorem Reached.named {g : Grammar} (hg : g.Reached) : g.Named := by
  refine hg.changes (P := Named) ?_ ?_ ?_ ?_
  · intro name rule hrule
    cases hrule
  · intro g inserted texts h hnamed hinserted name rule hrule
    unfold insertRule at hinserted
    obtain ⟨alternatives, -, hinserted⟩ := bind_eq_ok.mp hinserted
    cases hinserted
    unfold rule? at hrule
    rw [Table.get?_insert] at hrule
    by_cases hname : name = inserted
    · rw [if_pos hname] at hrule
      cases hrule
      exact hname.symm
    · rw [if_neg hname] at hrule
      exact hnamed name rule hrule
  · intro g h hg hh name rule hrule
    unfold rule? Grammar.merge at hrule
    rw [Table.get?_override, Option.or_eq_some_iff] at hrule
    rcases hrule with hother | ⟨-, hown⟩
    · exact hh name rule hother
    · exact hg name rule hown
  · exact fun _ _ _ hnamed => hnamed

theorem Reached.wellFormed {g : Grammar} (hg : g.Reached) : g.WellFormed where
  named entry he := hg.named entry.1 entry.2 (Table.get?_eq_some_iff.mpr he)
  normal entry he := hg.normal entry.1 entry.2 (Table.get?_eq_some_iff.mpr he)

theorem Reached.or_else {ε : Type} {g : Grammar} {result : Except ε Grammar} (hg : g.Reached)
    (h : ∀ other, result = .ok other → other.Reached) : (result.toOption.getD g).Reached := by
  cases result with
  | error e => exact hg
  | ok other => exact h other rfl

-- A merge has a history inside, so the two go by one recursion over changes and histories.
mutual

theorem Reached.change {g : Grammar} (hg : g.Reached) (c : Change) : (g.change c).Reached := by
  cases c with
  | load rules => exact hg.or_else fun _ h => .rules h
  | read format text => exact hg.or_else fun _ h => .text h
  | insert name texts => exact hg.or_else fun _ h => .insert hg h
  | merge other => exact .merge hg (Reached.changeAll .empty other)
  | addModifier name modifier => exact .modifier name modifier hg

theorem Reached.changeAll {g : Grammar} (hg : g.Reached) (history : List Change) :
    (g.changeAll history).Reached := by
  cases history with
  | nil => exact hg
  | cons first rest => exact Reached.changeAll (hg.change first) rest

end

/-- However a grammar came about, its rules are under their names and its templates in normal form. -/
theorem ofHistory_wellFormed (history : List Change) : (ofHistory history).WellFormed :=
  (Reached.changeAll .empty history).wellFormed

end Grammar

end Announcer
