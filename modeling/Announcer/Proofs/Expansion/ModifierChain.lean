import Announcer.Proofs.Expansion.Contract
import Mathlib

/-! # Modifier chains

The modifiers of a tag see the text of its symbol and nothing else of the expansion. So a tag
without actions is its symbol alone, and then a chain of functions from the left that breaks at the
first name without a modifier. Names are looked up when their turn comes, after the symbol has made
its choices.
-/
namespace Announcer

open Chance (ChoiceSource)

namespace ModifierCall

variable (modifier? : String → Option Modifier)

def change (text : String) (call : ModifierCall) : String :=
  match modifier? call.name with
  | some modifier => modifier text call.params
  | none => text

/-- The calls from the left, each on the text that the one before it made. The first call without a
modifier is the failure, whichever come after it. -/
def chain (calls : List ModifierCall) (text : String) : Except ExpansionError String :=
  match calls.find? fun call => (modifier? call.name).isNone with
  | some call => .error (.unknownModifier call.name)
  | none => .ok (calls.foldl (change modifier?) text)

variable {modifier?} {call : ModifierCall} {rest : List ModifierCall}

theorem chain_cons_of_unknown (h : modifier? call.name = none) (text : String) :
    chain modifier? (call :: rest) text = .error (.unknownModifier call.name) := by
  simp [chain, h]

theorem chain_cons_of_registered {modifier : Modifier} (h : modifier? call.name = some modifier)
    (text : String) :
    chain modifier? (call :: rest) text = chain modifier? rest (modifier text call.params) := by
  simp [chain, change, h]

end ModifierCall

namespace Grammar

def addModifiers (g : Grammar) (entries : List (String × Modifier)) : Grammar :=
  entries.foldl (fun g entry => g.addModifier entry.1 entry.2) g

theorem modifiers_addModifiers (g : Grammar) (entries : List (String × Modifier)) :
    (g.addModifiers entries).modifiers =
      entries.foldl (fun t entry => t.insert entry.1 entry.2) g.modifiers := by
  induction entries generalizing g with
  | nil => rfl
  | cons entry rest ih => exact ih (g.addModifier entry.1 entry.2)

theorem get?_addModifiers (g : Grammar) (entries : List (String × Modifier)) (name : String) :
    (g.addModifiers entries).modifiers.get? name =
      (entries.reverse.lookup name).or (g.modifiers.get? name) := by
  rw [modifiers_addModifiers, Table.get?_foldl]

end Grammar

namespace Expansion

variable {σ : Type} {g : Grammar}

theorem outcome_applyModifiers (calls : List ModifierCall) (text : String) (s : ExpansionState σ) :
    outcome (applyModifiers g calls text) s =
      (ModifierCall.chain g.modifiers.get? calls text, s) := by
  induction calls generalizing text with
  | nil => rfl
  | cons call rest ih =>
    cases hmodifier : g.modifiers.get? call.name with
    | none =>
      have hunknown : g.modifiers.transform? call.name text call.params = none := by
        rw [ModifierTable.transform?, hmodifier, Option.map_none]
      rw [applyModifiers, hunknown, ModifierCall.chain_cons_of_unknown hmodifier]
      exact outcome_throw _ s
    | some modifier =>
      have hchanged : g.modifiers.transform? call.name text call.params =
          some (modifier text call.params) := by
        rw [ModifierTable.transform?, hmodifier, Option.map_some]
      rw [applyModifiers, hchanged, ModifierCall.chain_cons_of_registered hmodifier]
      exact ih (modifier text call.params)

theorem outcome_bind_applyModifiers (m : Expansion σ String) (calls : List ModifierCall)
    (s : ExpansionState σ) :
    outcome (m >>= applyModifiers g calls) s =
      ((outcome m s).1.bind (ModifierCall.chain g.modifiers.get? calls), (outcome m s).2) := by
  rw [outcome_bind]
  cases outcome m s with
  | mk result t =>
    cases result with
    | ok text => exact outcome_applyModifiers calls text t
    | error e => rfl

variable [ChoiceSource σ] {deeper : Template → Expansion σ String}

theorem expandTag_bare (symbol : String) :
    expandTag deeper g (.bare symbol) = expandSymbol deeper g symbol := by
  have hnone : applyModifiers g [] = (pure : String → Expansion σ String) := rfl
  rw [expandTag_of_no_actions rfl]
  change expandSymbol deeper g symbol >>= applyModifiers g [] = _
  rw [hnone, bind_pure]

theorem outcome_expandTag_chain (symbol : String) (calls : List ModifierCall)
    (s : ExpansionState σ) :
    outcome (expandTag deeper g ⟨[], symbol, calls⟩) s =
      ((outcome (expandTag deeper g (.bare symbol)) s).1.bind
          (ModifierCall.chain g.modifiers.get? calls),
        (outcome (expandTag deeper g (.bare symbol)) s).2) := by
  rw [expandTag_bare, expandTag_of_no_actions rfl]
  exact outcome_bind_applyModifiers _ calls s

theorem expandTemplate_single (tag : Tag) (limit levels : ℕ) :
    (expandTemplate g limit (levels + 1) ⟨[.tag tag]⟩ : Expansion σ String) =
      expandTag (expandTemplate g limit levels) g tag := by
  simp [expandTemplate, expandSegments, expandSegment]

end Expansion

open Expansion (outcome expandTag expandTemplate)

/-- A tag without actions fails as its symbol alone does. When the symbol gives a text, the tag gives
what its calls make of it from the left, or fails at the first call without a modifier. Either way it
ends in the state in which the symbol alone ends, in the middle of an expansion and as a whole one.
Of several functions with one name the last one counts. -/
theorem Grammar.expand_chain {σ : Type} [ChoiceSource σ] (g : Grammar) (symbol : String)
    (calls : List ModifierCall) :
    (∀ limit levels (s : ExpansionState σ),
      outcome (expandTag (expandTemplate g limit levels) g ⟨[], symbol, calls⟩) s =
        ((outcome (expandTag (expandTemplate g limit levels) g (.bare symbol)) s).1.bind
            (ModifierCall.chain g.modifiers.get? calls),
          (outcome (expandTag (expandTemplate g limit levels) g (.bare symbol)) s).2)) ∧
    (∀ source : σ, Expansion.run g maxDepth ⟨[.tag ⟨[], symbol, calls⟩]⟩ source =
      ((g.expand symbol source).1.bind (ModifierCall.chain g.modifiers.get? calls),
        (g.expand symbol source).2)) ∧
    ∀ entries name, (g.addModifiers entries).modifiers.get? name =
      (entries.reverse.lookup name).or (g.modifiers.get? name) := by
  refine ⟨fun limit levels s => Expansion.outcome_expandTag_chain symbol calls s, fun source => ?_,
    fun entries name => g.get?_addModifiers entries name⟩
  rw [expand, Expansion.run_eq, Expansion.run_eq, Expansion.expandTemplate_single,
    Expansion.expandTemplate_single, Expansion.outcome_expandTag_chain]

end Announcer
