import Announcer.Grammar.Basic
import Announcer.Chance.Generator

/-! # Expansion

Expanding a template copies its literals, runs its actions and replaces its tags. A tag becomes
the expansion of one alternative of its symbol, chosen by the source, and then goes through its
modifiers. Pushes put texts in front of the rules of a grammar for as long as one expansion lasts.
Each alternative and each rule of a push is one level deeper than what names it; the number of
levels bounds the recursion.
-/
namespace Announcer

open Chance (ChoiceSource Generator)

/-- The deepest level that is still expanded; the template that is flattened is level zero. -/
def maxDepth : Nat := 64

inductive ExpansionError where
  | ruleNotFound (symbol : String)
  | emptyRule (symbol : String)
  | unknownModifier (name : String)
  | popWithoutPush (key : String)
  | recursionLimit (levels : Nat)
deriving DecidableEq, Repr

namespace ExpansionError

def message : ExpansionError → String
  | ruleNotFound symbol => s!"rule not found: {symbol}"
  | emptyRule symbol => s!"rule '{symbol}' has no alternatives"
  | unknownModifier name => s!"unknown modifier: {name}"
  | popWithoutPush key => s!"cannot pop '{key}': nothing was pushed"
  | recursionLimit levels => s!"expansion nested deeper than {levels} levels"

end ExpansionError

abbrev Frame := List String

/-- The pushes in force, the most recent first. A key without any is absent. -/
abbrev Pushes := Table (List Frame)

namespace Pushes

def push (pushes : Pushes) (key : String) (frame : Frame) : Pushes :=
  pushes.insert key (frame :: (pushes.get? key).getD [])

def pop? (pushes : Pushes) (key : String) : Option Pushes :=
  match pushes.get? key with
  | none => none
  | some frames =>
    match frames.tail with
    | [] => some (pushes.erase key)
    | below => some (pushes.insert key below)

def top? (pushes : Pushes) (key : String) : Option Frame :=
  (pushes.get? key).bind List.head?

end Pushes

structure ExpansionState (σ : Type) where
  pushes : Pushes
  source : σ

/-- A failure keeps the state that was reached, so the draws made before it stay made. -/
abbrev Expansion (σ : Type) := ExceptT ExpansionError (StateM (ExpansionState σ))

namespace Expansion

variable {σ : Type} [ChoiceSource σ]

def pop (key : String) : Expansion σ Unit := do
  let state ← get
  match state.pushes.pop? key with
  | none => throw (.popWithoutPush key)
  | some pushes => set { state with pushes }

def push (key : String) (frame : Frame) : Expansion σ Unit :=
  modify fun state => { state with pushes := state.pushes.push key frame }

/-- What a symbol stands for: the most recent push of it, else its rule. -/
def alternatives? (g : Grammar) (pushes : Pushes) (symbol : String) : Option (List Template) :=
  match pushes.top? symbol with
  | some frame => some (frame.map Template.literal)
  | none => (g.rule? symbol).map Rule.alternatives

/-- One alternative of a symbol. The source is asked even when there is only one. -/
def select (g : Grammar) (symbol : String) : Expansion σ Template := do
  let state ← get
  match alternatives? g state.pushes symbol with
  | none => throw (.ruleNotFound symbol)
  | some alternatives =>
    if h : 0 < alternatives.length then
      let (chosen, source) := ChoiceSource.choose alternatives.length h state.source
      set { state with source }
      return alternatives[chosen]
    else throw (.emptyRule symbol)

def applyModifiers (g : Grammar) : List ModifierCall → String → Expansion σ String
  | [], text => pure text
  | call :: rest, text =>
    match g.modifiers.transform? call.name text call.params with
    | none => throw (.unknownModifier call.name)
    | some changed => applyModifiers g rest changed

variable (deeper : Template → Expansion σ String)

/-- The rules of a push are expanded in order, before the push is made. -/
def runAction : Action → Expansion σ Unit
  | .push key rules => do
    let frame ← rules.mapM deeper
    push key frame
  | .pop key => pop key

def runActions : List Action → List String → Expansion σ (List String)
  | [], keys => pure keys
  | action :: rest, keys => do
    runAction deeper action
    match action with
    | .push key _ => runActions rest (key :: keys)
    | .pop _ => runActions rest keys

def popAll : List String → Expansion σ Unit
  | [] => pure ()
  | key :: rest => do
    pop key
    popAll rest

def expandSymbol (g : Grammar) (symbol : String) : Expansion σ String :=
  if symbol.isEmpty then pure ""
  else do
    let alternative ← select g symbol
    deeper alternative

/-- The pushes of a tag end when its text is complete. -/
def expandTag (g : Grammar) (tag : Tag) : Expansion σ String := do
  let keys ← runActions deeper tag.actions []
  let text ← expandSymbol deeper g tag.symbol
  let changed ← applyModifiers g tag.modifiers text
  popAll keys
  return changed

def expandSegment (g : Grammar) : Segment → Expansion σ String
  | .literal text => pure text
  | .tag tag => expandTag deeper g tag
  | .action action => do
    runAction deeper action
    return ""

def expandSegments (g : Grammar) : List Segment → Expansion σ String
  | [] => pure ""
  | segment :: rest => do
    let text ← expandSegment deeper g segment
    let more ← expandSegments g rest
    return text ++ more

/-- Expands with a number of levels left, and fails when there are none. The limit is only
reported. -/
def expandTemplate (g : Grammar) (limit : Nat) : Nat → Template → Expansion σ String
  | 0, _ => throw (.recursionLimit limit)
  | levels + 1, template => expandSegments (expandTemplate g limit levels) g template.segments

/-- A whole expansion: it begins without pushes, and those in force at its end are dropped. -/
def run (g : Grammar) (limit : Nat) (template : Template) (source : σ) :
    Except ExpansionError String × σ :=
  let (result, state) :=
    Id.run (StateT.run (ExceptT.run (expandTemplate g limit (limit + 1) template)) ⟨.empty, source⟩)
  (result, state.source)

end Expansion

inductive FlattenError where
  | template (cause : ParseError)
  | expansion (cause : ExpansionError)
deriving DecidableEq, Repr

def FlattenError.message : FlattenError → String
  | template cause => cause.message
  | expansion cause => cause.message

namespace Grammar

variable {σ : Type} [ChoiceSource σ]

def flattenWithin (limit : Nat) (g : Grammar) (origin : String) (source : σ) :
    Except FlattenError String × σ :=
  match Template.parse origin with
  | .error cause => (.error (.template cause), source)
  | .ok template =>
    let (result, rest) := Expansion.run g limit template source
    (result.mapError .expansion, rest)

def flatten (g : Grammar) (origin : String) (source : σ) : Except FlattenError String × σ :=
  flattenWithin maxDepth g origin source

def expand (g : Grammar) (symbol : String) (source : σ) : Except ExpansionError String × σ :=
  Expansion.run g maxDepth ⟨[.tag (.bare symbol)]⟩ source

end Grammar

end Announcer
