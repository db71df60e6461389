import Announcer.Message.Basic

/-! # Drafts

A draft collects what a message is made of, in any order; the last value given counts.
-/
namespace Announcer

open Chance (Generator)

/-- The rules are templates that have not been read yet and take precedence over the grammar. -/
structure Draft where
  target : String
  origin : String
  grammar : Option Grammar
  rules : Option (Table (List String))
  scheduledTime : Option Instant
  seed : Option UInt64

namespace Draft

def defaultOrigin : String := "#origin#"

def new (target : String) : Draft := ⟨target, defaultOrigin, none, none, none, none⟩

def withOrigin (d : Draft) (origin : String) : Draft := { d with origin }

def withGrammar (d : Draft) (grammar : Grammar) : Draft := { d with grammar := some grammar }

def withRules (d : Draft) (rules : Table (List String)) : Draft := { d with rules := some rules }

def scheduledFor (d : Draft) (time : Instant) : Draft := { d with scheduledTime := some time }

def withSeed (d : Draft) (seed : UInt64) : Draft := { d with seed := some seed }

def chosenGrammar (d : Draft) : Except ParseError Grammar :=
  match d.rules with
  | some rules => Grammar.ofRules rules.entries
  | none => pure (d.grammar.getD .empty)

/-- The message of a draft. The time and the generator given serve a draft that has none. -/
def build (d : Draft) (now : Instant) (entropy : Generator) : Except MessageError Message := do
  let grammar ← d.chosenGrammar.mapError fun cause => .expansion (.template cause)
  let generator := match d.seed with
    | some seed => Generator.ofSeed seed
    | none => entropy
  (Message.compose d.target d.origin grammar (d.scheduledTime.getD now) generator).1

end Draft

end Announcer
