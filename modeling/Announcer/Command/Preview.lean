import Announcer.Command.Outcome
import Announcer.Grammar.Expansion
import Announcer.Grammar.Load

/-! # The preview command

Prints sample texts of a grammar. One generator runs through all samples, so a longer preview
with the same seed begins with the shorter one.
-/
namespace Announcer.Command

open Chance (ChoiceSource Generator)

namespace Preview

def usage : String :=
  "Usage: preview <grammar.json|grammar.ron> [--origin <text>] [--seed <n>] [--count <n>]"

structure Settings where
  origin : String
  seed : Option UInt64
  count : Nat
deriving DecidableEq, Repr

def defaults : Settings := ⟨"#origin#", none, 5⟩

inductive Complaint where
  | badSeed
  | badCount
  | unknownArgument (arg : String)
deriving DecidableEq, Repr

def Complaint.message : Complaint → String
  | badSeed => "Error: --seed must be a non-negative integer"
  | badCount => "Error: --count must be a non-negative integer"
  | unknownArgument arg => s!"Unknown argument: {arg}"

/-- A number below `2 ^ 64` in decimal digits, with or without a plus sign. -/
def number? (text : String) : Option Nat :=
  let digits := match text.toList with
    | '+' :: rest => rest
    | other => other
  if digits.isEmpty || !digits.all Char.isDigit then none
  else
    let value := digits.foldl (fun n c => n * 10 + (c.toNat - '0'.toNat)) 0
    if value < Nat.pow 2 64 then some value else none

def Settings.update (s : Settings) : List String → Except Complaint Settings
  | [] => pure s
  | [arg] => throw (.unknownArgument arg)
  | flag :: value :: rest =>
    if flag = "--origin" then update { s with origin := value } rest
    else if flag = "--seed" then
      match number? value with
      | none => throw .badSeed
      | some n => update { s with seed := some (UInt64.ofNat n) } rest
    else if flag = "--count" then
      match number? value with
      | none => throw .badCount
      | some n => update { s with count := n } rest
    else throw (.unknownArgument flag)

variable {σ : Type} [ChoiceSource σ]

/-- The samples made so far, the last one first, and the source that they have left. -/
def nextSample (g : Grammar) (origin : String) (made : List (Except FlattenError String) × σ) :
    List (Except FlattenError String) × σ :=
  let (sample, rest) := g.flatten origin made.2
  (sample :: made.1, rest)

def samples (g : Grammar) (origin : String) (count : Nat) (source : σ) :
    List (Except FlattenError String) :=
  (Nat.repeat (nextSample g origin) count ([], source)).1.reverse

def sampleLine (number : Nat) : Except FlattenError String → String
  | .ok text => s!"[{number}] {text}"
  | .error cause => s!"[{number}] ERROR: {cause.message}"

def failed (sample : Except FlattenError String) : Bool := !sample.isOk

/-- Failures are counted in a signed word, which wraps around: after `2 ^ 31` of them the count is
negative. -/
def failures (found : List (Except FlattenError String)) : Int32 :=
  found.foldl (fun count sample => if failed sample then count + 1 else count) 0

def print (g : Grammar) (s : Settings) (entropy : Generator) : Outcome :=
  let generator := match s.seed with
    | some seed => Generator.ofSeed seed
    | none => entropy
  let found := samples g s.origin s.count generator
  let heading := lines [s!"Loaded {g.rules.size} grammar rules", s!"Origin: {s.origin}", ""]
  let body := lines (found.zipIdx.map fun (sample, i) => sampleLine (i + 1) sample)
  .printed (if 0 < failures found then 1 else 0) (heading ++ body)

end Preview

/-- Arguments are read before the grammar is. The generator serves a preview without a seed. -/
def preview (files : Files) (args : List String) (entropy : Generator)
    (wording : Wording := .brief) : Outcome :=
  match args with
  | [] => .printed 0 (line Preview.usage)
  | path :: rest =>
    if path = "--help" ∨ path = "-h" then .printed 0 (line Preview.usage)
    else
      match Preview.defaults.update rest with
      | .error (.unknownArgument arg) =>
        ⟨1, line Preview.usage, line (Preview.Complaint.unknownArgument arg).message⟩
      | .error complaint => .failed complaint.message
      | .ok settings =>
        match Grammar.load files path with
        | .error cause => .failed s!"ERROR: Failed to load grammar: {cause.message wording}"
        | .ok g => Preview.print g settings entropy

end Announcer.Command
