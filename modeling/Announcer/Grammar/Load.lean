import Announcer.FileTree
import Announcer.Grammar.Basic
import Announcer.Json.Value
import Announcer.Ron

/-! # Rule files

A rule file gives each name one template or a list of templates. A name that occurs twice keeps
its last entry, and the rules are then read in the order of their names.
-/
namespace Announcer

inductive LoadError where
  | template (cause : ParseError)
  | file (cause : ReadError)
  | json (fault : Json.Fault)
  | ron
deriving DecidableEq, Repr

structure Wording where
  json : Json.Wording
  ron : String

def Wording.brief : Wording := ⟨Json.Fault.brief, "the text is not a map of rules"⟩

def LoadError.message (e : LoadError) (wording : Wording := .brief) : String :=
  match e with
  | template cause => cause.message
  | file cause => "IO error: " ++ cause.message
  | json fault => fault.message wording.json
  | ron => "RON deserialization error: " ++ wording.ron

inductive RuleFormat where
  | json
  | ron
deriving DecidableEq, Repr

/-- Only the extension `ron`, in lower case, tells the second format. -/
def RuleFormat.ofPath (path : String) : RuleFormat :=
  if extension? path = some "ron" then .ron else .json

def Json.Value.text? : Json.Value → Option String
  | .string text => some text
  | _ => none

def Json.Value.texts? : Json.Value → Option (List String)
  | .string text => some [text]
  | .list items => items.mapM Json.Value.text?
  | _ => none

namespace Grammar

/-- Lists and objects may nest 127 deep, and the map of the rules is the outermost. -/
def maxJsonDepth : Nat := 126

/-- The value of a rule is complete before its type is looked at. -/
def jsonRule (steps : Nat) (rules : Table (List String)) (name : String) :
    Json.Reader (Table (List String)) := fun text => do
  let text ← Json.readColon text
  let (value, rest) ← Json.readValue steps maxJsonDepth text
  match value.texts? with
  | none => throw .mismatched
  | some texts => pure (rules.insert name texts, rest)

def ofTable (rules : Table (List String)) : Except LoadError Grammar :=
  (ofRules rules.entries).mapError .template

def ofJson (text : String) : Except LoadError Grammar := do
  ofTable (← (Json.readObject jsonRule .empty text).mapError .json)

def ofRon (text : String) : Except LoadError Grammar :=
  match Ron.parse? text with
  | none => throw .ron
  | some rules => ofTable (.ofList rules)

def ofText (format : RuleFormat) (text : String) : Except LoadError Grammar :=
  match format with
  | .json => ofJson text
  | .ron => ofRon text

def loadAs (format : RuleFormat) (files : Files) (path : String) : Except LoadError Grammar := do
  ofText format (← (files.read path).mapError .file)

def load (files : Files) (path : String) : Except LoadError Grammar :=
  loadAs (.ofPath path) files path

end Grammar

end Announcer
