import Announcer.Grammar.Basic

/-! # Changing a grammar in place

Edits are made to one grammar, one after the other. An edit that fails answers with its mistake, and
those after it go on with the grammar that it left behind.
-/
namespace Announcer

/-- Changes a grammar and may fail on the way. A failure keeps the grammar that was reached. -/
abbrev InPlace := ExceptT ParseError (StateM Grammar)

namespace InPlace

def readTemplate (text : String) : InPlace Template :=
  match Template.parse text with
  | .ok t => pure t
  | .error mistake => throw mistake

/-- The rule is replaced after the last of its templates has been read. -/
def insertRule (name : String) (texts : List String) : InPlace Unit := do
  let alternatives ← texts.mapM readTemplate
  modify fun g => { g with rules := g.rules.insert name ⟨name, alternatives⟩ }

def mergeRules (other : Grammar) : InPlace Unit :=
  forM other.rules.entries fun rule =>
    modify fun g => { g with rules := g.rules.insert rule.1 rule.2 }

end InPlace

inductive Edit where
  | insert (name : String) (texts : List String)
  | merge (other : Grammar)

namespace Edit

def perform : Edit → InPlace Unit
  | .insert name texts => InPlace.insertRule name texts
  | .merge other => InPlace.mergeRules other

def run (edit : Edit) (g : Grammar) : Except ParseError Unit × Grammar :=
  Id.run (StateT.run (ExceptT.run edit.perform) g)

end Edit

/-- The grammar after all edits, those that fail among them. -/
def Grammar.editAll (g : Grammar) (edits : List Edit) : Grammar :=
  edits.foldl (fun g edit => (edit.run g).2) g

end Announcer
