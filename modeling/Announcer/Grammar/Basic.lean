import Announcer.Modifier.English
import Announcer.Template.Parser

/-! # Grammars

A grammar gives names to alternatives, which are templates, and knows the modifiers that its tags
may use. Rules are read when they are inserted; one that cannot be read leaves the grammar as it
was.
-/
namespace Announcer

structure Rule where
  name : String
  alternatives : List Template

structure Grammar where
  rules : Table Rule
  modifiers : ModifierTable

namespace Grammar

def empty : Grammar := ⟨.empty, English.modifiers⟩

instance : Inhabited Grammar := ⟨empty⟩

def rule? (g : Grammar) (name : String) : Option Rule := g.rules.get? name

def insertRule (g : Grammar) (name : String) (texts : List String) :
    Except ParseError Grammar := do
  let alternatives ← texts.mapM Template.parse
  return { g with rules := g.rules.insert name ⟨name, alternatives⟩ }

def ofRules (rules : List (String × List String)) : Except ParseError Grammar :=
  rules.foldlM (fun g rule => g.insertRule rule.1 rule.2) empty

/-- The rules of both, those of the second where both have one. The modifiers stay the ones of
the first. -/
def merge (g other : Grammar) : Grammar := { g with rules := g.rules.override other.rules }

def addModifier (g : Grammar) (name : String) (modifier : Modifier) : Grammar :=
  { g with modifiers := g.modifiers.insert name modifier }

end Grammar

end Announcer
