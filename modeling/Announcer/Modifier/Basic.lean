import Announcer.Table

/-! # Modifiers

A modifier turns the text of a tag into another text. Tags find modifiers by name.
-/
namespace Announcer

/-- The text to change and the parameters written in the tag. -/
abbrev Modifier := String → List String → String

abbrev ModifierTable := Table Modifier

def ModifierTable.transform? (modifiers : ModifierTable) (name text : String)
    (params : List String) : Option String :=
  (modifiers.get? name).map fun modifier => modifier text params

def Modifier.ofChars (change : List Char → List Char) : Modifier :=
  fun text _ => String.ofList (change text.toList)

end Announcer
