import Announcer.Json.Number

/-! # JSON values

Values are read to a limited depth. Where only one kind of value is wanted, another kind is
refused: a list or an object at its opening bracket, any other value when it is complete.
-/
namespace Announcer.Json

inductive Value where
  | null
  | bool (value : Bool)
  | number (negative : Bool) (magnitude : Number)
  | string (text : String)
  | list (items : List Value)
  | object (members : List (String × Value))

/-- One more item of a list, the items kept last one first. -/
def listItem (readItem : Reader Value) (items : List Value) : Reader (List Value) := fun text => do
  let (item, rest) ← readItem text
  return (item :: items, rest)

def readMember {β : Type} (member : String → Reader β) : Reader β := fun text => do
  let rest ← readKeyQuote text
  let (key, rest) ← readString rest
  member (String.ofList key) rest

def objectItem (readItem : Reader Value) (members : List (String × Value)) :
    Reader (List (String × Value)) :=
  readMember fun key text => do
    let text ← readColon text
    let (value, rest) ← readItem text
    return ((key, value) :: members, rest)

/-- Reads a value, given how the values inside lists and objects are read. Without that, lists and
objects are malformed. -/
def readValueWith (steps : Nat) (inner : Option (Reader Value)) : Reader Value
  | [] => throw .truncated
  | 'n' :: rest => return (.null, ← readKeyword ['u', 'l', 'l'] rest)
  | 't' :: rest => return (.bool true, ← readKeyword ['r', 'u', 'e'] rest)
  | 'f' :: rest => return (.bool false, ← readKeyword ['a', 'l', 's', 'e'] rest)
  | '"' :: rest => do
    let (text, rest) ← readString rest
    return (.string (String.ofList text), rest)
  | '-' :: rest => do
    let (n, rest) ← readNumber rest
    return (.number true n, rest)
  | '[' :: rest =>
    match inner with
    | none => throw .malformed
    | some readItem => do
      let (items, rest) ← foldItems ']' (listItem readItem) steps true [] rest
      return (.list items.reverse, rest)
  | '{' :: rest =>
    match inner with
    | none => throw .malformed
    | some readItem => do
      let (members, rest) ← foldItems '}' (objectItem readItem) steps true [] rest
      return (.object members.reverse, rest)
  | c :: rest =>
    if c.isDigit then do
      let (n, rest) ← readNumber (c :: rest)
      return (.number false n, rest)
    else throw .malformed

/-- Reads a value of at most so many nested lists and objects, each of fewer items than steps. -/
def readValue (steps : Nat) : Nat → Reader Value
  | 0 => readValueWith steps none
  | levels + 1 => readValueWith steps (some (readValue steps levels))

def refuse : List Char → Fault
  | '[' :: _ => .mismatched
  | '{' :: _ => .mismatched
  | text =>
    match readValueWith 0 none text with
    | .error fault => fault
    | .ok _ => .mismatched

def readText : Reader String
  | '"' :: rest => do
    let (text, rest) ← readString rest
    return (String.ofList text, rest)
  | text => throw (refuse text)

/-- The members of an object whose opening brace has been read, folded from the left. A member
begins with the text after its key. -/
def readMembers {β : Type} (steps : Nat) (member : β → String → Reader β) (init : β) : Reader β :=
  foldItems '}' (fun acc => readMember (member acc)) steps true init

def readObject {β : Type} (member : Nat → β → String → Reader β) (init : β) (text : String) :
    Except Fault β :=
  let steps := text.length + 1
  match skipBlank text.toList with
  | '{' :: rest => do readEnd (← readMembers steps (member steps) init rest)
  | other => throw (refuse other)

end Announcer.Json
