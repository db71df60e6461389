import Announcer.Json.Skip
import Announcer.Json.Writer

/-! # Webhook payloads

The body of a post is a JSON object with the text as its `content`.
-/
namespace Announcer.Webhook

structure Payload where
  content : String
deriving DecidableEq, Repr

namespace Payload

def toJson (p : Payload) : String := Json.writeObject [("content", p.content)]

/-- The content is read once; members of other names are skipped, however deep they are. -/
def member (steps : Nat) (found : Option String) (key : String) :
    Json.Reader (Option String) := fun text => do
  if key = "content" then
    if found.isSome then throw .mismatched
    let (content, rest) ← Json.readText (← Json.readColon text)
    return (some content, rest)
  let rest ← Json.skipValue steps steps (← Json.readColon text)
  return (found, rest)

def ofContent? (found : Option String × List Char) : Except Json.Fault (Payload × List Char) :=
  match found.1 with
  | none => throw .mismatched
  | some content => pure (⟨content⟩, found.2)

/-- A list stands for a payload if the content is its only item. -/
def readList : Json.Reader Payload := fun text =>
  match Json.skipBlank text with
  | [] => throw .truncated
  | ']' :: _ => throw .mismatched
  | text => do
    let (content, rest) ← Json.readText text
    match Json.skipBlank rest with
    | [] => throw .truncated
    | ']' :: rest => pure (⟨content⟩, rest)
    | _ => throw .malformed

def ofJson (text : String) : Except Json.Fault Payload :=
  let steps := text.length + 1
  match Json.skipBlank text.toList with
  | '{' :: rest => do
    let found ← Json.readMembers steps (member steps) none rest
    Json.readEnd (← ofContent? found)
  | '[' :: rest => do Json.readEnd (← readList rest)
  | other => throw (Json.refuse other)

end Payload

end Announcer.Webhook
