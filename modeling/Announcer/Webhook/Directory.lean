import Announcer.FileTree
import Announcer.Json.Value
import Announcer.Json.Writer
import Announcer.Table

/-! # Webhook directories

A directory gives delivery targets their webhook addresses. It is held in memory or read from a
file at every lookup, so that edits of the file count at once.
-/
namespace Announcer.Webhook

inductive StoreError where
  | missingVariable (name : String)
  | unreadable (path : String) (cause : ReadError)
  | json (fault : Json.Fault)
deriving DecidableEq, Repr

def StoreError.message (e : StoreError) (wording : Json.Wording := Json.Fault.brief) : String :=
  match e with
  | missingVariable name => s!"environment variable {name} is not set"
  | unreadable path cause => s!"failed to read {path}: {cause.message}"
  | json fault => fault.message wording

/-- The address of a target, nothing if the store was readable but has none, or why it was not. -/
abbrev Store := String → Except StoreError (Option String)

abbrev Directory := Table String

namespace Directory

def jsonEntry (d : Directory) (name : String) : Json.Reader Directory := fun text => do
  let (url, rest) ← Json.readText (← Json.readColon text)
  return (d.insert name url, rest)

def ofJson (text : String) : Except StoreError Directory :=
  (Json.readObject (fun _ => jsonEntry) .empty text).mapError .json

def toJson (d : Directory) : String := Json.writeObject d.entries

def load (files : Files) (path : String) : Except StoreError Directory := do
  ofJson (← (files.read path).mapError (.unreadable path))

def store (d : Directory) : Store := fun name => pure (d.get? name)

end Directory

structure DirectoryFile where
  path : String
deriving DecidableEq, Repr

namespace DirectoryFile

def workspaceVariable : String := "WORKSPACE"

def fileName : String := "webhooks.json"

def inDirectory (directory : String) : DirectoryFile :=
  if directory = "" ∨ directory.toList.getLast? = some '/' then ⟨directory ++ fileName⟩
  else ⟨directory ++ "/" ++ fileName⟩

def ofWorkspace (workspace : Option String) : Except StoreError DirectoryFile :=
  match workspace with
  | none => throw (.missingVariable workspaceVariable)
  | some directory => pure (inDirectory directory)

/-- Each lookup reads the file as it is then. -/
def store (file : DirectoryFile) (files : Files) : Store := fun name => do
  (← Directory.load files file.path).store name

end DirectoryFile

end Announcer.Webhook
