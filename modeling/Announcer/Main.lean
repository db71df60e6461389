import Announcer.Command.Lint
import Announcer.Command.Preview

/-! # The program

Reads the files that the path argument leads to, runs a command on them and prints its outcome.
-/
namespace Announcer.Program

open Chance (Generator Key)

def usage : String := Command.lines [Command.Lint.usage, Command.Preview.usage]

/-- The trees of a directory that cannot be read are left out. -/
partial def snapshot (path : String) : IO FileTree := do
  let place ← IO.FS.realPath path
  if ← place.isDir then
    let entries ← place.readDir
    let trees ← entries.toList.mapM fun entry => do
      try
        let tree ← snapshot s!"{path}/{entry.fileName}"
        return [(entry.fileName, tree)]
      catch _ => return []
    return .directory trees.flatten
  return .file (← IO.FS.readBinFile path)

def readError : IO.Error → ReadError
  | .noFileOrDirectory _ _ _ => .notFound
  | .noSuchThing _ _ _ => .notFound
  | .inappropriateType _ _ _ => .notADirectory
  | .permissionDenied _ code _ => .system "Permission denied" code.toNat
  | other => .system (toString other) 0

def filesOf (args : List String) : IO Files := do
  match args with
  | [] => return fun _ => .error .notFound
  | path :: _ =>
    try
      let tree ← snapshot path
      return fun _ => .ok tree
    catch e => return fun _ => .error (readError e)

def word (bytes : ByteArray) (i : Nat) : UInt32 :=
  (List.range 4).foldl (fun w j => w * 256 + (bytes.data.getD (4 * i + j) 0).toUInt32) 0

def entropy : IO Generator := do
  let bytes ← IO.getRandomBytes 32
  return .ofKey (Vector.ofFn fun i => word bytes i.val)

def finish (outcome : Command.Outcome) : IO UInt32 := do
  IO.print outcome.stdout
  IO.eprint outcome.stderr
  return outcome.exitCode

end Announcer.Program

open Announcer

def main (args : List String) : IO UInt32 := do
  match args with
  | "grammar_linter" :: rest => Program.finish (Command.lint (← Program.filesOf rest) rest)
  | "preview" :: rest =>
    Program.finish (Command.preview (← Program.filesOf rest) rest (← Program.entropy))
  | _ => Program.finish (.printed 0 Program.usage)
