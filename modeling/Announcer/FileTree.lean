/-! # Files

A file tree is a directory with everything below it, as it is read while a command runs. Paths
are relative to the tree and their parts are separated by `/`.
-/
namespace Announcer

inductive ReadError where
  | system (description : String) (code : Nat)
  | invalidUtf8
deriving DecidableEq, Repr

namespace ReadError

def notFound : ReadError := system "No such file or directory" 2

def notADirectory : ReadError := system "Not a directory" 20

def isADirectory : ReadError := system "Is a directory" 21

def message : ReadError → String
  | system description code => s!"{description} (os error {code})"
  | invalidUtf8 => "stream did not contain valid UTF-8"

end ReadError

/-- The entries of a directory stand in the order in which it lists them. -/
inductive FileTree where
  | file (bytes : ByteArray)
  | directory (entries : List (String × FileTree))

def pathParts (path : String) : List String := (path.toList.splitOn '/').map String.ofList

namespace FileTree

instance : Inhabited FileTree := ⟨directory []⟩

/-- Follows the parts of a path. The directories passed are kept for `..`; a file has no parts,
not even `.` or an empty one. -/
def follow : List String → List FileTree → FileTree → Except ReadError FileTree
  | [], _, tree => pure tree
  | _ :: _, _, file _ => throw .notADirectory
  | part :: rest, above, directory entries =>
    if part = "" ∨ part = "." then follow rest above (directory entries)
    else if part = ".." then
      match above with
      | [] => follow rest [] (directory entries)
      | parent :: higher => follow rest higher parent
    else
      match entries.lookup part with
      | none => throw .notFound
      | some tree => follow rest (directory entries :: above) tree

def find (tree : FileTree) (path : String) : Except ReadError FileTree :=
  follow (pathParts path) [] tree

def text : FileTree → Except ReadError String
  | directory _ => throw .isADirectory
  | file bytes =>
    match String.fromUTF8? bytes with
    | none => throw .invalidUtf8
    | some text => pure text

end FileTree

abbrev Files := String → Except ReadError FileTree

def Files.read (files : Files) (path : String) : Except ReadError String := do
  (← files path).text

/-- The last part of a path that is neither empty nor `.`, unless it is `..`. -/
def fileName? (path : String) : Option String :=
  match ((pathParts path).filter fun part => part ≠ "" ∧ part ≠ ".").getLast? with
  | some ".." => none
  | name => name

/-- What follows the last dot of a file name. A dot at the beginning is part of the name. -/
def extension? (path : String) : Option String :=
  match fileName? path with
  | none => none
  | some name =>
    let reversed := name.toList.reverse
    let stem := (reversed.dropWhile (· != '.')).drop 1
    if stem.isEmpty then none
    else some (String.ofList (reversed.takeWhile (· != '.')).reverse)

end Announcer
