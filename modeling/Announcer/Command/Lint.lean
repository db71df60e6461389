import Announcer.Command.Outcome
import Announcer.Grammar.Lint
import Announcer.Grammar.Load

/-! # The lint command

Checks the rules of one file, or of all rule files below a directory put together. A directory
may hold files that cannot be read as rules; they are passed over. The log is no part of the
outcome, although it goes to standard output too: its lines about files that were read or passed
over and about how many rules there are.
-/
namespace Announcer.Command

namespace Lint

def usage : String := "Usage: grammar_linter <grammar_file_or_dir>"

def isRuleFile (name : String) : Bool :=
  extension? name == some "json" || extension? name == some "ron"

def loadBytes (name : String) (tree : FileTree) : Except LoadError Grammar := do
  Grammar.ofText (.ofPath name) (← tree.text.mapError .file)

mutual

def gatherTree (g : Grammar) (name : String) : FileTree → Grammar
  | .directory entries => gatherEntries g entries
  | .file bytes =>
    if isRuleFile name then
      match loadBytes name (.file bytes) with
      | .error _ => g
      | .ok found => g.merge found
    else g

def gatherEntries (g : Grammar) : List (String × FileTree) → Grammar
  | [] => g
  | (name, tree) :: rest => gatherEntries (gatherTree g name tree) rest

end

def gather (files : Files) (path : String) (wording : Wording) : Except String Grammar :=
  match files path with
  | .error _ => throw s!"ERROR: Path '{path}' does not exist"
  | .ok (.directory entries) => pure (gatherEntries .empty entries)
  | .ok (.file _) =>
    match Grammar.load files path with
    | .error cause => throw s!"ERROR: Failed to load grammar file: {cause.message wording}"
    | .ok found => pure (Grammar.empty.merge found)

def render (report : Grammar.Lint.Report) : String :=
  let clean := report.problems.isEmpty && report.warnings.isEmpty
  lines ["", "=== Grammar Lint Report ===", ""] ++
    (if clean then line "All checks passed!" else "") ++
    lines (report.warnings.map fun warning => "WARNING: " ++ warning.message) ++
    lines (report.problems.map fun problem => "ERROR: " ++ problem.message) ++
    line s!"\nSummary: {report.problems.length} errors, {report.warnings.length} warnings"

end Lint

def lint (files : Files) (args : List String) (wording : Wording := .brief) : Outcome :=
  match args with
  | [] => .printed 0 (line Lint.usage)
  | path :: _ =>
    if path = "--help" ∨ path = "-h" then .printed 0 (line Lint.usage)
    else
      match Lint.gather files path wording with
      | .error complaint => .failed complaint
      | .ok g =>
        let report := g.lint
        .printed (if report.problems.isEmpty then 0 else 1) (Lint.render report)

end Announcer.Command
