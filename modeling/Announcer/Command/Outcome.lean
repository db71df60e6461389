/-! # Outcomes of commands -/
namespace Announcer.Command

structure Outcome where
  exitCode : UInt32
  stdout : String
  stderr : String
deriving DecidableEq, Repr

def line (text : String) : String := text ++ "\n"

def lines (texts : List String) : String := String.join (texts.map line)

def Outcome.printed (exitCode : UInt32) (stdout : String) : Outcome := ⟨exitCode, stdout, ""⟩

def Outcome.failed (complaint : String) : Outcome := ⟨1, "", line complaint⟩

end Announcer.Command
