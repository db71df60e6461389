import Announcer.Text.CaseMap
import Announcer.Text.Cased

/-! # Case of texts

Upper case goes character by character. Lower case does too, except that a capital sigma at the
end of a word becomes a final sigma.
-/
namespace Announcer.Text

def upper (text : List Char) : List Char := text.flatMap upperChar

/-- Whether the first character that is not skipped has a case. -/
def meetsCased (text : List Char) : Bool :=
  match text.dropWhile isCaseIgnorable with
  | [] => false
  | c :: _ => isCased c

/-- A cased character stands before the place and none after it. The text before is given with
its nearest character first. -/
def endsWord (before after : List Char) : Bool := meetsCased before && !meetsCased after

def lowerFrom (before : List Char) : List Char → List Char
  | [] => []
  | c :: rest =>
    let lowered :=
      if c = 'Σ' then [if endsWord before rest then 'ς' else 'σ'] else lowerChar c
    lowered ++ lowerFrom (c :: before) rest

def lower (text : List Char) : List Char := lowerFrom [] text

end Announcer.Text
