/-! # Writing JSON text

Strings are written with as few escapes as JSON allows: the quote, the backslash and the control
characters below the space.
-/
namespace Announcer.Json

def lowerHexDigit (n : Nat) : Char := "0123456789abcdef".toList.getD n '0'

def escapeChar (c : Char) : List Char :=
  match c with
  | '"' => ['\\', '"']
  | '\\' => ['\\', '\\']
  | '\x08' => ['\\', 'b']
  | '\x0c' => ['\\', 'f']
  | '\n' => ['\\', 'n']
  | '\r' => ['\\', 'r']
  | '\t' => ['\\', 't']
  | c =>
    if c.toNat < 0x20 then
      ['\\', 'u', '0', '0', lowerHexDigit (c.toNat / 16), lowerHexDigit (c.toNat % 16)]
    else [c]

def quote (text : String) : List Char := '"' :: text.toList.flatMap escapeChar ++ ['"']

def writeMember (name text : String) : List Char := quote name ++ ':' :: quote text

def writeObject (members : List (String × String)) : String :=
  String.ofList ('{' :: [','].intercalate (members.map fun m => writeMember m.1 m.2) ++ ['}'])

end Announcer.Json
