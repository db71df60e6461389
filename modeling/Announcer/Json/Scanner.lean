import Announcer.Text.Hexadecimal

/-! # Parts of JSON text

Readers take the text that is left and give what they read and the text after it. A fault says
whether the text ended too early, is not JSON, or is JSON of another shape than the one asked for.
-/
namespace Announcer.Json

open Text (hexDigit?)

inductive Fault where
  | truncated
  | malformed
  | mismatched
deriving DecidableEq, Repr

/-- What is said about a text that cannot be read. It depends on the text, so every run may have
another wording. -/
abbrev Wording := Fault → String

/-- A wording for runs in which the words do not matter. -/
def Fault.brief : Wording
  | truncated => "the text ends too early"
  | malformed => "the text is not JSON"
  | mismatched => "a value has the wrong type"

def Fault.message (fault : Fault) (wording : Wording) : String :=
  "JSON deserialization error: " ++ wording fault

abbrev Reader (α : Type) := List Char → Except Fault (α × List Char)

def isBlank (c : Char) : Bool := c == ' ' || c == '\t' || c == '\n' || c == '\r'

def skipBlank (text : List Char) : List Char := text.dropWhile isBlank

def readKeyword : List Char → List Char → Except Fault (List Char)
  | [], text => pure text
  | _ :: _, [] => throw .truncated
  | expected :: more, c :: rest =>
    if c = expected then readKeyword more rest else throw .malformed

/-- The unit that four hexadecimal digits spell. With fewer than four bytes left, the text ended
too early whatever they are. -/
def readUnit : Reader Nat
  | a :: b :: c :: d :: rest =>
    match hexDigit? a, hexDigit? b, hexDigit? c, hexDigit? d with
    | some a, some b, some c, some d => pure (((a * 16 + b) * 16 + c) * 16 + d, rest)
    | _, _, _, _ => throw .malformed
  | text => throw (if (String.ofList text).utf8ByteSize < 4 then .truncated else .malformed)

def isHighSurrogate (unit : Nat) : Bool := 0xD800 ≤ unit && unit ≤ 0xDBFF

def isLowSurrogate (unit : Nat) : Bool := 0xDC00 ≤ unit && unit ≤ 0xDFFF

def readLowSurrogate (high : Nat) : Reader Char
  | [] => throw .truncated
  | ['\\'] => throw .truncated
  | '\\' :: 'u' :: rest => do
    let (low, rest) ← readUnit rest
    if isLowSurrogate low then
      return (Char.ofNat (0x10000 + (high - 0xD800) * 0x400 + (low - 0xDC00)), rest)
    throw .malformed
  | _ => throw .malformed

def shortEscape? : Char → Option Char
  | '"' => some '"'
  | '\\' => some '\\'
  | '/' => some '/'
  | 'b' => some '\x08'
  | 'f' => some '\x0c'
  | 'n' => some '\n'
  | 'r' => some '\r'
  | 't' => some '\t'
  | _ => none

def readEscape : Reader Char
  | [] => throw .truncated
  | 'u' :: rest => do
    let (unit, rest) ← readUnit rest
    if isLowSurrogate unit then throw .malformed
    if isHighSurrogate unit then readLowSurrogate unit rest
    else return (Char.ofNat unit, rest)
  | c :: rest =>
    match shortEscape? c with
    | some escaped => pure (escaped, rest)
    | none => throw .malformed

theorem readUnit_length_lt {text rest : List Char} {unit : Nat}
    (h : readUnit text = .ok (unit, rest)) : rest.length < text.length := by
  unfold readUnit at h
  split at h
  · split at h
    · cases h
      simp only [List.length_cons]
      omega
    · cases h
  · cases h

theorem readLowSurrogate_length_lt {high : Nat} {text rest : List Char} {c : Char}
    (h : readLowSurrogate high text = .ok (c, rest)) : rest.length < text.length := by
  unfold readLowSurrogate at h
  split at h
  · cases h
  · cases h
  next more =>
    cases hu : readUnit more with
    | error fault => simp [hu, bind, Except.bind] at h
    | ok found =>
      have hlt := readUnit_length_lt hu
      simp only [hu, bind, Except.bind] at h
      split at h
      · simp only [pure, Except.pure, Except.ok.injEq, Prod.mk.injEq] at h
        rw [← h.2]
        simp only [List.length_cons]
        omega
      · cases h
  · cases h

theorem readEscape_length_lt {text rest : List Char} {c : Char}
    (h : readEscape text = .ok (c, rest)) : rest.length < text.length := by
  unfold readEscape at h
  split at h
  · cases h
  next more =>
    cases hu : readUnit more with
    | error fault => simp [hu, bind, Except.bind] at h
    | ok found =>
      have hlt := readUnit_length_lt hu
      simp only [hu, bind, Except.bind] at h
      split at h
      · cases h
      split at h
      · have := readLowSurrogate_length_lt h
        simp only [List.length_cons]
        omega
      · simp only [pure, Except.pure, Except.ok.injEq, Prod.mk.injEq] at h
        rw [← h.2]
        simp only [List.length_cons]
        omega
  · split at h
    · simp only [pure, Except.pure, Except.ok.injEq, Prod.mk.injEq] at h
      rw [← h.2]
      simp
    · cases h

/-- A string whose opening quote has been read. -/
def readString : Reader (List Char)
  | [] => throw .truncated
  | '"' :: rest => pure ([], rest)
  | '\\' :: rest =>
    match _h : readEscape rest with
    | .error fault => throw fault
    | .ok (c, after) => do
      let (text, after) ← readString after
      return (c :: text, after)
  | c :: rest =>
    if c.toNat < 0x20 then throw .malformed
    else do
      let (text, after) ← readString rest
      return (c :: text, after)
termination_by text => text.length
decreasing_by
  · have := readEscape_length_lt _h
    simp only [List.length_cons]
    omega
  · simp

/-- Items between commas up to a closing bracket, folded from the left. Each item takes at least
one character, so the length of a text is steps enough for it. -/
def foldItems {β : Type} (close : Char) (item : β → Reader β) : Nat → Bool → β → Reader β
  | 0, _, _, _ => throw .truncated
  | steps + 1, first, acc, text =>
    match skipBlank text with
    | [] => throw .truncated
    | c :: rest =>
      if c = close then pure (acc, rest)
      else if first then do
        let (acc, rest) ← item acc (c :: rest)
        foldItems close item steps false acc rest
      else if c = ',' then do
        let (acc, rest) ← item acc (skipBlank rest)
        foldItems close item steps false acc rest
      else throw .malformed

def readKeyQuote : List Char → Except Fault (List Char)
  | [] => throw .truncated
  | '"' :: rest => pure rest
  | _ => throw .malformed

def readColon (text : List Char) : Except Fault (List Char) :=
  match skipBlank text with
  | [] => throw .truncated
  | ':' :: rest => pure (skipBlank rest)
  | _ => throw .malformed

def readEnd {α : Type} (found : α × List Char) : Except Fault α :=
  if (skipBlank found.2).isEmpty then pure found.1 else throw .malformed

end Announcer.Json
