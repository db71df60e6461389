import Announcer.Json.Value

/-! # Skipping JSON values

A value that nobody asked for is only checked for its shape: numbers may be of any size, escapes
may be halves of pairs, and nesting has no limit.
-/
namespace Announcer.Json

def skipEscape : List Char → Except Fault (List Char)
  | [] => throw .truncated
  | 'u' :: rest => do
    let (_, rest) ← readUnit rest
    return rest
  | c :: rest => if (shortEscape? c).isSome then pure rest else throw .malformed

theorem skipEscape_length_lt {text rest : List Char} (h : skipEscape text = .ok rest) :
    rest.length < text.length := by
  unfold skipEscape at h
  split at h
  · cases h
  next more =>
    cases hu : readUnit more with
    | error fault => simp [hu, bind, Except.bind] at h
    | ok found =>
      have hlt := readUnit_length_lt hu
      simp only [hu, bind, Except.bind, pure, Except.pure, Except.ok.injEq] at h
      rw [← h]
      simp only [List.length_cons]
      omega
  · split at h
    · simp only [pure, Except.pure, Except.ok.injEq] at h
      rw [← h]
      simp
    · cases h

def skipString : List Char → Except Fault (List Char)
  | [] => throw .truncated
  | '"' :: rest => pure rest
  | '\\' :: rest =>
    match _h : skipEscape rest with
    | .error fault => throw fault
    | .ok after => skipString after
  | c :: rest => if c.toNat < 0x20 then throw .malformed else skipString rest
termination_by text => text.length
decreasing_by
  · have := skipEscape_length_lt _h
    simp only [List.length_cons]
    omega
  · simp

def skipMember (skipItem : List Char → Except Fault (List Char)) (text : List Char) :
    Except Fault (List Char) := do
  let rest ← readKeyQuote text
  let rest ← skipString rest
  let rest ← readColon rest
  skipItem rest

/-- Skips a value of fewer nested lists and objects than the levels given, each of fewer items
than steps. -/
def skipValue (steps : Nat) : Nat → List Char → Except Fault (List Char)
  | 0, _ => throw .malformed
  | _ + 1, [] => throw .truncated
  | _ + 1, 'n' :: rest => readKeyword ['u', 'l', 'l'] rest
  | _ + 1, 't' :: rest => readKeyword ['r', 'u', 'e'] rest
  | _ + 1, 'f' :: rest => readKeyword ['a', 'l', 's', 'e'] rest
  | _ + 1, '"' :: rest => skipString rest
  | _ + 1, '-' :: rest => skipNumber rest
  | levels + 1, '[' :: rest => do
    let item := fun (_ : Unit) text => return ((), ← skipValue steps levels text)
    let (_, rest) ← foldItems ']' item steps true () rest
    return rest
  | levels + 1, '{' :: rest => do
    let item := fun (_ : Unit) text => return ((), ← skipMember (skipValue steps levels) text)
    let (_, rest) ← foldItems '}' item steps true () rest
    return rest
  | _ + 1, c :: rest => if c.isDigit then skipNumber (c :: rest) else throw .malformed

end Announcer.Json
