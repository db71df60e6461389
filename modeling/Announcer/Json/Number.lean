import Announcer.Json.Scanner

/-! # Numbers in JSON text

A number is kept as an integer below `2 ^ 64` and a power of ten. It is out of range if the
nearest double of the integer times the nearest double of the power rounds to infinity.
-/
namespace Announcer.Json

structure Number where
  significand : Nat
  exponent : Int
deriving DecidableEq, Repr

def digitValue (c : Char) : Nat := c.toNat - '0'.toNat

/-- Digits appended to an integer as long as it stays below `2 ^ 64`, and how many were. -/
def absorbDigits (significand : Nat) : List Char → Nat × Nat
  | [] => (significand, 0)
  | c :: rest =>
    let longer := significand * 10 + digitValue c
    if longer < Nat.pow 2 64 then
      let (absorbed, count) := absorbDigits longer rest
      (absorbed, count + 1)
    else (significand, 0)

def readDigits : Reader (List Char) := fun text =>
  match text.span Char.isDigit with
  | ([], []) => throw .truncated
  | ([], _) => throw .malformed
  | found => pure found

def readExponent (n : Number) : Reader Number
  | c :: rest =>
    if c = 'e' ∨ c = 'E' then do
      let (negative, rest) := match rest with
        | '+' :: more => (false, more)
        | '-' :: more => (true, more)
        | more => (false, more)
      let (digits, rest) ← readDigits rest
      let size : Int := digits.foldl (fun n c => n * 10 + digitValue c) 0
      return (⟨n.significand, if negative then n.exponent - size else n.exponent + size⟩, rest)
    else pure (n, c :: rest)
  | [] => pure (n, [])

def readFraction (n : Number) : Reader Number
  | '.' :: rest => do
    let (digits, rest) ← readDigits rest
    let (significand, count) := absorbDigits n.significand digits
    readExponent ⟨significand, n.exponent - count⟩ rest
  | text => readExponent n text

/-- A number without its sign. An integer part of several digits does not begin with zero. -/
def readUnsigned : Reader Number := fun text => do
  let (digits, rest) ← readDigits text
  if digits.head? = some '0' ∧ digits.length > 1 then throw .malformed
  let (significand, count) := absorbDigits 0 digits
  readFraction ⟨significand, digits.length - count⟩ rest

/-- The nearest integer of at most 53 significant bits, an even one if two are equally near. -/
def nearestDouble (n : Nat) : Nat :=
  let shift := n.log2 - 52
  let step := Nat.pow 2 shift
  let quotient := n / step
  let twiceRest := 2 * (n % step)
  let up := twiceRest > step ∨ (twiceRest = step ∧ quotient % 2 = 1)
  (if up then quotient + 1 else quotient) * step

/-- Products from here on round to infinity. -/
def doubleOverflow : Nat := Nat.pow 2 1024 - Nat.pow 2 970

def Number.outOfRange (n : Number) : Bool :=
  match n.exponent with
  | .negSucc _ => false
  | .ofNat e =>
    n.significand != 0 &&
      (e > 308 || nearestDouble n.significand * nearestDouble (Nat.pow 10 e) ≥ doubleOverflow)

def readNumber : Reader Number := fun text => do
  let (n, rest) ← readUnsigned text
  if n.outOfRange then throw .malformed
  return (n, rest)

def skipNumber (text : List Char) : Except Fault (List Char) :=
  match readUnsigned text with
  | .ok (_, rest) => pure rest
  | .error _ => throw .malformed

end Announcer.Json
