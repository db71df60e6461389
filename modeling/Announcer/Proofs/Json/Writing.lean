import Announcer.Json.Writer
import Announcer.Proofs.Loading.Spelling
import Mathlib.Data.List.Forall2

/-! # JSON in writing

A string may be written in many ways: each of its characters may be escaped, and some have to be. A
value that nobody asks for is any text of the right form. Its strings need not stand for characters,
and its numbers may be of any size.
-/
namespace Announcer.Json

open Spelling (Blank Enclosed)
open Text (hexDigit?)

inductive UnitText (unit : ℕ) : List Char → Prop where
  | mk {a b c d w x y z} : hexDigit? a = some w → hexDigit? b = some x → hexDigit? c = some y →
      hexDigit? d = some z → ((w * 16 + x) * 16 + y) * 16 + z = unit → UnitText unit [a, b, c, d]

/-- The ways to write a character inside a string. One beyond the first 65536 takes two units. -/
inductive CharText (c : Char) : List Char → Prop where
  | plain : c ≠ '"' → c ≠ '\\' → 0x20 ≤ c.toNat → CharText c [c]
  | short {letter} : shortEscape? letter = some c → CharText c ['\\', letter]
  | unit {text} : UnitText c.toNat text → CharText c ('\\' :: 'u' :: text)
  | pair {high low} : 0x10000 ≤ c.toNat →
      UnitText (0xD800 + (c.toNat - 0x10000) / 0x400) high →
      UnitText (0xDC00 + (c.toNat - 0x10000) % 0x400) low →
      CharText c ('\\' :: 'u' :: (high ++ '\\' :: 'u' :: low))

inductive CharsText : List Char → List Char → Prop where
  | nil : CharsText [] []
  | cons {c s first rest} : CharText c first → CharsText s rest → CharsText (c :: s) (first ++ rest)

inductive StringText (s : String) : List Char → Prop where
  | mk {text} : CharsText s.toList text → StringText s ('"' :: (text ++ ['"']))

/-- What may stand inside a string: characters, and escapes of units that need not be characters. -/
inductive CharForm : List Char → Prop where
  | plain {c} : c ≠ '"' → c ≠ '\\' → 0x20 ≤ c.toNat → CharForm [c]
  | short {letter} : (shortEscape? letter).isSome → CharForm ['\\', letter]
  | unit {unit text} : UnitText unit text → CharForm ('\\' :: 'u' :: text)

inductive CharsForm : List Char → Prop where
  | nil : CharsForm []
  | cons {first rest} : CharForm first → CharsForm rest → CharsForm (first ++ rest)

inductive StringForm : List Char → Prop where
  | mk {text} : CharsForm text → StringForm ('"' :: (text ++ ['"']))

def Digits (text : List Char) : Prop := ∀ c ∈ text, c.isDigit = true

/-- An integer of several digits does not begin with zero. -/
inductive IntegerForm : List Char → Prop where
  | digit {c} : c.isDigit = true → IntegerForm [c]
  | digits {c rest} : c.isDigit = true → c ≠ '0' → Digits rest → IntegerForm (c :: rest)

inductive FractionForm : List Char → Prop where
  | none : FractionForm []
  | some {digits} : digits ≠ [] → Digits digits → FractionForm ('.' :: digits)

inductive ExponentForm : List Char → Prop where
  | none : ExponentForm []
  | some {e sign digits} : e = 'e' ∨ e = 'E' → sign = [] ∨ sign = ['+'] ∨ sign = ['-'] →
      digits ≠ [] → Digits digits → ExponentForm (e :: (sign ++ digits))

inductive UnsignedForm : List Char → Prop where
  | mk {integer fraction exponent} : IntegerForm integer → FractionForm fraction →
      ExponentForm exponent → UnsignedForm (integer ++ (fraction ++ exponent))

inductive ScalarForm : List Char → Prop where
  | null : ScalarForm ['n', 'u', 'l', 'l']
  | true : ScalarForm ['t', 'r', 'u', 'e']
  | false : ScalarForm ['f', 'a', 'l', 's', 'e']
  | unsigned {text} : UnsignedForm text → ScalarForm text
  | negative {text} : UnsignedForm text → ScalarForm ('-' :: text)
  | string {text} : StringForm text → ScalarForm text

inductive MemberForm (inner : List Char → Prop) : List Char → Prop where
  | mk {key before after text} : StringForm key → Blank before → Blank after → inner text →
      MemberForm inner (key ++ (before ++ ':' :: (after ++ text)))

/-- A scalar, or a list or an object with given values inside. -/
inductive ContainerForm (inner : List Char → Prop) : List Char → Prop where
  | scalar {text} : ScalarForm text → ContainerForm inner text
  | list {items text} : Enclosed '[' ']' (fun (_ : Unit) => inner) items text →
      ContainerForm inner text
  | object {members text} : Enclosed '{' '}' (fun (_ : Unit) => MemberForm inner) members text →
      ContainerForm inner text

/-- A value of at most so many nested lists and objects. -/
def ValueForm : ℕ → List Char → Prop
  | 0 => ScalarForm
  | depth + 1 => ContainerForm (ValueForm depth)

inductive ObjectText {α : Type} (member : α → List Char → Prop) (members : List α) : String → Prop
  where
  | mk {before object after} : Blank before → Enclosed '{' '}' member members object →
      Blank after → ObjectText member members (String.ofList (before ++ (object ++ after)))

inductive TextMember : String × String → List Char → Prop where
  | mk {name value key before after text} : StringText name key → Blank before → Blank after →
      StringText value text → TextMember (name, value) (key ++ (before ++ ':' :: (after ++ text)))

theorem hexDigit?_lowerHexDigit {n : ℕ} (h : n < 16) : hexDigit? (lowerHexDigit n) = some n := by
  have hall : ∀ m < 16, hexDigit? (lowerHexDigit m) = some m := by decide
  exact hall n h

theorem charText_escapeChar (c : Char) : CharText c (escapeChar c) := by
  unfold escapeChar
  split
  case h_8 hquote hbackslash _ _ _ _ _ =>
    split
    next hcontrol =>
      refine .unit (.mk (w := 0) (x := 0) (by decide) (by decide)
        (hexDigit?_lowerHexDigit (n := c.toNat / 16) (by omega))
        (hexDigit?_lowerHexDigit (n := c.toNat % 16) (by omega)) (by omega))
    next hplain => exact .plain (by simpa using hquote) (by simpa using hbackslash) (by omega)
  all_goals exact .short rfl

theorem charsText_escaped (s : List Char) : CharsText s (s.flatMap escapeChar) := by
  induction s with
  | nil => exact .nil
  | cons c s ih =>
    rw [List.flatMap_cons]
    exact .cons (charText_escapeChar c) ih

theorem stringText_quote (s : String) : StringText s (quote s) := .mk (charsText_escaped s.toList)

theorem textMember_write (name value : String) : TextMember (name, value) (writeMember name value) :=
  @TextMember.mk name value (quote name) [] [] (quote value) (stringText_quote name)
    Spelling.blank_nil Spelling.blank_nil (stringText_quote value)

theorem objectText_compact {α : Type} {member : α → List Char → Prop} {members : List α}
    {texts : List (List Char)} (h : List.Forall₂ member members texts) :
    ObjectText member members (String.ofList ('{' :: [','].intercalate texts ++ ['}'])) := by
  have hobject := ObjectText.mk Spelling.blank_nil (Spelling.enclosed_intercalate '{' '}' h)
    Spelling.blank_nil
  simpa using hobject

theorem objectText_writeObject (members : List (String × String)) :
    ObjectText TextMember members (writeObject members) := by
  refine objectText_compact ?_
  rw [List.forall₂_map_right_iff]
  exact List.forall₂_same.mpr fun m _ => textMember_write m.1 m.2

end Announcer.Json
