import Announcer.Text.Hexadecimal

/-! # Object notation for rule files

The second format of rule files: a map in braces from strings to a string or to several strings
in brackets or parentheses. Names before parentheses, comments, raw strings and the headers that
enable extensions are allowed; whatever else the notation knows does not stand for texts.
-/
namespace Announcer.Ron

open Text (hexDigit?)

abbrev Reader (α : Type) := List Char → Option (α × List Char)

def isBlank (c : Char) : Bool := c == ' ' || c == '\t' || c == '\n' || c == '\r'

def skipComment : Nat → List Char → Option (List Char)
  | 0, text => some text
  | _ + 1, [] => none
  | level + 1, '/' :: '*' :: rest => skipComment (level + 2) rest
  | level + 1, '*' :: '/' :: rest => skipComment level rest
  | level + 1, _ :: rest => skipComment (level + 1) rest

theorem skipComment_length_le {level : Nat} {text rest : List Char}
    (h : skipComment level text = some rest) : rest.length ≤ text.length := by
  fun_induction skipComment level text with
  | case1 => cases h; exact Nat.le_refl _
  | case2 => cases h
  | case3 _ _ ih =>
    have := ih h
    simp only [List.length_cons]
    omega
  | case4 _ _ ih =>
    have := ih h
    simp only [List.length_cons]
    omega
  | case5 _ _ _ _ _ ih =>
    have := ih h
    simp only [List.length_cons]
    omega

/-- The text after blanks and comments. A slash that begins no comment is a mistake. -/
def skipBlank : List Char → Option (List Char)
  | [] => some []
  | '/' :: '/' :: rest => skipBlank (rest.dropWhile (· != '\n'))
  | '/' :: '*' :: rest =>
    match _h : skipComment 1 rest with
    | none => none
    | some after => skipBlank after
  | '/' :: _ => none
  | c :: rest => if isBlank c then skipBlank rest else some (c :: rest)
termination_by text => text.length
decreasing_by
  · have := (List.dropWhile_sublist (· != '\n') (l := rest)).length_le
    simp only [List.length_cons]
    omega
  · have := skipComment_length_le _h
    simp only [List.length_cons]
    omega
  · simp

def hexValue (digits : List Char) : Nat :=
  digits.foldl (fun n c => n * 16 + (hexDigit? c).getD 0) 0

/-- What follows a backslash: a letter, two hexadecimal digits after `x`, or up to six in braces
after `u`. -/
def readEscape : Reader Char
  | [] => none
  | 'x' :: a :: b :: rest =>
    match hexDigit? a, hexDigit? b with
    | some high, some low => some (Char.ofNat (high * 16 + low), rest)
    | _, _ => none
  | 'u' :: '{' :: rest =>
    let digits := rest.takeWhile fun c => (hexDigit? c).isSome
    match rest.drop digits.length with
    | '}' :: after =>
      if 1 ≤ digits.length ∧ digits.length ≤ 6 ∧ (hexValue digits).isValidChar then
        some (Char.ofNat (hexValue digits), after)
      else none
    | _ => none
  | c :: rest =>
    match c with
    | '\'' => some ('\'', rest)
    | '"' => some ('"', rest)
    | '\\' => some ('\\', rest)
    | 'n' => some ('\n', rest)
    | 'r' => some ('\r', rest)
    | 't' => some ('\t', rest)
    | '0' => some ('\x00', rest)
    | _ => none

theorem readEscape_length_le {text rest : List Char} {c : Char}
    (h : readEscape text = some (c, rest)) : rest.length ≤ text.length := by
  unfold readEscape at h
  split at h
  · cases h
  · split at h
    · simp only [Option.some.injEq, Prod.mk.injEq] at h
      rw [← h.2]
      simp only [List.length_cons]
      omega
    · cases h
  next more =>
    dsimp only at h
    split at h
    next after hdrop =>
      split at h
      · simp only [Option.some.injEq, Prod.mk.injEq] at h
        have hlen := congrArg List.length hdrop
        simp only [List.length_drop, List.length_cons] at hlen
        rw [← h.2]
        simp only [List.length_cons]
        omega
      · cases h
    · cases h
  · split at h <;> simp only [Option.some.injEq, Prod.mk.injEq, reduceCtorEq] at h
    all_goals
      rw [← h.2]
      simp

def readQuoted : Reader (List Char)
  | [] => none
  | '"' :: rest => some ([], rest)
  | '\\' :: rest =>
    match _h : readEscape rest with
    | none => none
    | some (c, after) => (readQuoted after).map fun found => (c :: found.1, found.2)
  | c :: rest => (readQuoted rest).map fun found => (c :: found.1, found.2)
termination_by text => text.length
decreasing_by
  · have := readEscape_length_le _h
    simp only [List.length_cons]
    omega
  · simp

def readUntil (close : List Char) : Reader (List Char)
  | [] => if close.isEmpty then some ([], []) else none
  | c :: rest =>
    if close.isPrefixOf (c :: rest) then some ([], (c :: rest).drop close.length)
    else (readUntil close rest).map fun found => (c :: found.1, found.2)

/-- A raw string after its `r`: what stands between quotes with equally many hashes outside. -/
def readRaw : Reader (List Char) := fun text =>
  let hashes := text.takeWhile (· == '#')
  match text.drop hashes.length with
  | '"' :: rest => readUntil ('"' :: hashes) rest
  | _ => none

def readString : Reader String
  | '"' :: rest => (readQuoted rest).map fun found => (String.ofList found.1, found.2)
  | 'r' :: rest => (readRaw rest).map fun found => (String.ofList found.1, found.2)
  | _ => none

def isNameStart (c : Char) : Bool := c.isAlpha || c == '_'

def isNameChar (c : Char) : Bool := c.isAlphanum || c == '_'

def isRawNameChar (c : Char) : Bool := isNameChar c || c == '.' || c == '+' || c == '-'

/-- A name. The `r` of a raw string is not one, and one that runs into a character of raw names
has to be marked as such. -/
def readName : Reader (List Char)
  | 'r' :: '"' :: _ => none
  | 'r' :: '#' :: rest =>
    let name := rest.takeWhile isRawNameChar
    if name.isEmpty then none else some (name, rest.drop name.length)
  | c :: rest =>
    if isNameStart c then
      let name := (c :: rest).takeWhile isNameChar
      if name.length < ((c :: rest).takeWhile isRawNameChar).length then none
      else some (name, (c :: rest).drop name.length)
    else none
  | [] => none

def isKeyword (text : List Char) : Bool :=
  ["true", "false", "Some", "None", "inf", "NaN"].contains
    (String.ofList (text.takeWhile isNameChar))

/-- Fewer items than steps between commas up to a closing bracket; a comma may stand before the
bracket. -/
def readItems {α : Type} (close : Char) (item : Reader α) : Nat → Reader (List α)
  | 0, _ => none
  | steps + 1, text => do
    match ← skipBlank text with
    | [] => none
    | c :: rest =>
      if c = close then return ([], rest)
      let (first, rest) ← item (c :: rest)
      match ← skipBlank rest with
      | [] => none
      | d :: rest =>
        if d = ',' then
          let (more, rest) ← readItems close item steps rest
          return (first :: more, rest)
        if d = close then return ([first], rest)
        none

/-- One text or several. An empty pair of parentheses without a name is no list. -/
def readEntry (steps : Nat) : Reader (List String)
  | '(' :: ')' :: _ => none
  | '(' :: rest => readItems ')' readString steps rest
  | '[' :: rest => readItems ']' readString steps rest
  | text =>
    match readName text with
    | some (_, rest) =>
      if isKeyword text then none
      else do
        match ← skipBlank rest with
        | '(' :: rest => readItems ')' readString steps rest
        | _ => none
    | none => (readString text).map fun found => ([found.1], found.2)

def readMember (steps : Nat) : Reader (String × List String) := fun text => do
  let (key, rest) ← readString text
  match ← skipBlank rest with
  | ':' :: rest =>
    let (entry, rest) ← readEntry steps (← skipBlank rest)
    return ((key, entry), rest)
  | _ => none

def isExtension (name : List Char) : Bool :=
  ["unwrap_newtypes", "implicit_some", "unwrap_variant_newtypes"].contains (String.ofList name)

def skipWord (word text : List Char) : Option (List Char) :=
  if word.isPrefixOf text then skipBlank (text.drop word.length) else none

def skipWords : List (List Char) → List Char → Option (List Char)
  | [], text => some text
  | word :: more, text => do skipWords more (← skipWord word text)

def skipExtensions : Nat → List Char → Option (List Char)
  | 0, _ => none
  | steps + 1, text => do
    let (name, rest) ← readName text
    if !isExtension name then none
    match ← skipBlank rest with
    | ',' :: rest =>
      let rest ← skipBlank rest
      if (rest.head?.map isNameChar).getD false then skipExtensions steps rest else some rest
    | rest => if (rest.head?.map isNameChar).getD false then none else some rest

def skipHeaders : Nat → List Char → Option (List Char)
  | 0, _ => none
  | steps + 1, text => do
    match ← skipBlank text with
    | '#' :: rest =>
      let rest ← skipWords [['!'], ['['], "enable".toList, ['(']] (← skipBlank rest)
      let rest ← skipExtensions (rest.length + 1) rest
      let rest ← skipWords [[')'], [']']] rest
      skipHeaders steps rest
    | rest => some rest

def parse? (text : String) : Option (List (String × List String)) := do
  let steps := text.length + 1
  match ← skipHeaders steps text.toList with
  | '{' :: rest =>
    let (members, rest) ← readItems '}' (readMember steps) steps rest
    if (← skipBlank rest).isEmpty then return members
    none
  | _ => none

end Announcer.Ron
