/-! # Scanning template text

The delimiters of template text are `#`, `[`, `]`, `(`, `)`, `:`, `.` and `,`. A backslash takes
the character after it out of play. The scanners here find where a tag or an action ends and cut
a text at its separators; they keep every escape, so that what they return can be scanned again.
-/
namespace Announcer.Scan

/-- The content of a tag and the text after its closing `#`. A `#` between brackets belongs to
an action inside the tag. The count is of brackets that are open; a `]` too many is ignored. -/
def tagContent? (depth : Nat) : List Char → Option (List Char × List Char)
  | [] => none
  | ['\\'] => none
  | '\\' :: c :: rest => (tagContent? depth rest).map fun found => ('\\' :: c :: found.1, found.2)
  | '[' :: rest => (tagContent? (depth + 1) rest).map fun found => ('[' :: found.1, found.2)
  | ']' :: rest => (tagContent? (depth - 1) rest).map fun found => (']' :: found.1, found.2)
  | c :: rest =>
    if c = '#' ∧ depth = 0 then some ([], rest)
    else (tagContent? depth rest).map fun found => (c :: found.1, found.2)

/-- The content of an action and the text after the `]` that closes it. The count is of brackets
that are open inside the action. -/
def bracketContent? (depth : Nat) : List Char → Option (List Char × List Char)
  | [] => none
  | ['\\'] => none
  | '\\' :: c :: rest =>
    (bracketContent? depth rest).map fun found => ('\\' :: c :: found.1, found.2)
  | '[' :: rest => (bracketContent? (depth + 1) rest).map fun found => ('[' :: found.1, found.2)
  | ']' :: rest =>
    match depth with
    | 0 => some ([], rest)
    | outer + 1 => (bracketContent? outer rest).map fun found => (']' :: found.1, found.2)
  | c :: rest => (bracketContent? depth rest).map fun found => (c :: found.1, found.2)

def hasBracket : List Char → Bool
  | [] => false
  | ['\\'] => false
  | '\\' :: _ :: rest => hasBracket rest
  | c :: rest => c == '[' || c == ']' || hasBracket rest

/-- The text with each backslash dropped and the character after it kept. A backslash that ends
the text stands for itself. -/
def unescape : List Char → List Char
  | [] => []
  | ['\\'] => ['\\']
  | '\\' :: c :: rest => c :: unescape rest
  | c :: rest => c :: unescape rest

def consToHead (c : Char) : List (List Char) → List (List Char)
  | [] => [[c]]
  | part :: rest => (c :: part) :: rest

/-- The parts between the separators that stand outside brackets, parentheses and tags. -/
def splitFrom (separator : Char) (depth : Int) (inTag : Bool) : List Char → List (List Char)
  | [] => [[]]
  | ['\\'] => [['\\']]
  | '\\' :: c :: rest => consToHead '\\' (consToHead c (splitFrom separator depth inTag rest))
  | c :: rest =>
    if c = '[' ∨ c = '(' then consToHead c (splitFrom separator (depth + 1) inTag rest)
    else if c = ']' ∨ c = ')' then consToHead c (splitFrom separator (depth - 1) inTag rest)
    else if c = '#' ∧ depth = 0 then consToHead c (splitFrom separator depth (!inTag) rest)
    else if c = separator ∧ depth = 0 ∧ inTag = false then
      [] :: splitFrom separator depth inTag rest
    else consToHead c (splitFrom separator depth inTag rest)

def splitTopLevel (separator : Char) (text : List Char) : List (List Char) :=
  splitFrom separator 0 false text

def splitAtFirst? (c : Char) : List Char → Option (List Char × List Char)
  | [] => none
  | head :: rest =>
    if head = c then some ([], rest)
    else (splitAtFirst? c rest).map fun found => (head :: found.1, found.2)

theorem consToHead_ne_nil (c : Char) (parts : List (List Char)) : consToHead c parts ≠ [] := by
  cases parts <;> simp [consToHead]

theorem tagContent?_eq_append {depth : Nat} {text content rest : List Char}
    (h : tagContent? depth text = some (content, rest)) : text = content ++ '#' :: rest := by
  fun_induction tagContent? depth text generalizing content with
  | case1 => simp at h
  | case2 => simp at h
  | case3 depth c tail ih =>
    obtain ⟨found, hf, he⟩ := Option.map_eq_some_iff.mp h
    cases he
    simp [ih hf]
  | case4 depth tail ih =>
    obtain ⟨found, hf, he⟩ := Option.map_eq_some_iff.mp h
    cases he
    simp [ih hf]
  | case5 depth tail ih =>
    obtain ⟨found, hf, he⟩ := Option.map_eq_some_iff.mp h
    cases he
    simp [ih hf]
  | case6 depth c tail _ _ _ _ hc =>
    cases h
    simp [hc.1]
  | case7 depth c tail _ _ _ _ _ ih =>
    obtain ⟨found, hf, he⟩ := Option.map_eq_some_iff.mp h
    cases he
    simp [ih hf]

theorem bracketContent?_eq_append {depth : Nat} {text content rest : List Char}
    (h : bracketContent? depth text = some (content, rest)) : text = content ++ ']' :: rest := by
  fun_induction bracketContent? depth text generalizing content with
  | case1 => simp at h
  | case2 => simp at h
  | case3 depth c tail ih =>
    obtain ⟨found, hf, he⟩ := Option.map_eq_some_iff.mp h
    cases he
    simp [ih hf]
  | case4 depth tail ih =>
    obtain ⟨found, hf, he⟩ := Option.map_eq_some_iff.mp h
    cases he
    simp [ih hf]
  | case5 tail => cases h; rfl
  | case6 tail outer ih =>
    obtain ⟨found, hf, he⟩ := Option.map_eq_some_iff.mp h
    cases he
    simp [ih hf]
  | case7 depth c tail _ _ _ _ ih =>
    obtain ⟨found, hf, he⟩ := Option.map_eq_some_iff.mp h
    cases he
    simp [ih hf]

theorem tagContent?_length_lt {depth : Nat} {text content rest : List Char}
    (h : tagContent? depth text = some (content, rest)) : rest.length < text.length := by
  simp [tagContent?_eq_append h]
  omega

theorem bracketContent?_length_lt {depth : Nat} {text content rest : List Char}
    (h : bracketContent? depth text = some (content, rest)) : rest.length < text.length := by
  simp [bracketContent?_eq_append h]
  omega

inductive Token where
  | char (c : Char)
  | tag (content : List Char)
  | action (content : List Char)
  | unclosedBracket
deriving DecidableEq, Repr

/-- A `#` without a partner and a `]` without a `[` are plain characters. Nothing follows a `[`
that is never closed. -/
def tokens : List Char → List Token
  | [] => []
  | '\\' :: c :: rest => .char c :: tokens rest
  | '#' :: rest =>
    match _h : tagContent? 0 rest with
    | some (content, after) => .tag content :: tokens after
    | none => .char '#' :: tokens rest
  | '[' :: rest =>
    match _h : bracketContent? 0 rest with
    | some (content, after) => .action content :: tokens after
    | none => [.unclosedBracket]
  | c :: rest => .char c :: tokens rest
termination_by text => text.length
decreasing_by
  · simp only [List.length_cons]
    omega
  · have := tagContent?_length_lt _h
    simp only [List.length_cons]
    omega
  · simp
  · have := bracketContent?_length_lt _h
    simp only [List.length_cons]
    omega
  · simp

theorem tokens_hash (text : List Char) :
    tokens ('#' :: text) =
      match tagContent? 0 text with
      | some (content, after) => .tag content :: tokens after
      | none => .char '#' :: tokens text := by
  rw [tokens]
  split
  next h => rw [h]
  next h => rw [h]

theorem tokens_bracket (text : List Char) :
    tokens ('[' :: text) =
      match bracketContent? 0 text with
      | some (content, after) => .action content :: tokens after
      | none => [.unclosedBracket] := by
  rw [tokens]
  split
  next h => rw [h]
  next h => rw [h]

def leadingActions? : List Char → Option (List (List Char) × List Char)
  | '[' :: rest =>
    match _h : bracketContent? 0 rest with
    | some (content, after) =>
      (leadingActions? after).map fun found => (content :: found.1, found.2)
    | none => none
  | text => some ([], text)
termination_by text => text.length
decreasing_by
  have := bracketContent?_length_lt _h
  simp only [List.length_cons]
  omega

end Announcer.Scan
