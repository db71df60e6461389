import Announcer.Modifier.Basic
import Announcer.Text.Alphanumeric
import Announcer.Text.Case

/-! # English modifiers

Case, articles, plurals, past tenses and replacement. Vowels are the five ASCII letters in either
case; only `capitalize`, `capitalizeAll`, `uppercase` and `lowercase` know letters beyond ASCII.
-/
namespace Announcer.English

def isVowel (c : Char) : Bool := "aeiouAEIOU".toList.contains c

def capitalize (upperOf : Char → List Char) : List Char → List Char
  | [] => []
  | c :: rest => upperOf c ++ rest

/-- Capitalizes each run of word characters. The flag tells whether the next one begins a run. -/
def capitalizeWords (isWordChar : Char → Bool) (upperOf : Char → List Char) (atStart : Bool) :
    List Char → List Char
  | [] => []
  | c :: rest =>
    if isWordChar c = false then c :: capitalizeWords isWordChar upperOf true rest
    else if atStart then upperOf c ++ capitalizeWords isWordChar upperOf false rest
    else c :: capitalizeWords isWordChar upperOf false rest

/-- A vowel takes "an", except a "u" with an "i" two places on: "a unicorn", "a united front". -/
def takesAn : List Char → Bool
  | [] => false
  | c :: rest =>
    let soundsLikeYou := (c == 'u' || c == 'U') && (rest[1]? == some 'i' || rest[1]? == some 'I')
    isVowel c && !soundsLikeYou

def article (text : List Char) : List Char :=
  if takesAn text then 'a' :: 'n' :: ' ' :: text else 'a' :: ' ' :: text

/-- The reversed word begins with a consonant, so that a "y" after it changes. -/
def endsInConsonant : List Char → Bool
  | [] => false
  | c :: _ => !isVowel c

def plural (text : List Char) : List Char :=
  match text.reverse with
  | [] => []
  | last :: before =>
    if "shxSHX".toList.contains last then text ++ ['e', 's']
    else if (last = 'y' ∨ last = 'Y') ∧ endsInConsonant before = true then
      before.reverse ++ ['i', 'e', 's']
    else text ++ ['s']

def firstWord (text : List Char) : List Char × List Char := text.span (· != ' ')

def pluralFirst (text : List Char) : List Char :=
  let (word, rest) := firstWord text
  plural word ++ rest

def past (word : List Char) : List Char :=
  match word.reverse with
  | [] => []
  | last :: before =>
    if last = 'e' then word ++ ['d']
    else if last = 'y' ∧ endsInConsonant before = true then before.reverse ++ ['i', 'e', 'd']
    else word ++ ['e', 'd']

def pastFirst (text : List Char) : List Char :=
  let (word, rest) := firstWord text
  past word ++ rest

/-- Every occurrence from the left, none overlapping the one before. -/
def replaceAll (old new : List Char) : List Char → List Char
  | [] => []
  | c :: rest =>
    match old with
    | [] => c :: rest
    | first :: more =>
      if c = first ∧ more.isPrefixOf rest = true then
        new ++ replaceAll old new (rest.drop more.length)
      else c :: replaceAll old new rest
termination_by text => text.length
decreasing_by all_goals (simp only [List.length_cons, List.length_drop]; omega)

/-- The first two parameters say what goes and what comes instead. -/
def replace : Modifier := fun text params =>
  match params with
  | old :: new :: _ => String.ofList (replaceAll old.toList new.toList text.toList)
  | _ => text

def modifiers : ModifierTable := .ofList [
  ("capitalize", .ofChars (capitalize Text.upperChar)),
  ("capitalizeAll", .ofChars (capitalizeWords Text.isAlphanumeric Text.upperChar true)),
  ("uppercase", .ofChars Text.upper),
  ("lowercase", .ofChars Text.lower),
  ("a", .ofChars article),
  ("s", .ofChars plural),
  ("firstS", .ofChars pluralFirst),
  ("ed", .ofChars pastFirst),
  ("replace", replace)]

end Announcer.English
