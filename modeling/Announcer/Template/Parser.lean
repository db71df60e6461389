import Announcer.Template.Basic
import Announcer.Template.Scan

/-! # Reading templates

Text becomes a template one level at a time: the outermost tags and actions are cut out first and
the rules of a push are read as templates of their own. A rule is shorter than the text that
holds it, so a text has fewer levels than characters.
-/
namespace Announcer

inductive ParseError where
  | unclosedBracket
  | emptyTag
  | emptyModifierName
  | unclosedParameters (modifier : String)
  | actionAfterSymbol (tag : String)
  | missingSymbol (tag : String)
  | actionWithoutColon (action : String)
  | actionWithoutKey (action : String)
deriving DecidableEq, Repr

namespace ParseError

def detail : ParseError → String
  | unclosedBracket => "unclosed bracket"
  | emptyTag => "empty tag"
  | emptyModifierName => "empty modifier name"
  | unclosedParameters modifier => s!"unclosed parameter list in modifier '{modifier}'"
  | actionAfterSymbol tag => s!"actions must precede the symbol in tag '#{tag}#'"
  | missingSymbol tag => s!"missing symbol name in tag '#{tag}#'"
  | actionWithoutColon action => s!"action '[{action}]' must be [key:rule] or [key:POP]"
  | actionWithoutKey action => s!"action '[{action}]' has an empty key"

def message (e : ParseError) : String := "template parse error: " ++ e.detail

end ParseError

/-- The first `(` opens the parameter list and the last character has to be the `)` that closes
it. An empty list has no parameters. -/
def ModifierCall.parse (text : List Char) : Except ParseError ModifierCall := do
  let (name, params) ←
    match Scan.splitAtFirst? '(' text with
    | none => pure (text, [])
    | some (name, inner) =>
      if inner.getLast? = some ')' then
        let list := inner.dropLast
        pure (name, if list.isEmpty then [] else (Scan.splitTopLevel ',' list).map Scan.unescape)
      else throw (.unclosedParameters (String.ofList text))
  if name.isEmpty then throw .emptyModifierName
  return ⟨String.ofList name, params.map String.ofList⟩

/-- An action is a key, a colon and what the key gets. The key is taken as it is written. -/
def Action.parseWith (rule : List Char → Except ParseError Template) (content : List Char) :
    Except ParseError Action :=
  match Scan.splitAtFirst? ':' content with
  | none => throw (.actionWithoutColon (String.ofList content))
  | some (key, value) => do
    if key.isEmpty then throw (.actionWithoutKey (String.ofList content))
    if value = ['P', 'O', 'P'] then return .pop (String.ofList key)
    let rules ← (Scan.splitTopLevel ',' value).mapM rule
    return .push (String.ofList key) rules

def Tag.parseBody (content : List Char) (actions : List Action) (body : List Char) :
    Except ParseError Tag := do
  if Scan.hasBracket body then throw (.actionAfterSymbol (String.ofList content))
  if body.isEmpty then
    if actions.isEmpty then throw .emptyTag
    return ⟨actions, "", []⟩
  let parts := Scan.splitTopLevel '.' body
  let symbol := Scan.unescape (parts.headD [])
  if symbol.isEmpty then throw (.missingSymbol (String.ofList content))
  let modifiers ← parts.tail.mapM ModifierCall.parse
  return ⟨actions, String.ofList symbol, modifiers⟩

def Tag.parseWith (rule : List Char → Except ParseError Template) (content : List Char) :
    Except ParseError Tag :=
  match Scan.leadingActions? content with
  | none => throw .unclosedBracket
  | some (contents, body) => do
    let actions ← contents.mapM (Action.parseWith rule)
    Tag.parseBody content actions body

/-- A plain character is a literal of its own until its neighbours are joined to it. -/
def Segment.ofToken (rule : List Char → Except ParseError Template) :
    Scan.Token → Except ParseError Segment
  | .char c => pure (.literal (String.singleton c))
  | .tag content => .tag <$> Tag.parseWith rule content
  | .action content => .action <$> Action.parseWith rule content
  | .unclosedBracket => throw .unclosedBracket

/-- A segment put in front of others, where two literals that meet become one. -/
def Segment.join : Segment → List Segment → List Segment
  | .literal text, .literal next :: rest => .literal (text ++ next) :: rest
  | segment, rest => segment :: rest

def Segment.joinAll (segments : List Segment) : List Segment := segments.foldr Segment.join []

namespace Template

def parseWith (rule : List Char → Except ParseError Template) (text : List Char) :
    Except ParseError Template := do
  let segments ← (Scan.tokens text).mapM (Segment.ofToken rule)
  return ⟨Segment.joinAll segments⟩

def parseLevels : Nat → List Char → Except ParseError Template
  | 0, _ => throw .unclosedBracket
  | levels + 1, text => parseWith (parseLevels levels) text

def parseChars (text : List Char) : Except ParseError Template :=
  parseLevels (text.length + 1) text

def parse (text : String) : Except ParseError Template := parseChars text.toList

end Template

end Announcer
