import Announcer.Grammar.Basic

/-! # Checking a grammar

The check looks at the templates alone. It reports references that no rule and no push defines,
modifiers that are not registered, and rules that always come back to themselves.
-/
namespace Announcer.Grammar

namespace Lint

inductive Problem where
  | noAlternatives (rule : String)
  | missingRule (rule symbol : String)
  | unknownModifier (rule modifier : String)
  | noWayOut (rule : String)
deriving DecidableEq, Repr

inductive Warning where
  | noOrigin
  | noVariety (rule : String)
deriving DecidableEq, Repr

def Problem.message : Problem → String
  | noAlternatives rule => s!"Rule '{rule}' has no alternatives"
  | missingRule rule symbol => s!"Rule '{rule}' references non-existent rule '{symbol}'"
  | unknownModifier rule modifier => s!"Rule '{rule}' uses unknown modifier '.{modifier}'"
  | noWayOut rule => s!"Rule '{rule}' has no non-recursive alternative (infinite recursion)"

def Warning.message : Warning → String
  | noOrigin => "No 'origin' rule found; messages must name their own root"
  | noVariety rule => s!"Rule '{rule}' has a single templated alternative (no variety)"

structure Report where
  problems : List Problem
  warnings : List Warning
deriving DecidableEq, Repr

def pushedKeys (g : Grammar) : List String :=
  g.rules.values.flatMap fun rule => rule.alternatives.flatMap Template.pushedKeys

def tagProblems (g : Grammar) (pushed : List String) (name : String) (tag : Tag) : List Problem :=
  let missing :=
    if tag.symbol ≠ "" ∧ g.rules.contains tag.symbol = false ∧ tag.symbol ∉ pushed then
      [.missingRule name tag.symbol]
    else []
  let unknown := tag.modifiers.filter fun call => !g.modifiers.contains call.name
  missing ++ unknown.map fun call => .unknownModifier name call.name

def refersTo (name : String) (t : Template) : Bool := t.tags.any fun tag => tag.symbol == name

def ruleProblems (g : Grammar) (pushed : List String) (name : String) (rule : Rule) :
    List Problem :=
  if rule.alternatives.isEmpty then [.noAlternatives name]
  else
    let tags := rule.alternatives.flatMap Template.tags
    tags.flatMap (tagProblems g pushed name) ++
      if rule.alternatives.all (refersTo name) then [.noWayOut name] else []

def ruleWarnings (name : String) (rule : Rule) : List Warning :=
  match rule.alternatives with
  | [only] => if only.isPlain then [] else [.noVariety name]
  | _ => []

end Lint

def lint (g : Grammar) : Lint.Report where
  problems := g.rules.entries.flatMap fun e => Lint.ruleProblems g (Lint.pushedKeys g) e.1 e.2
  warnings :=
    (if g.rules.contains "origin" then [] else [.noOrigin]) ++
      g.rules.entries.flatMap fun e => Lint.ruleWarnings e.1 e.2

end Announcer.Grammar
