/-! # Templates

A template is text with holes: literal text, tags that name a rule to expand, and actions that
change what a name stands for while the rest of the text is produced.
-/
namespace Announcer

/-- A modifier named in a tag, as in `.replace(a,b)`. -/
structure ModifierCall where
  name : String
  params : List String
deriving DecidableEq, Repr, Inhabited

mutual

inductive Segment where
  | literal (text : String)
  | tag (tag : Tag)
  | action (action : Action)

/-- The actions run first and the pushes among them end with the tag. The symbol is empty when
the tag has only actions. -/
structure Tag where
  actions : List Action
  symbol : String
  modifiers : List ModifierCall

/-- A push gives a key the texts of its rules, a pop takes the most recent push back. -/
inductive Action where
  | push (key : String) (rules : List Template)
  | pop (key : String)

structure Template where
  segments : List Segment

end

instance : Inhabited Template := ⟨⟨[]⟩⟩

def Template.literal (text : String) : Template := ⟨[.literal text]⟩

def Tag.bare (symbol : String) : Tag := ⟨[], symbol, []⟩

def Segment.isLiteral : Segment → Bool
  | .literal _ => true
  | _ => false

def Template.isPlain (t : Template) : Bool := t.segments.all Segment.isLiteral

mutual

/-- The tags of a segment in the order in which they are expanded: those inside the rules of an
action before the tag that leads with the action. -/
def Segment.tags : Segment → List Tag
  | .literal _ => []
  | .tag ⟨actions, symbol, modifiers⟩ => tagsOfActions actions ++ [⟨actions, symbol, modifiers⟩]
  | .action action => action.tags

def Action.tags : Action → List Tag
  | .push _ rules => tagsOfTemplates rules
  | .pop _ => []

def Template.tags : Template → List Tag
  | ⟨segments⟩ => tagsOfSegments segments

def tagsOfSegments : List Segment → List Tag
  | [] => []
  | segment :: rest => segment.tags ++ tagsOfSegments rest

def tagsOfActions : List Action → List Tag
  | [] => []
  | action :: rest => action.tags ++ tagsOfActions rest

def tagsOfTemplates : List Template → List Tag
  | [] => []
  | template :: rest => template.tags ++ tagsOfTemplates rest

end

mutual

/-- The keys that pushes of a segment are for, at any depth, each push before those inside its
rules. -/
def Segment.pushedKeys : Segment → List String
  | .literal _ => []
  | .tag ⟨actions, _, _⟩ => pushedKeysOfActions actions
  | .action action => action.pushedKeys

def Action.pushedKeys : Action → List String
  | .push key rules => key :: pushedKeysOfTemplates rules
  | .pop _ => []

def Template.pushedKeys : Template → List String
  | ⟨segments⟩ => pushedKeysOfSegments segments

def pushedKeysOfSegments : List Segment → List String
  | [] => []
  | segment :: rest => segment.pushedKeys ++ pushedKeysOfSegments rest

def pushedKeysOfActions : List Action → List String
  | [] => []
  | action :: rest => action.pushedKeys ++ pushedKeysOfActions rest

def pushedKeysOfTemplates : List Template → List String
  | [] => []
  | template :: rest => template.pushedKeys ++ pushedKeysOfTemplates rest

end

theorem tagsOfSegments_eq (segments : List Segment) :
    tagsOfSegments segments = segments.flatMap Segment.tags := by
  induction segments with
  | nil => simp [tagsOfSegments]
  | cons segment rest ih => simp [tagsOfSegments, ih]

theorem tagsOfActions_eq (actions : List Action) :
    tagsOfActions actions = actions.flatMap Action.tags := by
  induction actions with
  | nil => simp [tagsOfActions]
  | cons action rest ih => simp [tagsOfActions, ih]

theorem tagsOfTemplates_eq (templates : List Template) :
    tagsOfTemplates templates = templates.flatMap Template.tags := by
  induction templates with
  | nil => simp [tagsOfTemplates]
  | cons template rest ih => simp [tagsOfTemplates, ih]

theorem pushedKeysOfSegments_eq (segments : List Segment) :
    pushedKeysOfSegments segments = segments.flatMap Segment.pushedKeys := by
  induction segments with
  | nil => simp [pushedKeysOfSegments]
  | cons segment rest ih => simp [pushedKeysOfSegments, ih]

theorem pushedKeysOfActions_eq (actions : List Action) :
    pushedKeysOfActions actions = actions.flatMap Action.pushedKeys := by
  induction actions with
  | nil => simp [pushedKeysOfActions]
  | cons action rest ih => simp [pushedKeysOfActions, ih]

theorem pushedKeysOfTemplates_eq (templates : List Template) :
    pushedKeysOfTemplates templates = templates.flatMap Template.pushedKeys := by
  induction templates with
  | nil => simp [pushedKeysOfTemplates]
  | cons template rest ih => simp [pushedKeysOfTemplates, ih]

end Announcer
