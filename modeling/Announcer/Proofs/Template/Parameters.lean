import Announcer.Proofs.Expansion.Names

/-! # Which parentheses delimit parameters

The parameter list of a modifier is to stand between parentheses that no backslash takes out of play.
The reader looks for the first `(` and for a `)` at the end, whatever stands before them. Both are the
same as long as neither of these two is escaped, and for a call that has parameters only then.
-/
namespace Announcer

namespace Scan

variable {c : Char} {text name list : List Char}

def isWhole : List Char → Bool
  | [] => true
  | ['\\'] => false
  | '\\' :: _ :: rest => isWhole rest
  | _ :: rest => isWhole rest

theorem isWhole_iff : isWhole text = true ↔ Whole text := by
  fun_induction isWhole text with
  | case1 => exact iff_of_true rfl .nil
  | case2 => exact iff_of_false (by simp) not_whole_backslash
  | case3 c rest ih => exact ih.trans whole_escaped.symm
  | case4 c rest hlast hmore ih => exact ih.trans (whole_cons (ne_backslash hlast hmore)).symm

instance (text : List Char) : Decidable (Whole text) := decidable_of_iff _ isWhole_iff

/-- Whether a character occurs that no backslash takes out of play. -/
def hasUnescaped (c : Char) : List Char → Bool
  | [] => false
  | ['\\'] => false
  | '\\' :: _ :: rest => hasUnescaped c rest
  | d :: rest => d == c || hasUnescaped c rest

theorem hasUnescaped_iff (hc : c ≠ '\\') :
    hasUnescaped c text = true ↔ ∃ before after, text = before ++ c :: after ∧ Whole before := by
  fun_induction hasUnescaped c text with
  | case1 => simp
  | case2 =>
    refine iff_of_false (by simp) ?_
    rintro ⟨before, after, htext, -⟩
    have hmem : c ∈ ['\\'] := htext ▸ List.mem_append_right before List.mem_cons_self
    exact hc (List.mem_singleton.mp hmem)
  | case3 d rest ih =>
    rw [ih]
    constructor
    · rintro ⟨before, after, rfl, hbefore⟩
      exact ⟨'\\' :: d :: before, after, rfl, .escaped d hbefore⟩
    · rintro ⟨before, after, htext, hbefore⟩
      rcases escape_eq_append hbefore htext with rfl | ⟨first, rfl, hrest, hfirst⟩
      · exact absurd (List.head_eq_of_cons_eq htext).symm hc
      · exact ⟨first, after, hrest, hfirst⟩
  | case4 d rest hlast hmore ih =>
    have hd : d ≠ '\\' := ne_backslash hlast hmore
    rw [Bool.or_eq_true, beq_iff_eq, ih]
    constructor
    · rintro (rfl | ⟨before, after, rfl, hbefore⟩)
      · exact ⟨[], rest, rfl, .nil⟩
      · exact ⟨d :: before, after, rfl, .cons hd hbefore⟩
    · rintro ⟨before, after, htext, hbefore⟩
      rcases List.cons_eq_append_iff.mp htext with ⟨-, heq⟩ | ⟨first, rfl, hrest⟩
      · exact .inl (List.head_eq_of_cons_eq heq).symm
      · exact .inr ⟨first, after, hrest, (whole_cons hd).mp hbefore⟩

def DelimitersUnescaped (text : List Char) : Prop :=
  ∀ found ∈ splitAtFirst? '(' text,
    Whole found.1 ∧ (found.2.getLast? = some ')' → Whole found.2.dropLast)

instance (text : List Char) : Decidable (DelimitersUnescaped text) :=
  inferInstanceAs (Decidable (∀ found ∈ splitAtFirst? '(' text, _))

theorem delimitersUnescaped_iff (hname : '(' ∉ name) :
    DelimitersUnescaped (name ++ '(' :: (list ++ [')'])) ↔ Whole name ∧ Whole list := by
  simp [DelimitersUnescaped, splitAtFirst?_append hname]

end Scan

open Scan

inductive ModifierCall.Shape : List Char → Prop where
  | name {text} : '(' ∉ text → Shape text
  | openList {name rest} : '(' ∉ name → rest.getLast? ≠ some ')' → Shape (name ++ '(' :: rest)
  | closedList {name} (list) : '(' ∉ name → Shape (name ++ '(' :: (list ++ [')']))

variable {text name rest list : List Char} {call : ModifierCall}

namespace ModifierCall

theorem shape (text : List Char) : Shape text := by
  cases hsplit : splitAtFirst? '(' text with
  | none => exact .name (splitAtFirst?_eq_none hsplit)
  | some found =>
    obtain ⟨hname, rfl⟩ := splitAtFirst?_eq_some hsplit
    by_cases hlast : found.2.getLast? = some ')'
    · obtain ⟨list, hlist⟩ := List.getLast?_eq_some_iff.mp hlast
      rw [hlist]
      exact .closedList list hname
    · exact .openList hname hlast

def paramsOf (list : List Char) : List String :=
  (if list.isEmpty then [] else (splitTopLevel ',' list).map unescape).map String.ofList

theorem paramsOf_eq_nil : paramsOf list = [] ↔ list = [] := by
  have hne : splitTopLevel ',' list ≠ [] := splitFrom_ne_nil ',' 0 false list
  cases list with
  | nil => simp [paramsOf]
  | cons c rest => simpa [paramsOf] using hne

def named (name : List Char) (params : List String) : Except ParseError ModifierCall :=
  if name = [] then .error .emptyModifierName else .ok ⟨String.ofList name, params⟩

theorem named_eq_ok {params : List String} :
    named name params = .ok call ↔ name ≠ [] ∧ call = ⟨String.ofList name, params⟩ := by
  unfold named
  split
  next h => simp [h]
  next h => simp [h, eq_comm]

theorem named_ne_unclosed {params : List String} {modifier : String} :
    named name params ≠ .error (.unclosedParameters modifier) := by
  unfold named
  split <;> simp

theorem parse_name (h : '(' ∉ text) : parse text = named text [] := by
  simp only [parse, splitAtFirst?_of_notMem h, named]
  by_cases hempty : text = [] <;>
    simp [hempty, bind, Except.bind, pure, Except.pure, throw, throwThe, MonadExceptOf.throw]

theorem parse_openList (hname : '(' ∉ name) (hopen : rest.getLast? ≠ some ')') :
    parse (name ++ '(' :: rest) =
      .error (.unclosedParameters (String.ofList (name ++ '(' :: rest))) := by
  simp [parse, splitAtFirst?_append hname, hopen, bind, Except.bind, throw, throwThe,
    MonadExceptOf.throw]

theorem parse_closedList (hname : '(' ∉ name) (list : List Char) :
    parse (name ++ '(' :: (list ++ [')'])) = named name (paramsOf list) := by
  simp only [parse, splitAtFirst?_append hname, named, paramsOf]
  by_cases hempty : name = [] <;>
    simp [hempty, bind, Except.bind, pure, Except.pure, throw, throwThe, MonadExceptOf.throw]

theorem params_ne_nil_iff (h : parse text = .ok call) :
    call.params ≠ [] ↔ ∃ list ≠ [], text = call.name.toList ++ '(' :: (list ++ [')']) := by
  cases shape text with
  | name htext =>
    rw [parse_name htext, named_eq_ok] at h
    obtain ⟨-, rfl⟩ := h
    refine iff_of_false (fun hne => hne rfl) ?_
    rintro ⟨list, -, heq⟩
    exact htext (heq ▸ List.mem_append_right _ List.mem_cons_self)
  | openList hname hopen =>
    rw [parse_openList hname hopen] at h
    cases h
  | closedList list hname =>
    rw [parse_closedList hname, named_eq_ok] at h
    obtain ⟨-, rfl⟩ := h
    simp [paramsOf_eq_nil]

theorem parse_eq_unclosed_iff : parse text = .error (.unclosedParameters (String.ofList text)) ↔
    '(' ∈ text ∧ text.getLast? ≠ some ')' := by
  cases shape text with
  | name htext =>
    rw [parse_name htext]
    exact iff_of_false named_ne_unclosed (fun h => htext h.1)
  | @openList name rest hname hopen =>
    refine iff_of_true (parse_openList hname hopen) ⟨by simp, ?_⟩
    cases rest with
    | nil => simp
    | cons c others => simpa using hopen
  | closedList list hname =>
    rw [parse_closedList hname]
    refine iff_of_false named_ne_unclosed (fun h => h.2 ?_)
    rw [← List.cons_append, ← List.append_assoc, List.getLast?_concat]

/-- Only parentheses that are not escaped delimit the list of a call. -/
structure HonoursEscapes (text : List Char) : Prop where
  delimited : ∀ call, parse text = .ok call → call.params ≠ [] →
    ∃ list, text = call.name.toList ++ '(' :: (list ++ [')']) ∧ Whole call.name.toList ∧ Whole list
  unclosed : hasUnescaped '(' text = true → hasUnescaped ')' text = false →
    parse text = .error (.unclosedParameters (String.ofList text))
  plain : hasUnescaped '(' text = false → hasUnescaped ')' text = false → text ≠ [] →
    parse text = .ok ⟨String.ofList text, []⟩

theorem hasUnescaped_open (hname : Whole name) (rest : List Char) :
    hasUnescaped '(' (name ++ '(' :: rest) = true :=
  (hasUnescaped_iff (by decide)).mpr ⟨name, rest, rfl, hname⟩

theorem honours_name (h : '(' ∉ text) : HonoursEscapes text where
  delimited call hcall hne := by
    rw [parse_name h, named_eq_ok] at hcall
    obtain ⟨-, rfl⟩ := hcall
    exact absurd rfl hne
  unclosed hopen := by
    obtain ⟨before, after, rfl, -⟩ := (hasUnescaped_iff (by decide)).mp hopen
    exact absurd (List.mem_append_right _ List.mem_cons_self) h
  plain _ _ hne := by rw [parse_name h, named, if_neg hne]

theorem honours_openList (hname : '(' ∉ name) (hwhole : Whole name)
    (hopen : rest.getLast? ≠ some ')') : HonoursEscapes (name ++ '(' :: rest) where
  delimited call hcall := by
    rw [parse_openList hname hopen] at hcall
    cases hcall
  unclosed _ _ := parse_openList hname hopen
  plain hno := by
    rw [hasUnescaped_open hwhole] at hno
    cases hno

theorem honours_closedList (hname : '(' ∉ name) (hwhole : Whole name) (hlist : Whole list) :
    HonoursEscapes (name ++ '(' :: (list ++ [')'])) where
  delimited call hcall _ := by
    rw [parse_closedList hname, named_eq_ok] at hcall
    obtain ⟨-, rfl⟩ := hcall
    exact ⟨list, by simp, by simpa using hwhole, hlist⟩
  unclosed _ hclose := by
    have hcloses : hasUnescaped ')' (name ++ '(' :: (list ++ [')'])) = true := by
      refine (hasUnescaped_iff (by decide)).mpr ⟨name ++ '(' :: list, [], by simp, ?_⟩
      exact hwhole.append_iff.mpr (.cons (by decide) hlist)
    rw [hcloses] at hclose
    cases hclose
  plain hno := by
    rw [hasUnescaped_open hwhole] at hno
    cases hno

theorem honours_of_delimitersUnescaped (h : DelimitersUnescaped text) : HonoursEscapes text := by
  cases shape text with
  | name htext => exact honours_name htext
  | openList hname hopen =>
    exact honours_openList hname (h _ (splitAtFirst?_append hname _)).1 hopen
  | closedList list hname =>
    obtain ⟨hwhole, hlist⟩ := (delimitersUnescaped_iff hname).mp h
    exact honours_closedList hname hwhole hlist

theorem honours_iff (h : parse text = .ok call) (hne : call.params ≠ []) :
    HonoursEscapes text ↔ DelimitersUnescaped text := by
  constructor
  · intro hhonours
    obtain ⟨list, htext, hname, hlist⟩ := hhonours.delimited call h hne
    rw [htext]
    exact (delimitersUnescaped_iff (parse_isNamed h).2).mpr ⟨hname, hlist⟩
  · exact honours_of_delimitersUnescaped

end ModifierCall

def Tag.callTexts (content : List Char) : List (List Char) :=
  match leadingActions? content with
  | none => []
  | some (_, body) => (splitTopLevel '.' body).tail

theorem Tag.calls_of_parseBody {content body : List Char} {actions : List Action} {tag : Tag}
    (h : Tag.parseBody content actions body = .ok tag) :
    List.Forall₂ (fun text call => ModifierCall.parse text = .ok call)
      (splitTopLevel '.' body).tail tag.modifiers := by
  unfold Tag.parseBody at h
  dsimp only at h
  split at h
  next => cases h
  next =>
    split at h
    next hempty =>
      -- A tag of actions only has no calls.
      split at h
      next => cases h
      next =>
        cases h
        rw [List.isEmpty_iff.mp hempty]
        exact .nil
    next =>
      split at h
      next => cases h
      next =>
        obtain ⟨modifiers, hmodifiers, htag⟩ := bind_eq_ok.mp h
        cases htag
        exact mapM_eq_ok_iff.mp hmodifiers

theorem Tag.calls_of_parse {rule : List Char → Except ParseError Template} {content : List Char}
    {tag : Tag} (h : Tag.parseWith rule content = .ok tag) :
    List.Forall₂ (fun text call => ModifierCall.parse text = .ok call) (callTexts content)
      tag.modifiers := by
  cases hleading : leadingActions? content with
  | none =>
    rw [Tag.parseWith, hleading] at h
    cases h
  | some found =>
    rw [Tag.parseWith, hleading] at h
    obtain ⟨actions, -, hbody⟩ := bind_eq_ok.mp h
    rw [callTexts, hleading]
    exact calls_of_parseBody hbody

theorem Tag.parseWith_body {rule : List Char → Except ParseError Template} {content : List Char}
    (h : leadingActions? content = some ([], content)) :
    Tag.parseWith rule content = Tag.parseBody content [] content := by
  rw [Tag.parseWith, h]
  rfl

/-- In a tag that is accepted the parameters of each call stand between the first `(` of its text and
a `)` at the end. Escapes are honoured if neither of the two is escaped, and where there are
parameters only then. A text is rejected for its list when its `(` has no `)` at the end. -/
theorem Tag.parameters_delimited {w : String} {tag : Tag}
    (h : Template.parse (tagText w) = .ok ⟨[.tag tag]⟩) :
    List.Forall₂ (fun text call => ModifierCall.parse text = .ok call ∧
        (call.params ≠ [] ↔ ∃ list ≠ [], text = call.name.toList ++ '(' :: (list ++ [')'])) ∧
        (call.params ≠ [] → (ModifierCall.HonoursEscapes text ↔ DelimitersUnescaped text)))
      (callTexts w.toList) tag.modifiers ∧
    ∀ text, (DelimitersUnescaped text → ModifierCall.HonoursEscapes text) ∧
      (ModifierCall.parse text = .error (.unclosedParameters (String.ofList text)) ↔
        '(' ∈ text ∧ text.getLast? ≠ some ')') := by
  rw [Template.parse, toList_tagText] at h
  refine ⟨(calls_of_parse (tag_of_parseWith h).2).imp fun text call hcall => ?_, fun text => ?_⟩
  · exact ⟨hcall, ModifierCall.params_ne_nil_iff hcall, ModifierCall.honours_iff hcall⟩
  · exact ⟨ModifierCall.honours_of_delimitersUnescaped, ModifierCall.parse_eq_unclosed_iff⟩

/-- A bracket and an opening parenthesis are parameters when they are escaped. -/
theorem Tag.escaped_parameters_are_honoured :
    ModifierCall.parse "replace(\\[,\\()".toList = .ok ⟨"replace", ["[", "("]⟩ ∧
      ModifierCall.HonoursEscapes "replace(\\[,\\()".toList := by
  have hnone : leadingActions? "mood.replace(\\[,\\()".toList =
      some ([], "mood.replace(\\[,\\()".toList) := by cbv
  have htag : Template.parse (tagText "mood.replace(\\[,\\()") =
      .ok ⟨[.tag ⟨[], "mood", [⟨"replace", ["[", "("]⟩]⟩]⟩ := by
    rw [parse_tagText (by decide), parseWith_body hnone]
    rfl
  have htexts : callTexts "mood.replace(\\[,\\()".toList = ["replace(\\[,\\()".toList] := by
    rw [callTexts, hnone]
    decide
  obtain ⟨hcalls, -⟩ := Tag.parameters_delimited htag
  rw [htexts, List.forall₂_cons] at hcalls
  obtain ⟨⟨hcall, -, hhonours⟩, -⟩ := hcalls
  exact ⟨hcall, (hhonours (by decide)).mpr (by decide)⟩

/-- The only `)` of the call is escaped, and yet it closes the list. -/
theorem Tag.escaped_parenthesis_closes : ¬ ∀ (w : String) (tag : Tag),
    Template.parse (tagText w) = .ok ⟨[.tag tag]⟩ →
      ∀ text ∈ callTexts w.toList, ModifierCall.HonoursEscapes text := by
  intro hclaim
  have hnone : leadingActions? "w.replace(a,\\)".toList =
      some ([], "w.replace(a,\\)".toList) := by cbv
  have htag : Template.parse (tagText "w.replace(a,\\)") =
      .ok ⟨[.tag ⟨[], "w", [⟨"replace", ["a", "\\"]⟩]⟩]⟩ := by
    rw [parse_tagText (by decide), parseWith_body hnone]
    rfl
  have htexts : callTexts "w.replace(a,\\)".toList = ["replace(a,\\)".toList] := by
    rw [callTexts, hnone]
    decide
  have hrejected := (hclaim _ _ htag _ (htexts ▸ List.mem_singleton_self _)).unclosed
    (by decide) (by decide)
  have hread : ModifierCall.parse "replace(a,\\)".toList = .ok ⟨"replace", ["a", "\\"]⟩ := by cbv
  rw [hread] at hrejected
  cases hrejected

end Announcer
