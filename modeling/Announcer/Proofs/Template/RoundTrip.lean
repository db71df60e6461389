import Announcer.Proofs.Template.Balance
import Announcer.Proofs.Template.NormalForm

/-! # Writing templates and reading them back

A template is written with a backslash before every character of its literals, symbols and
parameters; keys and modifier names are written as they are. Reading cuts the text of each level
out of the level above it, so a written template comes back only if all levels agree on what is
escaped and on where tags and actions end.
-/
namespace Announcer

open Scan (escape Balanced)

def ModifierCall.body (call : ModifierCall) : List Char :=
  match call.params with
  | [] => call.name.toList
  | params =>
    call.name.toList ++ '(' :: ([','].intercalate (params.map fun p => escape p.toList) ++ [')'])

def Tag.body (tag : Tag) : List Char :=
  escape tag.symbol.toList ++ tag.modifiers.flatMap fun call => '.' :: call.body

mutual

def Segment.render : Segment → List Char
  | .literal text => escape text.toList
  | .tag ⟨actions, symbol, modifiers⟩ =>
    '#' :: (renderActions actions ++ Tag.body ⟨actions, symbol, modifiers⟩ ++ ['#'])
  | .action a => a.render

def Action.render : Action → List Char
  | .push key rules =>
    '[' :: (key.toList ++ ':' :: [','].intercalate (renderTemplates rules) ++ [']'])
  | .pop key => '[' :: (key.toList ++ [':', 'P', 'O', 'P'] ++ [']'])

def Template.render : Template → List Char
  | ⟨segments⟩ => renderSegments segments

def renderSegments : List Segment → List Char
  | [] => []
  | segment :: rest => segment.render ++ renderSegments rest

def renderActions : List Action → List Char
  | [] => []
  | action :: rest => action.render ++ renderActions rest

def renderTemplates : List Template → List (List Char)
  | [] => []
  | template :: rest => template.render :: renderTemplates rest

end

/-- A name that no scanner mistakes for anything else. -/
def IsName (name : String) : Prop :=
  name ≠ "" ∧ ∀ c ∈ name.toList, c ∉ ['\\', '#', '[', ']', '(', ')', '.', ',', ':']

instance (name : String) : Decidable (IsName name) :=
  @instDecidableAnd _ _ inferInstance (List.decidableBAll _ _)

/-- The list of the empty text alone would be written like an empty list. -/
def ModifierCall.IsWritable (call : ModifierCall) : Prop := IsName call.name ∧ call.params ≠ [""]

/-- Templates that can be told from their text. -/
def Template.IsWritable (t : Template) : Prop :=
  t.Meets (normalForm IsName ModifierCall.IsWritable)

theorem renderSegments_eq (segments : List Segment) :
    renderSegments segments = segments.flatMap Segment.render := by
  induction segments with
  | nil => simp [renderSegments]
  | cons segment rest ih => simp [renderSegments, ih]

theorem renderActions_eq (actions : List Action) :
    renderActions actions = actions.flatMap Action.render := by
  induction actions with
  | nil => simp [renderActions]
  | cons action rest ih => simp [renderActions, ih]

theorem renderTemplates_eq (templates : List Template) :
    renderTemplates templates = templates.map Template.render := by
  induction templates with
  | nil => simp [renderTemplates]
  | cons template rest ih => simp [renderTemplates, ih]

def Action.content : Action → List Char
  | .push key rules => key.toList ++ ':' :: [','].intercalate (rules.map Template.render)
  | .pop key => key.toList ++ [':', 'P', 'O', 'P']

def Tag.content (tag : Tag) : List Char := tag.actions.flatMap Action.render ++ tag.body

theorem Action.render_eq (a : Action) : a.render = '[' :: (a.content ++ [']']) := by
  cases a with
  | push key rules => simp [render, content, renderTemplates_eq]
  | pop key => simp [render, content]

theorem Segment.render_tag (tag : Tag) :
    (Segment.tag tag).render = '#' :: (tag.content ++ ['#']) := by
  obtain ⟨actions, symbol, modifiers⟩ := tag
  simp [render, Tag.content, renderActions_eq]

theorem Template.render_eq (t : Template) : t.render = t.segments.flatMap Segment.render := by
  obtain ⟨segments⟩ := t
  rw [render, renderSegments_eq]

theorem IsName.notMem_delimiters {name : String} (h : IsName name) {c : Char}
    (hc : c ∈ name.toList) : c ∉ Scan.delimiters := by
  have hno := h.2 c hc
  simp only [List.mem_cons, List.not_mem_nil, or_false, not_or] at hno
  simp [Scan.delimiters, hno]

theorem IsName.notMem {name : String} (h : IsName name) {c : Char}
    (hc : c ∈ ['\\', '#', '[', ']', '(', ')', '.', ',', ':']) : c ∉ name.toList :=
  fun hmem => h.2 c hmem hc

theorem IsName.balanced {name : String} (h : IsName name) :
    Balanced (· ≠ '.') false name.toList := by
  refine Scan.balanced_of_plain fun c hc => ⟨h.notMem_delimiters hc, ?_⟩
  rintro rfl
  exact h.notMem (by simp) hc

theorem ModifierCall.params_balanced (params : List String) :
    Balanced (fun _ => True) false ([','].intercalate (params.map fun p => escape p.toList)) := by
  apply Scan.balanced_intercalate (by decide) trivial
  intro p hp
  obtain ⟨param, -, rfl⟩ := List.mem_map.mp hp
  exact Scan.balanced_escape _

theorem ModifierCall.body_balanced {call : ModifierCall} (h : call.IsWritable) :
    Balanced (· ≠ '.') false call.body := by
  have hname := h.1.balanced
  unfold body
  split
  next => exact hname
  next => exact hname.append (.parentheses (params_balanced _) .nil)

theorem Tag.body_balanced {tag : Tag} (h : ∀ m ∈ tag.modifiers, m.IsWritable) :
    Balanced (fun _ => True) false tag.body := by
  refine (Scan.balanced_escape _).append (Scan.balanced_flatMap fun call hcall => ?_)
  have hbody := (ModifierCall.body_balanced (h call hcall)).widen (fun _ _ => trivial) id
  exact .plain '.' (by decide) trivial hbody

theorem Action.content_balanced {a : Action}
    (ha : (normalForm IsName ModifierCall.IsWritable).action a)
    (hr : ∀ r ∈ a.rules, Balanced (fun _ => False) true r.render) :
    Balanced (fun _ => True) true a.content := by
  cases a with
  | pop key =>
    refine (Scan.balanced_of_plain fun c hc => ⟨ha.notMem_delimiters hc, trivial⟩).append ?_
    exact Scan.balanced_of_plain (by simp [Scan.delimiters])
  | push key rules =>
    refine (Scan.balanced_of_plain fun c hc => ⟨ha.1.notMem_delimiters hc, trivial⟩).append ?_
    refine .plain ':' (by decide) trivial ?_
    apply Scan.balanced_intercalate (by decide) trivial
    intro p hp
    obtain ⟨r, hmem, rfl⟩ := List.mem_map.mp hp
    exact (hr r hmem).inside

theorem Tag.content_balanced {tag : Tag} (h : ∀ m ∈ tag.modifiers, m.IsWritable)
    (ha : ∀ a ∈ tag.actions, Balanced (fun _ => True) true a.content) :
    Balanced (fun _ => True) false tag.content := by
  refine (Scan.balanced_flatMap fun a hmem => ?_).append (Tag.body_balanced h)
  rw [Action.render_eq]
  exact .brackets (ha a hmem) .nil

theorem Template.render_balanced {t : Template} (h : t.IsWritable) :
    Balanced (fun _ => False) true t.render := by
  induction h with
  | @level t hsegments htags hactions hrules ih =>
    have hcontent : ∀ a ∈ t.actions, Balanced (fun _ => True) true a.content := by
      intro a ha
      exact Action.content_balanced (hactions a ha)
        fun r hr => ih r (List.mem_flatMap.mpr ⟨a, ha, hr⟩)
    rw [render_eq]
    apply Scan.balanced_flatMap
    intro s hs
    cases s with
    | literal text => exact Scan.balanced_escape _
    | tag tag =>
      rw [Segment.render_tag]
      refine .tag rfl (Tag.content_balanced (htags tag hs).2 fun a ha => ?_) .nil
      exact hcontent a (mem_actions.mpr (.inr ⟨tag, hs, ha⟩))
    | action a =>
      rw [Segment.render, Action.render_eq]
      exact .brackets (hcontent a (mem_actions.mpr (.inl hs))) .nil

theorem Template.IsWritable.action_balanced {t : Template} (h : t.IsWritable) {a : Action}
    (ha : a ∈ t.actions) : Balanced (fun _ => True) true a.content := by
  obtain ⟨-, -, hactions, hrules⟩ := Template.meets_iff.mp h
  exact Action.content_balanced (hactions a ha)
    fun r hr => Template.render_balanced (hrules r (List.mem_flatMap.mpr ⟨a, ha, hr⟩))

theorem Template.IsWritable.tag_balanced {t : Template} (h : t.IsWritable) {tag : Tag}
    (htag : .tag tag ∈ t.segments) : Balanced (fun _ => True) false tag.content := by
  obtain ⟨-, htags, -, -⟩ := Template.meets_iff.mp h
  exact Tag.content_balanced (htags tag htag).2
    fun a ha => h.action_balanced (mem_actions.mpr (.inr ⟨tag, htag, ha⟩))

def Segment.tokens : Segment → List Scan.Token
  | .literal text => text.toList.map .char
  | .tag t => [.tag t.content]
  | .action a => [.action a.content]

theorem tokens_escape_append (text rest : List Char) :
    Scan.tokens (escape text ++ rest) = text.map .char ++ Scan.tokens rest := by
  induction text with
  | nil => rfl
  | cons c others ih =>
    change Scan.tokens ('\\' :: c :: (escape others ++ rest)) = _
    rw [Scan.tokens, ih]
    rfl

theorem tokens_tag {plain : Char → Prop} {content : List Char} (h : Balanced plain false content)
    (rest : List Char) :
    Scan.tokens ('#' :: (content ++ '#' :: rest)) = .tag content :: Scan.tokens rest := by
  rw [Scan.tokens_hash, Scan.tagContent?_close h]

theorem tokens_action {plain : Char → Prop} {tags : Bool} {content : List Char}
    (h : Balanced plain tags content) (rest : List Char) :
    Scan.tokens ('[' :: (content ++ ']' :: rest)) = .action content :: Scan.tokens rest := by
  rw [Scan.tokens_bracket, Scan.bracketContent?_close h]

theorem tokens_render {t : Template} (h : t.IsWritable) :
    Scan.tokens t.render = t.segments.flatMap Segment.tokens := by
  have hall : ∀ segments : List Segment, (∀ s ∈ segments, s ∈ t.segments) →
      Scan.tokens (segments.flatMap Segment.render) = segments.flatMap Segment.tokens := by
    intro segments hmem
    induction segments with
    | nil => simp [Scan.tokens]
    | cons s rest ih =>
      have hs := hmem s (by simp)
      have hrest := ih fun u hu => hmem u (by simp [hu])
      rw [List.flatMap_cons, List.flatMap_cons]
      cases s with
      | literal text => rw [Segment.render, tokens_escape_append, hrest, Segment.tokens]
      | tag tag =>
        rw [Segment.render_tag, List.cons_append, List.append_assoc, List.singleton_append,
          tokens_tag (h.tag_balanced hs), hrest]
        rfl
      | action a =>
        have ha := h.action_balanced (Template.mem_actions.mpr (.inl hs))
        rw [Segment.render, Action.render_eq, List.cons_append, List.append_assoc,
          List.singleton_append, tokens_action ha, hrest]
        rfl
  rw [Template.render_eq]
  exact hall t.segments fun s hs => hs

theorem leadingActions?_cons {plain : Char → Prop} {tags : Bool} {content : List Char}
    (h : Balanced plain tags content) (rest : List Char) :
    Scan.leadingActions? ('[' :: (content ++ ']' :: rest)) =
      (Scan.leadingActions? rest).map fun found => (content :: found.1, found.2) := by
  rw [Scan.leadingActions?]
  split
  next found after hfound =>
    rw [Scan.bracketContent?_close h] at hfound
    cases hfound
    rfl
  next hnone =>
    rw [Scan.bracketContent?_close h] at hnone
    cases hnone

/-- The body of a tag begins with an escape or is empty, so the actions end where it begins. -/
theorem leadingActions?_body {tag : Tag}
    (htag : tag.symbol ≠ "" ∨ (tag.actions ≠ [] ∧ tag.modifiers = [])) :
    Scan.leadingActions? tag.body = some ([], tag.body) := by
  cases hsymbol : tag.symbol.toList with
  | nil =>
    have hempty : tag.symbol = "" := by simpa using hsymbol
    have hbody : tag.body = [] := by
      rcases htag with hne | ⟨-, hnone⟩
      · exact absurd hempty hne
      · simp [Tag.body, hsymbol, hnone, escape]
    rw [hbody, Scan.leadingActions?]
    intro rest hrest
    cases hrest
  | cons c others =>
    have hbody : ∃ more, tag.body = '\\' :: more := by
      rw [Tag.body, hsymbol]
      exact ⟨_, rfl⟩
    obtain ⟨more, hmore⟩ := hbody
    rw [hmore, Scan.leadingActions?]
    intro rest hrest
    cases hrest

theorem leadingActions?_content {tag : Tag}
    (htag : tag.symbol ≠ "" ∨ (tag.actions ≠ [] ∧ tag.modifiers = []))
    (ha : ∀ a ∈ tag.actions, Balanced (fun _ => True) true a.content) :
    Scan.leadingActions? tag.content = some (tag.actions.map Action.content, tag.body) := by
  have hall : ∀ actions : List Action, (∀ a ∈ actions, a ∈ tag.actions) →
      Scan.leadingActions? (actions.flatMap Action.render ++ tag.body) =
        some (actions.map Action.content, tag.body) := by
    intro actions hmem
    induction actions with
    | nil => simpa using leadingActions?_body htag
    | cons a rest ih =>
      rw [List.flatMap_cons, Action.render_eq, List.append_assoc, List.cons_append,
        List.append_assoc, List.singleton_append, leadingActions?_cons (ha a (hmem a (by simp))),
        ih fun b hb => hmem b (by simp [hb])]
      rfl
  exact hall tag.actions fun a ha => ha

theorem Tag.body_eq (tag : Tag) :
    tag.body =
      ['.'].intercalate (escape tag.symbol.toList :: tag.modifiers.map ModifierCall.body) := by
  rw [Scan.intercalate_cons, List.flatMap_map, Tag.body]

theorem IsName.bracketFree {name : String} (h : IsName name) :
    Scan.BracketFree name.toList := by
  apply Scan.bracketFree_of_plain
  intro c hc
  obtain ⟨hescape, -, hopen, hclose, -, -⟩ :=
    Scan.ne_of_notMem_delimiters (h.notMem_delimiters hc)
  exact ⟨hescape, hopen, hclose⟩

theorem ModifierCall.body_bracketFree {call : ModifierCall} (h : call.IsWritable) :
    Scan.BracketFree call.body := by
  have hname := h.1.bracketFree
  unfold body
  split
  next => exact hname
  next =>
    have hparams : Scan.BracketFree
        ([','].intercalate (call.params.map fun p => escape p.toList)) := by
      apply Scan.bracketFree_intercalate (by decide)
      intro p hp
      obtain ⟨param, -, rfl⟩ := List.mem_map.mp hp
      exact Scan.bracketFree_escape _
    have hopen : Scan.BracketFree ['('] := Scan.bracketFree_of_plain (by simp)
    exact hname.append (hopen.append (hparams.append (Scan.bracketFree_of_plain (by simp))))

theorem Tag.hasBracket_body {tag : Tag} (h : ∀ m ∈ tag.modifiers, m.IsWritable) :
    Scan.hasBracket tag.body = false := by
  have hfree : Scan.BracketFree tag.body := by
    refine (Scan.bracketFree_escape _).append (Scan.bracketFree_flatMap fun call hcall => ?_)
    have hdot : Scan.BracketFree ['.'] := Scan.bracketFree_of_plain (by simp)
    exact hdot.append (ModifierCall.body_bracketFree (h call hcall))
  simpa [Scan.hasBracket] using hfree []

theorem splitAtFirst?_append {c : Char} {before : List Char} (h : c ∉ before)
    (after : List Char) : Scan.splitAtFirst? c (before ++ c :: after) = some (before, after) := by
  induction before with
  | nil => simp [Scan.splitAtFirst?]
  | cons head rest ih =>
    simp only [List.mem_cons, not_or] at h
    obtain ⟨hhead, hrest⟩ := h
    simp [Scan.splitAtFirst?, Ne.symm hhead, ih hrest]

theorem splitAtFirst?_of_notMem {c : Char} {text : List Char} (h : c ∉ text) :
    Scan.splitAtFirst? c text = none := by
  induction text with
  | nil => rfl
  | cons head rest ih =>
    simp only [List.mem_cons, not_or] at h
    obtain ⟨hhead, hrest⟩ := h
    simp [Scan.splitAtFirst?, Ne.symm hhead, ih hrest]

theorem escape_ne_nil {text : String} (h : text ≠ "") : escape text.toList ≠ [] := by
  cases hlist : text.toList with
  | nil => exact absurd (by simpa using hlist) h
  | cons c rest => exact List.cons_ne_nil _ _

theorem params_text_ne_nil {params : List String} (hne : params ≠ []) (hone : params ≠ [""]) :
    [','].intercalate (params.map fun p => escape p.toList) ≠ [] := by
  match params with
  | [] => exact absurd rfl hne
  | [p] =>
    have hp : p ≠ "" := fun he => hone (by rw [he])
    simpa using escape_ne_nil hp
  | p :: q :: rest => simp [List.intercalate_cons_cons]

theorem split_params {params : List String} (hne : params ≠ []) :
    ((Scan.splitTopLevel ',' ([','].intercalate (params.map fun p => escape p.toList))).map
      Scan.unescape).map String.ofList = params := by
  have hparts : ∀ part ∈ params.map fun p => escape p.toList,
      Balanced (fun _ => False) true part := by
    intro part hpart
    obtain ⟨param, -, rfl⟩ := List.mem_map.mp hpart
    exact Scan.balanced_escape _
  rw [Scan.splitTopLevel_intercalate (by decide) id (by simpa using hne) hparts, List.map_map,
    List.map_map]
  conv_rhs => rw [← List.map_id params]
  apply List.map_congr_left
  intro p _
  simp [Scan.unescape_escape]

theorem ModifierCall.parse_body {call : ModifierCall} (h : call.IsWritable) :
    ModifierCall.parse call.body = .ok call := by
  obtain ⟨name, params⟩ := call
  obtain ⟨hname, hparams⟩ := h
  have hopen : '(' ∉ name.toList := hname.notMem (by simp)
  have hne : name ≠ "" := hname.1
  unfold ModifierCall.parse ModifierCall.body
  cases params with
  | nil =>
    dsimp only
    rw [splitAtFirst?_of_notMem hopen]
    simp [hne, bind, Except.bind, pure, Except.pure]
  | cons p rest =>
    have hinner := params_text_ne_nil (List.cons_ne_nil p rest) hparams
    have hsplit := split_params (List.cons_ne_nil p rest)
    rw [List.map_cons] at hinner hsplit
    dsimp only
    rw [splitAtFirst?_append hopen]
    simp [hne, hinner, hsplit, bind, Except.bind, pure, Except.pure]

variable {rule : List Char → Except ParseError Template}

theorem rules_text_ne_pop {rules : List Template} (h : ∀ r ∈ rules, r.IsWritable) :
    [','].intercalate (rules.map Template.render) ≠ ['P', 'O', 'P'] := by
  intro hpop
  have hbalanced : Balanced (· = ',') true ([','].intercalate (rules.map Template.render)) := by
    apply Scan.balanced_intercalate (by decide) (by rfl)
    intro part hpart
    obtain ⟨r, hr, rfl⟩ := List.mem_map.mp hpart
    exact (Template.render_balanced (h r hr)).widen (fun _ hno => hno.elim) id
  rw [hpop] at hbalanced
  cases hbalanced with
  | plain _ _ hcomma _ => simp at hcomma

theorem Action.parseWith_content {a : Action}
    (ha : (normalForm IsName ModifierCall.IsWritable).action a)
    (hr : ∀ r ∈ a.rules, r.IsWritable) (hrule : ∀ r ∈ a.rules, rule r.render = .ok r) :
    Action.parseWith rule a.content = .ok a := by
  unfold Action.parseWith
  cases a with
  | pop key =>
    have hname : IsName key := ha
    have hne : key ≠ "" := hname.1
    rw [content, splitAtFirst?_append (hname.notMem (by simp))]
    simp [hne, pure, Except.pure]
  | push key rules =>
    have hname : IsName key := ha.1
    have hne : key ≠ "" := hname.1
    have hparts : ∀ part ∈ rules.map Template.render, Balanced (fun _ => False) true part := by
      intro part hpart
      obtain ⟨r, hmem, rfl⟩ := List.mem_map.mp hpart
      exact Template.render_balanced (hr r hmem)
    have hsplit := Scan.splitTopLevel_intercalate (by decide : ',' ∉ Scan.delimiters) id
      (by simpa using ha.2) hparts
    have hread : (rules.map Template.render).mapM rule = .ok (rules.map id) :=
      mapM_eq_ok_of_map hrule
    have hpop : [','].intercalate (rules.map Template.render) ≠ ['P', 'O', 'P'] :=
      rules_text_ne_pop hr
    rw [content, splitAtFirst?_append (hname.notMem (by simp))]
    simp [hne, hpop, hsplit, hread, bind, Except.bind, pure, Except.pure]

theorem Tag.parseBody_body {content : List Char} {tag : Tag}
    (htag : (normalForm IsName ModifierCall.IsWritable).tag tag) :
    Tag.parseBody content tag.actions tag.body = .ok tag := by
  obtain ⟨actions, symbol, modifiers⟩ := tag
  obtain ⟨hsymbol, hmodifiers⟩ := htag
  unfold Tag.parseBody
  rw [Tag.hasBracket_body hmodifiers]
  by_cases hempty : symbol = ""
  · obtain ⟨hactions, hnone⟩ : actions ≠ [] ∧ modifiers = [] := by simpa [hempty] using hsymbol
    subst hempty hnone
    have hbody : Tag.body ⟨actions, "", []⟩ = [] := rfl
    simp [hbody, hactions, pure, Except.pure]
  · have hparts : ∀ part ∈ escape symbol.toList :: modifiers.map ModifierCall.body,
        Balanced (· ≠ '.') false part := by
      intro part hpart
      rcases List.mem_cons.mp hpart with rfl | hpart
      · exact Scan.balanced_escape _
      · obtain ⟨call, hcall, rfl⟩ := List.mem_map.mp hpart
        exact ModifierCall.body_balanced (hmodifiers call hcall)
    have hsplit : Scan.splitTopLevel '.' (Tag.body ⟨actions, symbol, modifiers⟩) =
        escape symbol.toList :: modifiers.map ModifierCall.body := by
      rw [Tag.body_eq]
      exact Scan.splitTopLevel_intercalate (by decide) (by simp) (by simp) hparts
    have hread : (modifiers.map ModifierCall.body).mapM ModifierCall.parse =
        .ok (modifiers.map id) :=
      mapM_eq_ok_of_map fun call hcall => ModifierCall.parse_body (hmodifiers call hcall)
    have hbody : Tag.body ⟨actions, symbol, modifiers⟩ ≠ [] := by
      have := escape_ne_nil hempty
      simp [Tag.body, this]
    simp [hbody, hsplit, hread, Scan.unescape_escape, hempty, bind, Except.bind, pure, Except.pure]

theorem Tag.parseWith_content {tag : Tag}
    (htag : (normalForm IsName ModifierCall.IsWritable).tag tag)
    (hbalanced : ∀ a ∈ tag.actions, Balanced (fun _ => True) true a.content)
    (hread : ∀ a ∈ tag.actions, Action.parseWith rule a.content = .ok a) :
    Tag.parseWith rule tag.content = .ok tag := by
  have hactions : (tag.actions.map Action.content).mapM (Action.parseWith rule) =
      .ok (tag.actions.map id) := mapM_eq_ok_of_map hread
  unfold Tag.parseWith
  rw [leadingActions?_content htag.1 hbalanced]
  simp only [hactions, List.map_id]
  exact Tag.parseBody_body htag

theorem unescape_of_notMem {text : List Char} (h : '\\' ∉ text) : Scan.unescape text = text := by
  fun_induction Scan.unescape text with
  | case1 => rfl
  | case2 => rfl
  | case3 c rest ih => simp at h
  | case4 c rest _ _ ih => rw [ih (List.not_mem_of_not_mem_cons h)]

theorem Tag.parseWith_name {name : String} (h : IsName name) :
    Tag.parseWith rule name.toList = .ok (.bare name) := by
  have hleading : Scan.leadingActions? name.toList = some ([], name.toList) := by
    rw [Scan.leadingActions?]
    intro rest hrest
    exact h.notMem (c := '[') (by simp) (hrest ▸ List.mem_cons_self)
  have hfree : Scan.hasBracket name.toList = false := by
    simpa [Scan.hasBracket] using h.bracketFree []
  have hsplit : Scan.splitTopLevel '.' name.toList = [name.toList] := by
    have hparts : ∀ part ∈ [name.toList], Balanced (· ≠ '.') false part := by
      simpa using h.balanced
    have hone := Scan.splitTopLevel_intercalate (by decide : '.' ∉ Scan.delimiters) (by simp)
      (List.cons_ne_nil _ _) hparts
    simpa using hone
  have hsame : Scan.unescape name.toList = name.toList := unescape_of_notMem (h.notMem (by simp))
  have hne : name ≠ "" := h.1
  simp [Tag.parseWith, hleading, Tag.parseBody, hfree, hsplit, hsame, hne, Tag.bare, bind,
    Except.bind, pure, Except.pure]

def Segment.pieces : Segment → List Segment
  | .literal text => text.toList.map fun c => .literal (String.singleton c)
  | segment => [segment]

theorem ofToken_tokens {s : Segment}
    (htag : ∀ tag, s = .tag tag → Tag.parseWith rule tag.content = .ok tag)
    (haction : ∀ a, s = .action a → Action.parseWith rule a.content = .ok a) :
    s.tokens.mapM (Segment.ofToken rule) = .ok s.pieces := by
  cases s with
  | literal text => exact mapM_eq_ok_of_map fun c _ => rfl
  | tag tag =>
    have hread : Segment.ofToken rule (.tag tag.content) = .ok (.tag tag) := by
      simp [Segment.ofToken, htag tag rfl, Functor.map, Except.map]
    exact mapM_eq_ok_iff.mpr (.cons hread .nil)
  | action a =>
    have hread : Segment.ofToken rule (.action a.content) = .ok (.action a) := by
      simp [Segment.ofToken, haction a rfl, Functor.map, Except.map]
    exact mapM_eq_ok_iff.mpr (.cons hread .nil)

theorem join_literal {text : String} {rest : List Segment}
    (h : ∀ next others, rest ≠ .literal next :: others) :
    Segment.join (.literal text) rest = .literal text :: rest := by
  unfold Segment.join
  split
  next he => exact absurd rfl (h _ _)
  next => rfl

/-- The characters of a literal become that literal again where no other literal follows. -/
theorem join_pieces {text : String} (hne : text ≠ "") {rest : List Segment}
    (h : ∀ next others, rest ≠ .literal next :: others) :
    (Segment.literal text).pieces.foldr Segment.join rest = .literal text :: rest := by
  have hchars : ∀ chars : List Char, chars ≠ [] →
      (chars.map fun c => Segment.literal (String.singleton c)).foldr Segment.join rest =
        .literal (String.ofList chars) :: rest := by
    intro chars hchars
    induction chars with
    | nil => exact absurd rfl hchars
    | cons c others ih =>
      cases others with
      | nil => exact join_literal h
      | cons d more =>
        rw [List.map_cons, List.foldr_cons, ih (by simp)]
        have htext : String.singleton c ++ String.ofList (d :: more) =
            String.ofList (c :: d :: more) := by
          rw [← String.toList_inj]
          simp
        rw [← htext]
        rfl
  have hjoined := hchars text.toList (by simpa using hne)
  rwa [String.ofList_toList] at hjoined

theorem joinAll_pieces {segments : List Segment}
    (h : (normalForm IsName ModifierCall.IsWritable).segments segments) :
    Segment.joinAll (segments.flatMap Segment.pieces) = segments := by
  obtain ⟨hne, hchain⟩ := h
  unfold Segment.joinAll
  induction segments with
  | nil => rfl
  | cons s rest ih =>
    have hrest := ih (fun text ht => hne text (by simp [ht])) hchain.tail
    rw [List.flatMap_cons, List.foldr_append, hrest]
    cases s with
    | literal text =>
      apply join_pieces (hne text (by simp))
      intro next others heq
      rw [heq, List.isChain_cons_cons] at hchain
      exact hchain.1 ⟨rfl, rfl⟩
    | tag tag => rfl
    | action a => rfl

namespace Template

theorem parseWith_render {t : Template} (h : t.IsWritable)
    (hrule : ∀ r ∈ t.rules, rule r.render = .ok r) : parseWith rule t.render = .ok t := by
  obtain ⟨hsegments, htags, hactions, hrules⟩ := meets_iff.mp h
  have haction : ∀ a ∈ t.actions, Action.parseWith rule a.content = .ok a := by
    intro a ha
    have hmem : ∀ r ∈ a.rules, r ∈ t.rules := fun r hr => List.mem_flatMap.mpr ⟨a, ha, hr⟩
    exact Action.parseWith_content (hactions a ha) (fun r hr => hrules r (hmem r hr))
      fun r hr => hrule r (hmem r hr)
  have htag : ∀ tag, .tag tag ∈ t.segments → Tag.parseWith rule tag.content = .ok tag := by
    intro tag hs
    have hmem : ∀ a ∈ tag.actions, a ∈ t.actions := fun a ha => mem_actions.mpr (.inr ⟨tag, hs, ha⟩)
    exact Tag.parseWith_content (htags tag hs) (fun a ha => h.action_balanced (hmem a ha))
      fun a ha => haction a (hmem a ha)
  have hread : (t.segments.flatMap Segment.tokens).mapM (Segment.ofToken rule) =
      .ok (t.segments.flatMap Segment.pieces) := by
    rw [mapM_eq_ok_iff]
    refine List.rel_flatMap (R := fun s u => s ∈ t.segments ∧ s = u) ?_ ?_
    · exact List.forall₂_same.mpr fun s hs => ⟨hs, rfl⟩
    · rintro s _ ⟨hs, rfl⟩
      refine mapM_eq_ok_iff.mp (ofToken_tokens ?_ ?_)
      · rintro tag rfl
        exact htag tag hs
      · rintro a rfl
        exact haction a (mem_actions.mpr (.inl hs))
  rw [parseWith, tokens_render h, hread]
  change Except.ok (Template.mk (Segment.joinAll (t.segments.flatMap Segment.pieces))) = .ok t
  rw [joinAll_pieces hsegments]
  cases t
  rfl

theorem length_le_intercalate (separator : List Char) {part : List Char}
    {parts : List (List Char)} (h : part ∈ parts) :
    part.length ≤ (separator.intercalate parts).length := by
  induction parts with
  | nil => simp at h
  | cons first rest ih =>
    cases rest with
    | nil =>
      obtain rfl : part = first := by simpa using h
      simp
    | cons next others =>
      rw [List.intercalate_cons_cons]
      rcases List.mem_cons.mp h with rfl | hmem
      · simp only [List.length_append]
        omega
      · have := ih hmem
        simp only [List.length_append]
        omega

theorem render_length_lt {t r : Template} (h : r ∈ t.rules) :
    r.render.length < t.render.length := by
  obtain ⟨key, rules, ha, hr⟩ := mem_rules.mp h
  have hrule : r.render.length < (Action.push key rules).render.length := by
    have := length_le_intercalate [','] (List.mem_map_of_mem (f := render) hr)
    simp only [Action.render_eq, Action.content, List.length_cons, List.length_append]
    omega
  have hpart : ∀ s ∈ t.segments, s.render.length ≤ t.render.length := by
    intro s hs
    rw [render_eq, List.flatMap]
    exact (List.sublist_flatten_of_mem (List.mem_map_of_mem hs)).length_le
  rcases mem_actions.mp ha with hs | ⟨tag, hs, hmem⟩
  · have := hpart _ hs
    rw [Segment.render] at this
    omega
  · have hsegment := hpart _ hs
    have haction : (Action.push key rules).render.length ≤
        (tag.actions.flatMap Action.render).length :=
      (List.sublist_flatten_of_mem (List.mem_map_of_mem hmem)).length_le
    simp only [Segment.render_tag, Tag.content, List.length_cons, List.length_append] at hsegment
    omega

theorem parseLevels_render {t : Template} (h : t.IsWritable) {levels : ℕ}
    (hl : t.render.length < levels) : parseLevels levels t.render = .ok t := by
  induction levels generalizing t with
  | zero => omega
  | succ levels ih =>
    refine parseWith_render h fun r hr => ih ((meets_iff.mp h).2.2.2 r hr) ?_
    have := render_length_lt hr
    omega

theorem parseChars_render {t : Template} (h : t.IsWritable) : parseChars t.render = .ok t :=
  parseLevels_render h (Nat.lt_succ_self _)

/-- A written template is read back exactly. -/
theorem parse_render (t : Template) (h : t.IsWritable) :
    parse (String.ofList t.render) = .ok t := by
  rw [parse, String.toList_ofList]
  exact parseChars_render h

theorem parse_bare {name : String} (h : IsName name) :
    parse ("#" ++ name ++ "#") = .ok ⟨[.tag (.bare name)]⟩ := by
  have htext : ("#" ++ name ++ "#").toList = '#' :: (name.toList ++ '#' :: []) := by simp
  have htokens : Scan.tokens ('#' :: (name.toList ++ '#' :: [])) = [.tag name.toList] := by
    rw [tokens_tag h.balanced, Scan.tokens]
  rw [parse, htext, parseChars, parseLevels, parseWith, htokens]
  simp only [List.mapM_cons, List.mapM_nil, Segment.ofToken, Tag.parseWith_name h]
  rfl

/-- All signs of the syntax occur as plain characters, and a tag inside a push inside a tag. -/
def entangled : Template :=
  ⟨[.literal "#[k:POP]",
    .tag ⟨[.push "k" [⟨[.literal "\\,", .tag (.bare "]#")]⟩, ⟨[]⟩]], "a.b(", [⟨"join", ["", ",)"]⟩]⟩,
    .action (.pop "k")]⟩

theorem parse_render_entangled :
    entangled.IsWritable ∧ parse (String.ofList entangled.render) = .ok entangled := by
  have hname : IsName "k" ∧ IsName "join" := by decide
  have hempty : IsWritable ⟨[]⟩ :=
    .level (by simp [normalForm]) (by simp) (by simp [actions]) (by simp [rules, actions])
  have hrule : IsWritable ⟨[.literal "\\,", .tag (.bare "]#")]⟩ := by
    refine .level ?_ ?_ ?_ ?_
    · simp [normalForm, Segment.isLiteral]
    · simp [normalForm, Tag.bare]
    · simp [actions, Segment.actions, Tag.bare]
    · simp [rules, actions, Segment.actions, Tag.bare]
  have hwritable : entangled.IsWritable := by
    refine .level ?_ ?_ ?_ ?_
    · simp [entangled, normalForm, Segment.isLiteral]
    · simp [entangled, normalForm, ModifierCall.IsWritable, hname.2]
    · simp [entangled, actions, Segment.actions, normalForm, hname.1]
    · simpa [entangled, rules, actions, Segment.actions, Action.rules] using ⟨hrule, hempty⟩
  exact ⟨hwritable, parse_render entangled hwritable⟩

end Template

end Announcer
