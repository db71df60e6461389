import Announcer.Proofs.Expansion.DepthLimit
import Announcer.Proofs.Template.Concatenation
import Mathlib

/-! # Names in tags and in actions

A tag and an action read a name in different ways: the symbol of a tag drops its escapes, and the
key of an action is all that stands before the first colon, as it is written. A spelling means the
same name to both when it holds neither a backslash nor a colon. Then a tag has the text that was
pushed for its name, whatever rules there are. With every character escaped any name is a symbol.
-/
namespace Announcer

namespace Scan

variable {text content : List Char}

theorem tokens_eq_nil : tokens text = [] ↔ text = [] := by
  constructor
  · intro h
    cases text with
    | nil => rfl
    | cons c rest =>
      unfold tokens at h
      split at h
      next heq => cases heq
      next => cases h
      next => split at h <;> cases h
      next => split at h <;> cases h
      next => cases h
  · rintro rfl
    rw [tokens]

theorem tagContent?_of_tokens (h : tokens ('#' :: text) = [.tag content]) :
    tagContent? 0 text = some (content, []) := by
  rw [tokens_hash] at h
  cases hfound : tagContent? 0 text with
  | none =>
    rw [hfound] at h
    cases h
  | some found =>
    rw [hfound, List.cons.injEq, Token.tag.injEq, tokens_eq_nil] at h
    obtain ⟨rfl, hrest⟩ := h
    rw [← hrest]

theorem bracketContent?_of_tokens (h : tokens ('[' :: text) = [.action content]) :
    bracketContent? 0 text = some (content, []) := by
  rw [tokens_bracket] at h
  cases hfound : bracketContent? 0 text with
  | none =>
    rw [hfound] at h
    cases h
  | some found =>
    rw [hfound, List.cons.injEq, Token.action.injEq, tokens_eq_nil] at h
    obtain ⟨rfl, hrest⟩ := h
    rw [← hrest]

end Scan

variable {rule : List Char → Except ParseError Template} {text : List Char}

theorem join_ne_nil (s : Segment) (segments : List Segment) : Segment.join s segments ≠ [] := by
  unfold Segment.join
  split <;> simp

theorem joinAll_eq_singleton {segments : List Segment} {s : Segment}
    (h : Segment.joinAll segments = [s]) (hs : s.isLiteral = false) : segments = [s] := by
  cases segments with
  | nil => cases h
  | cons first rest =>
    change Segment.join first (Segment.joinAll rest) = [s] at h
    unfold Segment.join at h
    split at h
    next =>
      obtain ⟨rfl, -⟩ := List.cons.inj h
      cases hs
    next =>
      obtain ⟨rfl, hrest⟩ := List.cons.inj h
      cases rest with
      | nil => rfl
      | cons second others => exact absurd hrest (join_ne_nil second _)

theorem exists_token {s : Segment} (h : Template.parseWith rule text = .ok ⟨[s]⟩)
    (hs : s.isLiteral = false) :
    ∃ token, Scan.tokens text = [token] ∧ Segment.ofToken rule token = .ok s := by
  unfold Template.parseWith at h
  obtain ⟨segments, hsegments, heq⟩ := bind_eq_ok.mp h
  have hjoined : Segment.joinAll segments = [s] := by
    injection heq with heq
    injection heq
  rw [joinAll_eq_singleton hjoined hs, mapM_eq_ok_iff] at hsegments
  obtain ⟨token, rest, htoken, hrest, htokens⟩ := List.forall₂_cons_right_iff.mp hsegments
  rw [List.forall₂_nil_right_iff] at hrest
  exact ⟨token, by rw [htokens, hrest], htoken⟩

theorem tag_of_parseWith {w : List Char} {tag : Tag}
    (h : Template.parseWith rule ('#' :: (w ++ ['#'])) = .ok ⟨[.tag tag]⟩) :
    Scan.tagContent? 0 (w ++ ['#']) = some (w, []) ∧ Tag.parseWith rule w = .ok tag := by
  obtain ⟨token, htoken, hread⟩ := exists_token h rfl
  cases token with
  | char c => cases hread
  | action content =>
    obtain ⟨a, -, heq⟩ := map_eq_ok.mp hread
    cases heq
  | unclosedBracket => cases hread
  | tag content =>
    obtain ⟨found, htag, heq⟩ := map_eq_ok.mp hread
    cases heq
    have hcontent := Scan.tagContent?_of_tokens htoken
    obtain rfl : w = content := List.append_cancel_right (Scan.tagContent?_eq_append hcontent)
    exact ⟨hcontent, htag⟩

theorem action_of_parseWith {content : List Char} {a : Action}
    (h : Template.parseWith rule ('[' :: (content ++ [']'])) = .ok ⟨[.action a]⟩) :
    Scan.bracketContent? 0 (content ++ [']']) = some (content, []) ∧
      Action.parseWith rule content = .ok a := by
  obtain ⟨token, htoken, hread⟩ := exists_token h rfl
  cases token with
  | char c => cases hread
  | tag content =>
    obtain ⟨tag, -, heq⟩ := map_eq_ok.mp hread
    cases heq
  | unclosedBracket => cases hread
  | action found =>
    obtain ⟨b, haction, heq⟩ := map_eq_ok.mp hread
    cases heq
    have hcontent := Scan.bracketContent?_of_tokens htoken
    obtain rfl : content = found :=
      List.append_cancel_right (Scan.bracketContent?_eq_append hcontent)
    exact ⟨hcontent, haction⟩

theorem leadingActions?_eq_nil {w body : List Char} (h : Scan.leadingActions? w = some ([], body)) :
    body = w := by
  unfold Scan.leadingActions? at h
  split at h
  next =>
    split at h
    next =>
      obtain ⟨found, -, heq⟩ := Option.map_eq_some_iff.mp h
      cases heq
    next => cases h
  next =>
    cases h
    rfl

theorem mapM_eq_ok_nil {α β : Type} {f : α → Except ParseError β} {xs : List α}
    (h : xs.mapM f = .ok []) : xs = [] := by
  simpa using mapM_eq_ok_iff.mp h

theorem Tag.parseBody_bare {content body : List Char} {symbol : String}
    (h : Tag.parseBody content [] body = .ok (.bare symbol)) :
    symbol = String.ofList (Scan.unescape body) := by
  unfold Tag.parseBody at h
  dsimp only at h
  split at h
  next => cases h
  next =>
    split at h
    next => cases h
    next =>
      split at h
      next => cases h
      next =>
        obtain ⟨modifiers, hmodifiers, htag⟩ := bind_eq_ok.mp h
        injection htag with htag
        injection htag with _ hname hcalls
        obtain rfl : modifiers = [] := hcalls
        have hone : Scan.splitTopLevel '.' body = [body] := by
          obtain ⟨part, others, hparts⟩ :=
            List.exists_cons_of_ne_nil (splitFrom_ne_nil '.' 0 false body)
          have hothers := mapM_eq_ok_nil hmodifiers
          rw [Scan.splitTopLevel, hparts, List.tail_cons] at hothers
          rw [hothers] at hparts
          rw [Scan.splitTopLevel, hparts, Scan.splitTopLevel_eq_singleton (by decide) hparts]
        rw [← hname, hone, List.headD_cons]

theorem Tag.parseWith_bare {w : List Char} {symbol : String}
    (h : Tag.parseWith rule w = .ok (.bare symbol)) :
    symbol = String.ofList (Scan.unescape w) ∧ symbol ≠ "" := by
  unfold Tag.parseWith at h
  split at h
  next => cases h
  next contents body hleading =>
    obtain ⟨actions, hactions, hbody⟩ := bind_eq_ok.mp h
    obtain ⟨hnone, hsymbol⟩ := Tag.parseBody_normal hbody
    obtain rfl : [] = actions := hnone
    obtain rfl : contents = [] := mapM_eq_ok_nil hactions
    obtain rfl : body = w := leadingActions?_eq_nil hleading
    refine ⟨Tag.parseBody_bare hbody, ?_⟩
    rcases hsymbol.1 with hne | ⟨hne, -⟩
    · exact hne
    · exact absurd rfl hne

theorem unescape_cons {c : Char} (hc : c ≠ '\\') (w : List Char) :
    Scan.unescape (c :: w) = c :: Scan.unescape w := by
  rw [Scan.unescape.eq_4]
  all_goals simp [hc]

theorem length_unescape_le (w : List Char) : (Scan.unescape w).length ≤ w.length := by
  fun_induction Scan.unescape w with
  | case1 => exact le_rfl
  | case2 => exact le_rfl
  | case3 c rest ih =>
    simp only [List.length_cons]
    omega
  | case4 c rest _ _ ih => exact Nat.succ_le_succ ih

theorem length_unescape_lt {w : List Char} (hwhole : Scan.Whole w) (h : '\\' ∈ w) :
    (Scan.unescape w).length < w.length := by
  induction hwhole with
  | nil => cases h
  | @escaped rest c _ ih =>
    have hrest := length_unescape_le rest
    simp only [Scan.unescape, List.length_cons]
    omega
  | @cons c rest hc _ ih =>
    have hmem : '\\' ∈ rest := (List.mem_cons.mp h).resolve_left (Ne.symm hc)
    rw [unescape_cons hc, List.length_cons, List.length_cons]
    exact Nat.succ_lt_succ (ih hmem)

theorem mem_unescape {w : List Char} {c : Char} (hc : c ≠ '\\') (h : c ∈ w) :
    c ∈ Scan.unescape w := by
  fun_induction Scan.unescape w with
  | case1 => exact h
  | case2 => exact h
  | case3 d rest ih =>
    simp only [List.mem_cons, hc, false_or] at h
    exact List.mem_cons.mpr (h.imp_right ih)
  | case4 d rest _ _ ih => exact List.mem_cons.mpr ((List.mem_cons.mp h).imp_right ih)

def tagText (w : String) : String := s!"#{w}#"

def pushText (w v : String) : String := s!"[{w}:{v}]"

theorem toList_tagText (w : String) : (tagText w).toList = '#' :: (w.toList ++ ['#']) := by
  simp [tagText, toString]

theorem toList_pushText (w v : String) :
    (pushText w v).toList = '[' :: (w.toList ++ ':' :: v.toList ++ [']']) := by
  simp [pushText, toString]

variable {w v symbol key : String} {rules : List Template}

theorem parse_tagText (h : Scan.tagContent? 0 (w.toList ++ ['#']) = some (w.toList, [])) :
    Template.parse (tagText w) =
      (Tag.parseWith Template.parseChars w.toList).map fun tag => ⟨[.tag tag]⟩ := by
  have htokens : Scan.tokens ('#' :: (w.toList ++ ['#'])) = [.tag w.toList] := by
    rw [Scan.tokens_hash, h]
    exact congrArg _ Scan.tokens.eq_1
  rw [Template.parse, toList_tagText, Template.parseChars_eq, Template.parseWith, htokens]
  simp only [List.mapM_cons, List.mapM_nil, Segment.ofToken]
  cases Tag.parseWith Template.parseChars w.toList <;> rfl

theorem tag_of_parse (h : Template.parse (tagText w) = .ok ⟨[.tag (.bare symbol)]⟩) :
    Scan.tagContent? 0 (w.toList ++ ['#']) = some (w.toList, []) ∧
      symbol = String.ofList (Scan.unescape w.toList) ∧ symbol ≠ "" := by
  rw [Template.parse, toList_tagText] at h
  obtain ⟨hcontent, htag⟩ := tag_of_parseWith h
  exact ⟨hcontent, Tag.parseWith_bare htag⟩

theorem push_of_parse (h : Template.parse (pushText w v) = .ok ⟨[.action (.push key rules)]⟩) :
    Scan.bracketContent? 0 (w.toList ++ ':' :: v.toList ++ [']']) =
        some (w.toList ++ ':' :: v.toList, []) ∧
      Action.parseWith Template.parseChars (w.toList ++ ':' :: v.toList) =
        .ok (.push key rules) := by
  rw [Template.parse, toList_pushText, Template.parseChars_eq] at h
  exact action_of_parseWith h

/-- A name that a tag and a push both accept is the same to them if and only if no backslash and no
colon is in its spelling. -/
theorem key_eq_symbol_iff (htag : Template.parse (tagText w) = .ok ⟨[.tag (.bare symbol)]⟩)
    (hpush : Template.parse (pushText w v) = .ok ⟨[.action (.push key rules)]⟩) :
    key = symbol ↔ '\\' ∉ w.toList ∧ ':' ∉ w.toList := by
  obtain ⟨hcontent, rfl, -⟩ := tag_of_parse htag
  obtain ⟨-, hread⟩ := push_of_parse hpush
  cases hsplit : Scan.splitAtFirst? ':' (w.toList ++ ':' :: v.toList) with
  | none => exact absurd (List.mem_append_right _ List.mem_cons_self) (splitAtFirst?_eq_none hsplit)
  | some found =>
    obtain ⟨first, value⟩ := found
    obtain ⟨rfl, -⟩ := Action.parseWith_push hsplit hread
    rw [String.ofList_inj]
    constructor
    · intro hsame
      -- A colon stays in the symbol and is never in the key. Without one the key is the whole
      -- spelling, and escapes would make that longer than the symbol.
      have hcolon : ':' ∉ w.toList := by
        intro hmem
        have hfirst := mem_unescape (by decide) hmem
        rw [← hsame] at hfirst
        exact (splitAtFirst?_eq_some hsplit).1 hfirst
      rw [splitAtFirst?_append hcolon, Option.some_inj, Prod.mk.injEq] at hsplit
      obtain ⟨rfl, -⟩ := hsplit
      refine ⟨fun hmem => ?_, hcolon⟩
      have hshorter := length_unescape_lt (Scan.whole_of_tagContent? hcontent) hmem
      rw [← hsame] at hshorter
      exact lt_irrefl _ hshorter
    · rintro ⟨hescape, hcolon⟩
      rw [splitAtFirst?_append hcolon, Option.some_inj, Prod.mk.injEq] at hsplit
      rw [unescape_of_notMem hescape]
      exact hsplit.1.symm

/-- Text that is read as itself and as one rule of a push. -/
def IsPlainText (text : String) : Prop := ∀ c ∈ ['\\', '#', '[', ']', ','], c ∉ text.toList

def Template.ofText (text : String) : Template := ⟨if text = "" then [] else [.literal text]⟩

theorem Template.isPlain_ofText (text : String) : (Template.ofText text).isPlain = true := by
  unfold Template.ofText
  split <;> rfl

theorem Template.plainText_ofText (text : String) : (Template.ofText text).plainText = text := by
  unfold Template.ofText
  split
  next h => rw [h]; rfl
  next => simp [Template.plainText]

theorem tokens_plain {chars : List Char} (h : ∀ c ∈ chars, c ∉ ['\\', '#', '[']) :
    Scan.tokens chars = chars.map .char := by
  induction chars with
  | nil => rw [Scan.tokens, List.map_nil]
  | cons c rest ih =>
    rw [Scan.tokens_char (h c List.mem_cons_self), ih fun d hd => h d (List.mem_cons_of_mem c hd),
      List.map_cons]

theorem parseWith_of_tokens (h : Scan.tokens v.toList = v.toList.map .char) :
    Template.parseWith rule v.toList = .ok (.ofText v) := by
  have hread : (v.toList.map Scan.Token.char).mapM (Segment.ofToken rule) =
      .ok (Segment.literal v).pieces := mapM_eq_ok_of_map fun c _ => rfl
  have hjoined : Segment.joinAll (Segment.literal v).pieces = (Template.ofText v).segments := by
    unfold Template.ofText
    by_cases hempty : v = ""
    · rw [hempty]
      rfl
    · rw [if_neg hempty]
      exact join_pieces hempty fun _ _ h => by cases h
  rw [Template.parseWith, h, hread]
  change Except.ok (Template.mk (Segment.joinAll (Segment.literal v).pieces)) = _
  rw [hjoined]
  rfl

theorem parseWith_ofText (hv : IsPlainText v) :
    Template.parseWith rule v.toList = .ok (.ofText v) := by
  refine parseWith_of_tokens (tokens_plain fun c hc hsign => ?_)
  exact hv c (by simp only [List.mem_cons, List.not_mem_nil, or_false] at hsign ⊢; tauto) hc

theorem parse_pushed_name (htag : Template.parse (tagText w) = .ok ⟨[.tag (.bare symbol)]⟩)
    (hpush : Template.parse (pushText w v) = .ok ⟨[.action (.push key rules)]⟩)
    (hw : ':' ∉ w.toList) (hv : IsPlainText v) :
    Template.parse (pushText w v ++ tagText w) =
      .ok ⟨[.action (.push key [.ofText v]), .tag (.bare symbol)]⟩ := by
  obtain ⟨hbracket, hread⟩ := push_of_parse hpush
  have hclosed : Scan.Closed (pushText w v).toList := by
    rw [toList_pushText]
    exact .action hbracket .nil
  have hparts : Scan.splitTopLevel ',' v.toList = [v.toList] :=
    Scan.splitTopLevel_of_notMem (by decide) (hv ',' (by simp))
  have hrule : Template.parseChars v.toList = .ok (.ofText v) := by
    rw [Template.parseChars_eq, parseWith_ofText hv]
  obtain ⟨-, hrules⟩ := Action.parseWith_push (splitAtFirst?_append hw v.toList) hread
  rw [hparts, List.mapM_cons, hrule, List.mapM_nil] at hrules
  obtain rfl : [Template.ofText v] = rules := Except.ok.inj hrules
  rw [Template.parse_append_of_closed hclosed, hpush, htag]
  rfl

section Run

open Chance (ChoiceSource)

variable {σ : Type} [ChoiceSource σ] {g : Grammar}

namespace Expansion

theorem alternatives?_push (p : Pushes) (key : String) (frame : Frame) :
    alternatives? g (p.push key frame) key = some (frame.map Template.literal) := by
  simp [alternatives?, Pushes.top?, Pushes.get?_push]

theorem outcome_push_tag {t : Template} (ht : t.isPlain = true) (hkey : key ≠ "")
    (limit levels : ℕ) (s : ExpansionState σ) :
    (outcome (expandTemplate g limit (levels + 2)
      ⟨[.action (.push key [t]), .tag (.bare key)]⟩) s).1 = .ok t.plainText := by
  have htag : expandSegment (expandTemplate g limit (levels + 1)) g (.tag (.bare key)) =
      (select g key >>= expandTemplate g limit (levels + 1) : Expansion σ String) := by
    rw [expandSegment, expandTag_of_no_actions rfl, Tag.bare, expandSymbol_named hkey]
    simp [applyModifiers]
  have hsteps : (expandTemplate g limit (levels + 2)
      ⟨[.action (.push key [t]), .tag (.bare key)]⟩ : Expansion σ String) =
        push key [t.plainText] >>= fun _ =>
          select g key >>= expandTemplate g limit (levels + 1) := by
    rw [expandTemplate, expandSegments, expandSegments, expandSegments, htag, expandSegment,
      runAction]
    have hblank : HAppend.hAppend "" = (id : String → String) :=
      funext fun text => String.empty_append
    simp [expandTemplate_plain ht, hblank]
  obtain ⟨later, hselect⟩ := outcome_select_single
    (s := { s with pushes := s.pushes.push key [t.plainText] })
    (alternatives?_push (g := g) s.pushes key [t.plainText])
  rw [hsteps, outcome_bind_of_ok (outcome_push key _ s), outcome_bind_of_ok hselect,
    expandTemplate_plain rfl, outcome_pure]
  simp [Template.plainText, Template.literal]

end Expansion

/-- A name that is spelled without escapes is the same in a push and in a tag if no colon is in it,
and then the tag has the text that was pushed. -/
theorem Grammar.flatten_pushed_name (hescape : '\\' ∉ w.toList) (hv : IsPlainText v)
    (htag : Template.parse (tagText w) = .ok ⟨[.tag (.bare symbol)]⟩)
    (hpush : Template.parse (pushText w v) = .ok ⟨[.action (.push key rules)]⟩) :
    (key = symbol ↔ ':' ∉ w.toList) ∧
      (key = symbol → ∀ (g : Grammar) (source : σ),
        (g.flatten (pushText w v ++ tagText w) source).1 = .ok v) := by
  have hsame : key = symbol ↔ ':' ∉ w.toList := by
    rw [key_eq_symbol_iff htag hpush, and_iff_right hescape]
  refine ⟨hsame, fun heq g source => ?_⟩
  have hparse := parse_pushed_name htag hpush (hsame.mp heq) hv
  obtain ⟨-, -, hne⟩ := tag_of_parse htag
  obtain rfl : key = symbol := heq
  have hrun : (Expansion.outcome (Expansion.expandTemplate g maxDepth (maxDepth + 1)
      ⟨[.action (.push key [.ofText v]), .tag (.bare key)]⟩) ⟨.empty, source⟩).1 = .ok v := by
    have htext := Template.plainText_ofText v
    have hend := Expansion.outcome_push_tag (g := g) (Template.isPlain_ofText v) hne maxDepth 63
      ⟨.empty, source⟩
    rwa [htext] at hend
  rw [flatten_of_parse hparse, Expansion.run_eq, hrun]
  rfl

end Run

/-- A name may hold characters that open something elsewhere. -/
theorem odd_name_is_said :
    (Grammar.empty.flatten "[a(b:hi]#a(b#" (Chance.Script.of [0])).1 = .ok "hi" := by
  have htag : Template.parse (tagText "a(b") = .ok ⟨[.tag (.bare "a(b")]⟩ := by
    rw [show tagText "a(b" = "#a(b#" by decide]
    cbv
  have hpush : Template.parse (pushText "a(b" "hi") =
      .ok ⟨[.action (.push "a(b" [.literal "hi"])]⟩ := by
    rw [show pushText "a(b" "hi" = "[a(b:hi]" by decide]
    cbv
  have hplain : IsPlainText "hi" := by simp [IsPlainText]
  exact (Grammar.flatten_pushed_name (by decide) hplain htag hpush).2 rfl _ _

/-- The key of a push ends at the first colon, also where a tag goes on. -/
theorem colon_ends_key : ¬ ∀ (w v symbol key : String) (rules : List Template), IsPlainText v →
    Template.parse (tagText w) = .ok ⟨[.tag (.bare symbol)]⟩ →
      Template.parse (pushText w v) = .ok ⟨[.action (.push key rules)]⟩ → key = symbol := by
  intro hclaim
  have htag : Template.parse (tagText "a:b") = .ok ⟨[.tag (.bare "a:b")]⟩ := by
    rw [show tagText "a:b" = "#a:b#" by decide]
    cbv
  have hpush : Template.parse (pushText "a:b" "v") =
      .ok ⟨[.action (.push "a" [.literal "b:v"])]⟩ := by
    rw [show pushText "a:b" "v" = "[a:b:v]" by decide]
    cbv
  have hplain : IsPlainText "v" := by simp [IsPlainText]
  exact absurd (hclaim "a:b" "v" _ _ _ hplain htag hpush) (by decide)

def escapedTag (symbol : String) : String := tagText (String.ofList (Scan.escape symbol.toList))

theorem parse_escapedTag (h : symbol ≠ "") :
    Template.parse (escapedTag symbol) = .ok ⟨[.tag (.bare symbol)]⟩ := by
  have hwritable : Template.IsWritable ⟨[.tag (.bare symbol)]⟩ := by
    refine Template.meets_bare ⟨by simp, List.isChain_singleton _⟩ ⟨.inl h, ?_⟩
    simp [Tag.bare]
  have htext : (escapedTag symbol).toList = Template.render ⟨[.tag (.bare symbol)]⟩ := by
    rw [escapedTag, toList_tagText, Template.render_eq]
    simp [Segment.render_tag, Tag.content, Tag.body, Tag.bare]
  rw [Template.parse, htext]
  exact Template.parseChars_render hwritable

/-- No sign in a symbol reaches the reader when it is escaped, so the tag is the symbol itself. -/
theorem Grammar.flatten_escapedTag {σ : Type} [Chance.ChoiceSource σ] (h : symbol ≠ "")
    (g : Grammar) (source : σ) :
    g.flatten (escapedTag symbol) source =
      ((g.expand symbol source).1.mapError .expansion, (g.expand symbol source).2) :=
  flatten_of_parse (parse_escapedTag h)

def signs : Grammar :=
  ⟨.ofList [("#[.](\\", ⟨"#[.](\\", [.literal "hi"]⟩)], English.modifiers⟩

theorem signs_are_a_name :
    (signs.flatten "#\\#\\[\\.\\]\\(\\\\#" (Chance.Script.of [0])).1 = .ok "hi" := by
  have htext : escapedTag "#[.](\\" = "#\\#\\[\\.\\]\\(\\\\#" := by decide
  rw [← htext, Grammar.flatten_escapedTag (by decide)]
  rfl

end Announcer
