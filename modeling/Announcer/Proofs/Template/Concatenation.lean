import Announcer.Proofs.Template.Splitting

/-! # Reading one text after another

A tag or an action that is complete stays the same when more text follows, so two texts that stand
one after the other are read one after the other. That fails only where the first leaves something
open: a `#` without a partner, which a `#` in the second would close, or a backslash at its very end.
-/
namespace Announcer

namespace Scan

def Token.inner : Token → List Char
  | .tag content => content
  | .action content => content
  | .char _ => []
  | .unclosedBracket => []

/-- Reading comes to a `#` that no other `#` closes. -/
inductive MeetsLoneHash : List Char → Prop where
  | here {text} : tagContent? 0 text = none → MeetsLoneHash ('#' :: text)
  | afterTag {text content after} : tagContent? 0 text = some (content, after) →
      MeetsLoneHash after → MeetsLoneHash ('#' :: text)
  | afterAction {text content after} : bracketContent? 0 text = some (content, after) →
      MeetsLoneHash after → MeetsLoneHash ('[' :: text)
  | afterEscape {text} (c : Char) : MeetsLoneHash text → MeetsLoneHash ('\\' :: c :: text)
  | afterChar {c text} : c ∉ ['\\', '#', '['] → MeetsLoneHash text → MeetsLoneHash (c :: text)

/-- Tags, actions and escapes that begin in the text also end in it. -/
inductive Closed : List Char → Prop where
  | nil : Closed []
  | tag {text content after} : tagContent? 0 text = some (content, after) → Closed after →
      Closed ('#' :: text)
  | action {text content after} : bracketContent? 0 text = some (content, after) → Closed after →
      Closed ('[' :: text)
  | escaped {text} (c : Char) : Closed text → Closed ('\\' :: c :: text)
  | char {c text} : c ∉ ['\\', '#', '['] → Closed text → Closed (c :: text)

variable {depth : ℕ} {text content rest : List Char}

theorem whole_of_tagContent? (h : tagContent? depth text = some (content, rest)) :
    Whole content := by
  fun_induction tagContent? depth text generalizing content with
  | case1 => cases h
  | case2 => cases h
  | case3 depth c tail ih =>
    obtain ⟨found, hfound, heq⟩ := Option.map_eq_some_iff.mp h
    cases heq
    exact .escaped c (ih hfound)
  | case4 depth tail ih =>
    obtain ⟨found, hfound, heq⟩ := Option.map_eq_some_iff.mp h
    cases heq
    exact .cons (by decide) (ih hfound)
  | case5 depth tail ih =>
    obtain ⟨found, hfound, heq⟩ := Option.map_eq_some_iff.mp h
    cases heq
    exact .cons (by decide) (ih hfound)
  | case6 depth c tail =>
    cases h
    exact .nil
  | case7 depth c tail hlast hmore _ _ _ ih =>
    obtain ⟨found, hfound, heq⟩ := Option.map_eq_some_iff.mp h
    cases heq
    exact .cons (ne_backslash hlast hmore) (ih hfound)

theorem whole_of_bracketContent? (h : bracketContent? depth text = some (content, rest)) :
    Whole content := by
  fun_induction bracketContent? depth text generalizing content with
  | case1 => cases h
  | case2 => cases h
  | case3 depth c tail ih =>
    obtain ⟨found, hfound, heq⟩ := Option.map_eq_some_iff.mp h
    cases heq
    exact .escaped c (ih hfound)
  | case4 depth tail ih =>
    obtain ⟨found, hfound, heq⟩ := Option.map_eq_some_iff.mp h
    cases heq
    exact .cons (by decide) (ih hfound)
  | case5 tail =>
    cases h
    exact .nil
  | case6 tail outer ih =>
    obtain ⟨found, hfound, heq⟩ := Option.map_eq_some_iff.mp h
    cases heq
    exact .cons (by decide) (ih hfound)
  | case7 depth c tail hlast hmore _ _ ih =>
    obtain ⟨found, hfound, heq⟩ := Option.map_eq_some_iff.mp h
    cases heq
    exact .cons (ne_backslash hlast hmore) (ih hfound)

theorem tagContent?_append (h : tagContent? depth text = some (content, rest)) (more : List Char) :
    tagContent? depth (text ++ more) = some (content, rest ++ more) := by
  fun_induction tagContent? depth text generalizing content with
  | case1 => cases h
  | case2 => cases h
  | case3 depth c tail ih =>
    obtain ⟨found, hfound, heq⟩ := Option.map_eq_some_iff.mp h
    cases heq
    simp [tagContent?, ih hfound]
  | case4 depth tail ih =>
    obtain ⟨found, hfound, heq⟩ := Option.map_eq_some_iff.mp h
    cases heq
    simp [tagContent?, ih hfound]
  | case5 depth tail ih =>
    obtain ⟨found, hfound, heq⟩ := Option.map_eq_some_iff.mp h
    cases heq
    simp [tagContent?, ih hfound]
  | case6 depth c tail hlast hmore hopen hclose hc =>
    cases h
    rw [List.cons_append, tagContent?.eq_6 _ _ _ (by simp [hc.1]) (by simp [hc.1]) hopen hclose,
      if_pos hc]
  | case7 depth c tail hlast hmore hopen hclose hno ih =>
    obtain ⟨found, hfound, heq⟩ := Option.map_eq_some_iff.mp h
    cases heq
    have hc := ne_backslash hlast hmore
    rw [List.cons_append, tagContent?_cons ⟨hc, hopen, hclose⟩ hno, ih hfound]
    rfl

theorem bracketContent?_append (h : bracketContent? depth text = some (content, rest))
    (more : List Char) : bracketContent? depth (text ++ more) = some (content, rest ++ more) := by
  fun_induction bracketContent? depth text generalizing content with
  | case1 => cases h
  | case2 => cases h
  | case3 depth c tail ih =>
    obtain ⟨found, hfound, heq⟩ := Option.map_eq_some_iff.mp h
    cases heq
    simp [bracketContent?, ih hfound]
  | case4 depth tail ih =>
    obtain ⟨found, hfound, heq⟩ := Option.map_eq_some_iff.mp h
    cases heq
    simp [bracketContent?, ih hfound]
  | case5 tail =>
    cases h
    rfl
  | case6 tail outer ih =>
    obtain ⟨found, hfound, heq⟩ := Option.map_eq_some_iff.mp h
    cases heq
    simp [bracketContent?, ih hfound]
  | case7 depth c tail hlast hmore hopen hclose ih =>
    obtain ⟨found, hfound, heq⟩ := Option.map_eq_some_iff.mp h
    cases heq
    have hc := ne_backslash hlast hmore
    rw [List.cons_append, bracketContent?_cons ⟨hc, hopen, hclose⟩, ih hfound]
    rfl

theorem tokens_char {c : Char} (hc : c ∉ ['\\', '#', '[']) (text : List Char) :
    tokens (c :: text) = .char c :: tokens text := by
  simp only [List.mem_cons, List.not_mem_nil, or_false, not_or] at hc
  rw [tokens.eq_5 _ _ (by simp [hc]) (by simp [hc]) (by simp [hc])]

theorem whole_tag_iff (h : tagContent? 0 text = some (content, rest)) :
    Whole ('#' :: text) ↔ Whole rest := by
  rw [whole_cons (by decide), tagContent?_eq_append h, (whole_of_tagContent? h).append_iff,
    whole_cons (by decide)]

theorem whole_action_iff (h : bracketContent? 0 text = some (content, rest)) :
    Whole ('[' :: text) ↔ Whole rest := by
  rw [whole_cons (by decide), bracketContent?_eq_append h, (whole_of_bracketContent? h).append_iff,
    whole_cons (by decide)]

theorem Closed.whole (h : Closed text) : Whole text := by
  induction h with
  | nil => exact .nil
  | tag hfound _ ih => exact (whole_tag_iff hfound).mpr ih
  | action hfound _ ih => exact (whole_action_iff hfound).mpr ih
  | escaped c _ ih => exact .escaped c ih
  | char hc _ ih => exact .cons (fun heq => hc (by simp [heq])) ih

/-- A text that can be read leaves nothing open but a `#` or a backslash. -/
theorem closed_of_tokens (hread : Token.unclosedBracket ∉ tokens text)
    (hhash : ¬ MeetsLoneHash text) (hend : Whole text) : Closed text := by
  fun_induction tokens text with
  | case1 => exact .nil
  | case2 c rest ih =>
    exact .escaped c (ih (fun h => hread (List.mem_cons_of_mem _ h))
      (fun h => hhash (.afterEscape c h)) (whole_escaped.mp hend))
  | case3 rest content after hfound ih =>
    exact .tag hfound (ih (fun h => hread (List.mem_cons_of_mem _ h))
      (fun h => hhash (.afterTag hfound h)) ((whole_tag_iff hfound).mp hend))
  | case4 rest hnone => exact absurd (.here hnone) hhash
  | case5 rest content after hfound ih =>
    exact .action hfound (ih (fun h => hread (List.mem_cons_of_mem _ h))
      (fun h => hhash (.afterAction hfound h)) ((whole_action_iff hfound).mp hend))
  | case6 => exact absurd List.mem_cons_self hread
  | case7 c rest hescape hsign hbracket ih =>
    have hbackslash : c ≠ '\\' := by
      rintro rfl
      cases rest with
      | nil => exact not_whole_backslash hend
      | cons d others => exact hescape d others rfl rfl
    have hc : c ∉ ['\\', '#', '['] := by
      simp only [List.mem_cons, List.not_mem_nil, or_false, not_or]
      exact ⟨hbackslash, hsign, hbracket⟩
    exact .char hc (ih (fun h => hread (List.mem_cons_of_mem _ h))
      (fun h => hhash (.afterChar hc h)) ((whole_cons hbackslash).mp hend))

theorem Closed.not_meetsLoneHash (h : Closed text) : ¬ MeetsLoneHash text := by
  intro hmeets
  induction h with
  | nil => cases hmeets
  | tag hfound _ ih =>
    cases hmeets with
    | here hnone => simp [hfound] at hnone
    | afterTag hother hafter =>
      obtain ⟨-, rfl⟩ := Prod.mk.inj (Option.some.inj (hfound.symm.trans hother))
      exact ih hafter
    | afterChar hc _ => exact hc (by decide)
  | action hfound _ ih =>
    cases hmeets with
    | afterAction hother hafter =>
      obtain ⟨-, rfl⟩ := Prod.mk.inj (Option.some.inj (hfound.symm.trans hother))
      exact ih hafter
    | afterChar hc _ => exact hc (by decide)
  | escaped c _ ih =>
    cases hmeets with
    | afterEscape _ hafter => exact ih hafter
    | afterChar hc _ => exact hc (by decide)
  | char hc _ ih =>
    cases hmeets with
    | afterChar _ hafter => exact ih hafter
    | here _ => exact hc (by decide)
    | afterTag _ _ => exact hc (by decide)
    | afterAction _ _ => exact hc (by decide)
    | afterEscape _ _ => exact hc (by decide)

theorem Closed.tokens_append (h : Closed text) (more : List Char) :
    tokens (text ++ more) = tokens text ++ tokens more := by
  induction h with
  | nil => rw [tokens.eq_1, List.nil_append, List.nil_append]
  | tag hfound _ ih =>
    rw [List.cons_append, tokens_hash, tokens_hash, tagContent?_append hfound, hfound]
    exact congrArg _ ih
  | action hfound _ ih =>
    rw [List.cons_append, tokens_bracket, tokens_bracket, bracketContent?_append hfound, hfound]
    exact congrArg _ ih
  | escaped c _ ih =>
    rw [List.cons_append, List.cons_append, tokens.eq_2, tokens.eq_2, ih, List.cons_append]
  | char hc _ ih => rw [List.cons_append, tokens_char hc, tokens_char hc, ih, List.cons_append]

theorem tagContent?_content_lt (h : tagContent? depth text = some (content, rest)) :
    content.length < text.length := by
  simp [tagContent?_eq_append h]

theorem bracketContent?_content_lt (h : bracketContent? depth text = some (content, rest)) :
    content.length < text.length := by
  simp [bracketContent?_eq_append h]

theorem length_inner_lt {token : Token} (h : token ∈ tokens text) :
    token.inner.length < text.length := by
  fun_induction tokens text with
  | case1 => cases h
  | case2 c rest ih =>
    rcases List.mem_cons.mp h with rfl | hmem
    · exact Nat.succ_pos _
    · exact (ih hmem).trans (by simp)
  | case3 rest content after hfound ih =>
    rcases List.mem_cons.mp h with rfl | hmem
    · exact (tagContent?_content_lt hfound).trans (Nat.lt_succ_self _)
    · exact (ih hmem).trans ((tagContent?_length_lt hfound).trans (Nat.lt_succ_self _))
  | case4 rest hnone ih =>
    rcases List.mem_cons.mp h with rfl | hmem
    · exact Nat.succ_pos _
    · exact (ih hmem).trans (Nat.lt_succ_self _)
  | case5 rest content after hfound ih =>
    rcases List.mem_cons.mp h with rfl | hmem
    · exact (bracketContent?_content_lt hfound).trans (Nat.lt_succ_self _)
    · exact (ih hmem).trans ((bracketContent?_length_lt hfound).trans (Nat.lt_succ_self _))
  | case6 rest hnone =>
    obtain rfl := List.mem_singleton.mp h
    exact Nat.succ_pos _
  | case7 c rest _ _ _ ih =>
    rcases List.mem_cons.mp h with rfl | hmem
    · exact Nat.succ_pos _
    · exact (ih hmem).trans (Nat.lt_succ_self _)

theorem length_action_lt {contents : List (List Char)} {body : List Char}
    (h : leadingActions? text = some (contents, body)) (hmem : content ∈ contents) :
    content.length < text.length := by
  fun_induction leadingActions? text generalizing contents with
  | case1 rest first after hfound ih =>
    obtain ⟨found, hrest, heq⟩ := Option.map_eq_some_iff.mp h
    cases heq
    rcases List.mem_cons.mp hmem with rfl | hmem
    · exact (bracketContent?_content_lt hfound).trans (Nat.lt_succ_self _)
    · exact (ih hrest hmem).trans ((bracketContent?_length_lt hfound).trans (Nat.lt_succ_self _))
  | case2 => cases h
  | case3 =>
    cases h
    cases hmem

theorem length_part_le {separator : Char} (hs : separator ∉ delimiters) {part : List Char}
    (h : part ∈ splitTopLevel separator text) : part.length ≤ text.length := by
  have hpart := Template.length_le_intercalate [separator] h
  rwa [splitTopLevel_joined hs] at hpart

end Scan

section Levels

variable {rule other : List Char → Except ParseError Template} {text content : List Char}

theorem Action.parseWith_congr (h : ∀ r, r.length < content.length → rule r = other r) :
    Action.parseWith rule content = Action.parseWith other content := by
  unfold Action.parseWith
  split
  next => rfl
  next key value hsplit =>
    have hvalue : value.length < content.length := by
      simp [(splitAtFirst?_eq_some hsplit).2]
      omega
    have hrules : (Scan.splitTopLevel ',' value).mapM rule =
        (Scan.splitTopLevel ',' value).mapM other :=
      mapM_congr fun part hpart =>
        h part ((Scan.length_part_le (by decide) hpart).trans_lt hvalue)
    rw [hrules]

theorem Tag.parseWith_congr (h : ∀ r, r.length < content.length → rule r = other r) :
    Tag.parseWith rule content = Tag.parseWith other content := by
  unfold Tag.parseWith
  split
  next => rfl
  next contents body hleading =>
    have hactions : contents.mapM (Action.parseWith rule) =
        contents.mapM (Action.parseWith other) :=
      mapM_congr fun action haction => Action.parseWith_congr fun r hr =>
        h r (hr.trans (Scan.length_action_lt hleading haction))
    rw [hactions]

theorem Segment.ofToken_congr {token : Scan.Token}
    (h : ∀ r, r.length < token.inner.length → rule r = other r) :
    Segment.ofToken rule token = Segment.ofToken other token := by
  cases token with
  | char c => rfl
  | tag content =>
    have htag : Tag.parseWith rule content = Tag.parseWith other content := Tag.parseWith_congr h
    rw [ofToken, ofToken, htag]
  | action content =>
    have haction : Action.parseWith rule content = Action.parseWith other content :=
      Action.parseWith_congr h
    rw [ofToken, ofToken, haction]
  | unclosedBracket => rfl

namespace Template

theorem parseWith_congr (h : ∀ r, r.length < text.length → rule r = other r) :
    parseWith rule text = parseWith other text := by
  have hsegments : (Scan.tokens text).mapM (Segment.ofToken rule) =
      (Scan.tokens text).mapM (Segment.ofToken other) :=
    mapM_congr fun token htoken => Segment.ofToken_congr fun r hr =>
      h r (hr.trans (Scan.length_inner_lt htoken))
  rw [parseWith, parseWith, hsegments]

theorem parseLevels_congr {levels more : ℕ} (hl : text.length < levels) (hm : text.length < more) :
    parseLevels levels text = parseLevels more text := by
  induction levels generalizing more text with
  | zero => omega
  | succ levels ih =>
    cases more with
    | zero => omega
    | succ more => exact parseWith_congr fun r hr => ih (by omega) (by omega)

/-- The rules of pushes are read as texts of their own. -/
theorem parseChars_eq (text : List Char) : parseChars text = parseWith parseChars text :=
  parseWith_congr fun _ hr => parseLevels_congr hr (Nat.lt_succ_self _)

end Template

end Levels

/-- Segments in front of others. Two literals that meet between them become one. -/
def Segment.adjoin : List Segment → List Segment → List Segment
  | [], more => more
  | [last], more => last.join more
  | first :: next :: rest, more => first :: adjoin (next :: rest) more

theorem Segment.join_adjoin (s : Segment) (segments more : List Segment) :
    s.join (adjoin segments more) = adjoin (s.join segments) more := by
  cases segments with
  | nil => cases s <;> rfl
  | cons first rest =>
    cases rest with
    | cons next others => cases s <;> cases first <;> rfl
    | nil =>
      cases s with
      | tag tag => rfl
      | action a => rfl
      | literal text =>
        cases first with
        | tag tag => rfl
        | action a => rfl
        | literal next =>
          cases more with
          | nil => rfl
          | cons second others =>
            cases second with
            | tag tag => rfl
            | action a => rfl
            | literal third => simp [adjoin, join, String.append_assoc]

theorem Segment.joinAll_append (segments more : List Segment) :
    joinAll (segments ++ more) = adjoin (joinAll segments) (joinAll more) := by
  induction segments with
  | nil => rfl
  | cons s rest ih =>
    change s.join (joinAll (rest ++ more)) = adjoin (s.join (joinAll rest)) (joinAll more)
    rw [ih, join_adjoin]

namespace Template

def append (t u : Template) : Template := ⟨Segment.adjoin t.segments u.segments⟩

theorem parseWith_append {rule : List Char → Except ParseError Template} {text : List Char}
    (h : Scan.Closed text) (more : List Char) :
    parseWith rule (text ++ more) = do
      let t ← parseWith rule text
      let u ← parseWith rule more
      return t.append u := by
  unfold parseWith
  rw [h.tokens_append, List.mapM_append]
  simp only [bind_assoc, pure_bind, Segment.joinAll_append, append]

theorem parse_append_of_closed {a : String} (h : Scan.Closed a.toList) (b : String) :
    parse (a ++ b) = do
      let t ← parse a
      let u ← parse b
      return t.append u := by
  simp only [parse, String.toList_append]
  rw [parseChars_eq, parseWith_append h, ← parseChars_eq, ← parseChars_eq]

theorem unclosedBracket_notMem {rule : List Char → Except ParseError Template} {text : List Char}
    {t : Template} (h : parseWith rule text = .ok t) :
    Scan.Token.unclosedBracket ∉ Scan.tokens text := by
  intro hmem
  obtain ⟨segments, hsegments, -⟩ := bind_eq_ok.mp h
  obtain ⟨s, -, hs⟩ := exists_of_mem_mapM hsegments hmem
  cases hs

/-- A text that can be read and leaves nothing open does not change how the text after it is read:
the mistake of that one is the mistake of both, and else the segments of both are adjoined. -/
theorem parse_append {a : String} {t : Template} (ha : parse a = .ok t)
    (hhash : ¬ Scan.MeetsLoneHash a.toList) (hend : Scan.Whole a.toList) (b : String) :
    parse (a ++ b) = (parse b).map t.append := by
  have hread : parseWith parseChars a.toList = .ok t := by rw [← parseChars_eq, ← parse, ha]
  have hclosed := Scan.closed_of_tokens (unclosedBracket_notMem hread) hhash hend
  rw [parse_append_of_closed hclosed, ha]
  cases parse b <;> rfl

/-- The `!` before the boundary and the `? ` after it are one literal. -/
theorem parse_greeting_and_question :
    parse ("[k:#x#]#k#!" ++ "? #y#") =
        .ok ⟨[.action (.push "k" [⟨[.tag (.bare "x")]⟩]), .tag (.bare "k"), .literal "!? ",
          .tag (.bare "y")]⟩ ∧
      parse ("[k:#x#]#k#!" ++ "##") = .error .emptyTag := by
  have hclosed : Scan.Closed "[k:#x#]#k#!".toList :=
    .action rfl (.tag rfl (.char (by decide) .nil))
  have ha : parse "[k:#x#]#k#!" =
      .ok ⟨[.action (.push "k" [⟨[.tag (.bare "x")]⟩]), .tag (.bare "k"), .literal "!"]⟩ := by cbv
  have hquestion : parse "? #y#" = .ok ⟨[.literal "? ", .tag (.bare "y")]⟩ := by cbv
  have hmistake : parse "##" = .error .emptyTag := by cbv
  have hall := parse_append ha hclosed.not_meetsLoneHash hclosed.whole
  constructor
  · rw [hall, hquestion]
    rfl
  · rw [hall, hmistake]
    rfl

end Template

end Announcer
