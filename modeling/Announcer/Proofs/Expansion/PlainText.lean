import Announcer.Proofs.Expansion.Names

/-! # Texts that stand for themselves

Most messages hold no tags. A text is read as the literal that it is exactly when no sign in it has
an effect: there is no `[`, at most one `#`, which then has no partner, and no backslash with a
character after it. Such a text is also what its own expansion gives, in every grammar and without
a choice.
-/
namespace Announcer

namespace Scan

/-- No sign has an effect. A `]`, a `#` by itself and a backslash at the end are plain characters. -/
structure Inert (text : List Char) : Prop where
  bracket : '[' ∉ text
  hash : text.count '#' ≤ 1
  backslash : '\\' ∉ text.dropLast

variable {c : Char} {text : List Char}

theorem notMem_dropLast_cons (hc : c ≠ '\\') :
    '\\' ∉ (c :: text).dropLast ↔ '\\' ∉ text.dropLast := by
  cases text with
  | nil => simp
  | cons d rest => simp [Ne.symm hc]

theorem inert_cons (hc : c ∉ ['\\', '#', '[']) : Inert (c :: text) ↔ Inert text := by
  simp only [List.mem_cons, List.not_mem_nil, or_false, not_or] at hc
  obtain ⟨hescape, hhash, hbracket⟩ := hc
  have hcount : (c :: text).count '#' = text.count '#' := List.count_cons_of_ne hhash
  constructor
  · rintro ⟨hno, hone, hend⟩
    exact ⟨List.not_mem_of_not_mem_cons hno, hcount ▸ hone, (notMem_dropLast_cons hescape).mp hend⟩
  · rintro ⟨hno, hone, hend⟩
    exact ⟨List.not_mem_cons_of_ne_of_not_mem (Ne.symm hbracket) hno, hcount ▸ hone,
      (notMem_dropLast_cons hescape).mpr hend⟩

theorem tagContent?_ne_none (hhash : '#' ∈ text) (hbracket : '[' ∉ text)
    (hescape : '\\' ∉ text.dropLast) : tagContent? 0 text ≠ none := by
  induction text with
  | nil => cases hhash
  | cons c rest ih =>
    by_cases hc : c = '#'
    · rw [hc, tagContent?.eq_6]
      all_goals simp
    · have hrest : '#' ∈ rest := (List.mem_cons.mp hhash).resolve_left (Ne.symm hc)
      have hne : rest ≠ [] := List.ne_nil_of_mem hrest
      rw [List.dropLast_cons_of_ne_nil hne, List.mem_cons, not_or] at hescape
      have hfound := ih hrest (List.not_mem_of_not_mem_cons hbracket) hescape.2
      have hopen : c ≠ '[' := fun heq => hbracket (heq ▸ List.mem_cons_self)
      by_cases hclose : c = ']'
      · simpa [hclose, tagContent?] using hfound
      · rw [tagContent?_cons ⟨Ne.symm hescape.1, hopen, hclose⟩ (fun h => hc h.1)]
        simpa using hfound

theorem inert_hash (hnone : tagContent? 0 text = none) : Inert ('#' :: text) ↔ Inert text := by
  constructor
  · rintro ⟨hno, hone, hend⟩
    refine ⟨List.not_mem_of_not_mem_cons hno, ?_, (notMem_dropLast_cons (by decide)).mp hend⟩
    rw [List.count_cons_self] at hone
    omega
  · rintro ⟨hno, -, hend⟩
    have hhash : '#' ∉ text := fun hmem => tagContent?_ne_none hmem hno hend hnone
    refine ⟨List.not_mem_cons_of_ne_of_not_mem (by decide) hno, ?_,
      (notMem_dropLast_cons (by decide)).mpr hend⟩
    rw [List.count_cons_self, List.count_eq_zero_of_not_mem hhash]

theorem length_tokens_le (text : List Char) : (tokens text).length ≤ text.length := by
  fun_induction tokens text with
  | case1 => exact le_rfl
  | case2 c rest ih =>
    simp only [List.length_cons]
    omega
  | case3 rest content after hfound ih =>
    have := tagContent?_length_lt hfound
    simp only [List.length_cons]
    omega
  | case4 rest hnone ih => exact Nat.succ_le_succ ih
  | case5 rest content after hfound ih =>
    have := bracketContent?_length_lt hfound
    simp only [List.length_cons]
    omega
  | case6 rest hnone => simp
  | case7 c rest _ _ _ ih => exact Nat.succ_le_succ ih

/-- The characters of a text are its tokens exactly when it is inert. -/
theorem tokens_eq_chars_iff (text : List Char) : tokens text = text.map .char ↔ Inert text := by
  have hsame : ∀ (c : Char) (found : List Token) (rest : List Char),
      Token.char c :: found = (c :: rest).map .char ↔ found = rest.map .char := by simp
  fun_induction tokens text with
  | case1 => exact iff_of_true rfl ⟨by simp, by simp, by simp⟩
  | case2 c rest ih =>
    -- An escape leaves fewer tokens than characters.
    refine iff_of_false (fun h => ?_) (fun h => h.backslash (by simp))
    have hshort := length_tokens_le rest
    have hlength := congrArg List.length h
    simp only [List.length_map, List.length_cons] at hlength
    omega
  | case3 rest content after hfound ih =>
    refine iff_of_false (by simp) (fun h => ?_)
    have hone := h.hash
    rw [tagContent?_eq_append hfound, List.count_cons_self, List.count_append,
      List.count_cons_self] at hone
    omega
  | case4 rest hnone ih => exact (hsame _ _ _).trans (ih.trans (inert_hash hnone).symm)
  | case5 rest content after hfound ih =>
    exact iff_of_false (by simp) (fun h => h.bracket List.mem_cons_self)
  | case6 rest hnone => exact iff_of_false (by simp) (fun h => h.bracket List.mem_cons_self)
  | case7 c rest hescape hhash hbracket ih =>
    refine (hsame _ _ _).trans (ih.trans ?_)
    by_cases hc : c = '\\'
    · -- A backslash that is not an escape is the last character.
      cases rest with
      | nil => exact iff_of_true ⟨by simp, by simp, by simp⟩ ⟨by simp [hc], by simp [hc], by simp⟩
      | cons d others => exact absurd rfl (hescape d others hc)
    · refine (inert_cons ?_).symm
      simp only [List.mem_cons, List.not_mem_nil, or_false, not_or]
      exact ⟨hc, hhash, hbracket⟩

end Scan

section Literal

variable {rule : List Char → Except ParseError Template} {text : List Char}

theorem plainText_join (s : Segment) (segments : List Segment) :
    Template.plainText ⟨s.join segments⟩ = Template.plainText ⟨s :: segments⟩ := by
  unfold Segment.join
  split
  next => simp [Template.plainText, String.append_assoc]
  next => rfl

theorem plainText_joinAll (segments : List Segment) :
    Template.plainText ⟨Segment.joinAll segments⟩ = Template.plainText ⟨segments⟩ := by
  induction segments with
  | nil => rfl
  | cons s rest ih =>
    change Template.plainText ⟨s.join (Segment.joinAll rest)⟩ = _
    rw [plainText_join]
    simp only [Template.plainText, List.foldr_cons] at ih ⊢
    rw [ih]

theorem all_isLiteral_joinAll (segments : List Segment) :
    (Segment.joinAll segments).all Segment.isLiteral = segments.all Segment.isLiteral := by
  induction segments with
  | nil => rfl
  | cons s rest ih =>
    rw [List.all_cons, ← ih]
    change (s.join (Segment.joinAll rest)).all Segment.isLiteral = _
    unfold Segment.join
    split
    next heq => rw [heq]; rfl
    next => rfl

theorem tokens_of_literals {found : List Scan.Token} {segments : List Segment}
    (h : List.Forall₂ (fun token s => Segment.ofToken rule token = .ok s) found segments)
    (hall : segments.all Segment.isLiteral = true) :
    found = (Template.plainText ⟨segments⟩).toList.map .char := by
  induction h with
  | nil => rfl
  | @cons token s found segments hread _ ih =>
    obtain ⟨hs, hrest⟩ := Bool.and_eq_true_iff.mp hall
    cases token with
    | char c =>
      cases hread
      rw [ih hrest]
      simp [Template.plainText]
    | tag content =>
      obtain ⟨tag, -, rfl⟩ := map_eq_ok.mp hread
      cases hs
    | action content =>
      obtain ⟨a, -, rfl⟩ := map_eq_ok.mp hread
      cases hs
    | unclosedBracket => cases hread

theorem tokens_of_isPlain {t : Template} (h : Template.parseWith rule text = .ok t)
    (hplain : t.isPlain = true) : Scan.tokens text = t.plainText.toList.map .char := by
  obtain ⟨segments, hsegments, heq⟩ := bind_eq_ok.mp h
  cases heq
  rw [plainText_joinAll]
  exact tokens_of_literals (mapM_eq_ok_iff.mp hsegments)
    ((all_isLiteral_joinAll segments).symm.trans hplain)

end Literal

theorem Template.parse_of_inert {text : String} (h : Scan.Inert text.toList) :
    parse text = .ok (.ofText text) := by
  rw [parse, parseChars_eq]
  exact parseWith_of_tokens ((Scan.tokens_eq_chars_iff _).mpr h)

theorem Template.parse_eq_literal_iff (text : String) :
    parse text = .ok (.literal text) ↔ text ≠ "" ∧ Scan.Inert text.toList := by
  constructor
  · intro h
    have htokens := tokens_of_isPlain h rfl
    have hsame : (literal text).plainText = text := by simp [plainText, literal]
    rw [hsame] at htokens
    have hinert := (Scan.tokens_eq_chars_iff _).mp htokens
    refine ⟨?_, hinert⟩
    rintro rfl
    rw [parse_of_inert hinert] at h
    simp [ofText, literal] at h
  · rintro ⟨hne, h⟩
    rw [parse_of_inert h, ofText, if_neg hne]
    rfl

open Chance (ChoiceSource Script)

section Run

variable {σ : Type} [ChoiceSource σ]

theorem Grammar.flatten_of_inert {text : String} (h : Scan.Inert text.toList) (g : Grammar)
    (source : σ) : g.flatten text source = (.ok text, source) := by
  rw [flatten_of_parse (Template.parse_of_inert h), Expansion.run_eq,
    Expansion.expandTemplate_plain (Template.isPlain_ofText text), Expansion.outcome_pure,
    Template.plainText_ofText]
  rfl

/-- The inert texts that are not empty are the literals, and every inert text is what it expands to,
in every grammar and without a choice. -/
theorem Grammar.literal_iff_inert (text : String) :
    (Template.parse text = .ok (.literal text) ↔ text ≠ "" ∧ Scan.Inert text.toList) ∧
      (Scan.Inert text.toList →
        ∀ (g : Grammar) (source : σ), g.flatten text source = (.ok text, source)) :=
  ⟨Template.parse_eq_literal_iff text, Grammar.flatten_of_inert⟩

end Run

/-- A stray bracket, a lone `#` and a last backslash are said as they are written. -/
theorem Grammar.room_stands_for_itself :
    Template.parse "Room 3] at #8\\" = .ok (.literal "Room 3] at #8\\") ∧
      empty.flatten "Room 3] at #8\\" (Script.of []) = (.ok "Room 3] at #8\\", Script.of []) ∧
      empty.flatten "" (Script.of []) = (.ok "", Script.of []) := by
  have hroom : Scan.Inert "Room 3] at #8\\".toList := ⟨by decide, by decide, by decide⟩
  have hempty : Scan.Inert "".toList := ⟨by decide, by decide, by decide⟩
  obtain ⟨hliteral, hsaid⟩ := literal_iff_inert (σ := Script) "Room 3] at #8\\"
  exact ⟨hliteral.mpr ⟨by decide, hroom⟩, hsaid hroom _ _, (literal_iff_inert "").2 hempty _ _⟩

end Announcer
