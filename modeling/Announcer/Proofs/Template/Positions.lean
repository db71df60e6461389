import Announcer.Proofs.Template.Concatenation

/-! # Reading by position

A reader that keeps a position in the text can go wrong where one that takes the text apart cannot:
it may count open brackets below zero, cut out more than there is, or trust a tag to close the
actions that lead it. The reader given here checks all of this, and that it never needs more levels
than it has. It never finds a fault, and so it reads every text as the parser does.
-/
namespace Announcer

namespace Scan

variable {depth : ℕ} {text content rest : List Char}

/-- In the content of a tag an open bracket is closed, and the content goes on after it: the count
for the tag, which stays at zero, and the count for the bracket do not part before. -/
theorem bracketContent?_of_tagContent? (h : tagContent? (depth + 1) text = some (content, rest)) :
    ∃ inner after, bracketContent? depth content = some (inner, after) ∧
      tagContent? 0 (after ++ '#' :: rest) = some (after, rest) := by
  generalize hn : depth + 1 = n at h
  fun_induction tagContent? n text generalizing depth content with
  | case1 => cases h
  | case2 => cases h
  | case3 n c tail ih =>
    obtain ⟨found, hfound, heq⟩ := Option.map_eq_some_iff.mp h
    cases heq
    obtain ⟨inner, after, hinner, hafter⟩ := ih hn hfound
    exact ⟨'\\' :: c :: inner, after, by simp [bracketContent?, hinner], hafter⟩
  | case4 n tail ih =>
    obtain ⟨found, hfound, heq⟩ := Option.map_eq_some_iff.mp h
    cases heq
    obtain ⟨inner, after, hinner, hafter⟩ := ih (congrArg (· + 1) hn) hfound
    exact ⟨'[' :: inner, after, by simp [bracketContent?, hinner], hafter⟩
  | case5 n tail ih =>
    obtain ⟨found, hfound, heq⟩ := Option.map_eq_some_iff.mp h
    cases heq
    cases depth with
    | zero =>
      obtain rfl : 1 = n := hn
      refine ⟨[], found.1, by simp [bracketContent?], ?_⟩
      rw [← tagContent?_eq_append hfound]
      exact hfound
    | succ outer =>
      have houter : outer + 1 = n - 1 := by omega
      obtain ⟨inner, after, hinner, hafter⟩ := ih houter hfound
      exact ⟨']' :: inner, after, by simp [bracketContent?, hinner], hafter⟩
  | case6 n c tail _ _ _ _ hc => omega
  | case7 n c tail hlast hmore hopen hclose _ ih =>
    obtain ⟨found, hfound, heq⟩ := Option.map_eq_some_iff.mp h
    cases heq
    obtain ⟨inner, after, hinner, hafter⟩ := ih hn hfound
    refine ⟨c :: inner, after, ?_, hafter⟩
    rw [bracketContent?_cons ⟨ne_backslash hlast hmore, hopen, hclose⟩, hinner]
    rfl

theorem leadingActions?_cons_of_closed {more inner after : List Char}
    (h : bracketContent? 0 more = some (inner, after)) :
    leadingActions? ('[' :: more) =
      (leadingActions? after).map fun found => (inner :: found.1, found.2) := by
  rw [leadingActions?]
  split
  next other others hfound =>
    obtain ⟨rfl, rfl⟩ := Prod.mk.inj (Option.some.inj (h.symm.trans hfound))
    rfl
  next hnone => simp [h] at hnone

theorem exists_leadingActions? (h : tagContent? 0 text = some (content, rest)) :
    ∃ contents body, leadingActions? content = some (contents, body) := by
  induction hn : content.length using Nat.strong_induction_on generalizing text content with
  | _ n ih =>
    by_cases hopen : ∃ more, content = '[' :: more
    · obtain ⟨more, rfl⟩ := hopen
      have hwhole := h
      rw [tagContent?_eq_append h, List.cons_append, tagContent?.eq_4] at hwhole
      obtain ⟨found, hfound, heq⟩ := Option.map_eq_some_iff.mp hwhole
      cases heq
      obtain ⟨inner, after, hinner, hafter⟩ := bracketContent?_of_tagContent? hfound
      have hshorter : after.length < n := by
        have hlt := bracketContent?_length_lt hinner
        rw [List.length_cons] at hn
        omega
      obtain ⟨contents, body, hrest⟩ := ih _ hshorter hafter rfl
      refine ⟨inner :: contents, body, ?_⟩
      rw [leadingActions?_cons_of_closed hinner, hrest]
      rfl
    · exact ⟨[], content, leadingActions?.eq_2 _ fun more heq => hopen ⟨more, heq⟩⟩

theorem leadingActions?_eq_append {contents : List (List Char)} {body : List Char}
    (h : leadingActions? text = some (contents, body)) :
    text = (contents.flatMap fun inner => '[' :: (inner ++ [']'])) ++ body ∧
      body.head? ≠ some '[' := by
  fun_induction leadingActions? text generalizing contents with
  | case1 tail inner after hfound ih =>
    obtain ⟨found, hrest, heq⟩ := Option.map_eq_some_iff.mp h
    cases heq
    obtain ⟨htext, hbody⟩ := ih hrest
    refine ⟨?_, hbody⟩
    rw [bracketContent?_eq_append hfound, List.flatMap_cons, List.append_assoc, ← htext]
    simp
  | case2 => cases h
  | case3 text hno =>
    cases h
    refine ⟨rfl, fun hhead => ?_⟩
    obtain ⟨tail, htail⟩ := List.head?_eq_some_iff.mp hhead
    exact hno tail htail

end Scan

namespace Positional

/-- What can go wrong in counting, in cutting and in what a tag is trusted to hold, and the end of
the levels. -/
inductive Fault where
  | countBelowZero
  | cutOutOfRange
  | openActionInTag
  | noLevelLeft
deriving DecidableEq, Repr

inductive Stop where
  | fault (f : Fault)
  | mistake (e : ParseError)

/-- The position of the `#` that closes a tag. A backslash leads two positions on, perhaps over the
end. -/
def tagEnd? (text : List Char) (depth position : ℕ) : Option ℕ :=
  if _h : position < text.length then
    if text[position] = '\\' then tagEnd? text depth (position + 2)
    else if text[position] = '[' then tagEnd? text (depth + 1) (position + 1)
    else if text[position] = ']' then tagEnd? text (depth - 1) (position + 1)
    else if text[position] = '#' ∧ depth = 0 then some position
    else tagEnd? text depth (position + 1)
  else none
termination_by text.length - position

/-- The position of the `]` with which the count of open brackets comes back to zero. -/
def bracketEnd? (text : List Char) (depth position : ℕ) : Except Stop (Option ℕ) :=
  if _h : position < text.length then
    if text[position] = '\\' then bracketEnd? text depth (position + 2)
    else if text[position] = '[' then bracketEnd? text (depth + 1) (position + 1)
    else if text[position] = ']' then
      match depth with
      | 0 => throw (.fault .countBelowZero)
      | 1 => pure (some position)
      | outer + 2 => bracketEnd? text (outer + 1) (position + 1)
    else bracketEnd? text depth (position + 1)
  else pure none
termination_by text.length - position

def between (text : List Char) (first last : ℕ) : List Char := (text.take last).drop first

section Reader

variable (rule : List Char → Except Stop Template)

def readAction (content : List Char) : Except Stop Action :=
  match Scan.splitAtFirst? ':' content with
  | none => throw (.mistake (.actionWithoutColon (String.ofList content)))
  | some (key, value) => do
    if key.isEmpty then throw (.mistake (.actionWithoutKey (String.ofList content)))
    if value = ['P', 'O', 'P'] then return .pop (String.ofList key)
    let rules ← (Scan.splitTopLevel ',' value).mapM rule
    return .push (String.ofList key) rules

def readActions (content : List Char) (position : ℕ) : Except Stop (List Action × ℕ) :=
  if _h : content[position]? = some '[' then do
    match ← bracketEnd? content 0 position with
    | none => throw (.fault .openActionInTag)
    | some last =>
      if _hcut : position + 1 ≤ last ∧ last ≤ content.length then
        let action ← readAction rule (between content (position + 1) last)
        let (actions, after) ← readActions content (last + 1)
        return (action :: actions, after)
      else throw (.fault .cutOutOfRange)
  else return ([], position)
termination_by content.length - position
decreasing_by
  have := (List.getElem?_eq_some_iff.mp _h).1
  omega

def readTag (content : List Char) : Except Stop Tag := do
  let (actions, after) ← readActions rule content 0
  if after ≤ content.length then
    (Tag.parseBody content actions (content.drop after)).mapError .mistake
  else throw (.fault .cutOutOfRange)

def readSegments (text : List Char) (position : ℕ) : Except Stop (List Segment) :=
  if _h : position < text.length then
    if text[position] = '\\' then
      match text[position + 1]? with
      | some c => (.literal (String.singleton c) :: ·) <$> readSegments text (position + 2)
      | none => (.literal "\\" :: ·) <$> readSegments text (position + 1)
    else if text[position] = '#' then
      match tagEnd? text 0 (position + 1) with
      | some last =>
        if _hcut : position + 1 ≤ last ∧ last ≤ text.length then do
          let tag ← readTag rule (between text (position + 1) last)
          let rest ← readSegments text (last + 1)
          return .tag tag :: rest
        else throw (.fault .cutOutOfRange)
      | none => (.literal "#" :: ·) <$> readSegments text (position + 1)
    else if text[position] = '[' then do
      match ← bracketEnd? text 0 position with
      | some last =>
        if _hcut : position + 1 ≤ last ∧ last ≤ text.length then
          let action ← readAction rule (between text (position + 1) last)
          let rest ← readSegments text (last + 1)
          return .action action :: rest
        else throw (.fault .cutOutOfRange)
      | none => throw (.mistake .unclosedBracket)
    else (.literal (String.singleton text[position]) :: ·) <$> readSegments text (position + 1)
  else return []
termination_by text.length - position

end Reader

def readLevels : ℕ → List Char → Except Stop Template
  | 0, _ => throw (.fault .noLevelLeft)
  | levels + 1, text => do
    let segments ← readSegments (readLevels levels) text 0
    return ⟨Segment.joinAll segments⟩

def read (text : String) : Except Stop Template := readLevels (text.toList.length + 1) text.toList

variable {text content rest after : List Char} {c : Char} {depth position : ℕ}

theorem getElem_of_drop (h : text.drop position = c :: rest) :
    ∃ hlt : position < text.length, text[position] = c ∧ text.drop (position + 1) = rest := by
  have hlt : position < text.length := by
    have hlength := congrArg List.length h
    rw [List.length_drop, List.length_cons] at hlength
    omega
  rw [List.drop_eq_getElem_cons hlt] at h
  exact ⟨hlt, List.cons.inj h⟩

/-- The content stands between the two positions, and the rest after the sign at the second one. -/
structure Cut (text content rest : List Char) (first last : ℕ) : Prop where
  ordered : first ≤ last
  inside : last < text.length
  content_eq : between text first last = content
  rest_eq : text.drop (last + 1) = rest
  shorter : content.length < text.length

theorem cut_of_drop (h : text.drop position = content ++ c :: rest) :
    Cut text content rest position (position + content.length) := by
  have hlength := congrArg List.length h
  simp only [List.length_drop, List.length_append, List.length_cons] at hlength
  refine ⟨Nat.le_add_right _ _, by omega, ?_, ?_, by omega⟩
  · rw [between, List.drop_take, h]
    simp
  · rw [Nat.add_assoc, ← List.drop_drop, h]
    simp

/-- The position of the sign that ends some content, which begins at the position given. -/
def endOf (position : ℕ) (found : Option (List Char × List Char)) : Option ℕ :=
  found.map fun found => position + found.1.length

theorem endOf_passed (passed : List Char) (found : Option (List Char × List Char)) :
    endOf (position + passed.length) found =
      endOf position (found.map fun found => (passed ++ found.1, found.2)) := by
  cases found with
  | none => rfl
  | some found => simp [endOf, Nat.add_assoc]

theorem tagEnd?_eq (text : List Char) (depth position : ℕ) :
    tagEnd? text depth position = endOf position (Scan.tagContent? depth (text.drop position)) := by
  fun_induction tagEnd? text depth position with
  | case1 depth position h hescape ih =>
    rw [ih, List.drop_eq_getElem_cons h, hescape, ← List.tail_drop]
    cases text.drop (position + 1) with
    | nil => rfl
    | cons c rest => exact endOf_passed ['\\', c] _
  | case2 depth position h hescape hopen ih =>
    rw [ih, List.drop_eq_getElem_cons h, hopen]
    exact endOf_passed ['['] _
  | case3 depth position h hescape hopen hclose ih =>
    rw [ih, List.drop_eq_getElem_cons h, hclose]
    exact endOf_passed [']'] _
  | case4 depth position h hescape hopen hclose hend =>
    rw [List.drop_eq_getElem_cons h, hend.1, hend.2]
    rfl
  | case5 depth position h hescape hopen hclose hend ih =>
    rw [ih, List.drop_eq_getElem_cons h, Scan.tagContent?_cons ⟨hescape, hopen, hclose⟩ hend]
    exact endOf_passed [text[position]] _
  | case6 depth position h =>
    rw [List.drop_eq_nil_of_le (Nat.le_of_not_lt h)]
    rfl

theorem bracketEnd?_eq (hdepth : 0 < depth) : bracketEnd? text depth position =
    pure (endOf position (Scan.bracketContent? (depth - 1) (text.drop position))) := by
  fun_induction bracketEnd? text depth position with
  | case1 depth position h hescape ih =>
    rw [ih hdepth, List.drop_eq_getElem_cons h, hescape, ← List.tail_drop]
    cases text.drop (position + 1) with
    | nil => rfl
    | cons c rest => exact congrArg _ (endOf_passed ['\\', c] _)
  | case2 depth position h hescape hopen ih =>
    obtain ⟨inner, rfl⟩ := Nat.exists_eq_add_of_lt hdepth
    rw [ih (Nat.succ_pos _), List.drop_eq_getElem_cons h, hopen]
    exact congrArg _ (endOf_passed ['['] _)
  | case3 position h hescape hopen hclose => exact absurd hdepth (Nat.lt_irrefl 0)
  | case4 position h hescape hopen hclose =>
    rw [List.drop_eq_getElem_cons h, hclose]
    rfl
  | case5 position h hescape hopen hclose outer ih =>
    rw [ih (Nat.succ_pos _), List.drop_eq_getElem_cons h, hclose]
    exact congrArg _ (endOf_passed [']'] _)
  | case6 depth position h hescape hopen hclose ih =>
    rw [ih hdepth, List.drop_eq_getElem_cons h,
      Scan.bracketContent?_cons ⟨hescape, hopen, hclose⟩]
    exact congrArg _ (endOf_passed [text[position]] _)
  | case7 depth position h =>
    rw [List.drop_eq_nil_of_le (Nat.le_of_not_lt h)]
    rfl

theorem bracketEnd?_open (h : text.drop position = '[' :: rest) :
    bracketEnd? text 0 position = pure (endOf (position + 1) (Scan.bracketContent? 0 rest)) := by
  obtain ⟨hlt, hopen, hrest⟩ := getElem_of_drop h
  rw [bracketEnd?, dif_pos hlt, if_neg (by simp [hopen]), if_pos hopen,
    bracketEnd?_eq (Nat.succ_pos 0), hrest]

theorem tagEnd?_found (h : text.drop position = rest)
    (hfound : Scan.tagContent? 0 rest = some (content, after)) :
    ∃ last, tagEnd? text 0 position = some last ∧ Cut text content after position last := by
  refine ⟨_, ?_, cut_of_drop (h.trans (Scan.tagContent?_eq_append hfound))⟩
  rw [tagEnd?_eq, h, hfound]
  rfl

theorem bracketEnd?_found (h : text.drop position = '[' :: rest)
    (hfound : Scan.bracketContent? 0 rest = some (content, after)) :
    ∃ last, bracketEnd? text 0 position = pure (some last) ∧
      Cut text content after (position + 1) last := by
  obtain ⟨-, -, hrest⟩ := getElem_of_drop h
  refine ⟨_, ?_, cut_of_drop (hrest.trans (Scan.bracketContent?_eq_append hfound))⟩
  rw [bracketEnd?_open h, hfound]
  rfl

section Mistakes

variable {ε ε' α β : Type}

theorem mapError_bind (x : Except ε α) (f : α → Except ε β) (k : ε → ε') :
    (x >>= f).mapError k = x.mapError k >>= fun a => (f a).mapError k := by
  cases x <;> rfl

theorem mapError_map (x : Except ε α) (f : α → β) (k : ε → ε') :
    (f <$> x).mapError k = f <$> x.mapError k := by
  cases x <;> rfl

theorem mapError_mapM (xs : List α) (f : α → Except ε β) (k : ε → ε') :
    (xs.mapM f).mapError k = xs.mapM fun x => (f x).mapError k := by
  induction xs with
  | nil => rfl
  | cons x rest ih => simp only [List.mapM_cons, mapError_bind, ih]; rfl

end Mistakes

section Agreement

variable {rule : List Char → Except Stop Template} {plain : List Char → Except ParseError Template}

theorem readAction_eq
    (hrule : ∀ r, r.length < content.length → rule r = (plain r).mapError .mistake) :
    readAction rule content = (Action.parseWith plain content).mapError .mistake := by
  unfold readAction Action.parseWith
  cases hsplit : Scan.splitAtFirst? ':' content with
  | none => rfl
  | some found =>
    obtain ⟨key, value⟩ := found
    have hrules : (Scan.splitTopLevel ',' value).mapM rule =
        ((Scan.splitTopLevel ',' value).mapM plain).mapError .mistake := by
      rw [mapError_mapM]
      refine mapM_congr fun part hpart => hrule part ?_
      have hpartLength := Scan.length_part_le (by decide) hpart
      rw [(splitAtFirst?_eq_some hsplit).2, List.length_append, List.length_cons]
      omega
    simp only [hrules]
    split
    next => rfl
    next =>
      split
      next => rfl
      next =>
        rw [mapError_bind]
        rfl

theorem readActions_eq
    (hrule : ∀ r, r.length < content.length → rule r = (plain r).mapError .mistake)
    {contents : List (List Char)} {body : List Char} (hle : position ≤ content.length)
    (h : Scan.leadingActions? (content.drop position) = some (contents, body)) :
    readActions rule content position = do
      let actions ← contents.mapM fun action => (Action.parseWith plain action).mapError .mistake
      return (actions, content.length - body.length) := by
  generalize htext : content.drop position = text at h
  fun_induction Scan.leadingActions? text generalizing contents position with
  | case1 rest inner after hfound ih =>
    obtain ⟨found, hrest, heq⟩ := Option.map_eq_some_iff.mp h
    cases heq
    obtain ⟨hlt, hopen, -⟩ := getElem_of_drop htext
    obtain ⟨last, hlast, hcut⟩ := bracketEnd?_found htext hfound
    have haction : readAction rule inner = (Action.parseWith plain inner).mapError .mistake :=
      readAction_eq fun r hr => hrule r (hr.trans hcut.shorter)
    rw [readActions, dif_pos (List.getElem?_eq_some_iff.mpr ⟨hlt, hopen⟩), hlast, pure_bind]
    simp only
    rw [dif_pos ⟨hcut.ordered, hcut.inside.le⟩, hcut.content_eq, haction,
      ih hcut.inside hcut.rest_eq hrest]
    simp only [List.mapM_cons, bind_assoc, pure_bind]
  | case2 => cases h
  | case3 _ hno =>
    cases h
    have hdone : ¬ content[position]? = some '[' := by
      intro hopen
      rw [← List.head?_drop, htext] at hopen
      obtain ⟨more, rfl⟩ := List.head?_eq_some_iff.mp hopen
      exact hno more rfl
    have hbody : content.length - body.length = position := by
      rw [← htext, List.length_drop]
      omega
    rw [readActions, dif_neg hdone, hbody]
    rfl

theorem readTag_eq
    (hrule : ∀ r, r.length < content.length → rule r = (plain r).mapError .mistake)
    (h : Scan.tagContent? 0 text = some (content, rest)) :
    readTag rule content = (Tag.parseWith plain content).mapError .mistake := by
  obtain ⟨contents, body, hleading⟩ := Scan.exists_leadingActions? h
  have hbody : content.drop (content.length - body.length) = body :=
    (List.suffix_iff_eq_drop.mp ⟨_, (Scan.leadingActions?_eq_append hleading).1.symm⟩).symm
  rw [readTag, readActions_eq hrule (Nat.zero_le _) hleading, Tag.parseWith, hleading]
  simp only [mapError_bind, mapError_mapM, bind_assoc, pure_bind, hbody, if_pos (Nat.sub_le _ _)]

theorem readSegments_eq
    (hrule : ∀ r, r.length < text.length → rule r = (plain r).mapError .mistake) (position : ℕ) :
    readSegments rule text position =
      ((Scan.tokens (text.drop position)).mapM (Segment.ofToken plain)).mapError .mistake := by
  -- The induction is on the tokens, and each of them says what stands at the position.
  generalize hrest : text.drop position = rest
  rw [mapError_mapM]
  fun_induction Scan.tokens rest generalizing position with
  | case1 =>
    have hend : ¬ position < text.length := Nat.not_lt.mpr (List.drop_eq_nil_iff.mp hrest)
    rw [readSegments, dif_neg hend]
    rfl
  | case2 c rest ih =>
    obtain ⟨hlt, hescape, htail⟩ := getElem_of_drop hrest
    obtain ⟨hnext, hc, hafter⟩ := getElem_of_drop htail
    rw [readSegments, dif_pos hlt, if_pos hescape, List.getElem?_eq_getElem hnext, hc,
      List.mapM_cons, ← ih _ hafter]
    rfl
  | case3 rest content after hfound ih =>
    obtain ⟨hlt, hhash, htail⟩ := getElem_of_drop hrest
    obtain ⟨last, hlast, hcut⟩ := tagEnd?_found htail hfound
    have htag : readTag rule content = (Tag.parseWith plain content).mapError .mistake :=
      readTag_eq (fun r hr => hrule r (hr.trans hcut.shorter)) hfound
    rw [readSegments, dif_pos hlt, if_neg (by simp [hhash]), if_pos hhash, hlast]
    simp only
    rw [dif_pos ⟨hcut.ordered, hcut.inside.le⟩, hcut.content_eq, htag, ih _ hcut.rest_eq,
      List.mapM_cons, Segment.ofToken, mapError_map, bind_map_left]
  | case4 rest hnone ih =>
    obtain ⟨hlt, hhash, htail⟩ := getElem_of_drop hrest
    have hend := tagEnd?_eq text 0 (position + 1)
    rw [htail, hnone] at hend
    rw [readSegments, dif_pos hlt, if_neg (by simp [hhash]), if_pos hhash, hend, List.mapM_cons,
      ← ih _ htail]
    rfl
  | case5 rest content after hfound ih =>
    obtain ⟨hlt, hopen, -⟩ := getElem_of_drop hrest
    obtain ⟨last, hlast, hcut⟩ := bracketEnd?_found hrest hfound
    have haction : readAction rule content = (Action.parseWith plain content).mapError .mistake :=
      readAction_eq fun r hr => hrule r (hr.trans hcut.shorter)
    rw [readSegments, dif_pos hlt, if_neg (by simp [hopen]), if_neg (by simp [hopen]),
      if_pos hopen, hlast, pure_bind]
    simp only
    rw [dif_pos ⟨hcut.ordered, hcut.inside.le⟩, hcut.content_eq, haction, ih _ hcut.rest_eq,
      List.mapM_cons, Segment.ofToken, mapError_map, bind_map_left]
  | case6 rest hnone =>
    obtain ⟨hlt, hopen, -⟩ := getElem_of_drop hrest
    rw [readSegments, dif_pos hlt, if_neg (by simp [hopen]), if_neg (by simp [hopen]),
      if_pos hopen, bracketEnd?_open hrest, hnone]
    rfl
  | case7 c rest hescape hsign hbracket ih =>
    obtain ⟨hlt, hc, htail⟩ := getElem_of_drop hrest
    rw [readSegments, dif_pos hlt, hc, if_neg hsign, if_neg hbracket, List.mapM_cons, ← ih _ htail]
    split
    next hbackslash =>
      -- A backslash that is no escape has nothing after it.
      have hlast : text[position + 1]? = none := by
        rw [← List.head?_drop, htail]
        cases rest with
        | nil => rfl
        | cons d others => exact absurd rfl (hescape d others hbackslash)
      rw [hlast, hbackslash]
      rfl
    next => rfl

theorem readLevels_eq {levels : ℕ} (h : text.length < levels) :
    readLevels levels text = (Template.parseLevels levels text).mapError .mistake := by
  induction levels generalizing text with
  | zero => omega
  | succ levels ih =>
    rw [readLevels, readSegments_eq fun r hr => ih (by omega), List.drop_zero,
      Template.parseLevels, Template.parseWith, mapError_bind]
    rfl

end Agreement

/-- No bracket that leads the content of a tag is open at its end, and no escape either. -/
structure IsTagContent (content : List Char) : Prop where
  whole : Scan.Whole content
  actions : ∃ contents body, Scan.leadingActions? content = some (contents, body) ∧
    content = (contents.flatMap fun inner => '[' :: (inner ++ [']'])) ++ body ∧
    body.head? ≠ some '['

theorem isTagContent (h : Scan.tagContent? 0 text = some (content, rest)) :
    IsTagContent content := by
  obtain ⟨contents, body, hleading⟩ := Scan.exists_leadingActions? h
  exact ⟨Scan.whole_of_tagContent? h, contents, body, hleading,
    Scan.leadingActions?_eq_append hleading⟩

theorem isTagContent_between {last : ℕ} (h : tagEnd? text 0 position = some last) :
    position ≤ last ∧ last < text.length ∧ IsTagContent (between text position last) := by
  rw [tagEnd?_eq] at h
  obtain ⟨⟨content, rest⟩, hfound, rfl⟩ := Option.map_eq_some_iff.mp h
  have hcut := cut_of_drop (Scan.tagContent?_eq_append hfound)
  refine ⟨hcut.ordered, hcut.inside, ?_⟩
  rw [hcut.content_eq]
  exact isTagContent hfound

/-- Every text is read as the parser reads it, with its mistakes and without a fault, for wherever a
tag is found to end, its content can be cut out and has no action open. -/
theorem read_eq_parse (text : String) :
    read text = (Template.parse text).mapError .mistake ∧ (∀ f, read text ≠ .error (.fault f)) ∧
      ∀ level position last, tagEnd? level 0 position = some last →
        position ≤ last ∧ last < level.length ∧ IsTagContent (between level position last) := by
  have hread : read text = (Template.parse text).mapError .mistake :=
    readLevels_eq (Nat.lt_succ_self _)
  refine ⟨hread, fun f hfault => ?_, fun _ _ _ => isTagContent_between⟩
  rw [hread] at hfault
  cases hparse : Template.parse text with
  | ok t => rw [hparse] at hfault; cases hfault
  | error e => rw [hparse] at hfault; cases hfault

theorem tag_with_action_delimited :
    tagEnd? "#[a:#b#]c#d".toList 0 1 = some 9 ∧
      IsTagContent (between "#[a:#b#]c#d".toList 1 9) := by
  have hend : tagEnd? "#[a:#b#]c#d".toList 0 1 = some 9 := by cbv
  exact ⟨hend, ((read_eq_parse "#[a:#b#]c#d").2.2 _ _ _ hend).2.2⟩

/-- What is no content of a tag can have an action open. -/
example : readTag (readLevels 1) "[a:b".toList = .error (.fault .openActionInTag) := by cbv

end Positional

end Announcer
