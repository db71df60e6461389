import Announcer.Proofs.Modifier.Words
import Mathlib

/-! # Capitalizing twice

The upper case of a character consists of characters that are their own upper case, so a word that
was capitalized begins as it should. But it may end in a character that belongs to no word, such as
a combining accent. The second pass then takes what follows for the beginning of another word. So a
text keeps its form in a second pass exactly if no word goes on in another case after such an end.
-/
namespace Announcer

namespace Text

def changed (runs : List CaseRun) (expansions : List (ℕ × List ℕ)) : List CaseRun :=
  runs ++ expansions.map fun e => ⟨e.1, e.1, 1, 0⟩

def moved (runs : List CaseRun) (expansions : List (ℕ × List ℕ)) : List CaseRun :=
  runs ++ expansions.flatMap fun e => e.2.map fun n => ⟨n, n, 1, 0⟩

/-- No character of the first run is moved into the second one. Runs that are far from each other
are not compared character by character. -/
def CaseRun.misses (r s : CaseRun) : Bool :=
  Nat.blt s.last (r.first + r.shift).toNat || Nat.blt (r.last + r.shift).toNat s.first ||
    (List.range' r.first (r.last + 1 - r.first)).all fun n =>
      !(r.holds n && s.holds (n + r.shift).toNat)

theorem upper_misses : (moved upperRuns upperExpansions).all (fun r =>
    (changed upperRuns upperExpansions).all r.misses) = true := by
  decide +kernel

theorem CaseRun.holds_eq_false {r s : CaseRun} (h : r.misses s = true) {n : ℕ}
    (hn : r.holds n = true) : s.holds (n + r.shift).toNat = false := by
  have hrange : r.first ≤ n ∧ n ≤ r.last := by
    simp only [holds, Bool.and_eq_true, decide_eq_true_eq] at hn
    exact hn.1
  simp only [misses, Bool.or_eq_true, Nat.blt_eq] at h
  rcases h with (habove | hbelow) | hall
  · have hhigh : decide ((n + r.shift).toNat ≤ s.last) = false := decide_eq_false (by omega)
    rw [holds, hhigh, Bool.and_false]
    rfl
  · have hlow : decide (s.first ≤ (n + r.shift).toNat) = false := decide_eq_false (by omega)
    rw [holds, hlow]
    rfl
  · have hmem : n ∈ List.range' r.first (r.last + 1 - r.first) := by
      rw [List.mem_range'_1]
      omega
    simpa [hn] using List.all_eq_true.mp hall n hmem

theorem toNat_ofNat_cases (n : ℕ) : (Char.ofNat n).toNat = n ∨ (Char.ofNat n).toNat = 0 := by
  rw [Char.toNat_ofNat]
  by_cases hvalid : n.isValidChar
  · exact .inl (if_pos hvalid)
  · exact .inr (if_neg hvalid)

theorem mapChar_of_unchanged {runs : List CaseRun} {expansions : List (ℕ × List ℕ)} {c : Char}
    (h : ∀ s ∈ changed runs expansions, s.holds c.toNat = false) :
    mapChar runs expansions c = [c] := by
  have hlookup : expansions.lookup c.toNat = none := by
    rw [List.lookup_eq_none_iff]
    intro e he
    have hkey := h ⟨e.1, e.1, 1, 0⟩ (List.mem_append_right _ (List.mem_map_of_mem he))
    by_contra heq
    obtain hc : c.toNat = e.1 := by simpa using heq
    simp [CaseRun.holds, hc] at hkey
  have hfind : runs.find? (·.holds c.toNat) = none := by
    rw [List.find?_eq_none]
    intro r hr
    simp [h r (List.mem_append_left _ hr)]
  rw [mapChar, hlookup, hfind]

theorem upperChar_of_moved {r : CaseRun} (hr : r ∈ moved upperRuns upperExpansions) {n : ℕ}
    (hn : r.holds n = true) :
    upperChar (Char.ofNat (n + r.shift).toNat) = [Char.ofNat (n + r.shift).toNat] := by
  have hzero : ∀ s ∈ changed upperRuns upperExpansions, s.holds 0 = false := by decide +kernel
  refine mapChar_of_unchanged fun s hs => ?_
  have hmiss := List.all_eq_true.mp (List.all_eq_true.mp upper_misses r hr) s hs
  rcases toNat_ofNat_cases (n + r.shift).toNat with heq | heq
  · rw [heq]
    exact CaseRun.holds_eq_false hmiss hn
  · rw [heq]
    exact hzero s hs

/-- The upper case of a character is made of characters that are their own upper case. -/
theorem upperChar_of_mem_upperChar {c d : Char} (h : d ∈ upperChar c) : upperChar d = [d] := by
  cases hlookup : upperExpansions.lookup c.toNat with
  | some codes =>
    obtain ⟨n, hn, rfl⟩ : ∃ n ∈ codes, Char.ofNat n = d := by
      simpa [upperChar, mapChar, hlookup] using h
    obtain ⟨before, after, hsplit, -⟩ := List.lookup_eq_some_iff.mp hlookup
    have hentry : (c.toNat, codes) ∈ upperExpansions := by simp [hsplit]
    have hrun : (⟨n, n, 1, 0⟩ : CaseRun) ∈ moved upperRuns upperExpansions :=
      List.mem_append_right _ (List.mem_flatMap.mpr ⟨_, hentry, List.mem_map_of_mem hn⟩)
    have hholds : (⟨n, n, 1, 0⟩ : CaseRun).holds n = true := by simp [CaseRun.holds]
    simpa using upperChar_of_moved hrun hholds
  | none =>
    cases hrun : upperRuns.find? (·.holds c.toNat) with
    | none =>
      have hsame : upperChar c = [c] := by rw [upperChar, mapChar, hlookup, hrun]
      obtain rfl : d = c := by simpa [hsame] using h
      exact hsame
    | some r =>
      obtain rfl : d = Char.ofNat (c.toNat + r.shift).toNat := by
        simpa [upperChar, mapChar, hlookup, hrun] using h
      have hholds : r.holds c.toNat = true := by simpa using List.find?_some hrun
      exact upperChar_of_moved (List.mem_append_left _ (List.mem_of_find?_eq_some hrun)) hholds

theorem upperChar_ne_nil (c : Char) : upperChar c ≠ [] := by
  have hcodes : ∀ e ∈ upperExpansions, e.2 ≠ [] := by decide +kernel
  cases hlookup : upperExpansions.lookup c.toNat with
  | some codes =>
    obtain ⟨before, after, hsplit, -⟩ := List.lookup_eq_some_iff.mp hlookup
    have hne := hcodes (c.toNat, codes) (by simp [hsplit])
    simpa [upperChar, mapChar, hlookup] using hne
  | none =>
    cases hrun : upperRuns.find? (·.holds c.toNat) with
    | none => simp [upperChar, mapChar, hlookup, hrun]
    | some r => simp [upperChar, mapChar, hlookup, hrun]

end Text

namespace English

variable {isWordChar : Char → Bool} {upperOf : Char → List Char} {text run after : List Char}
  {pieces : List Piece}

/-- Nothing follows the first character of a word, or its upper case ends in a word character, or
what follows is its own upper case. -/
def ReadsOn (isWordChar : Char → Bool) (upperOf : Char → List Char) : List Char → Prop
  | c :: next :: _ => (∀ last ∈ (upperOf c).getLast?, isWordChar last = true) ∨
      upperOf next = [next]
  | _ => True

theorem length_le_capitalizeWords (hne : ∀ c, upperOf c ≠ []) (atStart : Bool) :
    text.length ≤ (capitalizeWords isWordChar upperOf atStart text).length := by
  induction text generalizing atStart with
  | nil => exact Nat.zero_le _
  | cons c rest ih =>
    unfold capitalizeWords
    split_ifs
    · exact Nat.succ_le_succ (ih true)
    · have hpos := List.length_pos_iff.mpr (hne c)
      have hrest := ih false
      rw [List.length_append, List.length_cons]
      omega
    · exact Nat.succ_le_succ (ih false)

theorem capitalizeWords_own {init : List Char} {last : Char}
    (h : ∀ d ∈ init ++ [last], upperOf d = [d]) (atStart : Bool) :
    capitalizeWords isWordChar upperOf atStart (init ++ last :: after) =
      init ++ last :: capitalizeWords isWordChar upperOf (!isWordChar last) after := by
  have hstep : ∀ c rest, upperOf c = [c] → ∀ atStart,
      capitalizeWords isWordChar upperOf atStart (c :: rest) =
        c :: capitalizeWords isWordChar upperOf (!isWordChar c) rest := by
    intro c rest hc atStart
    rw [capitalizeWords, hc]
    cases isWordChar c <;> cases atStart <;> rfl
  induction init generalizing atStart with
  | nil => exact hstep last after (h last (by simp)) atStart
  | cons c rest ih =>
    rw [List.cons_append, hstep c _ (h c (by simp)), ih (fun d hd => h d (by simp [hd]))]
    rfl

variable (hne : ∀ c, upperOf c ≠ [])
include hne

theorem capitalizeWords_word_iff {c : Char} {more : List Char}
    (hrun : ∀ d ∈ c :: more, isWordChar d = true)
    (hafter : ∀ d ∈ after.head?, isWordChar d = false) :
    capitalizeWords isWordChar upperOf true (c :: more ++ after) = c :: more ++ after ↔
      upperOf c = [c] ∧ capitalizeWords isWordChar upperOf true after = after := by
  rw [capitalizeWords_word hrun hafter, capitalize, List.append_assoc]
  constructor
  · -- Nothing gets shorter, so the upper case of the character has its length.
    intro heq
    have hpos := List.length_pos_iff.mpr (hne c)
    have hgrown : after.length ≤ (capitalizeWords isWordChar upperOf true after).length :=
      length_le_capitalizeWords hne true
    have hlength := congrArg List.length heq
    simp only [List.length_append, List.length_cons] at hlength
    have hupperLength : (upperOf c).length = [c].length := by
      rw [List.length_singleton]
      omega
    have happended : upperOf c ++ (more ++ capitalizeWords isWordChar upperOf true after) =
        [c] ++ (more ++ after) := heq
    obtain ⟨hsame, hrest⟩ := List.append_inj happended hupperLength
    exact ⟨hsame, List.append_cancel_left hrest⟩
  · rintro ⟨hsame, hrest⟩
    rw [hsame, hrest]
    rfl

variable (hown : ∀ c, ∀ d ∈ upperOf c, upperOf d = [d])
include hown

theorem capitalizeWords_capitalize (hrun : ∀ c ∈ run, isWordChar c = true)
    (hafter : ∀ c ∈ after.head?, isWordChar c = false) :
    capitalizeWords isWordChar upperOf true (capitalize upperOf run ++ after) =
        capitalize upperOf run ++ after ↔
      ReadsOn isWordChar upperOf run ∧ capitalizeWords isWordChar upperOf true after = after := by
  cases run with
  | nil => simp [capitalize, ReadsOn]
  | cons c more =>
    obtain ⟨-, hmore⟩ := List.forall_mem_cons.mp hrun
    obtain ⟨init, last, hupper⟩ := (List.eq_nil_or_concat' (upperOf c)).resolve_left (hne c)
    have hwritten : capitalize upperOf (c :: more) ++ after = init ++ last :: (more ++ after) := by
      simp [capitalize, hupper]
    have hcopied : capitalizeWords isWordChar upperOf true (init ++ last :: (more ++ after)) =
        init ++ last :: capitalizeWords isWordChar upperOf (!isWordChar last) (more ++ after) :=
      capitalizeWords_own (hupper ▸ hown c) true
    rw [hwritten, hcopied, List.append_cancel_left_eq, List.cons_inj_right]
    by_cases hlast : isWordChar last = true
    · rw [hlast, Bool.not_true, capitalizeWords_run hmore, capitalizeWords_between hafter,
        List.append_cancel_left_eq]
      cases more with
      | nil => simp [ReadsOn]
      | cons next others => simp [ReadsOn, hupper, hlast]
    · obtain hstart : (!isWordChar last) = true := by simpa using hlast
      rw [hstart]
      cases more with
      | nil => simp [ReadsOn]
      | cons next others =>
        rw [capitalizeWords_word_iff hne hmore hafter]
        simp [ReadsOn, hupper, hlast]

theorem capitalizeWords_twice_iff (h : IsCut isWordChar text pieces) :
    capitalizeWords isWordChar upperOf true (capitalizeWords isWordChar upperOf true text) =
        capitalizeWords isWordChar upperOf true text ↔
      ∀ run, .word run ∈ pieces → ReadsOn isWordChar upperOf run := by
  rw [capitalizeWords_of_isCut upperOf h]
  induction pieces generalizing text with
  | nil => simp [capitalizeWords]
  | cons first rest ih =>
    have hrest := ih h.tail
    rw [List.flatMap_cons]
    cases first with
    | other c =>
      have hc := h.others c List.mem_cons_self
      rw [Piece.capitalized, List.singleton_append, capitalizeWords, if_pos hc,
        List.cons_inj_right, hrest]
      simp
    | word run =>
      obtain ⟨-, hrun⟩ := h.words run List.mem_cons_self
      have hbetween := h.tail.head_of_noWordFirst h.noWordFirst
        (f := Piece.capitalized upperOf) fun _ => rfl
      rw [Piece.capitalized, capitalizeWords_capitalize hne hown hrun hbetween, hrest]
      simp

omit hne hown

/-- To capitalize all words again changes nothing exactly if each word of the text reads on: if the
upper case of its first character ends in no word character, then its second character must be its
own upper case. -/
theorem capitalizeAll_twice_iff (text : String) (params more : List String) :
    (modifiers.transform? "capitalizeAll" text params).bind
        (fun once => modifiers.transform? "capitalizeAll" once more) =
      modifiers.transform? "capitalizeAll" text params ↔
    ∀ run, .word run ∈ cut Text.isAlphanumeric text.toList →
      ReadsOn Text.isAlphanumeric Text.upperChar run := by
  rw [transform?_capitalizeAll, Option.bind_some, transform?_capitalizeAll, String.toList_ofList,
    Option.some_inj, String.ofList_inj]
  exact capitalizeWords_twice_iff Text.upperChar_ne_nil
    (fun _ _ => Text.upperChar_of_mem_upperChar) (isCut_cut _ _)

/-- A small j with a caron becomes a J and a caron of its own, which ends the word. -/
theorem caron_splits_word : ¬ ∀ (text : String) (params more : List String),
    (modifiers.transform? "capitalizeAll" text params).bind
        (fun once => modifiers.transform? "capitalizeAll" once more) =
      modifiers.transform? "capitalizeAll" text params := by
  intro hclaim
  have hsame := hclaim "ǰa" [] []
  have honce : modifiers.transform? "capitalizeAll" "ǰa" [] = some "J\u030Ca" := by decide +kernel
  have htwice : modifiers.transform? "capitalizeAll" "J\u030Ca" [] = some "J\u030CA" := by
    decide +kernel
  rw [honce, Option.bind_some, htwice] at hsame
  exact absurd hsame (by decide)

end English

end Announcer
