import Announcer.Modifier.English
import Mathlib

/-! # Modifiers and marks

Templates mark their tags and actions by `#`, `[` and `]`. The English modifiers put letters and
spaces into a text, move and drop characters, change their case and write a parameter. So none of
them brings in a mark that was neither in the text nor in a parameter.
-/
namespace Announcer

/-- The characters that open and close tags and actions. -/
def marks : List Char := ['#', '[', ']']

def Unmarked (cs : List Char) : Prop := ∀ c ∈ cs, c ∉ marks

instance (cs : List Char) : Decidable (Unmarked cs) :=
  inferInstanceAs (Decidable (∀ c ∈ cs, c ∉ marks))

def MarkFree (text : String) : Prop := Unmarked text.toList

instance (text : String) : Decidable (MarkFree text) :=
  inferInstanceAs (Decidable (Unmarked text.toList))

def Modifier.KeepsMarkFree (modifier : Modifier) : Prop :=
  ∀ text params, MarkFree text → (∀ p ∈ params, MarkFree p) → MarkFree (modifier text params)

section Unmarked

variable {c : Char} {as bs : List Char}

@[simp] theorem unmarked_nil : Unmarked [] := List.forall_mem_nil _

@[simp] theorem unmarked_cons : Unmarked (c :: as) ↔ c ∉ marks ∧ Unmarked as := List.forall_mem_cons

@[simp] theorem unmarked_append : Unmarked (as ++ bs) ↔ Unmarked as ∧ Unmarked bs :=
  List.forall_mem_append

theorem Unmarked.of_subset (h : Unmarked bs) (hsub : as ⊆ bs) : Unmarked as :=
  fun c hc => h c (hsub hc)

end Unmarked

theorem markFree_blank : MarkFree "" := unmarked_nil

theorem MarkFree.append {a b : String} (ha : MarkFree a) (hb : MarkFree b) : MarkFree (a ++ b) := by
  rw [MarkFree, String.toList_append, unmarked_append]
  exact ⟨ha, hb⟩

theorem Modifier.ofChars_keepsMarkFree {change : List Char → List Char}
    (h : ∀ cs, Unmarked cs → Unmarked (change cs)) : (Modifier.ofChars change).KeepsMarkFree := by
  intro text _ htext _
  rw [MarkFree, Modifier.ofChars, String.toList_ofList]
  exact h text.toList htext

namespace Text

theorem toNat_ne_zero_of_mem_marks {m : Char} (h : m ∈ marks) : m.toNat ≠ 0 := by
  simp only [marks, List.mem_cons, List.not_mem_nil, or_false] at h
  rcases h with rfl | rfl | rfl <;> decide

/-- Code points that no character has give the character zero, which is no mark. -/
theorem toNat_of_ofNat_mem_marks {n : ℕ} (h : Char.ofNat n ∈ marks) : (Char.ofNat n).toNat = n := by
  rw [Char.toNat_ofNat]
  by_cases hvalid : n.isValidChar
  · rw [if_pos hvalid]
  · have hzero : (Char.ofNat n).toNat = 0 := by rw [Char.toNat_ofNat, if_neg hvalid]
    exact absurd hzero (toNat_ne_zero_of_mem_marks h)

def CaseRun.avoidsMarks (r : CaseRun) : Bool :=
  marks.all fun m => !r.holds ((m.toNat : Int) - r.shift).toNat

theorem upperRuns_avoidMarks : upperRuns.all CaseRun.avoidsMarks = true := by decide +kernel

theorem lowerRuns_avoidMarks : lowerRuns.all CaseRun.avoidsMarks = true := by decide +kernel

theorem CaseRun.shifted_notMem_marks {r : CaseRun} (h : r.avoidsMarks = true) {n : ℕ}
    (hn : r.holds n = true) : Char.ofNat (n + r.shift).toNat ∉ marks := by
  intro hmark
  have hcode := toNat_of_ofNat_mem_marks hmark
  have hne := toNat_ne_zero_of_mem_marks hmark
  have hback : n = (((Char.ofNat (n + r.shift).toNat).toNat : Int) - r.shift).toNat := by omega
  have havoid := List.all_eq_true.mp h _ hmark
  rw [← hback, hn] at havoid
  cases havoid

theorem mapChar_unmarked {runs : List CaseRun} {expansions : List (ℕ × List ℕ)}
    (hruns : runs.all CaseRun.avoidsMarks = true)
    (hexpansions : ∀ e ∈ expansions, ∀ n ∈ e.2, Char.ofNat n ∉ marks) {c : Char} (hc : c ∉ marks) :
    Unmarked (mapChar runs expansions c) := by
  unfold mapChar
  cases hfound : expansions.lookup c.toNat with
  | some codes =>
    obtain ⟨before, after, rfl, -⟩ := List.lookup_eq_some_iff.mp hfound
    exact List.forall_mem_map.mpr (hexpansions (c.toNat, codes) (by simp))
  | none =>
    cases hrun : runs.find? (·.holds c.toNat) with
    | none => exact unmarked_cons.mpr ⟨hc, unmarked_nil⟩
    | some r =>
      have havoids := List.all_eq_true.mp hruns r (List.mem_of_find?_eq_some hrun)
      have hholds : r.holds c.toNat = true := by simpa using List.find?_some hrun
      exact unmarked_cons.mpr ⟨CaseRun.shifted_notMem_marks havoids hholds, unmarked_nil⟩

theorem upperChar_unmarked {c : Char} (hc : c ∉ marks) : Unmarked (upperChar c) :=
  mapChar_unmarked upperRuns_avoidMarks (by decide +kernel) hc

theorem lowerChar_unmarked {c : Char} (hc : c ∉ marks) : Unmarked (lowerChar c) :=
  mapChar_unmarked lowerRuns_avoidMarks (by decide +kernel) hc

theorem upper_unmarked {cs : List Char} (h : Unmarked cs) : Unmarked (upper cs) := by
  intro c hc
  obtain ⟨d, hd, hcd⟩ := List.mem_flatMap.mp hc
  exact upperChar_unmarked (h d hd) c hcd

theorem lowerFrom_unmarked {before cs : List Char} (h : Unmarked cs) :
    Unmarked (lowerFrom before cs) := by
  induction cs generalizing before with
  | nil => exact unmarked_nil
  | cons c rest ih =>
    obtain ⟨hc, hrest⟩ := unmarked_cons.mp h
    rw [lowerFrom]
    refine unmarked_append.mpr ⟨?_, ih hrest⟩
    by_cases hsigma : c = 'Σ'
    · rw [if_pos hsigma]
      split <;> simp [marks]
    · rw [if_neg hsigma]
      exact lowerChar_unmarked hc

end Text

namespace English

open Text (upperChar upperChar_unmarked)

variable {cs : List Char}

theorem capitalize_unmarked (h : Unmarked cs) : Unmarked (capitalize upperChar cs) := by
  cases cs with
  | nil => exact unmarked_nil
  | cons c rest =>
    obtain ⟨hc, hrest⟩ := unmarked_cons.mp h
    exact unmarked_append.mpr ⟨upperChar_unmarked hc, hrest⟩

theorem capitalizeWords_unmarked {isWordChar : Char → Bool} {atStart : Bool} (h : Unmarked cs) :
    Unmarked (capitalizeWords isWordChar upperChar atStart cs) := by
  induction cs generalizing atStart with
  | nil => exact unmarked_nil
  | cons c rest ih =>
    obtain ⟨hc, hrest⟩ := unmarked_cons.mp h
    unfold capitalizeWords
    split
    · exact unmarked_cons.mpr ⟨hc, ih hrest⟩
    · split
      · exact unmarked_append.mpr ⟨upperChar_unmarked hc, ih hrest⟩
      · exact unmarked_cons.mpr ⟨hc, ih hrest⟩

theorem article_unmarked (h : Unmarked cs) : Unmarked (article cs) := by
  unfold article
  split <;> simp [h, marks]

/-- The word without its last letter, as `plural` and `past` cut it. -/
theorem unmarked_of_reverse_eq {last : Char} {before : List Char} (h : Unmarked cs)
    (hcut : cs.reverse = last :: before) : Unmarked before.reverse := by
  refine h.of_subset ?_
  rw [← List.reverse_reverse cs, hcut, List.reverse_cons]
  exact List.subset_append_left _ _

theorem plural_unmarked (h : Unmarked cs) : Unmarked (plural cs) := by
  unfold plural
  split
  · exact unmarked_nil
  next last before hcut =>
    have hstem := unmarked_of_reverse_eq h hcut
    split
    · simp [h, marks]
    · split
      · simp [hstem, marks]
      · simp [h, marks]

theorem past_unmarked (h : Unmarked cs) : Unmarked (past cs) := by
  unfold past
  split
  · exact unmarked_nil
  next last before hcut =>
    have hstem := unmarked_of_reverse_eq h hcut
    split
    · simp [h, marks]
    · split
      · simp [hstem, marks]
      · simp [h, marks]

theorem firstWord_unmarked (h : Unmarked cs) :
    Unmarked (firstWord cs).1 ∧ Unmarked (firstWord cs).2 := by
  rw [firstWord, List.span_eq_takeWhile_dropWhile]
  exact ⟨h.of_subset (List.takeWhile_subset _), h.of_subset (List.dropWhile_subset _)⟩

theorem pluralFirst_unmarked (h : Unmarked cs) : Unmarked (pluralFirst cs) := by
  obtain ⟨hword, hrest⟩ := firstWord_unmarked h
  exact unmarked_append.mpr ⟨plural_unmarked hword, hrest⟩

theorem pastFirst_unmarked (h : Unmarked cs) : Unmarked (pastFirst cs) := by
  obtain ⟨hword, hrest⟩ := firstWord_unmarked h
  exact unmarked_append.mpr ⟨past_unmarked hword, hrest⟩

theorem replaceAll_unmarked {old new : List Char} (hnew : Unmarked new) (h : Unmarked cs) :
    Unmarked (replaceAll old new cs) := by
  fun_induction replaceAll old new cs with
  | case1 => exact unmarked_nil
  | case2 => exact h
  | case3 c rest first more hold _ ih =>
    have hrest := (unmarked_cons.mp h).2
    rw [← hold]
    exact unmarked_append.mpr ⟨hnew, ih (hrest.of_subset (List.drop_subset _ _))⟩
  | case4 c rest first more hold _ ih =>
    obtain ⟨hc, hrest⟩ := unmarked_cons.mp h
    rw [← hold]
    exact unmarked_cons.mpr ⟨hc, ih hrest⟩

theorem replace_keepsMarkFree : replace.KeepsMarkFree := by
  intro text params htext hparams
  unfold replace
  split
  next old new rest =>
    have hnew : MarkFree new := hparams new (by simp)
    rw [MarkFree, String.toList_ofList]
    exact replaceAll_unmarked hnew htext
  · exact htext

theorem modifiers_keepMarkFree {name : String} {modifier : Modifier}
    (h : modifiers.get? name = some modifier) : modifier.KeepsMarkFree := by
  have hmem := Table.mem_of_get?_ofList h
  simp only [List.mem_cons, Prod.mk.injEq, List.not_mem_nil, or_false] at hmem
  rcases hmem with ⟨-, rfl⟩ | ⟨-, rfl⟩ | ⟨-, rfl⟩ | ⟨-, rfl⟩ | ⟨-, rfl⟩ | ⟨-, rfl⟩ | ⟨-, rfl⟩ |
    ⟨-, rfl⟩ | ⟨-, rfl⟩
  · exact Modifier.ofChars_keepsMarkFree fun _ => capitalize_unmarked
  · exact Modifier.ofChars_keepsMarkFree fun _ => capitalizeWords_unmarked
  · exact Modifier.ofChars_keepsMarkFree fun _ => Text.upper_unmarked
  · exact Modifier.ofChars_keepsMarkFree fun _ => Text.lowerFrom_unmarked
  · exact Modifier.ofChars_keepsMarkFree fun _ => article_unmarked
  · exact Modifier.ofChars_keepsMarkFree fun _ => plural_unmarked
  · exact Modifier.ofChars_keepsMarkFree fun _ => pluralFirst_unmarked
  · exact Modifier.ofChars_keepsMarkFree fun _ => pastFirst_unmarked
  · exact replace_keepsMarkFree

end English

end Announcer
