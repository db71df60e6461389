import Announcer.Modifier.English
import Mathlib.Data.List.Basic
import Mathlib.Data.List.Chain

/-! # Words of a text

A text is cut into words, which are its maximal runs of word characters, and the characters between
them. Capitalizing all words is capitalizing one word after the other, whichever characters make up
words and whatever their upper case is.
-/
namespace Announcer.English

/-- What a text is cut into: a word, or a character that belongs to none. -/
inductive Piece where
  | word (run : List Char)
  | other (c : Char)
deriving DecidableEq, Repr

namespace Piece

def text : Piece → List Char
  | word run => run
  | other c => [c]

def isWord : Piece → Bool
  | word _ => true
  | other _ => false

def capitalized (upperOf : Char → List Char) : Piece → List Char
  | word run => capitalize upperOf run
  | other c => [c]

end Piece

/-- Words hold word characters alone and never meet, so that none of them can be made longer. -/
structure IsCut (isWordChar : Char → Bool) (text : List Char) (pieces : List Piece) : Prop where
  joined : pieces.flatMap Piece.text = text
  words : ∀ run, .word run ∈ pieces → run ≠ [] ∧ ∀ c ∈ run, isWordChar c = true
  others : ∀ c, .other c ∈ pieces → isWordChar c = false
  apart : pieces.IsChain fun a b => ¬ (a.isWord = true ∧ b.isWord = true)

def extend (c : Char) : List Piece → List Piece
  | .word run :: rest => .word (c :: run) :: rest
  | pieces => .word [c] :: pieces

def cut (isWordChar : Char → Bool) : List Char → List Piece
  | [] => []
  | c :: rest =>
    if isWordChar c then extend c (cut isWordChar rest) else .other c :: cut isWordChar rest

variable {isWordChar : Char → Bool} {upperOf : Char → List Char} {text run : List Char}
  {pieces rest : List Piece} {c : Char}

def NoWordFirst (pieces : List Piece) : Prop := ∀ p ∈ pieces.head?, p.isWord = false

theorem noWordFirst_nil : NoWordFirst [] := by
  intro p hp
  cases hp

theorem noWordFirst_other : NoWordFirst (.other c :: rest) := by
  intro p hp
  cases hp
  rfl

theorem extend_of_noWordFirst (h : NoWordFirst rest) : extend c rest = .word [c] :: rest := by
  cases rest with
  | nil => rfl
  | cons first more =>
    cases first with
    | other d => rfl
    | word run => exact absurd (h _ rfl) (by simp [Piece.isWord])

namespace IsCut

theorem nil : IsCut isWordChar [] [] := ⟨rfl, by simp, by simp, .nil⟩

theorem tail {first : Piece} (h : IsCut isWordChar text (first :: rest)) :
    IsCut isWordChar (rest.flatMap Piece.text) rest :=
  ⟨rfl, fun run hrun => h.words run (List.mem_cons_of_mem _ hrun),
    fun c hc => h.others c (List.mem_cons_of_mem _ hc), h.apart.tail⟩

theorem noWordFirst (h : IsCut isWordChar text (.word run :: rest)) : NoWordFirst rest := by
  intro p hp
  cases rest with
  | nil => cases hp
  | cons next more =>
    obtain rfl : next = p := Option.some.inj hp
    have hapart := (List.isChain_cons_cons.mp h.apart).1
    simpa [Piece.isWord] using hapart

theorem other (h : IsCut isWordChar text rest) (hc : isWordChar c = false) :
    IsCut isWordChar (c :: text) (.other c :: rest) := by
  refine ⟨congrArg (c :: ·) h.joined, ?_, ?_, ?_⟩
  · intro run hrun
    simpa using h.words run (by simpa using hrun)
  · intro d hd
    rcases List.mem_cons.mp hd with heq | hmem
    · obtain rfl : d = c := by simpa using heq
      exact hc
    · exact h.others d hmem
  · cases rest with
    | nil => exact List.isChain_singleton _
    | cons next more => exact List.isChain_cons_cons.mpr ⟨by simp [Piece.isWord], h.apart⟩

theorem word (h : IsCut isWordChar text rest) (hrest : NoWordFirst rest) (hne : run ≠ [])
    (hrun : ∀ c ∈ run, isWordChar c = true) :
    IsCut isWordChar (run ++ text) (.word run :: rest) := by
  refine ⟨congrArg (run ++ ·) h.joined, ?_, ?_, ?_⟩
  · intro other hother
    rcases List.mem_cons.mp hother with heq | hmem
    · obtain rfl : other = run := by simpa using heq
      exact ⟨hne, hrun⟩
    · exact h.words other hmem
  · intro c hc
    exact h.others c (by simpa using hc)
  · cases rest with
    | nil => exact List.isChain_singleton _
    | cons next more =>
      exact List.isChain_cons_cons.mpr ⟨fun hboth => by simp [hrest next rfl] at hboth, h.apart⟩

theorem extend (h : IsCut isWordChar text pieces) (hc : isWordChar c = true) :
    IsCut isWordChar (c :: text) (extend c pieces) := by
  have hsingle : ∀ d ∈ [c], isWordChar d = true := by simpa using hc
  cases pieces with
  | nil => exact h.word noWordFirst_nil (List.cons_ne_nil c []) hsingle
  | cons first rest =>
    cases first with
    | other d => exact h.word noWordFirst_other (List.cons_ne_nil c []) hsingle
    | word run =>
      have hrun := (h.words run List.mem_cons_self).2
      have hlonger := h.tail.word h.noWordFirst (List.cons_ne_nil c run)
        (List.forall_mem_cons.mpr ⟨hc, hrun⟩)
      rw [← h.joined]
      exact hlonger

end IsCut

theorem isCut_cut (isWordChar : Char → Bool) (text : List Char) :
    IsCut isWordChar text (cut isWordChar text) := by
  induction text with
  | nil => exact .nil
  | cons c rest ih =>
    rw [cut]
    by_cases hc : isWordChar c = true
    · rw [if_pos hc]
      exact ih.extend hc
    · rw [if_neg hc]
      exact ih.other (by simpa using hc)

theorem cut_run (hne : run ≠ []) (hrun : ∀ c ∈ run, isWordChar c = true)
    (hrest : NoWordFirst (cut isWordChar text)) :
    cut isWordChar (run ++ text) = .word run :: cut isWordChar text := by
  induction run with
  | nil => exact absurd rfl hne
  | cons c more ih =>
    obtain ⟨hc, hmore⟩ := List.forall_mem_cons.mp hrun
    rw [List.cons_append, cut, if_pos hc]
    cases more with
    | nil => exact extend_of_noWordFirst hrest
    | cons d others =>
      rw [ih (List.cons_ne_nil d others) hmore]
      rfl

theorem IsCut.eq_cut (h : IsCut isWordChar text pieces) : pieces = cut isWordChar text := by
  induction pieces generalizing text with
  | nil =>
    obtain rfl : [] = text := h.joined
    rfl
  | cons first rest ih =>
    have hrest := ih h.tail
    rw [← h.joined, List.flatMap_cons]
    cases first with
    | other c =>
      have hc := h.others c List.mem_cons_self
      rw [Piece.text, List.singleton_append, cut, if_neg (by simp [hc]), ← hrest]
    | word run =>
      obtain ⟨hne, hrun⟩ := h.words run List.mem_cons_self
      rw [Piece.text, cut_run hne hrun (hrest ▸ h.noWordFirst), ← hrest]

theorem capitalizeWords_run (hrun : ∀ c ∈ run, isWordChar c = true) (after : List Char) :
    capitalizeWords isWordChar upperOf false (run ++ after) =
      run ++ capitalizeWords isWordChar upperOf false after := by
  induction run with
  | nil => rfl
  | cons c more ih =>
    obtain ⟨hc, hmore⟩ := List.forall_mem_cons.mp hrun
    rw [List.cons_append, capitalizeWords, if_neg (by simp [hc]), if_neg (by simp), ih hmore]
    rfl

theorem capitalizeWords_between (h : ∀ c ∈ text.head?, isWordChar c = false) (atStart : Bool) :
    capitalizeWords isWordChar upperOf atStart text =
      capitalizeWords isWordChar upperOf true text := by
  cases text with
  | nil => rfl
  | cons c rest => rw [capitalizeWords, capitalizeWords, if_pos (h c rfl), if_pos (h c rfl)]

theorem capitalizeWords_word (hrun : ∀ c ∈ run, isWordChar c = true) {after : List Char}
    (hafter : ∀ c ∈ after.head?, isWordChar c = false) :
    capitalizeWords isWordChar upperOf true (run ++ after) =
      capitalize upperOf run ++ capitalizeWords isWordChar upperOf true after := by
  cases run with
  | nil => rfl
  | cons c more =>
    obtain ⟨hc, hmore⟩ := List.forall_mem_cons.mp hrun
    rw [List.cons_append, capitalizeWords, if_neg (by simp [hc]), if_pos rfl,
      capitalizeWords_run hmore, capitalizeWords_between hafter, capitalize, List.append_assoc]

theorem IsCut.head_of_noWordFirst (h : IsCut isWordChar text pieces) (hfirst : NoWordFirst pieces)
    {f : Piece → List Char} (hcopied : ∀ c, f (.other c) = [c]) :
    ∀ c ∈ (pieces.flatMap f).head?, isWordChar c = false := by
  intro c hc
  cases pieces with
  | nil => cases hc
  | cons first rest =>
    cases first with
    | word run => exact absurd (hfirst _ rfl) (by simp [Piece.isWord])
    | other d =>
      rw [List.flatMap_cons, hcopied] at hc
      obtain rfl : d = c := Option.some.inj hc
      exact h.others d List.mem_cons_self

theorem capitalizeWords_of_isCut (upperOf : Char → List Char) (h : IsCut isWordChar text pieces) :
    capitalizeWords isWordChar upperOf true text =
      pieces.flatMap (Piece.capitalized upperOf) := by
  induction pieces generalizing text with
  | nil =>
    obtain rfl : [] = text := h.joined
    rfl
  | cons first rest ih =>
    have hrest := ih h.tail
    rw [← h.joined, List.flatMap_cons, List.flatMap_cons, ← hrest]
    cases first with
    | other c =>
      have hc := h.others c List.mem_cons_self
      rw [Piece.text, Piece.capitalized, List.singleton_append, List.singleton_append,
        capitalizeWords, if_pos hc]
    | word run =>
      have hrun := (h.words run List.mem_cons_self).2
      have hbetween := h.tail.head_of_noWordFirst h.noWordFirst (f := Piece.text) fun _ => rfl
      rw [Piece.text, Piece.capitalized, capitalizeWords_word hrun hbetween]

theorem transform?_capitalizeAll (text : String) (params : List String) :
    modifiers.transform? "capitalizeAll" text params = some (String.ofList
      (capitalizeWords Text.isAlphanumeric Text.upperChar true text.toList)) := rfl

/-- A text has one cut into words and the characters between them. To capitalize all of it is to
capitalize each of its words and to copy the other characters, in their order. -/
theorem capitalizeWords_by_words (isWordChar : Char → Bool) (upperOf : Char → List Char)
    (text : List Char) :
    IsCut isWordChar text (cut isWordChar text) ∧
    (∀ pieces, IsCut isWordChar text pieces → pieces = cut isWordChar text) ∧
    capitalizeWords isWordChar upperOf true text =
      (cut isWordChar text).flatMap (Piece.capitalized upperOf) ∧
    ∀ params, modifiers.transform? "capitalizeAll" (String.ofList text) params =
      some (String.ofList ((cut Text.isAlphanumeric text).flatMap
        (Piece.capitalized Text.upperChar))) := by
  refine ⟨isCut_cut isWordChar text, fun _ h => h.eq_cut,
    capitalizeWords_of_isCut upperOf (isCut_cut isWordChar text), fun params => ?_⟩
  rw [transform?_capitalizeAll, String.toList_ofList,
    capitalizeWords_of_isCut Text.upperChar (isCut_cut Text.isAlphanumeric text)]

end Announcer.English
