import Announcer.Template.Scan
import Mathlib.Data.List.Basic

/-! # Balanced text

Text is balanced when every bracket, parenthesis and tag that opens in it also closes in it and
nothing else closes. All scanners pass over balanced text in the same way, whatever stands in it:
they copy it and go on in the state in which they came. What may stand on the outermost level is
left open, because the scanners stop there at different characters.
-/
namespace Announcer.Scan

def delimiters : List Char := ['\\', '#', '[', ']', '(', ')']

def escape (text : List Char) : List Char := text.flatMap fun c => ['\\', c]

/-- On the outermost level only some characters may stand unescaped, and perhaps no tags. All may
between brackets, but a tag holds no other tag outside the brackets of its actions. -/
inductive Balanced : (Char → Prop) → Bool → List Char → Prop where
  | nil {plain tags} : Balanced plain tags []
  | escaped {plain tags text} (c : Char) : Balanced plain tags text →
      Balanced plain tags ('\\' :: c :: text)
  | plain {plain tags text} (c : Char) : c ∉ delimiters → plain c → Balanced plain tags text →
      Balanced plain tags (c :: text)
  | brackets {plain tags content text} : Balanced (fun _ => True) true content →
      Balanced plain tags text → Balanced plain tags ('[' :: (content ++ ']' :: text))
  | parentheses {plain tags content text} : Balanced (fun _ => True) tags content →
      Balanced plain tags text → Balanced plain tags ('(' :: (content ++ ')' :: text))
  | tag {plain tags content text} : tags = true → Balanced (fun _ => True) false content →
      Balanced plain tags text → Balanced plain tags ('#' :: (content ++ '#' :: text))

variable {plain allowed : Char → Prop} {tags wide : Bool} {text more rest : List Char}

theorem Balanced.append (h : Balanced plain tags text) (hm : Balanced plain tags more) :
    Balanced plain tags (text ++ more) := by
  induction h with
  | nil => exact hm
  | escaped c _ ih => exact .escaped c (ih hm)
  | plain c hc hp _ ih => exact .plain c hc hp (ih hm)
  | brackets hcontent _ _ ih => simpa using Balanced.brackets hcontent (ih hm)
  | parentheses hcontent _ _ ih => simpa using Balanced.parentheses hcontent (ih hm)
  | tag ht hcontent _ _ ih => simpa using Balanced.tag ht hcontent (ih hm)

theorem Balanced.widen (h : Balanced plain tags text) (hp : ∀ c, plain c → allowed c)
    (ht : tags = true → wide = true) : Balanced allowed wide text := by
  induction h generalizing allowed with
  | nil => exact .nil
  | escaped c _ ih => exact .escaped c (ih hp ht)
  | plain c hc hplain _ ih => exact .plain c hc (hp c hplain) (ih hp ht)
  | brackets hcontent _ _ ih => exact .brackets hcontent (ih hp ht)
  | parentheses _ _ ihc ih => exact .parentheses (ihc (fun _ h => h) ht) (ih hp ht)
  | tag htags hcontent _ _ ih => exact .tag (ht htags) hcontent (ih hp ht)

theorem Balanced.inside (h : Balanced plain tags text) : Balanced (fun _ => True) true text :=
  h.widen (fun _ _ => trivial) (fun _ => rfl)

theorem balanced_escape (text : List Char) : Balanced plain tags (escape text) := by
  induction text with
  | nil => exact .nil
  | cons c rest ih => exact .escaped c ih

theorem balanced_of_plain (h : ∀ c ∈ text, c ∉ delimiters ∧ plain c) :
    Balanced plain tags text := by
  induction text with
  | nil => exact .nil
  | cons c rest ih =>
    have hc := h c (by simp)
    exact .plain c hc.1 hc.2 (ih fun d hd => h d (by simp [hd]))

theorem balanced_flatMap {α : Type} {xs : List α} {f : α → List Char}
    (h : ∀ x ∈ xs, Balanced plain tags (f x)) : Balanced plain tags (xs.flatMap f) := by
  induction xs with
  | nil => exact .nil
  | cons x rest ih =>
    rw [List.flatMap_cons]
    exact (h x (by simp)).append (ih fun y hy => h y (by simp [hy]))

theorem balanced_intercalate {separator : Char} (hs : separator ∉ delimiters)
    (hp : plain separator) {parts : List (List Char)} (h : ∀ p ∈ parts, Balanced plain tags p) :
    Balanced plain tags ([separator].intercalate parts) := by
  induction parts with
  | nil => exact .nil
  | cons part rest ih =>
    have hpart := h part (by simp)
    have hrest := ih fun p hmem => h p (by simp [hmem])
    cases rest with
    | nil => simpa using hpart
    | cons next others =>
      rw [List.intercalate_cons_cons]
      exact (hpart.append (.plain separator hs hp .nil)).append hrest

theorem unescape_escape (text : List Char) : unescape (escape text) = text := by
  induction text with
  | nil => rfl
  | cons c rest ih =>
    change c :: unescape (escape rest) = c :: rest
    rw [ih]

theorem ne_of_notMem_delimiters {c : Char} (hc : c ∉ delimiters) :
    c ≠ '\\' ∧ c ≠ '#' ∧ c ≠ '[' ∧ c ≠ ']' ∧ c ≠ '(' ∧ c ≠ ')' := by
  simpa [delimiters] using hc

theorem bracketContent?_cons {c : Char} (hc : c ≠ '\\' ∧ c ≠ '[' ∧ c ≠ ']') (depth : ℕ)
    (rest : List Char) :
    bracketContent? depth (c :: rest) =
      (bracketContent? depth rest).map fun found => (c :: found.1, found.2) := by
  rw [bracketContent?.eq_7]
  all_goals simp [hc]

theorem bracketContent?_balanced (h : Balanced plain tags text) (depth : ℕ) (rest : List Char) :
    bracketContent? depth (text ++ rest) =
      (bracketContent? depth rest).map fun found => (text ++ found.1, found.2) := by
  induction h generalizing depth rest with
  | nil => simp
  | escaped c _ ih => simp [bracketContent?, ih, Function.comp_def]
  | plain c hc _ _ ih =>
    obtain ⟨hescape, -, hopen, hclose, -, -⟩ := ne_of_notMem_delimiters hc
    rw [List.cons_append, bracketContent?_cons ⟨hescape, hopen, hclose⟩, ih]
    simp [Function.comp_def]
  | brackets _ _ ihc ih => simp [bracketContent?, ihc, ih, Function.comp_def]
  | parentheses _ _ ihc ih => simp [bracketContent?, ihc, ih, Function.comp_def]
  | tag _ _ _ ihc ih => simp [bracketContent?, ihc, ih, Function.comp_def]

theorem bracketContent?_close (h : Balanced plain tags text) (rest : List Char) :
    bracketContent? 0 (text ++ ']' :: rest) = some (text, rest) := by
  simp [bracketContent?_balanced h, bracketContent?]

theorem tagContent?_cons {c : Char} (hc : c ≠ '\\' ∧ c ≠ '[' ∧ c ≠ ']') {depth : ℕ}
    (hclose : ¬ (c = '#' ∧ depth = 0)) (rest : List Char) :
    tagContent? depth (c :: rest) =
      (tagContent? depth rest).map fun found => (c :: found.1, found.2) := by
  rw [tagContent?.eq_6]
  · simp [hclose]
  all_goals simp [hc]

/-- Between brackets every `#` is copied, and outside of them no balanced text without tags of its
own holds one. -/
theorem tagContent?_balanced (h : Balanced plain tags text) {depth : ℕ}
    (hd : 0 < depth ∨ tags = false) (rest : List Char) :
    tagContent? depth (text ++ rest) =
      (tagContent? depth rest).map fun found => (text ++ found.1, found.2) := by
  induction h generalizing depth rest with
  | nil => simp
  | escaped c _ ih => simp [tagContent?, ih hd, Function.comp_def]
  | plain c hc _ _ ih =>
    obtain ⟨hescape, hhash, hopen, hclose, -, -⟩ := ne_of_notMem_delimiters hc
    rw [List.cons_append, tagContent?_cons ⟨hescape, hopen, hclose⟩ (by simp [hhash]), ih hd]
    simp [Function.comp_def]
  | brackets _ _ ihc ih =>
    simp [tagContent?, ihc (.inl (Nat.succ_pos depth)), ih hd, Function.comp_def]
  | parentheses _ _ ihc ih =>
    rw [List.cons_append, tagContent?_cons (by decide) (by simp), List.append_assoc, ihc hd,
      List.cons_append, tagContent?_cons (by decide) (by simp), ih hd]
    simp [Function.comp_def]
  | tag htags _ _ ihc ih =>
    have hdeep : 0 < depth := hd.resolve_right (by simp [htags])
    have hno : ¬ ('#' = '#' ∧ depth = 0) := by omega
    rw [List.cons_append, tagContent?_cons (by decide) hno, List.append_assoc, ihc (.inl hdeep),
      List.cons_append, tagContent?_cons (by decide) hno, ih hd]
    simp [Function.comp_def]

theorem tagContent?_close (h : Balanced plain false text) (rest : List Char) :
    tagContent? 0 (text ++ '#' :: rest) = some (text, rest) := by
  rw [tagContent?_balanced h (.inr rfl), tagContent?.eq_6]
  · simp
  all_goals simp

theorem splitFrom_cons {c separator : Char} (hescape : c ≠ '\\') {depth : Int} {inTag : Bool}
    (hbracket : c ≠ '[' ∧ c ≠ ']' ∧ c ≠ '(' ∧ c ≠ ')') (hhash : ¬ (c = '#' ∧ depth = 0))
    (hcut : ¬ (c = separator ∧ depth = 0 ∧ inTag = false)) (rest : List Char) :
    splitFrom separator depth inTag (c :: rest) =
      consToHead c (splitFrom separator depth inTag rest) := by
  rw [splitFrom.eq_4]
  · simp [hbracket, hhash, hcut]
  all_goals simp [hescape]

/-- Where the scanner for separators cannot meet one: between brackets or parentheses, in a tag
whose content has no further tags, or outside of both if the separator stands only inside. -/
def PassesOver (separator : Char) (plain : Char → Prop) (tags : Bool) (depth : Int) (inTag : Bool) :
    Prop :=
  0 < depth ∨ (depth = 0 ∧ inTag = true ∧ tags = false) ∨
    (depth = 0 ∧ inTag = false ∧ ¬ plain separator)

theorem splitFrom_balanced {separator : Char} {depth : Int} {inTag : Bool}
    (h : Balanced plain tags text) (hp : PassesOver separator plain tags depth inTag)
    (rest : List Char) :
    splitFrom separator depth inTag (text ++ rest) =
      text.foldr consToHead (splitFrom separator depth inTag rest) := by
  induction h generalizing depth inTag rest with
  | nil => rfl
  | escaped c _ ih => simp [splitFrom, ih hp]
  | @plain p t _ c hc hplain _ ih =>
    obtain ⟨hescape, hhash, hopen, hclose, hopen', hclose'⟩ := ne_of_notMem_delimiters hc
    have hcut : ¬ (c = separator ∧ depth = 0 ∧ inTag = false) := by
      rintro ⟨rfl, rfl, rfl⟩
      rcases hp with hlt | ⟨-, hin, -⟩ | ⟨-, -, hno⟩
      · exact absurd hlt (by decide)
      · cases hin
      · exact hno hplain
    rw [List.cons_append, splitFrom_cons hescape ⟨hopen, hclose, hopen', hclose'⟩
      (by simp [hhash]) hcut, ih hp]
    rfl
  | brackets _ _ ihc ih =>
    have hdeep : 0 ≤ depth := by rcases hp with h | h | h <;> omega
    simp [splitFrom, ihc (Or.inl (by omega : 0 < depth + 1)), ih hp]
  | parentheses _ _ ihc ih =>
    have hdeep : 0 ≤ depth := by rcases hp with h | h | h <;> omega
    simp [splitFrom, ihc (Or.inl (by omega : 0 < depth + 1)), ih hp]
  | tag htags _ _ ihc ih =>
    rcases hp with hlt | ⟨-, -, hno⟩ | ⟨rfl, rfl, hplain⟩
    · have hz : depth ≠ 0 := by omega
      simp [splitFrom, hz, ihc (Or.inl hlt), ih (Or.inl hlt)]
    · simp [hno] at htags
    · simp [splitFrom, ihc (Or.inr (Or.inl ⟨rfl, rfl, rfl⟩)), ih (Or.inr (Or.inr ⟨rfl, rfl, hplain⟩))]

theorem foldr_consToHead (text part : List Char) (rest : List (List Char)) :
    text.foldr consToHead (part :: rest) = (text ++ part) :: rest := by
  induction text with
  | nil => rfl
  | cons c others ih => simp [ih, consToHead]

theorem splitTopLevel_intercalate {separator : Char} (hs : separator ∉ delimiters)
    (hp : ¬ plain separator) {parts : List (List Char)} (hne : parts ≠ [])
    (h : ∀ p ∈ parts, Balanced plain tags p) :
    splitTopLevel separator ([separator].intercalate parts) = parts := by
  unfold splitTopLevel
  induction parts with
  | nil => exact absurd rfl hne
  | cons part rest ih =>
    have hpass : PassesOver separator plain tags 0 false := Or.inr (Or.inr ⟨rfl, rfl, hp⟩)
    have hpart := splitFrom_balanced (h part (by simp)) hpass
    cases rest with
    | nil => simpa [splitFrom, foldr_consToHead] using hpart []
    | cons next others =>
      have hrest := ih (by simp) fun p hmem => h p (by simp [hmem])
      obtain ⟨hescape, hhash, hopen, hclose, hopen', hclose'⟩ := ne_of_notMem_delimiters hs
      rw [List.intercalate_cons_cons, List.append_assoc, hpart, List.singleton_append,
        splitFrom.eq_4 _ _ _ _ _ (by simp [hescape]) (by simp [hescape]), hrest]
      simp [foldr_consToHead, *]

theorem intercalate_cons (separator : Char) (part : List Char) (parts : List (List Char)) :
    [separator].intercalate (part :: parts) = part ++ parts.flatMap (separator :: ·) := by
  induction parts generalizing part with
  | nil => simp
  | cons next rest ih => rw [List.intercalate_cons_cons, ih]; simp

def BracketFree (text : List Char) : Prop :=
  ∀ more, hasBracket (text ++ more) = hasBracket more

theorem BracketFree.append (h : BracketFree text) (hm : BracketFree more) :
    BracketFree (text ++ more) := by
  intro others
  rw [List.append_assoc, h, hm]

theorem bracketFree_flatMap {α : Type} {xs : List α} {f : α → List Char}
    (h : ∀ x ∈ xs, BracketFree (f x)) : BracketFree (xs.flatMap f) := by
  induction xs with
  | nil => exact fun _ => rfl
  | cons x rest ih =>
    rw [List.flatMap_cons]
    exact (h x (by simp)).append (ih fun y hy => h y (by simp [hy]))

theorem bracketFree_escape (text : List Char) : BracketFree (escape text) := by
  intro more
  induction text with
  | nil => rfl
  | cons c rest ih => exact ih

theorem bracketFree_of_plain (h : ∀ c ∈ text, c ≠ '\\' ∧ c ≠ '[' ∧ c ≠ ']') :
    BracketFree text := by
  intro more
  induction text with
  | nil => rfl
  | cons c rest ih =>
    obtain ⟨hescape, hopen, hclose⟩ := h c (by simp)
    rw [List.cons_append, hasBracket.eq_4]
    · simp [hopen, hclose, ih fun d hd => h d (by simp [hd])]
    all_goals simp [hescape]

theorem bracketFree_intercalate {separator : Char}
    (hs : separator ≠ '\\' ∧ separator ≠ '[' ∧ separator ≠ ']') {parts : List (List Char)}
    (h : ∀ p ∈ parts, BracketFree p) : BracketFree ([separator].intercalate parts) := by
  cases parts with
  | nil => exact fun _ => rfl
  | cons part rest =>
    rw [intercalate_cons]
    refine (h part (by simp)).append (bracketFree_flatMap fun p hp => ?_)
    have hsep : BracketFree [separator] := bracketFree_of_plain (by simpa using hs)
    exact hsep.append (h p (by simp [hp]))

end Announcer.Scan
