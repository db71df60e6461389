import Announcer.Json.Skip
import Announcer.Proofs.Json.Writing
import Mathlib

/-! # Reading JSON

Each reader takes what is written for it and leaves the text after it. A number ends where a sign
follows that cannot belong to it, so an item is read up to a blank, a comma or a closing sign.
-/
namespace Announcer.Json

open Spelling (Blank Separated Enclosed Starts Begins IsEnd)

variable {text rest blank : List Char}

theorem skipBlank_append (h : Blank blank) (text : List Char) :
    skipBlank (blank ++ text) = skipBlank text := List.dropWhile_append_of_pos h

theorem skipBlank_cons {c : Char} (h : isBlank c = false) (text : List Char) :
    skipBlank (c :: text) = c :: text := List.dropWhile_cons_of_neg (by simp [h])

theorem skipBlank_of_blank (h : Blank blank) : skipBlank blank = [] := by
  rw [← List.append_nil blank, skipBlank_append h]
  rfl

theorem skipBlank_starts (h : Starts text) (rest : List Char) :
    skipBlank (text ++ rest) = text ++ rest := by
  obtain ⟨c, more, rfl, hc⟩ := h
  exact skipBlank_cons (by simpa using (not_or.mp hc).1) _

theorem readUnit_text {unit : ℕ} (h : UnitText unit text) (rest : List Char) :
    readUnit (text ++ rest) = .ok (unit, rest) := by
  obtain ⟨ha, hb, hc, hd, rfl⟩ := h
  simp only [List.cons_append, List.nil_append, readUnit, ha, hb, hc, hd]
  rfl

theorem not_isSurrogate (c : Char) :
    isLowSurrogate c.toNat = false ∧ isHighSurrogate c.toNat = false := by
  have hvalid : c.toNat < 0xD800 ∨ 0xDFFF < c.toNat ∧ c.toNat < 0x110000 := c.valid
  simp only [isLowSurrogate, isHighSurrogate, Bool.and_eq_false_iff, decide_eq_false_iff_not]
  omega

theorem readEscape_unit {c : Char} (h : UnitText c.toNat text) (rest : List Char) :
    readEscape ('u' :: (text ++ rest)) = .ok (c, rest) := by
  obtain ⟨hlow, hhigh⟩ := not_isSurrogate c
  simp only [readEscape, readUnit_text h, bind, Except.bind, hlow, hhigh]
  simp [pure, Except.pure, Char.ofNat_toNat]

theorem readEscape_pair {c : Char} {high low : List Char} (hlarge : 0x10000 ≤ c.toNat)
    (hhigh : UnitText (0xD800 + (c.toNat - 0x10000) / 0x400) high)
    (hlow : UnitText (0xDC00 + (c.toNat - 0x10000) % 0x400) low) (rest : List Char) :
    readEscape ('u' :: (high ++ '\\' :: 'u' :: (low ++ rest))) = .ok (c, rest) := by
  have hvalid : c.toNat < 0xD800 ∨ 0xDFFF < c.toNat ∧ c.toNat < 0x110000 := c.valid
  have hfirst : isLowSurrogate (0xD800 + (c.toNat - 0x10000) / 0x400) = false ∧
      isHighSurrogate (0xD800 + (c.toNat - 0x10000) / 0x400) = true := by
    simp only [isLowSurrogate, isHighSurrogate, Bool.and_eq_false_iff, Bool.and_eq_true,
      decide_eq_false_iff_not, decide_eq_true_eq]
    omega
  have hsecond : isLowSurrogate (0xDC00 + (c.toNat - 0x10000) % 0x400) = true := by
    simp only [isLowSurrogate, Bool.and_eq_true, decide_eq_true_eq]
    omega
  have hvalue : 0x10000 + (0xD800 + (c.toNat - 0x10000) / 0x400 - 0xD800) * 0x400 +
      (0xDC00 + (c.toNat - 0x10000) % 0x400 - 0xDC00) = c.toNat := by omega
  simp only [readEscape, readUnit_text hhigh, bind, Except.bind, hfirst, if_true, readLowSurrogate,
    readUnit_text hlow, hsecond, hvalue, Char.ofNat_toNat]
  rfl

theorem charText_cases {c : Char} (h : CharText c text) :
    (∃ escape, text = '\\' :: escape ∧ ∀ rest, readEscape (escape ++ rest) = .ok (c, rest)) ∨
      text = [c] ∧ c ≠ '"' ∧ c ≠ '\\' ∧ 0x20 ≤ c.toNat := by
  cases h with
  | plain hquote hbackslash hcontrol => exact .inr ⟨rfl, hquote, hbackslash, hcontrol⟩
  | @short letter hletter =>
    have hne : letter ≠ 'u' := by
      rintro rfl
      cases hletter
    exact .inl ⟨[letter], rfl, fun rest => by simp [readEscape, hletter, pure, Except.pure]⟩
  | unit hunit => exact .inl ⟨_, rfl, fun rest => readEscape_unit hunit rest⟩
  | pair hlarge hhigh hlow =>
    refine .inl ⟨_, rfl, fun rest => ?_⟩
    simpa using readEscape_pair hlarge hhigh hlow rest

theorem readString_escape {escape after : List Char} {c : Char} {s : List Char}
    (hc : readEscape escape = .ok (c, after)) (hs : readString after = .ok (s, rest)) :
    readString ('\\' :: escape) = .ok (c :: s, rest) := by
  rw [readString]
  split
  next fault hfault => rw [hc] at hfault; cases hfault
  next found left hfound =>
    rw [hc] at hfound
    cases hfound
    rw [hs]
    rfl

theorem readString_plain {c : Char} {s : List Char} (hquote : c ≠ '"') (hbackslash : c ≠ '\\')
    (hcontrol : 0x20 ≤ c.toNat) (hs : readString text = .ok (s, rest)) :
    readString (c :: text) = .ok (c :: s, rest) := by
  rw [readString, if_neg (by omega), hs]
  · rfl
  · exact hquote
  · exact hbackslash

theorem readString_chars {s : List Char} (h : CharsText s text) (rest : List Char) :
    readString (text ++ '"' :: rest) = .ok (s, rest) := by
  induction h with
  | nil => simp [readString, pure, Except.pure]
  | cons hc _ ih =>
    rw [List.append_assoc]
    rcases charText_cases hc with ⟨escape, rfl, hread⟩ | ⟨rfl, hquote, hbackslash, hcontrol⟩
    · exact readString_escape (hread _) ih
    · exact readString_plain hquote hbackslash hcontrol ih

theorem readMember_key {β : Type} (member : String → Reader β) {key : String}
    (h : StringText key text) (rest : List Char) :
    readMember member (text ++ rest) = member key rest := by
  obtain ⟨h⟩ := h
  simp only [List.cons_append, List.append_assoc, List.nil_append, readMember, readKeyQuote, bind,
    Except.bind, pure, Except.pure, readString_chars h, String.ofList_toList]

theorem StringText.starts {s : String} (h : StringText s text) : Starts text := by
  obtain ⟨-⟩ := h
  exact ⟨_, _, rfl, by decide⟩

theorem readText_string {s : String} (h : StringText s text) (rest : List Char) :
    readText (text ++ rest) = .ok (s, rest) := by
  obtain ⟨h⟩ := h
  simp only [List.cons_append, List.append_assoc, List.nil_append, readText, bind, Except.bind,
    readString_chars h, String.ofList_toList]
  rfl

theorem readColon_append {before after : List Char} (hbefore : Blank before) (hafter : Blank after)
    (text : List Char) : readColon (before ++ ':' :: (after ++ text)) = .ok (skipBlank text) := by
  have hcolon : ∀ more, skipBlank (':' :: more) = ':' :: more := skipBlank_cons (by decide)
  simp only [readColon, skipBlank_append hbefore, hcolon, skipBlank_append hafter]
  rfl

def Ends (rest : List Char) : Prop := ∃ c more, rest = c :: more ∧ IsEnd c

theorem ends_append (hblank : Blank blank) {c : Char} (hc : IsEnd c) (more : List Char) :
    Ends (blank ++ c :: more) := by
  cases blank with
  | nil => exact ⟨c, more, rfl, hc⟩
  | cons b rest => exact ⟨b, _, rfl, .inl (hblank b (by simp))⟩

section Items

variable {α β : Type} {close : Char} {item : β → Reader β} {add : β → α → Except Fault β}
  {spells : α → List Char → Prop}

/-- The reader of an item reads the whole of a spelled item if a sign follows that may stand after
one, and fails as the item asks for. -/
def Takes (item : β → Reader β) (add : β → α → Except Fault β) (spells : α → List Char → Prop) :
    Prop :=
  ∀ acc x text rest, spells x text → Ends rest →
    item acc (text ++ rest) = (add acc x).map fun acc => (acc, rest)

def restItems (close : Char) (item : β → Reader β) (steps : ℕ) (acc : β) : Reader β := fun text => do
  let (acc, rest) ← item acc (skipBlank text)
  foldItems close item steps false acc rest

theorem foldItems_first {steps : ℕ} {acc : β} {first : List Char} (hclose : IsEnd close)
    (hblank : Blank blank) (hfirst : Starts first) (text : List Char) :
    foldItems close item (steps + 1) true acc (blank ++ (first ++ text)) =
      restItems close item steps acc (blank ++ (first ++ text)) := by
  rw [foldItems, restItems, skipBlank_append hblank, skipBlank_starts hfirst]
  obtain ⟨c, more, rfl, hc⟩ := hfirst
  have hne : c ≠ close := fun heq => hc (heq ▸ hclose)
  simp only [List.cons_append, hne, if_false, if_true]

theorem foldItems_comma {steps : ℕ} {acc : β} (hclose : close ≠ ',') (hblank : Blank blank)
    (text : List Char) :
    foldItems close item (steps + 1) false acc (blank ++ ',' :: text) =
      restItems close item steps acc text := by
  have hcomma : skipBlank (',' :: text) = ',' :: text := skipBlank_cons (by decide) text
  rw [foldItems, restItems, skipBlank_append hblank, hcomma]
  simp [hclose.symm]

theorem foldItems_close {steps : ℕ} {first : Bool} {acc : β} (hclose : isBlank close = false)
    (hblank : Blank blank) (text : List Char) :
    foldItems close item (steps + 1) first acc (blank ++ close :: text) = .ok (acc, text) := by
  rw [foldItems, skipBlank_append hblank, skipBlank_cons hclose]
  simp [pure, Except.pure]

variable (htakes : Takes item add spells) (hbegins : Begins spells)
  (hclose : close = ']' ∨ close = '}')

include htakes hbegins hclose

theorem restItems_separated {xs : List α} {text : List Char} (h : Separated spells xs text)
    (rest : List Char) {steps : ℕ} (hsteps : xs.length ≤ steps) (acc : β) :
    restItems close item steps acc (text ++ close :: rest) =
      (xs.foldlM add acc).map fun acc => (acc, rest) := by
  have hend : IsEnd close := by rcases hclose with rfl | rfl <;> decide
  have hblank : isBlank close = false := by rcases hclose with rfl | rfl <;> decide
  have hcomma : close ≠ ',' := by rcases hclose with rfl | rfl <;> decide
  have hskip : ∀ {x spelled}, spells x spelled → ∀ more,
      skipBlank (spelled ++ more) = spelled ++ more := fun hx => skipBlank_starts (hbegins _ _ hx)
  induction h generalizing steps acc with
  | @last x before spelled after hbefore hx hafter =>
    obtain ⟨steps, rfl⟩ := Nat.exists_eq_add_one_of_ne_zero (Nat.ne_zero_of_lt hsteps)
    simp only [restItems, List.append_assoc, skipBlank_append hbefore, hskip hx,
      htakes _ _ _ _ hx (ends_append hafter hend rest), List.foldlM_cons, List.foldlM_nil]
    cases add acc x with
    | error fault => rfl
    | ok found => exact foldItems_close hblank hafter rest
  | @more x xs before spelled after texts hbefore hx hafter _ ih =>
    obtain ⟨steps, rfl⟩ := Nat.exists_eq_add_one_of_ne_zero (Nat.ne_zero_of_lt hsteps)
    simp only [restItems, List.append_assoc, List.cons_append, skipBlank_append hbefore, hskip hx,
      htakes _ _ _ _ hx (ends_append hafter (c := ',') (by decide) _), List.foldlM_cons]
    cases add acc x with
    | error fault => rfl
    | ok found =>
      exact (foldItems_comma hcomma hafter _).trans (ih (by simpa using hsteps) found)

theorem foldItems_enclosed {opening : Char} {xs : List α} {text : List Char}
    (h : Enclosed opening close spells xs text) (rest : List Char) {steps : ℕ}
    (hsteps : xs.length < steps) (acc : β) :
    ∃ inner, text = opening :: inner ∧
      foldItems close item steps true acc (inner ++ rest) =
        (xs.foldlM add acc).map fun acc => (acc, rest) := by
  obtain ⟨steps, rfl⟩ := Nat.exists_eq_add_one_of_ne_zero (Nat.ne_zero_of_lt hsteps)
  cases h with
  | none hblank =>
    refine ⟨_, rfl, ?_⟩
    rw [List.append_assoc]
    exact foldItems_close (by rcases hclose with rfl | rfl <;> decide) hblank rest
  | some hitems =>
    refine ⟨_, rfl, ?_⟩
    have hrest := restItems_separated htakes hbegins hclose hitems rest
      (Nat.lt_succ_iff.mp hsteps) acc
    obtain ⟨blank, first, more, hblank, rfl, hfirst⟩ := hitems.begins hbegins
    simp only [List.append_assoc] at hrest ⊢
    refine (foldItems_first ?_ hblank hfirst _).trans hrest
    rcases hclose with rfl | rfl <;> decide

end Items

section Objects

variable {α β : Type} {member : ℕ → β → String → Reader β} {add : β → α → Except Fault β}
  {spells : α → List Char → Prop}
  (htakes : ∀ steps, Takes (fun acc => readMember (member steps acc)) add
    (fun x t => spells x t ∧ t.length < steps))
  (hbegins : Begins spells) {members : List α} {text : String}
  (h : ObjectText spells members text) (init : β)

include htakes hbegins h

theorem readMembers_object :
    ∃ rest after, skipBlank text.toList = '{' :: rest ∧ skipBlank after = [] ∧
      readMembers (text.length + 1) (member (text.length + 1)) init rest =
        (members.foldlM add init).map fun acc => (acc, after) := by
  obtain @⟨before, object, after, hbefore, hobject, hafter⟩ := h
  -- the whole text is counted, so the steps are enough for the members and for what is in them
  let steps := (String.ofList (before ++ (object ++ after))).length + 1
  have hlength : object.length ≤ steps := by
    simp only [steps, String.length_ofList, List.length_append]
    omega
  obtain ⟨inner, rfl, hfold⟩ := foldItems_enclosed (htakes steps)
    (fun x text hx => hbegins x text hx.1) (.inr rfl) (hobject.bounded hlength) after
    (Nat.lt_of_lt_of_le hobject.length_lt hlength) init
  refine ⟨inner ++ after, after, ?_, skipBlank_of_blank hafter, hfold⟩
  rw [String.toList_ofList, skipBlank_append hbefore]
  exact skipBlank_cons (by decide) _

theorem readObject_members : readObject member init text = members.foldlM add init := by
  obtain ⟨rest, after, hstart, hend, hread⟩ := readMembers_object htakes hbegins h init
  simp only [readObject, hstart, hread]
  cases members.foldlM add init with
  | error fault => rfl
  | ok found => simp [Except.map, bind, Except.bind, readEnd, hend, pure, Except.pure]

end Objects

theorem skipString_escape {escape after : List Char} (hc : skipEscape escape = .ok after) :
    skipString ('\\' :: escape) = skipString after := by
  rw [skipString]
  split
  next fault hfault => rw [hc] at hfault; cases hfault
  next left hfound =>
    rw [hc] at hfound
    cases hfound
    rfl

theorem skipEscape_unit {unit : ℕ} (h : UnitText unit text) (rest : List Char) :
    skipEscape ('u' :: (text ++ rest)) = .ok rest := by
  simp only [skipEscape, readUnit_text h, bind, Except.bind]
  rfl

theorem skipString_chars (h : CharsForm text) (rest : List Char) :
    skipString (text ++ '"' :: rest) = .ok rest := by
  induction h with
  | nil => simp [skipString, pure, Except.pure]
  | @cons first more hc _ ih =>
    rw [List.append_assoc]
    cases hc with
    | plain hquote hbackslash hcontrol =>
      rw [List.singleton_append, skipString, if_neg (by omega), ih]
      · exact hquote
      · exact hbackslash
    | @short letter hletter =>
      have hne : letter ≠ 'u' := by
        rintro rfl
        cases hletter
      refine (skipString_escape ?_).trans ih
      simp [skipEscape, hletter, pure, Except.pure]
    | unit hunit => exact (skipString_escape (skipEscape_unit hunit _)).trans ih

def NoDigit (text : List Char) : Prop := ∀ c more, text = c :: more → c.isDigit = false

theorem not_isDigit_of_isEnd {c : Char} (h : IsEnd c) : c.isDigit = false := by
  rcases h with hblank | rfl | rfl | rfl
  · simp only [isBlank, Bool.or_eq_true, beq_iff_eq] at hblank
    rcases hblank with ((rfl | rfl) | rfl) | rfl <;> rfl
  all_goals rfl

theorem Ends.noDigit (h : Ends rest) : NoDigit rest := by
  rintro c more rfl
  obtain ⟨_, _, heq, hc⟩ := h
  cases heq
  exact not_isDigit_of_isEnd hc

theorem span_digits (h : Digits text) (hrest : NoDigit rest) :
    (text ++ rest).span Char.isDigit = (text, rest) := by
  rw [List.span_eq_takeWhile_dropWhile, List.takeWhile_append_of_pos h,
    List.dropWhile_append_of_pos h]
  cases rest with
  | nil => simp
  | cons c more =>
    have hc : c.isDigit = false := hrest c more rfl
    simp [hc]

theorem readDigits_digits (hne : text ≠ []) (h : Digits text) (hrest : NoDigit rest) :
    readDigits (text ++ rest) = .ok (text, rest) := by
  rw [readDigits, span_digits h hrest]
  cases text with
  | nil => exact absurd rfl hne
  | cons c more => rfl

theorem readExponent_unsigned {e : Char} {digits : List Char} (he : e = 'e' ∨ e = 'E')
    (hne : digits ≠ []) (hdigits : Digits digits) (hrest : NoDigit rest) (n : Number) :
    ∃ m, readExponent n (e :: (digits ++ rest)) = .ok (m, rest) := by
  have hread := readDigits_digits hne hdigits hrest
  obtain ⟨d, more, rfl⟩ := List.exists_cons_of_ne_nil hne
  have hd : d.isDigit = true := hdigits d (by simp)
  have hsign : ∀ sign, sign.isDigit = false →
      ∀ after, d :: (more ++ rest) = sign :: after → False := by
    rintro sign hsign after heq
    cases heq
    rw [hd] at hsign
    cases hsign
  rw [List.cons_append] at hread ⊢
  rw [readExponent, if_pos he]
  · simp only [hread, bind, Except.bind]
    exact ⟨_, rfl⟩
  · exact hsign '+' rfl
  · exact hsign '-' rfl

theorem readExponent_form (h : ExponentForm text) (hrest : Ends rest) (n : Number) :
    ∃ m, readExponent n (text ++ rest) = .ok (m, rest) := by
  cases h with
  | none =>
    obtain ⟨c, more, rfl, hc⟩ := hrest
    have hletter : ¬ (c = 'e' ∨ c = 'E') := by
      rintro (rfl | rfl) <;> exact absurd hc (by decide)
    unfold readExponent
    simp only [List.nil_append, if_neg hletter]
    exact ⟨_, rfl⟩
  | @some e sign digits he hsign hne hdigits =>
    have hread := readDigits_digits hne hdigits hrest.noDigit
    rw [List.cons_append, List.append_assoc]
    rcases hsign with rfl | rfl | rfl
    · exact readExponent_unsigned he hne hdigits hrest.noDigit n
    all_goals
      simp only [List.cons_append, List.nil_append, readExponent, if_pos he, hread, bind, Except.bind]
      exact ⟨_, rfl⟩

theorem IntegerForm.wellFormed (h : IntegerForm text) :
    text ≠ [] ∧ Digits text ∧ ¬ (text.head? = some '0' ∧ text.length > 1) := by
  cases h with
  | digit hc => exact ⟨by simp, by simpa [Digits] using hc, by simp⟩
  | digits hc hne hrest =>
    refine ⟨by simp, ?_, by simp [hne]⟩
    simpa [Digits] using ⟨hc, hrest⟩

theorem noDigit_exponent (h : ExponentForm text) (hrest : Ends rest) : NoDigit (text ++ rest) := by
  cases h with
  | none => exact hrest.noDigit
  | some he _ _ _ =>
    rintro c more heq
    cases heq
    rcases he with rfl | rfl <;> rfl

theorem noDigit_fraction {fraction : List Char} (h : FractionForm fraction)
    (hrest : NoDigit rest) : NoDigit (fraction ++ rest) := by
  cases h with
  | none => exact hrest
  | some _ _ =>
    rintro c more heq
    cases heq
    rfl

theorem exponent_ne_point {exponent : List Char} (h : ExponentForm exponent) (hrest : Ends rest)
    (more : List Char) : exponent ++ rest ≠ '.' :: more := by
  intro heq
  cases h with
  | none =>
    obtain ⟨_, _, rfl, hc⟩ := hrest
    cases heq
    exact absurd hc (by decide)
  | some he _ _ _ =>
    cases heq
    rcases he with he | he <;> cases he

theorem readFraction_form {fraction exponent : List Char} (hfraction : FractionForm fraction)
    (hexponent : ExponentForm exponent) (hrest : Ends rest) (n : Number) :
    ∃ m, readFraction n (fraction ++ (exponent ++ rest)) = .ok (m, rest) := by
  cases hfraction with
  | none =>
    obtain ⟨m, hm⟩ := readExponent_form hexponent hrest n
    refine ⟨m, ?_⟩
    unfold readFraction
    rw [List.nil_append]
    split
    next more heq => exact absurd heq (exponent_ne_point hexponent hrest more)
    next => exact hm
  | @some digits hne hdigits =>
    have hread := readDigits_digits hne hdigits (noDigit_exponent hexponent hrest)
    obtain ⟨m, hm⟩ := readExponent_form hexponent hrest
      ⟨(absorbDigits n.significand digits).1, n.exponent - (absorbDigits n.significand digits).2⟩
    refine ⟨m, ?_⟩
    rw [List.cons_append, readFraction, hread]
    exact hm

theorem skipNumber_unsigned (h : UnsignedForm text) (hrest : Ends rest) :
    skipNumber (text ++ rest) = .ok rest := by
  obtain @⟨integer, fraction, exponent, hinteger, hfraction, hexponent⟩ := h
  have hnext := noDigit_fraction hfraction (noDigit_exponent hexponent hrest)
  obtain ⟨hne, hdigits, hzero⟩ := hinteger.wellFormed
  have hread := readDigits_digits hne hdigits hnext
  obtain ⟨m, hm⟩ := readFraction_form hfraction hexponent hrest
    ⟨(absorbDigits 0 integer).1, integer.length - (absorbDigits 0 integer).2⟩
  have hunsigned : readUnsigned (integer ++ (fraction ++ (exponent ++ rest))) = .ok (m, rest) := by
    simp only [readUnsigned, hread, bind, Except.bind, if_neg hzero]
    exact hm
  rw [List.append_assoc, List.append_assoc, skipNumber, hunsigned]
  rfl

theorem UnsignedForm.begins (h : UnsignedForm text) :
    ∃ c rest, text = c :: rest ∧ c.isDigit = true := by
  obtain @⟨integer, fraction, exponent, hinteger, -, -⟩ := h
  cases hinteger with
  | digit hc => exact ⟨_, _, rfl, hc⟩
  | digits hc _ _ => exact ⟨_, _, rfl, hc⟩

theorem ScalarForm.starts (h : ScalarForm text) : Starts text := by
  cases h with
  | null => exact ⟨_, _, rfl, by decide⟩
  | true => exact ⟨_, _, rfl, by decide⟩
  | false => exact ⟨_, _, rfl, by decide⟩
  | unsigned hnumber =>
    obtain ⟨c, rest, rfl, hc⟩ := hnumber.begins
    refine ⟨c, rest, rfl, fun hend => ?_⟩
    rw [not_isDigit_of_isEnd hend] at hc
    cases hc
  | negative _ => exact ⟨_, _, rfl, by decide⟩
  | string hstring =>
    obtain ⟨-⟩ := hstring
    exact ⟨_, _, rfl, by decide⟩

theorem ValueForm.starts {depth : ℕ} (h : ValueForm depth text) : Starts text := by
  cases depth with
  | zero => exact ScalarForm.starts h
  | succ depth =>
    cases h with
    | scalar hscalar => exact hscalar.starts
    | list hitems => cases hitems <;> exact ⟨_, _, rfl, by decide⟩
    | object hmembers => cases hmembers <;> exact ⟨_, _, rfl, by decide⟩

theorem MemberForm.starts {inner : List Char → Prop} (h : MemberForm inner text) :
    Starts text := by
  obtain ⟨⟨-⟩, -, -, -⟩ := h
  exact ⟨_, _, rfl, by decide⟩

theorem skipValue_scalar (h : ScalarForm text) (hrest : Ends rest) (steps levels : ℕ) :
    skipValue steps (levels + 1) (text ++ rest) = .ok rest := by
  cases h with
  | null => rfl
  | true => rfl
  | false => rfl
  | unsigned hnumber =>
    have hskip := skipNumber_unsigned hnumber hrest
    obtain ⟨c, more, rfl, hc⟩ := hnumber.begins
    have hne : ∀ d : Char, d.isDigit = Bool.false → c ≠ d := by
      rintro d hd rfl
      rw [hc] at hd
      cases hd
    rw [List.cons_append] at hskip ⊢
    rw [skipValue, if_pos hc, hskip]
    all_goals exact hne _ rfl
  | negative hnumber => exact skipNumber_unsigned hnumber hrest
  | string hstring =>
    obtain ⟨hchars⟩ := hstring
    simp only [List.cons_append, List.append_assoc, List.nil_append, skipValue]
    exact skipString_chars hchars rest

theorem skipMember_member {inner : List Char → Prop}
    {skipItem : List Char → Except Fault (List Char)} (h : MemberForm inner text)
    (hstarts : ∀ value, inner value → Starts value)
    (hskip : ∀ value, inner value → value.length < text.length →
      skipItem (value ++ rest) = .ok rest) :
    skipMember skipItem (text ++ rest) = .ok rest := by
  obtain @⟨_, before, after, value, ⟨hkey⟩, hbefore, hafter, hvalue⟩ := h
  have hvalues : skipItem (value ++ rest) = .ok rest := by
    refine hskip value hvalue ?_
    simp only [List.length_append, List.length_cons]
    omega
  simp only [List.cons_append, List.append_assoc, List.nil_append, skipMember, readKeyQuote, bind,
    Except.bind, pure, Except.pure, skipString_chars hkey, readColon_append hbefore hafter,
    skipBlank_starts (hstarts value hvalue), hvalues]

theorem foldItems_skipped {inner : List Char → Prop} {opening close : Char} {items : List Unit}
    {skipItem : List Char → Except Fault (List Char)} {steps : ℕ}
    (h : Enclosed opening close (fun _ => inner) items text) (hclose : close = ']' ∨ close = '}')
    (hstarts : ∀ value, inner value → Starts value)
    (hskip : ∀ value more, inner value → value.length < text.length → Ends more →
      skipItem (value ++ more) = .ok more)
    (hsteps : text.length ≤ steps) (rest : List Char) :
    ∃ inside, text = opening :: inside ∧
      foldItems close (fun (_ : Unit) text => return ((), ← skipItem text)) steps true ()
        (inside ++ rest) = .ok ((), rest) := by
  have htakes : Takes (fun (_ : Unit) text => return ((), ← skipItem text))
      (fun _ _ => .ok ()) (fun (_ : Unit) value => inner value ∧ value.length < text.length) := by
    rintro - - value more ⟨hvalue, hlength⟩ hmore
    simp only [hskip value more hvalue hlength hmore]
    rfl
  obtain ⟨inside, hinside, hfold⟩ := foldItems_enclosed htakes
    (fun _ value hvalue => hstarts value hvalue.1) hclose (h.bounded le_rfl) rest
    (Nat.lt_of_lt_of_le h.length_lt hsteps) ()
  refine ⟨inside, hinside, hfold.trans ?_⟩
  have hnothing : items.foldlM (fun _ _ => .ok ()) () = (.ok () : Except Fault Unit) :=
    List.foldlM_pure
  rw [hnothing]
  rfl

/-- A value is skipped to its end if there are more levels and steps than it has characters. -/
theorem skipValue_value {depth : ℕ} (h : ValueForm depth text) (hrest : Ends rest) {steps levels : ℕ}
    (hsteps : text.length ≤ steps) (hlevels : text.length < levels) :
    skipValue steps levels (text ++ rest) = .ok rest := by
  obtain ⟨levels, rfl⟩ := Nat.exists_eq_add_one_of_ne_zero (Nat.ne_zero_of_lt hlevels)
  induction depth generalizing text rest levels with
  | zero => exact skipValue_scalar h hrest steps levels
  | succ depth ih =>
    have hinside : ∀ value more, ValueForm depth value → value.length < text.length → Ends more →
        skipValue steps levels (value ++ more) = .ok more := by
      intro value more hvalue hlength hmore
      obtain ⟨levels, rfl⟩ : ∃ l, levels = l + 1 := ⟨levels - 1, by omega⟩
      exact ih hvalue hmore (by omega) levels (by omega)
    cases h with
    | scalar hscalar => exact skipValue_scalar hscalar hrest steps levels
    | list hitems =>
      obtain ⟨inside, rfl, hfold⟩ := foldItems_skipped hitems (.inl rfl)
        (fun _ hvalue => hvalue.starts) hinside hsteps rest
      rw [List.cons_append, skipValue, hfold]
      rfl
    | object hmembers =>
      obtain ⟨inside, rfl, hfold⟩ := foldItems_skipped hmembers (.inr rfl)
        (fun _ hmember => hmember.starts)
        (fun member more hmember hlength hmore => skipMember_member hmember
          (fun _ hvalue => hvalue.starts)
          fun value hvalue hshorter => hinside value more hvalue (by omega) hmore)
        hsteps rest
      rw [List.cons_append, skipValue, hfold]
      rfl

end Announcer.Json
