import Announcer.Json.Scanner
import Mathlib.Data.List.Basic

/-! # Rules in writing

Rules are written as an object. A member gives a name its templates, as one string or as a list of
strings. Blanks may stand between the signs. Strings have escapes at quotes and backslashes only, so
no control characters can be written.
-/
namespace Announcer.Spelling

def Blank (text : List Char) : Prop := ∀ c ∈ text, Json.isBlank c = true

instance (text : List Char) : Decidable (Blank text) :=
  decidable_of_iff (text.all Json.isBlank = true) List.all_eq_true

theorem blank_nil : Blank [] := by simp [Blank]

def Printable (text : String) : Prop := ∀ c ∈ text.toList, 0x20 ≤ c.toNat

instance (text : String) : Decidable (Printable text) :=
  decidable_of_iff (text.toList.all fun c => decide (0x20 ≤ c.toNat)) (by simp [Printable])

def escapeChar (c : Char) : List Char := if c = '"' ∨ c = '\\' then ['\\', c] else [c]

def escaped (text : String) : List Char := text.toList.flatMap escapeChar

def quoted (text : String) : List Char := '"' :: (escaped text ++ ['"'])

section Items

variable {α : Type}

/-- One item or more between commas, with blanks around them. -/
inductive Separated (item : α → List Char → Prop) : List α → List Char → Prop where
  | last {x before text after} : Blank before → item x text → Blank after →
      Separated item [x] (before ++ (text ++ after))
  | more {x rest before text after texts} : Blank before → item x text → Blank after →
      Separated item rest texts →
      Separated item (x :: rest) (before ++ (text ++ (after ++ ',' :: texts)))

inductive Enclosed (opening closing : Char) (item : α → List Char → Prop) :
    List α → List Char → Prop where
  | none {blank} : Blank blank → Enclosed opening closing item [] (opening :: (blank ++ [closing]))
  | some {xs texts} : Separated item xs texts →
      Enclosed opening closing item xs (opening :: (texts ++ [closing]))

end Items

inductive Quoted : String → List Char → Prop where
  | mk {s} : Printable s → Quoted s (quoted s)

/-- The templates of a name. One template needs no list. -/
inductive Entry : List String → List Char → Prop where
  | one {s text} : Quoted s text → Entry [s] text
  | list {ss text} : Enclosed '[' ']' Quoted ss text → Entry ss text

inductive Member : String × List String → List Char → Prop where
  | mk {name ss key before after text} : Quoted name key → Blank before → Blank after →
      Entry ss text → Member (name, ss) (key ++ (before ++ ':' :: (after ++ text)))

/-- A text that is one object with the rules as its members. -/
inductive Object (rules : List (String × List String)) : String → Prop where
  | mk {before object after} : Blank before → Enclosed '{' '}' Member rules object → Blank after →
      Object rules (String.ofList (before ++ (object ++ after)))

section Items

variable {α : Type} {item : α → List Char → Prop} {xs : List α}

theorem separated_intercalate {x : α} {text : List Char} {texts : List (List Char)}
    (hx : item x text) (h : List.Forall₂ item xs texts) :
    Separated item (x :: xs) ([','].intercalate (text :: texts)) := by
  induction h generalizing x text with
  | nil => simpa using Separated.last blank_nil hx blank_nil
  | cons hy _ ih =>
    rw [List.intercalate_cons_cons]
    simpa using Separated.more blank_nil hx blank_nil (ih hy)

theorem enclosed_intercalate (opening closing : Char) {texts : List (List Char)}
    (h : List.Forall₂ item xs texts) :
    Enclosed opening closing item xs (opening :: ([','].intercalate texts ++ [closing])) := by
  cases h with
  | nil => exact .none blank_nil
  | cons hx hrest => exact .some (separated_intercalate hx hrest)

theorem exists_forall₂ {β : Type} {r : α → β → Prop} (h : ∀ x ∈ xs, ∃ y, r x y) :
    ∃ ys, List.Forall₂ r xs ys := by
  induction xs with
  | nil => exact ⟨[], .nil⟩
  | cons x rest ih =>
    obtain ⟨y, hx⟩ := h x (by simp)
    obtain ⟨ys, hrest⟩ := ih fun z hz => h z (List.mem_cons_of_mem x hz)
    exact ⟨y :: ys, .cons hx hrest⟩

theorem exists_enclosed (opening closing : Char) (h : ∀ x ∈ xs, ∃ text, item x text) :
    ∃ text, Enclosed opening closing item xs text := by
  obtain ⟨texts, htexts⟩ := exists_forall₂ h
  exact ⟨_, enclosed_intercalate opening closing htexts⟩

end Items

theorem exists_object {rules : List (String × List String)}
    (h : ∀ rule ∈ rules, Printable rule.1 ∧ ∀ s ∈ rule.2, Printable s) :
    ∃ text, Object rules text := by
  have hmember : ∀ rule ∈ rules, ∃ text, Member rule text := by
    intro rule hrule
    obtain ⟨hname, htexts⟩ := h rule hrule
    obtain ⟨text, hlist⟩ := exists_enclosed '[' ']' fun s hs => ⟨_, Quoted.mk (htexts s hs)⟩
    exact ⟨_, .mk (.mk hname) blank_nil blank_nil (.list hlist)⟩
  obtain ⟨object, hobject⟩ := exists_enclosed '{' '}' hmember
  exact ⟨_, .mk blank_nil hobject blank_nil⟩

/-- A sign that may stand after an item: a blank, a comma or a closing sign. -/
def IsEnd (c : Char) : Prop := Json.isBlank c = true ∨ c = ',' ∨ c = ']' ∨ c = '}'

instance : DecidablePred IsEnd := fun _ => inferInstanceAs (Decidable (_ ∨ _ ∨ _ ∨ _))

def Starts (text : List Char) : Prop := ∃ c rest, text = c :: rest ∧ ¬ IsEnd c

def Begins {α : Type} (item : α → List Char → Prop) : Prop :=
  ∀ x text, item x text → Starts text

def BeginsQuoted {α : Type} (item : α → List Char → Prop) : Prop :=
  ∀ x text, item x text → ∃ rest, text = '"' :: rest

theorem quoted_begins : BeginsQuoted Quoted := by
  rintro _ _ ⟨-⟩
  exact ⟨_, rfl⟩

theorem member_begins : BeginsQuoted Member := by
  rintro _ _ ⟨⟨-⟩, -, -, -⟩
  exact ⟨_, rfl⟩

theorem Entry.begins {ss : List String} {text : List Char} (h : Entry ss text) :
    ∃ c rest, text = c :: rest ∧ (c = '"' ∨ c = '[') := by
  cases h with
  | one hs =>
    obtain ⟨rest, rfl⟩ := quoted_begins _ _ hs
    exact ⟨_, rest, rfl, .inl rfl⟩
  | list hss => cases hss <;> exact ⟨_, _, rfl, .inr rfl⟩

theorem BeginsQuoted.begins {α : Type} {item : α → List Char → Prop} (h : BeginsQuoted item) :
    Begins item := by
  intro x text hx
  obtain ⟨rest, rfl⟩ := h x text hx
  exact ⟨_, rest, rfl, by decide⟩

theorem Separated.begins {α : Type} {item : α → List Char → Prop} (hitem : Begins item)
    {xs : List α} {text : List Char} (h : Separated item xs text) :
    ∃ blank first rest, Blank blank ∧ text = blank ++ (first ++ rest) ∧ Starts first := by
  cases h with
  | last hblank hx _ => exact ⟨_, _, _, hblank, rfl, hitem _ _ hx⟩
  | more hblank hx _ _ => exact ⟨_, _, _, hblank, rfl, hitem _ _ hx⟩

theorem Separated.length_le {α : Type} {item : α → List Char → Prop} {xs : List α}
    {text : List Char} (h : Separated item xs text) : xs.length ≤ text.length + 1 := by
  induction h with
  | last _ _ _ => simp
  | more _ _ _ _ ih =>
    simp only [List.length_append, List.length_cons]
    omega

theorem Enclosed.length_lt {α : Type} {item : α → List Char → Prop} {opening closing : Char}
    {xs : List α} {text : List Char} (h : Enclosed opening closing item xs text) :
    xs.length < text.length := by
  cases h with
  | none _ => simp
  | some hitems =>
    have := hitems.length_le
    simp only [List.length_cons, List.length_append]
    omega

theorem Separated.bounded {α : Type} {item : α → List Char → Prop} {xs : List α}
    {text : List Char} (h : Separated item xs text) {n : ℕ} (hn : text.length ≤ n) :
    Separated (fun x t => item x t ∧ t.length ≤ n) xs text := by
  induction h with
  | last hbefore hx hafter =>
    simp only [List.length_append] at hn
    exact .last hbefore ⟨hx, by omega⟩ hafter
  | more hbefore hx hafter _ ih =>
    simp only [List.length_append, List.length_cons] at hn
    exact .more hbefore ⟨hx, by omega⟩ hafter (ih (by omega))

theorem Enclosed.bounded {α : Type} {item : α → List Char → Prop} {opening closing : Char}
    {xs : List α} {text : List Char} (h : Enclosed opening closing item xs text) {n : ℕ}
    (hn : text.length ≤ n) :
    Enclosed opening closing (fun x t => item x t ∧ t.length < n) xs text := by
  cases h with
  | none hblank => exact .none hblank
  | some hitems =>
    obtain ⟨n, rfl⟩ := Nat.exists_eq_add_one_of_ne_zero (Nat.ne_zero_of_lt (Nat.lt_of_succ_le hn))
    simp only [List.length_cons, List.length_append] at hn
    simpa only [Nat.lt_succ_iff] using Enclosed.some (hitems.bounded (by omega))

end Announcer.Spelling
