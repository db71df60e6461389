import Announcer.Proofs.Template.RoundTrip
import Mathlib

/-! # Where texts are cut

A text is to be cut at the separators on its outermost level, outside brackets, parentheses and
tags. The scanner finds them by counting: it cuts where as many brackets and parentheses were
closed as opened and an even number of `#` stood outside of them. In balanced text these are the
separators on the outermost level. Where something is closed that was never opened, or is never
closed, the count goes wrong for the rest of the text.
-/
namespace Announcer

namespace Scan

inductive Whole : List Char → Prop where
  | nil : Whole []
  | escaped {text} (c : Char) : Whole text → Whole ('\\' :: c :: text)
  | cons {c text} : c ≠ '\\' → Whole text → Whole (c :: text)

variable {separator opener closer c : Char} {depth : Int} {inTag tags inner : Bool}
  {plain : Char → Prop} {text content rest more before after u w : List Char}

theorem not_whole_backslash : ¬ Whole ['\\'] := by
  intro h
  cases h with
  | cons hc _ => exact hc rfl

theorem whole_escaped : Whole ('\\' :: c :: text) ↔ Whole text := by
  constructor
  · intro h
    cases h with
    | escaped _ h => exact h
    | cons hc _ => exact absurd rfl hc
  · exact .escaped c

theorem whole_cons (hc : c ≠ '\\') : Whole (c :: text) ↔ Whole text := by
  constructor
  · intro h
    cases h with
    | escaped _ _ => exact absurd rfl hc
    | cons _ h => exact h
  · exact .cons hc

theorem Whole.append_iff (h : Whole text) : Whole (text ++ more) ↔ Whole more := by
  induction h with
  | nil => rfl
  | escaped c _ ih => exact whole_escaped.trans ih
  | cons hc _ ih => exact (whole_cons hc).trans ih

theorem ne_backslash (hlast : c = '\\' → text = [] → False)
    (hmore : ∀ d others, c = '\\' → text = d :: others → False) : c ≠ '\\' := by
  rintro rfl
  cases text with
  | nil => exact hlast rfl rfl
  | cons d others => exact hmore d others rfl rfl

theorem escape_eq_append (hwhole : Whole u) (h : '\\' :: c :: text = u ++ w) :
    u = [] ∨ ∃ first, u = '\\' :: c :: first ∧ text = first ++ w ∧ Whole first := by
  rcases List.cons_eq_append_iff.mp h with ⟨hu, -⟩ | ⟨v, rfl, hv⟩
  · exact .inl hu
  · rcases List.cons_eq_append_iff.mp hv with ⟨rfl, -⟩ | ⟨first, rfl, hfirst⟩
    · exact absurd hwhole not_whole_backslash
    · exact .inr ⟨first, rfl, hfirst, whole_escaped.mp hwhole⟩

def weight (c : Char) : Int :=
  if c = '[' ∨ c = '(' then 1 else if c = ']' ∨ c = ')' then -1 else 0

theorem weight_of_notMem_delimiters (hc : c ∉ delimiters) : weight c = 0 := by
  obtain ⟨-, -, hopen, hclose, hopen', hclose'⟩ := ne_of_notMem_delimiters hc
  simp [weight, hopen, hclose, hopen', hclose']

/-- How many more brackets and parentheses are opened than closed, whichever belong together. -/
def balance : List Char → Int
  | [] => 0
  | ['\\'] => 0
  | '\\' :: _ :: rest => balance rest
  | c :: rest => weight c + balance rest

/-- How many `#` stand where nothing is open by the count, which begins at a depth. -/
def outerHashes (depth : Int) : List Char → ℕ
  | [] => 0
  | ['\\'] => 0
  | '\\' :: _ :: rest => outerHashes depth rest
  | c :: rest => (if c = '#' ∧ depth = 0 then 1 else 0) + outerHashes (depth + weight c) rest

theorem balance_cons (hc : c ≠ '\\') : balance (c :: rest) = weight c + balance rest := by
  rw [balance.eq_4]
  all_goals simp [hc]

theorem outerHashes_cons (hc : c ≠ '\\') : outerHashes depth (c :: rest) =
    (if c = '#' ∧ depth = 0 then 1 else 0) + outerHashes (depth + weight c) rest := by
  rw [outerHashes.eq_4]
  all_goals simp [hc]

theorem Whole.balance_append (h : Whole text) :
    balance (text ++ more) = balance text + balance more := by
  induction h with
  | nil => exact (zero_add _).symm
  | escaped c _ ih => exact ih
  | cons hc _ ih => rw [List.cons_append, balance_cons hc, balance_cons hc, ih, add_assoc]

theorem Whole.outerHashes_append (h : Whole text) : outerHashes depth (text ++ more) =
    outerHashes depth text + outerHashes (depth + balance text) more := by
  induction h generalizing depth with
  | nil => simp [outerHashes, balance]
  | escaped c _ ih => exact ih
  | cons hc _ ih =>
    rw [List.cons_append, outerHashes_cons hc, outerHashes_cons hc, balance_cons hc, ih]
    simp only [add_assoc]

def cuts (separator : Char) : List (List Char) → List (List Char)
  | [] => []
  | [_] => []
  | part :: next :: rest => part :: (cuts separator (next :: rest)).map (part ++ separator :: ·)

theorem cuts_cons {part : List Char} {parts : List (List Char)} (h : parts ≠ []) :
    cuts separator (part :: parts) =
      part :: (cuts separator parts).map (part ++ separator :: ·) := by
  obtain ⟨next, others, rfl⟩ := List.exists_cons_of_ne_nil h
  rfl

theorem cuts_consToHead {parts : List (List Char)} (h : parts ≠ []) :
    cuts separator (consToHead c parts) = (cuts separator parts).map (c :: ·) := by
  cases parts with
  | nil => exact absurd rfl h
  | cons part others => cases others <;> simp [consToHead, cuts]

theorem length_cuts {parts : List (List Char)} (h : parts ≠ []) :
    (cuts separator parts).length + 1 = parts.length := by
  induction parts with
  | nil => exact absurd rfl h
  | cons part others ih =>
    cases others with
    | nil => rfl
    | cons next rest => simpa [cuts] using ih (List.cons_ne_nil next rest)

theorem nodup_cuts (parts : List (List Char)) : (cuts separator parts).Nodup := by
  induction parts with
  | nil => exact List.nodup_nil
  | cons part others ih =>
    cases others with
    | nil => exact List.nodup_nil
    | cons next rest =>
      rw [cuts, List.nodup_cons]
      constructor
      · simp
      · exact ih.map fun a b h => by simpa using h

/-- Where the scanner cuts a text that it meets in a given state. -/
def CountsOut (separator : Char) (depth : Int) (inTag : Bool) (text before : List Char) : Prop :=
  ∃ after, text = before ++ separator :: after ∧ Whole before ∧ depth + balance before = 0 ∧
    Even (inTag.toNat + outerHashes depth before)

theorem countsOut_nil : CountsOut separator depth inTag text [] ↔
    ∃ after, text = separator :: after ∧ depth = 0 ∧ inTag = false := by
  cases inTag <;> simp [CountsOut, Whole.nil, balance, outerHashes]

theorem countsOut_cons {d : Char} (hc : c ≠ '\\') :
    CountsOut separator depth inTag (c :: rest) (d :: before) ↔ d = c ∧
      CountsOut separator (depth + weight c) (if c = '#' ∧ depth = 0 then !inTag else inTag) rest
        before := by
  have hparity : Even (inTag.toNat + outerHashes depth (c :: before)) ↔
      Even ((if c = '#' ∧ depth = 0 then !inTag else inTag).toNat +
        outerHashes (depth + weight c) before) := by
    rw [outerHashes_cons hc]
    split_ifs
    · cases inTag <;> simp [Nat.even_add, parity_simps]
    · rw [Nat.zero_add]
  constructor
  · rintro ⟨after, htext, hwhole, hbalance, heven⟩
    obtain ⟨rfl, rfl⟩ : c = d ∧ rest = before ++ separator :: after := by simpa using htext
    rw [balance_cons hc, ← add_assoc] at hbalance
    exact ⟨rfl, after, rfl, (whole_cons hc).mp hwhole, hbalance, hparity.mp heven⟩
  · rintro ⟨rfl, after, rfl, hwhole, hbalance, heven⟩
    rw [add_assoc, ← balance_cons hc] at hbalance
    exact ⟨after, rfl, .cons hc hwhole, hbalance, hparity.mpr heven⟩

theorem countsOut_escaped :
    CountsOut separator depth inTag ('\\' :: c :: rest) ('\\' :: c :: before) ↔
      CountsOut separator depth inTag rest before := by
  simp [CountsOut, whole_escaped, balance, outerHashes]

theorem splitFrom_count (hc : c ≠ '\\') (hcut : ¬ (c = separator ∧ depth = 0 ∧ inTag = false)) :
    splitFrom separator depth inTag (c :: rest) =
      consToHead c (splitFrom separator (depth + weight c)
        (if c = '#' ∧ depth = 0 then !inTag else inTag) rest) := by
  rw [splitFrom.eq_4 _ _ _ _ _ (by simp [hc]) (by simp [hc]), if_neg hcut]
  unfold weight
  by_cases hopen : c = '[' ∨ c = '('
  · have hhash : c ≠ '#' := by rcases hopen with rfl | rfl <;> decide
    simp [hopen, hhash]
  · by_cases hclose : c = ']' ∨ c = ')'
    · have hhash : c ≠ '#' := by rcases hclose with rfl | rfl <;> decide
      simp [hopen, hclose, hhash, sub_eq_add_neg]
    · by_cases hhash : c = '#' ∧ depth = 0 <;> simp [hopen, hclose, hhash]

theorem splitFrom_cut (hs : separator ∉ delimiters) :
    splitFrom separator 0 false (separator :: rest) = [] :: splitFrom separator 0 false rest := by
  obtain ⟨hescape, hhash, hopen, hclose, hopen', hclose'⟩ := ne_of_notMem_delimiters hs
  rw [splitFrom.eq_4 _ _ _ _ _ (by simp [hescape]) (by simp [hescape])]
  simp [*]

theorem cuts_splitFrom_escaped :
    cuts separator (splitFrom separator depth inTag ('\\' :: c :: rest)) =
      (cuts separator (splitFrom separator depth inTag rest)).map ('\\' :: c :: ·) := by
  have hne := splitFrom_ne_nil separator depth inTag rest
  rw [splitFrom.eq_3, cuts_consToHead (consToHead_ne_nil _ _), cuts_consToHead hne]
  simp

theorem cons_mem_map_cons {d : Char} {texts : List (List Char)} :
    d :: text ∈ texts.map (c :: ·) ↔ d = c ∧ text ∈ texts := by
  constructor
  · intro h
    obtain ⟨b, hb, heq⟩ := List.mem_map.mp h
    obtain ⟨rfl, rfl⟩ := List.cons.inj heq
    exact ⟨rfl, hb⟩
  · rintro ⟨rfl, h⟩
    exact List.mem_map_of_mem h

theorem mem_cuts_splitFrom (hs : separator ∉ delimiters) (depth : Int) (inTag : Bool)
    (text before : List Char) : before ∈ cuts separator (splitFrom separator depth inTag text) ↔
    CountsOut separator depth inTag text before := by
  have hescape : separator ≠ '\\' := (ne_of_notMem_delimiters hs).1
  -- The induction goes from one unescaped character to the next.
  induction text using balance.induct generalizing depth inTag before with
  | case1 => simp [splitFrom, cuts, CountsOut]
  | case2 =>
    constructor
    · intro h
      cases h
    · rintro ⟨after, htext, -⟩
      simp only [List.singleton_eq_append_iff, List.cons.injEq] at htext
      rcases htext with ⟨-, hsep, -⟩ | ⟨-, hmore⟩
      · exact absurd hsep hescape
      · cases hmore
  | case3 c rest ih =>
    rw [cuts_splitFrom_escaped, List.mem_map]
    constructor
    · rintro ⟨b, hb, rfl⟩
      exact countsOut_escaped.mpr ((ih _ _ _).mp hb)
    · rintro ⟨after, htext, hwhole, hcount⟩
      rcases escape_eq_append hwhole htext with rfl | ⟨first, rfl, hrest, -⟩
      · exact absurd (List.head_eq_of_cons_eq htext).symm hescape
      · have hfirst := countsOut_escaped.mp ⟨after, htext, hwhole, hcount⟩
        exact ⟨first, (ih _ _ _).mpr hfirst, rfl⟩
  | case4 c rest hlast hmore ih =>
    have hc : c ≠ '\\' := ne_backslash hlast hmore
    by_cases hcut : c = separator ∧ depth = 0 ∧ inTag = false
    · obtain ⟨rfl, rfl, rfl⟩ := hcut
      rw [splitFrom_cut hs, cuts_cons (splitFrom_ne_nil _ _ _ _), List.mem_cons]
      cases before with
      | nil => simpa using countsOut_nil.mpr ⟨rest, rfl, rfl, rfl⟩
      | cons d b =>
        have hstate := weight_of_notMem_delimiters hs
        have hhash : c ≠ '#' := (ne_of_notMem_delimiters hs).2.1
        rw [countsOut_cons hc, hstate, add_zero, if_neg (fun h => hhash h.1)]
        refine Iff.trans ?_ (and_congr_right' (ih 0 false b))
        simpa using cons_mem_map_cons
    · rw [splitFrom_count hc hcut, cuts_consToHead (splitFrom_ne_nil _ _ _ _)]
      cases before with
      | nil =>
        rw [countsOut_nil]
        constructor
        · simp
        · rintro ⟨after, htext, hstate⟩
          exact absurd ⟨List.head_eq_of_cons_eq htext, hstate⟩ hcut
      | cons d b =>
        rw [countsOut_cons hc]
        exact cons_mem_map_cons.trans (and_congr_right' (ih _ _ b))

theorem intercalate_consToHead {parts : List (List Char)} (h : parts ≠ []) :
    [separator].intercalate (consToHead c parts) = c :: [separator].intercalate parts := by
  obtain ⟨part, others, rfl⟩ := List.exists_cons_of_ne_nil h
  rw [consToHead, intercalate_cons, intercalate_cons, List.cons_append]

theorem splitFrom_joined (hs : separator ∉ delimiters) (depth : Int) (inTag : Bool)
    (text : List Char) :
    [separator].intercalate (splitFrom separator depth inTag text) = text := by
  induction text using balance.induct generalizing depth inTag with
  | case1 => rfl
  | case2 => rfl
  | case3 c rest ih =>
    rw [splitFrom.eq_3, intercalate_consToHead (consToHead_ne_nil _ _),
      intercalate_consToHead (splitFrom_ne_nil _ _ _ _), ih]
  | case4 c rest hlast hmore ih =>
    have hc : c ≠ '\\' := ne_backslash hlast hmore
    by_cases hcut : c = separator ∧ depth = 0 ∧ inTag = false
    · obtain ⟨rfl, rfl, rfl⟩ := hcut
      rw [splitFrom_cut hs, List.intercalate_cons_of_ne_nil (splitFrom_ne_nil _ _ _ _), ih]
      rfl
    · rw [splitFrom_count hc hcut, intercalate_consToHead (splitFrom_ne_nil _ _ _ _), ih]

def Between (opener closer separator : Char) (before after : List Char) : Prop :=
  ∃ outside first last others, before = outside ++ opener :: first ∧
    after = last ++ closer :: others ∧ Whole outside ∧
      Balanced (fun _ => True) true (first ++ separator :: last)

def InTag (separator : Char) (before after : List Char) : Prop :=
  ∃ outside first last others, before = outside ++ '#' :: first ∧ after = last ++ '#' :: others ∧
    Balanced (fun _ => True) true outside ∧
      Balanced (fun _ => True) false (first ++ separator :: last)

/-- The separator between the two texts is neither escaped nor nested in anything. -/
structure InTheOpen (separator : Char) (before after : List Char) : Prop where
  unescaped : Whole before
  brackets : ¬ Between '[' ']' separator before after
  parentheses : ¬ Between '(' ')' separator before after
  tag : ¬ InTag separator before after

theorem Balanced.whole (h : Balanced plain tags text) : Whole text := by
  induction h with
  | nil => exact .nil
  | escaped c _ ih => exact .escaped c ih
  | plain c hc _ _ ih => exact .cons (ne_of_notMem_delimiters hc).1 ih
  | brackets _ _ ihc ih => exact .cons (by decide) (ihc.append_iff.mpr (.cons (by decide) ih))
  | parentheses _ _ ihc ih => exact .cons (by decide) (ihc.append_iff.mpr (.cons (by decide) ih))
  | tag _ _ _ ihc ih => exact .cons (by decide) (ihc.append_iff.mpr (.cons (by decide) ih))

theorem balance_group (hopen : opener ≠ '\\') (hclose : closer ≠ '\\') (hcontent : Whole content) :
    balance (opener :: (content ++ closer :: rest)) =
      weight opener + (balance content + (weight closer + balance rest)) := by
  rw [balance_cons hopen, hcontent.balance_append, balance_cons hclose]

theorem outerHashes_group (hopen : opener ≠ '\\') (hclose : closer ≠ '\\')
    (hback : weight opener + weight closer = 0) (hcontent : Whole content)
    (hzero : balance content = 0) : outerHashes depth (opener :: (content ++ closer :: rest)) =
      (if opener = '#' ∧ depth = 0 then 1 else 0) + (outerHashes (depth + weight opener) content +
        ((if closer = '#' ∧ depth + weight opener = 0 then 1 else 0) +
          outerHashes depth rest)) := by
  rw [outerHashes_cons hopen, hcontent.outerHashes_append, hzero, add_zero, outerHashes_cons hclose,
    add_assoc depth, hback, add_zero]

theorem Balanced.balance_eq_zero (h : Balanced plain tags text) : balance text = 0 := by
  induction h with
  | nil => rfl
  | escaped c _ ih => exact ih
  | plain c hc _ _ ih =>
    rw [balance_cons (ne_of_notMem_delimiters hc).1, weight_of_notMem_delimiters hc, ih, zero_add]
  | brackets hcontent _ ihc ih =>
    rw [balance_group (by decide) (by decide) hcontent.whole, ihc, ih]
    decide
  | parentheses hcontent _ ihc ih =>
    rw [balance_group (by decide) (by decide) hcontent.whole, ihc, ih]
    decide
  | tag _ hcontent _ ihc ih =>
    rw [balance_group (by decide) (by decide) hcontent.whole, ihc, ih]
    decide

theorem group_eq_append (h : opener :: (content ++ closer :: text) = u ++ w) :
    u = [] ∨ (∃ first last, u = opener :: first ∧ content = first ++ last ∧
        w = last ++ closer :: text) ∨
      ∃ first, u = opener :: (content ++ closer :: first) ∧ text = first ++ w := by
  rcases List.cons_eq_append_iff.mp h with ⟨hu, -⟩ | ⟨v, rfl, hv⟩
  · exact .inl hu
  · rcases List.append_eq_append_iff.mp hv with ⟨first, rfl, hclose⟩ | ⟨last, rfl, hclose⟩
    · rcases List.cons_eq_append_iff.mp hclose with ⟨rfl, rfl⟩ | ⟨more, rfl, rfl⟩
      · exact .inr (.inl ⟨content, [], by simp, by simp, rfl⟩)
      · exact .inr (.inr ⟨more, rfl, rfl⟩)
    · exact .inr (.inl ⟨v, last, rfl, rfl, hclose⟩)

theorem place_in_group (h : opener :: (content ++ closer :: text) = before ++ separator :: after)
    (hopen : separator ≠ opener) (hclose : separator ≠ closer) :
    (∃ first last, before = opener :: first ∧ after = last ++ closer :: text ∧
        content = first ++ separator :: last) ∨
      ∃ first, before = opener :: (content ++ [closer]) ++ first ∧
        text = first ++ separator :: after := by
  rcases group_eq_append h with rfl | ⟨first, last, rfl, rfl, hlast⟩ | ⟨first, rfl, hafter⟩
  · exact absurd (List.head_eq_of_cons_eq h).symm hopen
  · rcases List.cons_eq_append_iff.mp hlast with ⟨-, heq⟩ | ⟨others, rfl, rfl⟩
    · exact absurd (List.head_eq_of_cons_eq heq).symm hclose
    · exact .inl ⟨first, others, rfl, rfl, rfl⟩
  · exact .inr ⟨first, by simp, hafter⟩

/-- Nowhere in the text is more closed than was opened, and `#` are counted only on the outermost
level, if tags are allowed there. -/
def Steady (tags : Bool) (text : List Char) : Prop :=
  ∀ u w, text = u ++ w → Whole u → 0 ≤ balance u ∧
    ∀ depth : Int, 0 < depth ∨ (depth = 0 ∧ tags = false) → outerHashes depth u = 0

theorem steady_nil : Steady tags [] := by
  intro u w h _
  obtain ⟨rfl, -⟩ := List.append_eq_nil_iff.mp h.symm
  exact ⟨le_rfl, fun _ _ => rfl⟩

theorem Steady.escape (h : Steady tags text) : Steady tags ('\\' :: c :: text) := by
  intro u w htext hu
  rcases escape_eq_append hu htext with rfl | ⟨first, rfl, hfirst, hwhole⟩
  · exact ⟨le_rfl, fun _ _ => rfl⟩
  · exact h first w hfirst hwhole

theorem Steady.cons (hc : c ∉ delimiters) (h : Steady tags text) : Steady tags (c :: text) := by
  obtain ⟨hescape, hhash, -⟩ := ne_of_notMem_delimiters hc
  intro u w htext hu
  rcases List.cons_eq_append_iff.mp htext with ⟨rfl, -⟩ | ⟨v, rfl, rfl⟩
  · exact ⟨le_rfl, fun _ _ => rfl⟩
  · obtain ⟨hbalance, hhashes⟩ := h v w rfl ((whole_cons hescape).mp hu)
    rw [balance_cons hescape, weight_of_notMem_delimiters hc, zero_add]
    refine ⟨hbalance, fun depth hd => ?_⟩
    rw [outerHashes_cons hescape, weight_of_notMem_delimiters hc, add_zero, hhashes depth hd]
    simp [hhash]

theorem Steady.group (hopen : opener ≠ '\\') (hclose : closer ≠ '\\') (hweight : 0 ≤ weight opener)
    (hback : weight opener + weight closer = 0)
    (hdeep : ∀ depth : Int, 0 < depth ∨ (depth = 0 ∧ tags = false) → 0 < depth + weight opener)
    (hwhole : Whole content) (hzero : balance content = 0) (hcontent : Steady inner content)
    (htext : Steady tags text) : Steady tags (opener :: (content ++ closer :: text)) := by
  have hhash : ∀ depth : Int, 0 < depth ∨ (depth = 0 ∧ tags = false) →
      ¬ (opener = '#' ∧ depth = 0) := by
    rintro depth hd ⟨rfl, rfl⟩
    exact absurd (hdeep 0 hd) (by decide)
  intro u w heq hu
  rcases group_eq_append heq with rfl | ⟨first, last, rfl, rfl, -⟩ | ⟨first, rfl, rfl⟩
  · exact ⟨le_rfl, fun _ _ => rfl⟩
  · obtain ⟨hbalance, hhashes⟩ := hcontent first last rfl ((whole_cons hopen).mp hu)
    refine ⟨?_, fun depth hd => ?_⟩
    · rw [balance_cons hopen]
      omega
    · rw [outerHashes_cons hopen, if_neg (hhash depth hd), hhashes _ (.inl (hdeep depth hd))]
  · rw [whole_cons hopen, hwhole.append_iff, whole_cons hclose] at hu
    obtain ⟨hbalance, hhashes⟩ := htext first w rfl hu
    refine ⟨?_, fun depth hd => ?_⟩
    · rw [balance_group hopen hclose hwhole, hzero]
      omega
    · have hinside : 0 < depth + weight opener := hdeep depth hd
      have hcontent := (hcontent content [] (by simp) hwhole).2 _ (.inl hinside)
      rw [outerHashes_group hopen hclose hback hwhole hzero, if_neg (hhash depth hd), hcontent,
        if_neg (by omega), hhashes depth hd]

theorem Balanced.steady (h : Balanced plain tags text) : Steady tags text := by
  induction h with
  | nil => exact steady_nil
  | escaped c _ ih => exact ih.escape
  | plain c hc _ _ ih => exact ih.cons hc
  | brackets hcontent _ ihc ih =>
    refine ihc.group (by decide) (by decide) (by decide) (by decide) (fun depth hd => ?_)
      hcontent.whole hcontent.balance_eq_zero ih
    rw [show weight '[' = 1 from rfl]
    omega
  | parentheses hcontent _ ihc ih =>
    refine ihc.group (by decide) (by decide) (by decide) (by decide) (fun depth hd => ?_)
      hcontent.whole hcontent.balance_eq_zero ih
    rw [show weight '(' = 1 from rfl]
    omega
  | tag htags hcontent _ ihc ih =>
    refine ihc.group (by decide) (by decide) (by decide) (by decide) (fun depth hd => ?_)
      hcontent.whole hcontent.balance_eq_zero ih
    rw [show weight '#' = 0 from rfl, add_zero]
    exact hd.resolve_right fun h => by simp [htags] at h

theorem Balanced.outerHashes_eq_zero (h : Balanced plain tags text)
    (hd : 0 < depth ∨ (depth = 0 ∧ tags = false)) : outerHashes depth text = 0 :=
  (h.steady text [] (List.append_nil text).symm h.whole).2 depth hd

theorem Balanced.outerHashes_group (h : Balanced plain tags content) (hopen : opener ≠ '\\')
    (hclose : closer ≠ '\\') (hback : weight opener + weight closer = 0)
    (hd : 0 < depth + weight opener ∨ (depth + weight opener = 0 ∧ tags = false)) :
    outerHashes depth (opener :: (content ++ closer :: rest)) =
      (if opener = '#' ∧ depth = 0 then 1 else 0) +
        ((if closer = '#' ∧ depth + weight opener = 0 then 1 else 0) + outerHashes depth rest) := by
  rw [Scan.outerHashes_group hopen hclose hback h.whole h.balance_eq_zero, h.outerHashes_eq_zero hd,
    Nat.zero_add]

theorem Balanced.even_outerHashes (h : Balanced plain tags text) : Even (outerHashes 0 text) := by
  induction h with
  | nil => exact Even.zero
  | escaped c _ ih => exact ih
  | plain c hc _ _ ih =>
    obtain ⟨hescape, hhash, -⟩ := ne_of_notMem_delimiters hc
    rw [outerHashes_cons hescape, weight_of_notMem_delimiters hc, if_neg fun h => hhash h.1]
    simpa using ih
  | brackets hcontent _ _ ih =>
    rw [hcontent.outerHashes_group (by decide) (by decide) (by decide) (.inl (by decide))]
    simpa using ih
  | parentheses hcontent _ _ ih =>
    rw [hcontent.outerHashes_group (by decide) (by decide) (by decide) (.inl (by decide))]
    simpa using ih
  | tag _ hcontent _ _ ih =>
    -- Its own two are all that a tag adds.
    rw [hcontent.outerHashes_group (by decide) (by decide) (by decide) (.inr ⟨by decide, rfl⟩)]
    simpa [weight, ← add_assoc, Nat.even_add] using ih

theorem InTheOpen.of_append (h : InTheOpen separator (text ++ before) after)
    (htext : Balanced (fun _ => True) true text) : InTheOpen separator before after := by
  refine ⟨htext.whole.append_iff.mp h.unescaped, ?_, ?_, ?_⟩
  · rintro ⟨outside, first, last, others, rfl, rfl, hwhole, hcontent⟩
    exact h.brackets ⟨text ++ outside, first, last, others, (List.append_assoc ..).symm, rfl,
      htext.whole.append_iff.mpr hwhole, hcontent⟩
  · rintro ⟨outside, first, last, others, rfl, rfl, hwhole, hcontent⟩
    exact h.parentheses ⟨text ++ outside, first, last, others, (List.append_assoc ..).symm, rfl,
      htext.whole.append_iff.mpr hwhole, hcontent⟩
  · rintro ⟨outside, first, last, others, rfl, rfl, hbalanced, hcontent⟩
    exact h.tag ⟨text ++ outside, first, last, others, (List.append_assoc ..).symm, rfl,
      htext.append hbalanced, hcontent⟩

theorem InTheOpen.balanced (h : Balanced plain tags text) (hs : separator ∉ delimiters)
    (htext : text = before ++ separator :: after) (hopen : InTheOpen separator before after) :
    Balanced (fun _ => True) true before := by
  obtain ⟨hescape, hhash, hbracket, hbracket', hparen, hparen'⟩ := ne_of_notMem_delimiters hs
  induction h generalizing before with
  | nil => cases List.append_eq_nil_iff.mp htext.symm |>.2
  | escaped c _ ih =>
    rcases escape_eq_append hopen.unescaped htext with rfl | ⟨first, rfl, hrest, -⟩
    · exact absurd (List.head_eq_of_cons_eq htext).symm hescape
    · have hpair : Balanced (fun _ => True) true ['\\', c] := .escaped c .nil
      exact hpair.append (ih hrest (hopen.of_append hpair))
  | plain c hc _ _ ih =>
    rcases List.cons_eq_append_iff.mp htext with ⟨rfl, -⟩ | ⟨first, rfl, hrest⟩
    · exact .nil
    · have hone : Balanced (fun _ => True) true [c] := .plain c hc trivial .nil
      exact hone.append (ih hrest (hopen.of_append hone))
  | @brackets _ _ content _ hcontent _ _ ih =>
    rcases place_in_group htext hbracket hbracket' with
      ⟨first, last, rfl, rfl, rfl⟩ | ⟨first, rfl, hrest⟩
    · exact absurd ⟨[], first, last, _, rfl, rfl, .nil, hcontent⟩ hopen.brackets
    · have hgroup : Balanced (fun _ => True) true ('[' :: (content ++ [']'])) :=
        .brackets hcontent .nil
      exact hgroup.append (ih hrest (hopen.of_append hgroup))
  | @parentheses _ _ content _ hcontent _ _ ih =>
    rcases place_in_group htext hparen hparen' with
      ⟨first, last, rfl, rfl, rfl⟩ | ⟨first, rfl, hrest⟩
    · exact absurd ⟨[], first, last, _, rfl, rfl, .nil, hcontent.inside⟩ hopen.parentheses
    · have hgroup : Balanced (fun _ => True) true ('(' :: (content ++ [')'])) :=
        .parentheses hcontent.inside .nil
      exact hgroup.append (ih hrest (hopen.of_append hgroup))
  | @tag _ _ content _ _ hcontent _ _ ih =>
    rcases place_in_group htext hhash hhash with ⟨first, last, rfl, rfl, rfl⟩ | ⟨first, rfl, hrest⟩
    · exact absurd ⟨[], first, last, _, rfl, rfl, .nil, hcontent⟩ hopen.tag
    · have hgroup : Balanced (fun _ => True) true ('#' :: (content ++ ['#'])) :=
        .tag rfl hcontent .nil
      exact hgroup.append (ih hrest (hopen.of_append hgroup))

/-- The places where a text is cut, as they are counted out. -/
def countedPlaces (separator : Char) (text : List Char) : Set (List Char) :=
  {before | ∃ after, text = before ++ separator :: after ∧ Whole before ∧ balance before = 0 ∧
    Even (outerHashes 0 before)}

/-- The places of the separators on the outermost level. -/
def openPlaces (separator : Char) (text : List Char) : Set (List Char) :=
  {before | ∃ after, text = before ++ separator :: after ∧ InTheOpen separator before after}

theorem mem_cuts (hs : separator ∉ delimiters) (text before : List Char) :
    before ∈ cuts separator (splitTopLevel separator text) ↔
      before ∈ countedPlaces separator text := by
  rw [splitTopLevel, mem_cuts_splitFrom hs]
  simp [CountsOut, countedPlaces]

theorem length_splitTopLevel (hs : separator ∉ delimiters) (text : List Char) :
    (splitTopLevel separator text).length = (countedPlaces separator text).ncard + 1 := by
  have hplaces : countedPlaces separator text =
      ((cuts separator (splitTopLevel separator text)).toFinset : Set (List Char)) := by
    ext before
    simp [mem_cuts hs]
  have hne : splitTopLevel separator text ≠ [] := splitFrom_ne_nil _ _ _ _
  rw [hplaces, Set.ncard_coe_finset, List.toFinset_card_of_nodup (nodup_cuts _), length_cuts hne]

theorem splitTopLevel_joined (hs : separator ∉ delimiters) (text : List Char) :
    [separator].intercalate (splitTopLevel separator text) = text :=
  splitFrom_joined hs 0 false text

theorem splitTopLevel_eq_singleton (hs : separator ∉ delimiters) {part : List Char}
    (h : splitTopLevel separator text = [part]) : part = text := by
  have hjoined := splitTopLevel_joined hs text
  rwa [h, List.intercalate_singleton] at hjoined

theorem splitTopLevel_of_notMem (hs : separator ∉ delimiters) (h : separator ∉ text) :
    splitTopLevel separator text = [text] := by
  have hlength := length_splitTopLevel hs text
  have hnowhere : countedPlaces separator text = ∅ := by
    refine Set.eq_empty_of_forall_notMem fun before hbefore => ?_
    obtain ⟨after, rfl, -⟩ := hbefore
    exact h (List.mem_append_right _ List.mem_cons_self)
  rw [hnowhere, Set.ncard_empty, List.length_eq_one_iff] at hlength
  obtain ⟨part, hpart⟩ := hlength
  rw [hpart, splitTopLevel_eq_singleton hs hpart]

theorem balance_pos_of_between (hweight : weight opener = 1) (h : Balanced plain tags text)
    (htext : text = before ++ separator :: after) (hwhole : Whole before)
    (hbetween : Between opener closer separator before after) : 0 < balance before := by
  obtain ⟨outside, first, last, others, rfl, rfl, houtside, hcontent⟩ := hbetween
  have hescape : opener ≠ '\\' := by
    rintro rfl
    exact absurd hweight (by decide)
  have hfirst : Whole first := (whole_cons hescape).mp (houtside.append_iff.mp hwhole)
  have hbalance := (h.steady outside _ (by rw [htext, List.append_assoc]) houtside).1
  have hinside := (hcontent.steady first _ rfl hfirst).1
  rw [houtside.balance_append, balance_cons hescape, hweight]
  omega

theorem not_even_of_inTag (hwhole : Whole before) (htag : InTag separator before after) :
    ¬ Even (outerHashes 0 before) := by
  obtain ⟨outside, first, last, others, rfl, rfl, houtside, hcontent⟩ := htag
  have hfirst : Whole first :=
    (whole_cons (by decide)).mp (houtside.whole.append_iff.mp hwhole)
  have hinside : outerHashes 0 first = 0 :=
    (hcontent.steady first _ rfl hfirst).2 0 (.inr ⟨rfl, rfl⟩)
  have hcount : outerHashes 0 (outside ++ '#' :: first) = outerHashes 0 outside + 1 := by
    rw [houtside.whole.outerHashes_append, houtside.balance_eq_zero, outerHashes_cons (by decide)]
    simp [weight, hinside]
  rw [hcount, Nat.even_add_one, not_not]
  exact houtside.even_outerHashes

theorem countedPlaces_eq_openPlaces (hs : separator ∉ delimiters)
    (h : Balanced (fun _ => True) true text) :
    countedPlaces separator text = openPlaces separator text := by
  ext before
  constructor
  · rintro ⟨after, htext, hwhole, hbalance, heven⟩
    refine ⟨after, htext, hwhole, fun hbetween => ?_, fun hbetween => ?_, fun htag => ?_⟩
    · have hpos := balance_pos_of_between rfl h htext hwhole hbetween
      omega
    · have hpos := balance_pos_of_between rfl h htext hwhole hbetween
      omega
    · exact not_even_of_inTag hwhole htag heven
  · rintro ⟨after, htext, hopen⟩
    have hbefore := hopen.balanced h hs htext
    exact ⟨after, htext, hbefore.whole, hbefore.balance_eq_zero, hbefore.even_outerHashes⟩

end Scan

open Scan

theorem Action.parseWith_push {rule : List Char → Except ParseError Template}
    {content key value : List Char} {k : String} {rules : List Template}
    (hsplit : splitAtFirst? ':' content = some (key, value))
    (h : Action.parseWith rule content = .ok (.push k rules)) :
    k = String.ofList key ∧ (splitTopLevel ',' value).mapM rule = .ok rules := by
  rw [Action.parseWith, hsplit] at h
  dsimp only at h
  split at h
  next => cases h
  next =>
    split at h
    next => cases h
    next =>
      obtain ⟨found, hfound, hpush⟩ := bind_eq_ok.mp h
      cases hpush
      exact ⟨rfl, hfound⟩

theorem Action.length_rules {rule : List Char → Except ParseError Template} {key value : List Char}
    {k : String} {rules : List Template} (hkey : ':' ∉ key)
    (h : Action.parseWith rule (key ++ ':' :: value) = .ok (.push k rules)) :
    rules.length = (countedPlaces ',' value).ncard + 1 := by
  obtain ⟨-, hrules⟩ := Action.parseWith_push (splitAtFirst?_append hkey value) h
  rw [← (mapM_eq_ok_iff.mp hrules).length_eq, length_splitTopLevel (by decide)]

theorem ModifierCall.length_params {name list : List Char} {call : ModifierCall}
    (hname : '(' ∉ name) (hlist : list ≠ [])
    (h : ModifierCall.parse (name ++ '(' :: (list ++ [')'])) = .ok call) :
    call.params.length = (countedPlaces ',' list).ncard + 1 := by
  unfold ModifierCall.parse at h
  dsimp only at h
  rw [splitAtFirst?_append hname] at h
  by_cases hempty : name = []
  · simp [hempty, hlist, bind, Except.bind, pure, Except.pure, throw, throwThe,
      MonadExceptOf.throw] at h
  · simp only [List.getLast?_concat, List.dropLast_concat, List.isEmpty_iff, hlist, hempty, bind,
      Except.bind, pure, Except.pure, if_true, if_false, Except.ok.injEq] at h
    rw [← h, List.length_map, List.length_map, length_splitTopLevel (by decide)]

/-- The places where a text is cut are counted out, and the parts between them are the text. In
balanced text they are the separators on the outermost level. So many commas, and one more, are the
rules of a push and the parameters of a modifier. -/
theorem cuts_exact {separator : Char} (hs : separator ∉ delimiters) (text : List Char) :
    [separator].intercalate (splitTopLevel separator text) = text ∧
    {before | before ∈ cuts separator (splitTopLevel separator text)} =
      countedPlaces separator text ∧
    (Balanced (fun _ => True) true text →
      countedPlaces separator text = openPlaces separator text) ∧
    (∀ rule key k rules, ':' ∉ key →
      Action.parseWith rule (key ++ ':' :: text) = .ok (.push k rules) →
        rules.length = (countedPlaces ',' text).ncard + 1) ∧
    ∀ name call, '(' ∉ name → text ≠ [] →
      ModifierCall.parse (name ++ '(' :: (text ++ [')'])) = .ok call →
        call.params.length = (countedPlaces ',' text).ncard + 1 := by
  refine ⟨?_, ?_, ?_, ?_, ?_⟩
  · exact splitTopLevel_joined hs text
  · exact Set.ext (mem_cuts hs text)
  · exact countedPlaces_eq_openPlaces hs
  · exact fun _ _ _ _ => Action.length_rules
  · exact fun _ _ => ModifierCall.length_params

/-- Of the commas in `a,(b,c)` the first one is on the outermost level. -/
theorem nested_comma_kept :
    openPlaces ',' "a,(b,c)".toList = {['a']} ∧
    (∃ rules, Action.parseWith Template.parseChars "k:a,(b,c)".toList = .ok (.push "k" rules) ∧
      rules.length = (countedPlaces ',' "a,(b,c)".toList).ncard + 1) ∧
    ∃ call, ModifierCall.parse "replace(a,(b,c))".toList = .ok call ∧
      call.params.length = (countedPlaces ',' "a,(b,c)".toList).ncard + 1 := by
  have hbalanced : Balanced (fun _ => True) true "a,(b,c)".toList := by
    have hinside : Balanced (fun _ => True) true ['b', ',', 'c'] :=
      balanced_of_plain (by simp [delimiters])
    have hgroup : Balanced (fun _ => True) true "(b,c)".toList := .parentheses hinside .nil
    exact .plain 'a' (by decide) trivial (.plain ',' (by decide) trivial hgroup)
  have hpush : Action.parseWith Template.parseChars "k:a,(b,c)".toList =
      .ok (.push "k" [.literal "a", .literal "(b,c)"]) := by cbv
  have hcall : ModifierCall.parse "replace(a,(b,c))".toList = .ok ⟨"replace", ["a", "(b,c)"]⟩ := by
    cbv
  obtain ⟨-, hcuts, hopen, hrules, hparams⟩ :=
    cuts_exact (by decide : ',' ∉ delimiters) "a,(b,c)".toList
  refine ⟨?_, ⟨_, hpush, ?_⟩, _, hcall, ?_⟩
  · rw [← hopen hbalanced, ← hcuts]
    ext before
    rw [show splitTopLevel ',' "a,(b,c)".toList = ["a".toList, "(b,c)".toList] by decide]
    simp [cuts]
  · exact hrules Template.parseChars ['k'] _ _ (by decide) hpush
  · exact hparams "replace".toList _ (by decide) (by decide) hcall

/-- A `)` that nothing opened hides the comma after it. -/
theorem smiley_hides_comma : ¬ ∀ separator text, separator ∉ delimiters →
    {before | before ∈ cuts separator (splitTopLevel separator text)} =
      openPlaces separator text := by
  intro hclaim
  have hnothing : ∀ (opener : Char) (outside first : List Char), opener ≠ ')' →
      [')'] ≠ outside ++ opener :: first := by
    intro opener outside first hne heq
    have hmem : opener ∈ [')'] := heq ▸ List.mem_append_right outside List.mem_cons_self
    exact hne (List.mem_singleton.mp hmem)
  have hopen : [')'] ∈ openPlaces ',' "),x".toList := by
    refine ⟨['x'], rfl, .cons (by decide) .nil, ?_, ?_, ?_⟩
    · rintro ⟨outside, first, -, -, hbefore, -⟩
      exact hnothing '[' outside first (by decide) hbefore
    · rintro ⟨outside, first, -, -, hbefore, -⟩
      exact hnothing '(' outside first (by decide) hbefore
    · rintro ⟨outside, first, -, -, hbefore, -⟩
      exact hnothing '#' outside first (by decide) hbefore
  rw [← hclaim ',' _ (by decide), Set.mem_ofPred_eq] at hopen
  exact absurd hopen (by decide)

end Announcer
