import Announcer.Proofs.Expansion.Contract
import Mathlib

/-! # Uniform choice

The draws of an alternative that are kept are consecutive, and they are as many for one alternative
as for any other. At least half of all draws are kept. A generator passes over the draws that are not
kept and takes the alternative of the first one that is.
-/
namespace Announcer.Chance

open Finset (range)

def leadingZeros (n : ℕ) : ℕ := (BitVec.ofNat 64 n).clz.toNat

section Zone

variable {n : ℕ} (hpos : 0 < n) (hword : n < 2 ^ 64)

include hpos hword

theorem log2_eq_leadingZeros : leadingZeros n < 64 ∧ n.log2 = 63 - leadingZeros n := by
  have hn : (BitVec.ofNat 64 n).toNat = n := by
    rw [BitVec.toNat_ofNat, Nat.mod_eq_of_lt hword]
  have hne : BitVec.ofNat 64 n ≠ 0#64 := by
    intro hzero
    rw [hzero] at hn
    exact hpos.ne hn
  have hle := BitVec.two_pow_sub_clz_le_toNat_of_ne_zero (by decide) hne
  have hlt := BitVec.toNat_lt_two_pow_sub_clz (x := BitVec.ofNat 64 n)
  rw [hn] at hle hlt
  change 2 ^ (63 - leadingZeros n) ≤ n at hle
  change n < 2 ^ (64 - leadingZeros n) at hlt
  have hbelow : leadingZeros n < 64 := by
    by_contra hmany
    rw [Nat.sub_eq_zero_of_le (by omega)] at hlt
    omega
  refine ⟨hbelow, (Nat.log2_eq_iff hpos.ne').mpr ⟨hle, ?_⟩⟩
  rwa [show 63 - leadingZeros n + 1 = 64 - leadingZeros n by omega]

theorem zone_eq : zone n = n * 2 ^ leadingZeros n - 1 := by
  obtain ⟨hbelow, hlog⟩ := log2_eq_leadingZeros hpos hword
  rw [zone, hlog, Nat.sub_sub_self (by omega)]
  rfl

theorem shifted_bounds : 2 ^ 63 ≤ n * 2 ^ leadingZeros n ∧ n * 2 ^ leadingZeros n < 2 ^ 64 := by
  obtain ⟨hbelow, hlog⟩ := log2_eq_leadingZeros hpos hword
  obtain ⟨hle, hlt⟩ := (Nat.log2_eq_iff hpos.ne').mp hlog
  have hpow : 0 < 2 ^ leadingZeros n := Nat.two_pow_pos _
  constructor
  · calc 2 ^ 63 = 2 ^ (63 - leadingZeros n) * 2 ^ leadingZeros n := by
          rw [← Nat.pow_add, Nat.sub_add_cancel (by omega)]
      _ ≤ n * 2 ^ leadingZeros n := Nat.mul_le_mul_right _ hle
  · calc n * 2 ^ leadingZeros n < 2 ^ (63 - leadingZeros n + 1) * 2 ^ leadingZeros n :=
          Nat.mul_lt_mul_of_pos_right hlt hpow
      _ = 2 ^ 64 := by rw [← Nat.pow_add]; congr 1; omega

/-- The draws of an alternative that are kept are those whose products lie in its zone. -/
theorem kept_iff {i v : ℕ} : accepts n v = true ∧ index n v = i ↔
    i * 2 ^ 64 ≤ v * n ∧ v * n < i * 2 ^ 64 + n * 2 ^ leadingZeros n := by
  obtain ⟨hle, hlt⟩ := shifted_bounds hpos hword
  rw [accepts, decide_eq_true_eq, zone_eq hpos hword, index, Nat.pow_eq]
  generalize n * 2 ^ leadingZeros n = size at hle hlt ⊢
  generalize v * n = product
  omega

/-- The kept draws of an alternative follow one another, as many as the zeros say. -/
theorem kept_eq_Ico {i : ℕ} (hi : i < n) :
    {v ∈ range (2 ^ 64) | accepts n v = true ∧ index n v = i} =
      Finset.Ico (i * 2 ^ 64 ⌈/⌉ n) (i * 2 ^ 64 ⌈/⌉ n + 2 ^ leadingZeros n) := by
  have hshifted := (shifted_bounds hpos hword).2
  have hfirst : ∀ v, i * 2 ^ 64 ≤ v * n ↔ i * 2 ^ 64 ⌈/⌉ n ≤ v := by
    intro v
    rw [ceilDiv_le_iff_le_mul hpos, Nat.mul_comm n]
  have hlast : ∀ v, v * n < i * 2 ^ 64 + n * 2 ^ leadingZeros n ↔
      v < i * 2 ^ 64 ⌈/⌉ n + 2 ^ leadingZeros n := by
    intro v
    rcases Nat.lt_or_ge v (2 ^ leadingZeros n) with hsmall | hlarge
    · have hproduct : v * n < n * 2 ^ leadingZeros n := by
        rw [Nat.mul_comm n]
        exact Nat.mul_lt_mul_of_pos_right hsmall hpos
      exact ⟨fun _ => by omega, fun _ => by omega⟩
    · obtain ⟨w, rfl⟩ := Nat.exists_eq_add_of_le' hlarge
      rw [Nat.add_mul, Nat.mul_comm n, Nat.add_lt_add_iff_right, Nat.add_lt_add_iff_right]
      exact lt_iff_lt_of_le_iff_le (hfirst w)
  have hrange : ∀ v, v * n < i * 2 ^ 64 + n * 2 ^ leadingZeros n → v < 2 ^ 64 := by
    intro v hv
    refine Nat.lt_of_mul_lt_mul_right (a := n) ?_
    calc v * n < (i + 1) * 2 ^ 64 := by omega
      _ ≤ n * 2 ^ 64 := Nat.mul_le_mul_right _ hi
      _ = 2 ^ 64 * n := Nat.mul_comm _ _
  ext v
  rw [Finset.mem_filter, Finset.mem_range, kept_iff hpos hword, Finset.mem_Ico, ← hfirst, ← hlast]
  exact ⟨fun h => h.2, fun h => ⟨hrange v h.2, h⟩⟩

theorem card_kept {i : ℕ} (hi : i < n) :
    Finset.card {v ∈ range (2 ^ 64) | accepts n v = true ∧ index n v = i} = 2 ^ leadingZeros n := by
  rw [kept_eq_Ico hpos hword hi, Nat.card_Ico, Nat.add_sub_cancel_left]

theorem card_accepted :
    Finset.card {v ∈ range (2 ^ 64) | accepts n v = true} = n * 2 ^ leadingZeros n := by
  have hindex : ∀ v ∈ Finset.filter (fun v => accepts n v = true) (range (2 ^ 64)),
      index n v ∈ range n := by
    intro v hv
    exact Finset.mem_range.mpr
      (index_lt hpos (Finset.mem_range.mp (Finset.mem_of_mem_filter v hv)))
  rw [Finset.card_eq_sum_card_fiberwise hindex]
  simp only [Finset.filter_filter]
  rw [Finset.sum_congr rfl fun i hi => card_kept hpos hword (Finset.mem_range.mp hi),
    Finset.sum_const, Finset.card_range, smul_eq_mul]

end Zone

theorem block_congr (key : Key) {counter other : ℕ}
    (hlow : UInt32.ofNat counter = UInt32.ofNat other)
    (hhigh : UInt32.ofNat (counter / Nat.pow 2 32) = UInt32.ofNat (other / Nat.pow 2 32)) :
    block key counter = block key other := by
  have hstart : startBlock key counter = startBlock key other := by
    rw [startBlock, startBlock, hlow, hhigh]
  rw [block, block, hstart]

theorem block_period (key : Key) (counter : ℕ) :
    block key (counter + 2 ^ 64) = block key counter := by
  apply block_congr
  · apply UInt32.toNat.inj
    rw [UInt32.toNat_ofNat', UInt32.toNat_ofNat']
    omega
  · apply UInt32.toNat.inj
    rw [UInt32.toNat_ofNat', UInt32.toNat_ofNat', Nat.pow_eq]
    omega

theorem word_period (key : Key) (position : ℕ) :
    word key (position + 2 ^ 68) = word key position := by
  have hblock : (position + 2 ^ 68) / 16 = position / 16 + 2 ^ 64 := by omega
  have hplace : (position + 2 ^ 68) % 16 = position % 16 := by omega
  simp only [word, hblock, hplace, block_period]

namespace Generator

def skip (g : Generator) (draws : ℕ) : Generator := ⟨g.key, g.position + 2 * draws⟩

def drawAfter (g : Generator) (draws : ℕ) : UInt64 := (g.skip draws).draw.1

theorem skip_skip (g : Generator) (i j : ℕ) : (g.skip i).skip j = g.skip (i + j) := by
  simp only [skip, mk.injEq, true_and]
  omega

theorem drawAfter_skip (g : Generator) (i j : ℕ) : (g.skip i).drawAfter j = g.drawAfter (i + j) := by
  rw [drawAfter, skip_skip, drawAfter]

/-- The stream begins anew when the counter of its blocks does. -/
theorem drawAfter_period (g : Generator) (draws : ℕ) :
    g.drawAfter (draws + period) = g.drawAfter draws := by
  have hlow : g.position + 2 * (draws + period) = g.position + 2 * draws + 2 ^ 68 := by
    rw [period, Nat.pow_eq]
    omega
  have hhigh : g.position + 2 * draws + 2 ^ 68 + 1 = g.position + 2 * draws + 1 + 2 ^ 68 := by omega
  simp only [drawAfter, skip, draw, hlow, hhigh, word_period]

/-- After so many draws that are thrown away comes one that is kept. -/
structure KeptAfter (n : ℕ) (g : Generator) (draws : ℕ) : Prop where
  kept : accepts n (g.drawAfter draws).toNat = true
  thrown : ∀ i < draws, accepts n (g.drawAfter i).toNat = false

variable {n : ℕ} {g : Generator} {draws : ℕ}

theorem KeptAfter.lt_period (h : KeptAfter n g draws) : draws < period := by
  by_contra hle
  obtain ⟨earlier, rfl⟩ := Nat.exists_eq_add_of_le' (Nat.not_lt.mp hle)
  have hperiod : 0 < period := Nat.two_pow_pos 67
  have hthrown := h.thrown earlier (by omega)
  rw [← drawAfter_period, h.kept] at hthrown
  cases hthrown

/-- The first draw that is kept decides, and the draws up to it are used. -/
theorem pick_of_kept (hpos : 0 < n) (h : KeptAfter n g draws) {tries : ℕ} (htries : draws < tries) :
    pick n hpos tries g =
      (⟨index n (g.drawAfter draws).toNat, index_lt hpos (UInt64.toNat_lt _)⟩,
        g.skip (draws + 1)) := by
  induction draws generalizing g tries with
  | zero =>
    obtain ⟨tries, rfl⟩ := Nat.exists_eq_add_one_of_ne_zero (Nat.ne_zero_of_lt htries)
    have hkept : accepts n g.draw.1.toNat = true := h.kept
    rw [pick]
    simp only [hkept, if_true]
    rfl
  | succ draws ih =>
    obtain ⟨tries, rfl⟩ := Nat.exists_eq_add_one_of_ne_zero (Nat.ne_zero_of_lt htries)
    have hthrown : accepts n g.draw.1.toNat = false := h.thrown 0 (by omega)
    have hlater : KeptAfter n (g.skip 1) draws := by
      refine ⟨?_, fun i hi => ?_⟩
      · rw [drawAfter_skip, Nat.add_comm]
        exact h.kept
      · rw [drawAfter_skip, Nat.add_comm]
        exact h.thrown (i + 1) (by omega)
    rw [pick]
    simp only [hthrown, Bool.false_eq_true, if_false]
    change pick n hpos tries (g.skip 1) = _
    rw [ih hlater (by omega)]
    simp only [drawAfter_skip, skip_skip, Nat.add_comm 1]

theorem choose_of_kept (hpos : 0 < n) (h : KeptAfter n g draws) :
    ChoiceSource.choose n hpos g =
      (⟨index n (g.drawAfter draws).toNat, index_lt hpos (UInt64.toNat_lt _)⟩,
        g.skip (draws + 1)) :=
  pick_of_kept hpos h h.lt_period

end Generator

/-- No alternative of `n` has more draws than another, and no more draws are thrown away than kept. -/
structure Fair (n : ℕ) : Prop where
  zone : zone n = n * 2 ^ leadingZeros n - 1
  equal : ∀ i < n,
    Finset.card {v ∈ range (2 ^ 64) | accepts n v = true ∧ index n v = i} = 2 ^ leadingZeros n
  within : ∀ v < 2 ^ 64, index n v < n
  half : 2 ^ 64 ≤ 2 * Finset.card {v ∈ range (2 ^ 64) | accepts n v = true}

theorem fair {n : ℕ} (hpos : 0 < n) (hword : n < 2 ^ 64) : Fair n where
  zone := zone_eq hpos hword
  equal _ hi := card_kept hpos hword hi
  within _ hv := index_lt hpos hv
  half := by
    have hshifted := (shifted_bounds hpos hword).1
    rw [card_accepted hpos hword]
    omega

open Expansion (alternatives? outcome outcome_select select)
open Generator (KeptAfter)

/-- Whatever the number of alternatives, the draws stand for each of them alike, and a symbol is given
the alternative that the first kept draw of the generator stands for. -/
theorem choice_uniform {n : ℕ} (hpos : 0 < n) (hword : n < 2 ^ 64) :
    Fair n ∧ ∀ (g : Grammar) (symbol : String) (s : ExpansionState Generator)
      (alternatives : List Template), alternatives? g s.pushes symbol = some alternatives →
      alternatives.length = n → ∀ draws, KeptAfter n s.source draws →
      ∃ alternative, alternatives[index n (s.source.drawAfter draws).toNat]? = some alternative ∧
        outcome (select g symbol) s =
          (.ok alternative, { s with source := s.source.skip (draws + 1) }) := by
  refine ⟨fair hpos hword, ?_⟩
  rintro g symbol s alternatives hfound rfl draws hkept
  have hindex : index alternatives.length (s.source.drawAfter draws).toNat < alternatives.length :=
    index_lt hpos (UInt64.toNat_lt _)
  refine ⟨alternatives[index alternatives.length (s.source.drawAfter draws).toNat],
    List.getElem?_eq_getElem hindex, ?_⟩
  rw [outcome_select, hfound]
  simp only [hpos, dite_true, Generator.choose_of_kept hpos hkept, List.get_eq_getElem]

def threeLetters : Grammar :=
  ⟨.ofList [("letter", ⟨"letter", [.literal "a", .literal "b", .literal "c"]⟩)], English.modifiers⟩

/-- The first draw of this seed is thrown away and the second one stands for the last letter. -/
theorem letter_after_thrown_draw :
    Finset.card {v ∈ range (2 ^ 64) | accepts 3 v = true ∧ index 3 v = 2} = 2 ^ 62 ∧
      KeptAfter 3 (.ofSeed 1) 1 ∧
      outcome (select threeLetters "letter") ⟨.empty, .ofSeed 1⟩ =
        (.ok (.literal "c"), ⟨.empty, (Generator.ofSeed 1).skip 2⟩) := by
  obtain ⟨hfair, hselect⟩ := choice_uniform (n := 3) (by decide) (by decide)
  have hzeros : leadingZeros 3 = 62 := by decide
  have hfirst : (Generator.ofSeed 1).drawAfter 0 = 17971643333364160609 := by decide +kernel
  have hsecond : (Generator.ofSeed 1).drawAfter 1 = 12751046405260142922 := by decide +kernel
  have hkept : KeptAfter 3 (.ofSeed 1) 1 := by
    refine ⟨by rw [hsecond]; decide, fun i hi => ?_⟩
    obtain rfl := Nat.lt_one_iff.mp hi
    rw [hfirst]
    decide
  have hindex : index 3 ((Generator.ofSeed 1).drawAfter 1).toNat = 2 := by
    rw [hsecond]
    decide
  refine ⟨hzeros ▸ hfair.equal 2 (by decide), hkept, ?_⟩
  obtain ⟨alternative, hfound, houtcome⟩ := hselect threeLetters "letter" ⟨.empty, .ofSeed 1⟩
    [.literal "a", .literal "b", .literal "c"] rfl rfl 1 hkept
  rw [hindex] at hfound
  cases hfound
  exact houtcome

end Announcer.Chance
