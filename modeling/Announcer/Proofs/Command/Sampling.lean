import Announcer.Command.Preview
import Announcer.Proofs.Command.Gathering

/-! # Sampling

The preview command takes pairs of a flag and a value after the path, and the last pair of a flag
counts. The first argument that does not fit stops it before the grammar is read, and a grammar that
cannot be read stops it before the first sample. The samples of a shorter preview with the same seed
are the first ones of a longer preview.
-/
namespace Announcer.Command.Preview

open Chance (ChoiceSource Generator)

/-- Decimal digits that make a number below `2 ^ 64`, with or without a plus sign. -/
def IsNumber (text : String) (n : ℕ) : Prop :=
  ∃ (sign : List Char) (digits : List ℕ), (sign = [] ∨ sign = ['+']) ∧ digits ≠ [] ∧
    (∀ d ∈ digits, d < 10) ∧ text.toList = sign ++ digits.map Nat.digitChar ∧
    n = Nat.ofDigits 10 digits.reverse ∧ n < 2 ^ 64

theorem IsNumber.lt {text : String} {n : ℕ} (h : IsNumber text n) : n < 2 ^ 64 := by
  obtain ⟨_, _, -, -, -, -, -, hlt⟩ := h
  exact hlt

theorem digitChar_bounds {d : ℕ} (hd : d < 10) :
    (Nat.digitChar d).isDigit = true ∧ (Nat.digitChar d).toNat - '0'.toNat = d := by
  interval_cases d <;> decide

theorem exists_digit {c : Char} (hc : c.isDigit = true) : ∃ d < 10, Nat.digitChar d = c := by
  have hbounds : 48 ≤ c.toNat ∧ c.toNat ≤ 57 := by
    simp only [Char.isDigit, ge_iff_le, Bool.and_eq_true, decide_eq_true_eq] at hc
    exact hc
  refine ⟨c.toNat - 48, by omega, ?_⟩
  rw [← Char.ofNat_toNat c]
  generalize c.toNat = n at hbounds
  obtain ⟨hlow, hhigh⟩ := hbounds
  interval_cases n <;> decide

theorem exists_digits {cs : List Char} (h : ∀ c ∈ cs, c.isDigit = true) :
    ∃ digits : List ℕ, (∀ d ∈ digits, d < 10) ∧ digits.map Nat.digitChar = cs := by
  induction cs with
  | nil => exact ⟨[], by simp, rfl⟩
  | cons c rest ih =>
    obtain ⟨hc, hrest⟩ := List.forall_mem_cons.mp h
    obtain ⟨d, hd, rfl⟩ := exists_digit hc
    obtain ⟨digits, hdigits, rfl⟩ := ih hrest
    exact ⟨d :: digits, List.forall_mem_cons.mpr ⟨hd, hdigits⟩, rfl⟩

theorem foldl_digits {digits : List ℕ} (h : ∀ d ∈ digits, d < 10) :
    (digits.map Nat.digitChar).foldl (fun n c => n * 10 + (c.toNat - '0'.toNat)) 0 =
      Nat.ofDigits 10 digits.reverse := by
  induction digits using List.reverseRecOn with
  | nil => rfl
  | append_singleton rest d ih =>
    have hd := (digitChar_bounds (h d (by simp))).2
    rw [List.map_append, List.foldl_append, ih fun e he => h e (by simp [he]), List.reverse_append,
      List.reverse_singleton, List.singleton_append, Nat.ofDigits_cons]
    simp only [List.map_cons, List.map_nil, List.foldl_cons, List.foldl_nil, hd]
    omega

def unsigned : List Char → List Char
  | '+' :: rest => rest
  | other => other

theorem exists_sign (text : List Char) :
    ∃ sign, (sign = [] ∨ sign = ['+']) ∧ text = sign ++ unsigned text := by
  unfold unsigned
  split
  · exact ⟨['+'], .inr rfl, rfl⟩
  · exact ⟨[], .inl rfl, rfl⟩

theorem unsigned_digits {sign : List Char} {digits : List ℕ} (hsign : sign = [] ∨ sign = ['+'])
    (hne : digits ≠ []) (hdigits : ∀ d ∈ digits, d < 10) :
    unsigned (sign ++ digits.map Nat.digitChar) = digits.map Nat.digitChar := by
  rcases hsign with rfl | rfl
  · obtain ⟨d, rest, rfl⟩ := List.exists_cons_of_ne_nil hne
    have hplus : Nat.digitChar d ≠ '+' := by
      intro heq
      have hdigit := (digitChar_bounds (hdigits d List.mem_cons_self)).1
      rw [heq] at hdigit
      exact absurd hdigit (by decide)
    rw [List.nil_append, List.map_cons, unsigned]
    intro others heq
    exact hplus (List.cons.inj heq).1
  · rfl

theorem number?_eq_some_iff {text : String} {n : ℕ} : number? text = some n ↔ IsNumber text n := by
  have hnumber : number? text =
      if (unsigned text.toList).isEmpty || !(unsigned text.toList).all Char.isDigit then none
      else
        let value := (unsigned text.toList).foldl (fun n c => n * 10 + (c.toNat - '0'.toNat)) 0
        if value < Nat.pow 2 64 then some value else none := rfl
  rw [hnumber]
  constructor
  · intro h
    split at h
    next => cases h
    next hform =>
      simp only [Bool.or_eq_true, Bool.not_eq_true', not_or, Bool.not_eq_false, List.isEmpty_iff,
        List.all_eq_true] at hform
      obtain ⟨hne, hall⟩ := hform
      obtain ⟨sign, hsign, htext⟩ := exists_sign text.toList
      obtain ⟨digits, hdigits, hchars⟩ := exists_digits hall
      rw [← hchars] at h htext hne
      rw [foldl_digits hdigits] at h
      dsimp only at h
      split at h
      next hlt =>
        cases h
        exact ⟨sign, digits, hsign, by simpa using hne, hdigits, htext, rfl, hlt⟩
      next => cases h
  · rintro ⟨sign, digits, hsign, hne, hdigits, htext, rfl, hlt⟩
    have hform : ¬ ((digits.map Nat.digitChar).isEmpty ||
        !(digits.map Nat.digitChar).all Char.isDigit) = true := by
      have hall : ∀ d ∈ digits, (Nat.digitChar d).isDigit = true :=
        fun d hd => (digitChar_bounds (hdigits d hd)).1
      simpa [hne] using hall
    rw [htext, unsigned_digits hsign hne hdigits, if_neg hform, foldl_digits hdigits]
    exact if_pos hlt

theorem number?_eq_none_iff {text : String} : number? text = none ↔ ¬ ∃ n, IsNumber text n := by
  simp [Option.eq_none_iff_forall_ne_some, number?_eq_some_iff]

inductive Flag where
  | origin
  | seed
  | count
deriving DecidableEq, Repr

def Flag.name : Flag → String
  | origin => "--origin"
  | seed => "--seed"
  | count => "--count"

abbrev Pair := Flag × String

def Pair.Fits (p : Pair) : Prop := p.1 = .origin ∨ ∃ n, IsNumber p.2 n

def written (pairs : List Pair) : List String := pairs.flatMap fun p => [p.1.name, p.2]

def lastValue? (flag : Flag) (pairs : List Pair) : Option String :=
  ((pairs.filter fun p => p.1 = flag).map Prod.snd).getLast?

/-- The settings that the last pairs give, and the default for a flag without a pair. -/
structure InForce (pairs : List Pair) (s : Settings) : Prop where
  origin : s.origin = (lastValue? .origin pairs).getD "#origin#"
  seed : match lastValue? .seed pairs with
    | none => s.seed = none
    | some value => ∃ seed, s.seed = some seed ∧ IsNumber value seed.toNat
  count : match lastValue? .count pairs with
    | none => s.count = 5
    | some value => IsNumber value s.count

/-- The first of the arguments is in the way: it is no flag, or has no value, or the value that it
has is not the number that it should be. -/
inductive Offends : List String → Complaint → Prop where
  | valueless (flag : Flag) : Offends [flag.name] (.unknownArgument flag.name)
  | unknown {arg} (rest) : (∀ flag : Flag, arg ≠ flag.name) →
      Offends (arg :: rest) (.unknownArgument arg)
  | seed {value} (rest) : (¬ ∃ n, IsNumber value n) → Offends ("--seed" :: value :: rest) .badSeed
  | count {value} (rest) : (¬ ∃ n, IsNumber value n) →
      Offends ("--count" :: value :: rest) .badCount

def FirstOffence (args : List String) (complaint : Complaint) : Prop :=
  ∃ (pairs : List Pair) (rest : List String), (∀ p ∈ pairs, p.Fits) ∧
    args = written pairs ++ rest ∧ Offends rest complaint

variable {pairs others : List Pair} {args rest : List String} {complaint : Complaint}

theorem lastValue?_append (flag : Flag) (pairs others : List Pair) :
    lastValue? flag (pairs ++ others) = (lastValue? flag others).or (lastValue? flag pairs) := by
  rw [lastValue?, List.filter_append, List.map_append, List.getLast?_append]
  rfl

def Settings.after (s : Settings) (pairs : List Pair) : Settings where
  origin := (lastValue? .origin pairs).getD s.origin
  seed := (lastValue? .seed pairs).elim s.seed fun value => (number? value).map UInt64.ofNat
  count := (lastValue? .count pairs).elim s.count fun value => (number? value).getD 0

theorem Settings.after_append (s : Settings) (pairs others : List Pair) :
    s.after (pairs ++ others) = (s.after pairs).after others := by
  simp only [after, lastValue?_append]
  cases lastValue? .origin others <;> cases lastValue? .seed others <;>
    cases lastValue? .count others <;> rfl

theorem update_written (h : ∀ p ∈ pairs, p.Fits) (s : Settings) (rest : List String) :
    s.update (written pairs ++ rest) = (s.after pairs).update rest := by
  induction pairs generalizing s with
  | nil => rfl
  | cons p more ih =>
    obtain ⟨hp, hmore⟩ := List.forall_mem_cons.mp h
    -- One pair leaves the settings that the other pairs are read with.
    have hstep : s.update (p.1.name :: p.2 :: (written more ++ rest)) =
        (s.after [p]).update (written more ++ rest) := by
      obtain ⟨flag, value⟩ := p
      cases flag with
      | origin => rfl
      | seed =>
        obtain ⟨n, hn⟩ := hp.resolve_left (by simp)
        have hread := number?_eq_some_iff.mpr hn
        simp [Flag.name, Settings.update, Settings.after, lastValue?, hread]
      | count =>
        obtain ⟨n, hn⟩ := hp.resolve_left (by simp)
        have hread := number?_eq_some_iff.mpr hn
        simp [Flag.name, Settings.update, Settings.after, lastValue?, hread]
    change s.update (p.1.name :: p.2 :: (written more ++ rest)) = _
    rw [hstep, ih hmore, ← Settings.after_append]
    rfl

theorem update_offends (h : Offends rest complaint) (s : Settings) :
    s.update rest = .error complaint := by
  cases h with
  | valueless flag => rfl
  | @unknown arg more hflag =>
    cases more with
    | nil => rfl
    | cons value others =>
      have horigin : arg ≠ "--origin" := hflag .origin
      have hseed : arg ≠ "--seed" := hflag .seed
      have hcount : arg ≠ "--count" := hflag .count
      rw [Settings.update, if_neg horigin, if_neg hseed, if_neg hcount]
      rfl
  | @seed value more hvalue =>
    simp [Settings.update, number?_eq_none_iff.mpr hvalue, throw, throwThe, MonadExceptOf.throw]
  | @count value more hvalue =>
    simp [Settings.update, number?_eq_none_iff.mpr hvalue, throw, throwThe, MonadExceptOf.throw]

/-- Arguments are pairs that fit, or there is a first one that is in the way. -/
theorem pairs_or_offence (args : List String) :
    (∃ pairs : List Pair, (∀ p ∈ pairs, p.Fits) ∧ args = written pairs) ∨
      ∃ complaint, FirstOffence args complaint := by
  have hunknown : ∀ {arg : String} {rest}, (¬ ∃ flag : Flag, arg = flag.name) →
      FirstOffence (arg :: rest) (.unknownArgument arg) := fun h =>
    ⟨[], _, by simp, rfl, .unknown _ fun flag heq => h ⟨flag, heq⟩⟩
  induction args using List.twoStepInduction with
  | nil => exact .inl ⟨[], by simp, rfl⟩
  | singleton arg =>
    refine .inr ⟨.unknownArgument arg, ?_⟩
    by_cases hflag : ∃ flag : Flag, arg = flag.name
    · obtain ⟨flag, rfl⟩ := hflag
      exact ⟨[], _, by simp, rfl, .valueless flag⟩
    · exact hunknown hflag
  | cons_cons arg value rest ih _ =>
    by_cases hflag : ∃ flag : Flag, arg = flag.name
    · obtain ⟨flag, rfl⟩ := hflag
      by_cases hfits : Pair.Fits (flag, value)
      · rcases ih with ⟨pairs, hpairs, rfl⟩ | ⟨complaint, pairs, more, hpairs, rfl, hoffends⟩
        · exact .inl ⟨(flag, value) :: pairs, List.forall_mem_cons.mpr ⟨hfits, hpairs⟩, rfl⟩
        · exact .inr ⟨complaint, (flag, value) :: pairs, more,
            List.forall_mem_cons.mpr ⟨hfits, hpairs⟩, rfl, hoffends⟩
      · obtain ⟨horigin, hvalue⟩ := not_or.mp hfits
        refine .inr ?_
        cases flag with
        | origin => exact absurd rfl horigin
        | seed => exact ⟨_, [], _, by simp, rfl, .seed rest hvalue⟩
        | count => exact ⟨_, [], _, by simp, rfl, .count rest hvalue⟩
    · exact .inr ⟨_, hunknown hflag⟩

theorem update_of_pairs (h : ∀ p ∈ pairs, p.Fits) (s : Settings) :
    s.update (written pairs) = .ok (s.after pairs) := by
  have hread := update_written h s []
  rw [List.append_nil] at hread
  rw [hread, Settings.update]
  rfl

theorem update_of_offence (h : FirstOffence args complaint) (s : Settings) :
    s.update args = .error complaint := by
  obtain ⟨pairs, rest, hpairs, rfl, hoffends⟩ := h
  rw [update_written hpairs, update_offends hoffends]

theorem mem_of_lastValue? {flag : Flag} {value : String} (h : lastValue? flag pairs = some value) :
    (flag, value) ∈ pairs := by
  obtain ⟨p, hp, rfl⟩ := List.mem_map.mp (List.mem_of_getLast? h)
  obtain ⟨hmem, hflag⟩ := List.mem_filter.mp hp
  obtain rfl : p.1 = flag := by simpa using hflag
  exact hmem

theorem inForce_iff (h : ∀ p ∈ pairs, p.Fits) (s : Settings) :
    InForce pairs s ↔ s = defaults.after pairs := by
  have hnumber : ∀ flag value, flag ≠ .origin → lastValue? flag pairs = some value →
      ∃ n, IsNumber value n :=
    fun flag value hflag hlast => (h _ (mem_of_lastValue? hlast)).resolve_left hflag
  have hseed : (match lastValue? .seed pairs with
      | none => s.seed = none
      | some value => ∃ seed, s.seed = some seed ∧ IsNumber value seed.toNat) ↔
        s.seed = (defaults.after pairs).seed := by
    cases hlast : lastValue? .seed pairs with
    | none => simp [Settings.after, hlast, defaults]
    | some value =>
      obtain ⟨n, hn⟩ := hnumber .seed value (by decide) hlast
      have hread := number?_eq_some_iff.mpr hn
      have hlt : n < 2 ^ 64 := hn.lt
      have hvalue : (defaults.after pairs).seed = some (UInt64.ofNat n) := by
        simp [Settings.after, hlast, hread]
      rw [hvalue]
      constructor
      · rintro ⟨seed, hs, hm⟩
        obtain rfl : seed.toNat = n :=
          Option.some.inj ((number?_eq_some_iff.mpr hm).symm.trans hread)
        rw [hs, UInt64.ofNat_toNat]
      · intro hs
        exact ⟨_, hs, by rwa [UInt64.toNat_ofNat_of_lt' hlt]⟩
  have hcount : (match lastValue? .count pairs with
      | none => s.count = 5
      | some value => IsNumber value s.count) ↔ s.count = (defaults.after pairs).count := by
    cases hlast : lastValue? .count pairs with
    | none => simp [Settings.after, hlast, defaults]
    | some value =>
      obtain ⟨n, hn⟩ := hnumber .count value (by decide) hlast
      have hread := number?_eq_some_iff.mpr hn
      simp [Settings.after, hlast, hread, ← number?_eq_some_iff, eq_comm]
  constructor
  · rintro ⟨horigin, hs, hc⟩
    obtain ⟨origin, seed, count⟩ := s
    obtain rfl : origin = (defaults.after pairs).origin := horigin
    obtain rfl : seed = (defaults.after pairs).seed := hseed.mp hs
    obtain rfl : count = (defaults.after pairs).count := hcount.mp hc
    rfl
  · rintro rfl
    exact ⟨rfl, hseed.mpr rfl, hcount.mpr rfl⟩

variable {σ : Type} [ChoiceSource σ]

/-- The source after so many samples, those that failed among them. -/
def sourceAfter (g : Grammar) (origin : String) (source : σ) (number : ℕ) : σ :=
  (fun current => (g.flatten origin current).2)^[number] source

def sampleAt (g : Grammar) (origin : String) (source : σ) (number : ℕ) :
    Except FlattenError String :=
  (g.flatten origin (sourceAfter g origin source number)).1

theorem repeat_nextSample (g : Grammar) (origin : String) (count : ℕ) (source : σ) :
    Nat.repeat (nextSample g origin) count ([], source) =
      (((List.range count).map (sampleAt g origin source)).reverse,
        sourceAfter g origin source count) := by
  induction count with
  | zero => rfl
  | succ count ih =>
    rw [Nat.repeat, ih, nextSample, List.range_succ, List.map_append, List.reverse_append,
      sourceAfter, sourceAfter, Function.iterate_succ_apply']
    rfl

theorem samples_eq (g : Grammar) (origin : String) (count : ℕ) (source : σ) :
    samples g origin count source = (List.range count).map (sampleAt g origin source) := by
  rw [samples, repeat_nextSample, List.reverse_reverse]

def sampleLines (g : Grammar) (origin : String) (source : σ) (count : ℕ) : List String :=
  (List.range count).map fun number => sampleLine (number + 1) (sampleAt g origin source number)

theorem take_sampleLines (g : Grammar) (origin : String) (source : σ) {m n : ℕ} (h : m ≤ n) :
    (sampleLines g origin source n).take m = sampleLines g origin source m := by
  rw [sampleLines, ← List.map_take, List.take_range, Nat.min_eq_left h]
  rfl

def heading (g : Grammar) (origin : String) : String :=
  lines [s!"Loaded {g.rules.size} grammar rules", s!"Origin: {origin}", ""]

def failureCount (g : Grammar) (origin : String) (source : σ) (count : ℕ) : ℕ :=
  (List.range count).countP fun number => failed (sampleAt g origin source number)

/-- The outcome of sampling: one line for each sample, and a failure if the count of errors is
positive in a word of 32 bits. As long as it does not wrap around, that is if a sample is an
error. -/
structure Sampled (g : Grammar) (s : Settings) (source : Generator) (outcome : Outcome) : Prop where
  printed : outcome.stdout = heading g s.origin ++ lines (sampleLines g s.origin source s.count)
  uncomplaining : outcome.stderr = ""
  counted : outcome.exitCode =
    if 0 < failureCount g s.origin source s.count % 2 ^ 32 ∧
      failureCount g s.origin source s.count % 2 ^ 32 < 2 ^ 31 then 1 else 0
  failing : failureCount g s.origin source s.count < 2 ^ 31 → (outcome.exitCode = 1 ↔
    ∃ number < s.count, ∃ cause, sampleAt g s.origin source number = .error cause)
  succeeding : failureCount g s.origin source s.count < 2 ^ 31 → (outcome.exitCode = 0 ↔
    ∀ number < s.count, ∃ text, sampleAt g s.origin source number = .ok text)

def Settings.generator (s : Settings) (entropy : Generator) : Generator :=
  s.seed.elim entropy Generator.ofSeed

theorem failed_iff {sample : Except FlattenError String} :
    failed sample = true ↔ ∃ cause, sample = .error cause := by
  cases sample <;> simp [failed, Except.isOk, Except.toBool]

theorem exists_ok_iff {sample : Except FlattenError String} :
    (∃ text, sample = .ok text) ↔ ¬ ∃ cause, sample = .error cause := by
  cases sample <;> simp

theorem foldl_failures (found : List (Except FlattenError String)) (count : ℕ) :
    found.foldl (fun count sample => if failed sample then count + 1 else count)
      (Int32.ofNat count) = Int32.ofNat (count + found.countP failed) := by
  induction found generalizing count with
  | nil => rfl
  | cons sample rest ih =>
    rw [List.foldl_cons, List.countP_cons]
    by_cases hfailed : failed sample = true
    · have hstep : Int32.ofNat count + 1 = Int32.ofNat (count + 1) := (Int32.ofNat_add _ _).symm
      rw [if_pos hfailed, if_pos hfailed, hstep, ih, Nat.add_right_comm, ← Nat.add_assoc]
    · rw [if_neg hfailed, if_neg hfailed, ih, Nat.add_zero]

theorem failures_eq (found : List (Except FlattenError String)) :
    failures found = Int32.ofNat (found.countP failed) := by
  rw [failures, ← Nat.zero_add (found.countP failed)]
  exact foldl_failures found 0

theorem ofNat_pos_iff (n : ℕ) :
    0 < Int32.ofNat n ↔ 0 < n % 2 ^ 32 ∧ n % 2 ^ 32 < 2 ^ 31 := by
  rw [Int32.lt_iff_toInt_lt, Int32.toInt_ofNat', Int.bmod_def, Int32.toInt_zero]
  have hsize : Int32.size = 2 ^ 32 := rfl
  rw [hsize]
  omega

theorem print_eq (g : Grammar) (s : Settings) (entropy : Generator) :
    print g s entropy =
      .printed (if 0 < failures (samples g s.origin s.count (s.generator entropy)) then 1 else 0)
        (heading g s.origin ++
          lines (sampleLines g s.origin (s.generator entropy) s.count)) := by
  have hlines : ∀ source : Generator, ((samples g s.origin s.count source).zipIdx.map
      fun made => sampleLine (made.2 + 1) made.1) = sampleLines g s.origin source s.count := by
    intro source
    rw [samples_eq]
    exact List.ext_getElem (by simp [sampleLines]) (by simp [sampleLines])
  obtain ⟨origin, seed, count⟩ := s
  cases seed with
  | none => exact congrArg (fun shown => Outcome.printed _ (_ ++ lines shown)) (hlines entropy)
  | some seed =>
    exact congrArg (fun shown => Outcome.printed _ (_ ++ lines shown))
      (hlines (Generator.ofSeed seed))

theorem exitCode_print (g : Grammar) (s : Settings) (entropy : Generator) :
    (print g s entropy).exitCode =
      if 0 < failureCount g s.origin (s.generator entropy) s.count % 2 ^ 32 ∧
        failureCount g s.origin (s.generator entropy) s.count % 2 ^ 32 < 2 ^ 31 then 1 else 0 := by
  have hcount : (samples g s.origin s.count (s.generator entropy)).countP failed =
      failureCount g s.origin (s.generator entropy) s.count := by
    rw [samples_eq, List.countP_map]
    rfl
  rw [print_eq]
  simp only [Outcome.printed, failures_eq, ofNat_pos_iff, hcount]

theorem failureCount_pos_iff (g : Grammar) (origin : String) (source : Generator) (count : ℕ) :
    0 < failureCount g origin source count ↔
      ∃ number < count, ∃ cause, sampleAt g origin source number = .error cause := by
  simp [failureCount, List.countP_pos_iff, failed_iff]

theorem exitCode_print_of_lt {g : Grammar} {s : Settings} {entropy : Generator}
    (hfew : failureCount g s.origin (s.generator entropy) s.count < 2 ^ 31) :
    (print g s entropy).exitCode =
      if 0 < failureCount g s.origin (s.generator entropy) s.count then 1 else 0 := by
  rw [exitCode_print, Nat.mod_eq_of_lt (by omega)]
  simp only [hfew, and_true]

theorem print_sampled (g : Grammar) (s : Settings) (entropy : Generator) :
    Sampled g s (s.generator entropy) (print g s entropy) := by
  have hfailing := failureCount_pos_iff g s.origin (s.generator entropy) s.count
  have hmade : (∀ number < s.count, ∃ text,
      sampleAt g s.origin (s.generator entropy) number = .ok text) ↔
        ¬ 0 < failureCount g s.origin (s.generator entropy) s.count := by
    rw [hfailing]
    simp [exists_ok_iff]
  constructor
  case printed => rw [print_eq]; rfl
  case uncomplaining => rw [print_eq]; rfl
  case counted => exact exitCode_print g s entropy
  case failing =>
    intro hfew
    rw [exitCode_print_of_lt hfew, ← hfailing]
    simp
  case succeeding =>
    intro hfew
    rw [exitCode_print_of_lt hfew, hmade]
    simp

def SamplingReached (outcome : Outcome) : Prop := "Loaded ".toList <+: outcome.stdout.toList

def Complaint.advice : Complaint → String
  | unknownArgument _ => line usage
  | _ => ""

structure Previewed (files : Files) (path : String) (args : List String) (entropy : Generator)
    (wording : Wording) (outcome : Outcome) : Prop where
  reached : SamplingReached outcome ↔ ∃ (pairs : List Pair) (g : Grammar), (∀ p ∈ pairs, p.Fits) ∧
    args = written pairs ∧ Grammar.load files path = .ok g
  sampled : ∀ (pairs : List Pair) (g : Grammar), (∀ p ∈ pairs, p.Fits) → args = written pairs →
    Grammar.load files path = .ok g →
      ∃ s, InForce pairs s ∧ Sampled g s (s.generator entropy) outcome
  offended : ∀ complaint, FirstOffence args complaint →
    outcome = ⟨1, complaint.advice, line complaint.message⟩
  unread : ∀ (pairs : List Pair) (cause : LoadError), (∀ p ∈ pairs, p.Fits) →
    args = written pairs → Grammar.load files path = .error cause →
      outcome = ⟨1, "", line s!"ERROR: Failed to load grammar: {cause.message wording}"⟩
  decided : (∃ complaint, FirstOffence args complaint) ↔
    ¬ ∃ pairs : List Pair, (∀ p ∈ pairs, p.Fits) ∧ args = written pairs
  extended : ∀ (pairs others : List Pair) (g : Grammar) (s t : Settings) (seed : UInt64)
    (entropy' : Generator), (∀ p ∈ pairs, p.Fits) → (∀ p ∈ others, p.Fits) →
    args = written pairs → Grammar.load files path = .ok g → InForce pairs s → InForce others t →
    s.origin = t.origin → s.seed = some seed → t.seed = some seed → s.count ≤ t.count →
      ∃ shown : List String, shown.length = t.count ∧
        outcome.stdout = heading g s.origin ++ lines (shown.take s.count) ∧
        (preview files (path :: written others) entropy' wording).stdout =
          heading g t.origin ++ lines shown

variable {files : Files} {path : String} {entropy : Generator} {wording : Wording} {g : Grammar}

theorem preview_loaded (hpath : ¬ IsHelp path) (hpairs : ∀ p ∈ pairs, p.Fits)
    (hload : Grammar.load files path = .ok g) :
    preview files (path :: written pairs) entropy wording =
      print g (defaults.after pairs) entropy := by
  unfold IsHelp at hpath
  simp only [preview, if_neg hpath, update_of_pairs hpairs, hload]

theorem preview_unread {cause : LoadError} (hpath : ¬ IsHelp path) (hpairs : ∀ p ∈ pairs, p.Fits)
    (hload : Grammar.load files path = .error cause) :
    preview files (path :: written pairs) entropy wording =
      ⟨1, "", line s!"ERROR: Failed to load grammar: {cause.message wording}"⟩ := by
  unfold IsHelp at hpath
  simp only [preview, if_neg hpath, update_of_pairs hpairs, hload]
  rfl

theorem preview_of_offence (hpath : ¬ IsHelp path) (h : FirstOffence args complaint) :
    preview files (path :: args) entropy wording =
      ⟨1, complaint.advice, line complaint.message⟩ := by
  unfold IsHelp at hpath
  simp only [preview, if_neg hpath, update_of_offence h]
  cases complaint <;> rfl

theorem samplingReached_print (g : Grammar) (s : Settings) (entropy : Generator) :
    SamplingReached (print g s entropy) := by
  rw [SamplingReached, print_eq]
  simp only [Outcome.printed, heading, lines, line, String.join, List.map_cons, List.map_nil,
    List.foldl_cons, List.foldl_nil, String.toList_append, List.append_assoc]
  exact List.prefix_append _ _

theorem not_samplingReached {exitCode : UInt32} {stdout stderr : String}
    (h : stdout = "" ∨ stdout = line usage) : ¬ SamplingReached ⟨exitCode, stdout, stderr⟩ := by
  change ¬ "Loaded ".toList <+: stdout.toList
  rcases h with rfl | rfl <;> decide

theorem samplingReached_iff (hpath : ¬ IsHelp path) :
    SamplingReached (preview files (path :: args) entropy wording) ↔
      ∃ (pairs : List Pair) (g : Grammar), (∀ p ∈ pairs, p.Fits) ∧ args = written pairs ∧
        Grammar.load files path = .ok g := by
  constructor
  · intro hreached
    rcases pairs_or_offence args with ⟨pairs, hpairs, rfl⟩ | ⟨complaint, hoffence⟩
    · cases hload : Grammar.load files path with
      | ok g => exact ⟨pairs, g, hpairs, rfl, rfl⟩
      | error cause =>
        rw [preview_unread hpath hpairs hload] at hreached
        exact absurd hreached (not_samplingReached (.inl rfl))
    · rw [preview_of_offence hpath hoffence] at hreached
      refine absurd hreached (not_samplingReached ?_)
      cases complaint with
      | unknownArgument arg => exact .inr rfl
      | badSeed => exact .inl rfl
      | badCount => exact .inl rfl
  · rintro ⟨pairs, g, hpairs, rfl, hload⟩
    rw [preview_loaded hpath hpairs hload]
    exact samplingReached_print g _ entropy

/-- Whatever follows a path: samples are made if it is pairs that fit and the grammar can be read,
with the settings of the last pairs and one generator for all samples. Otherwise the command fails
with a complaint about the first argument in the way, or about the grammar. -/
theorem previewed (hpath : ¬ IsHelp path) (args : List String) (entropy : Generator)
    (wording : Wording) :
    Previewed files path args entropy wording (preview files (path :: args) entropy wording) := by
  constructor
  case reached => exact samplingReached_iff hpath
  case sampled =>
    rintro pairs g hpairs rfl hload
    rw [preview_loaded hpath hpairs hload]
    exact ⟨_, (inForce_iff hpairs _).mpr rfl, print_sampled g _ entropy⟩
  case offended => exact fun complaint hoffence => preview_of_offence hpath hoffence
  case unread =>
    rintro pairs cause hpairs rfl hload
    exact preview_unread hpath hpairs hload
  case decided =>
    constructor
    · rintro ⟨complaint, hoffence⟩ ⟨pairs, hpairs, rfl⟩
      have hread := update_of_offence hoffence defaults
      rw [update_of_pairs hpairs] at hread
      cases hread
    · exact (pairs_or_offence args).resolve_left
  case extended =>
    rintro pairs others g s t seed entropy' hpairs hothers rfl hload hs ht horigin hseed hseed'
      hcount
    obtain rfl := (inForce_iff hpairs s).mp hs
    obtain rfl := (inForce_iff hothers t).mp ht
    refine ⟨sampleLines g (defaults.after others).origin (Generator.ofSeed seed)
      (defaults.after others).count, by simp [sampleLines], ?_, ?_⟩
    · rw [preview_loaded hpath hpairs hload, print_eq, take_sampleLines _ _ _ hcount, ← horigin,
        Settings.generator, hseed]
      rfl
    · rw [preview_loaded hpath hothers hload, print_eq, Settings.generator, hseed']
      rfl

/-- A value may look like a flag, and a flag at the end has no value. -/
theorem flag_as_value_previewed : ¬ IsHelp "d/x.json" ∧
    SamplingReached (preview (lone greetingText)
      ["d/x.json", "--origin", "--seed", "--count", "+2"] (Generator.ofSeed 0)) ∧
    preview (lone greetingText) ["d/x.json", "--seed", "5", "--origin"] (Generator.ofSeed 0) =
      ⟨1, line usage, line "Unknown argument: --origin"⟩ := by
  have hpath : ¬ IsHelp "d/x.json" := by decide
  have hfits : ∀ p ∈ ([(.origin, "--seed"), (.count, "+2")] : List Pair), p.Fits := by
    intro p hp
    simp only [List.mem_cons, List.not_mem_nil, or_false] at hp
    rcases hp with rfl | rfl
    · exact .inl rfl
    · exact .inr ⟨2, number?_eq_some_iff.mp (by decide)⟩
  have hseed : ∀ p ∈ ([(.seed, "5")] : List Pair), p.Fits := by
    intro p hp
    obtain rfl := List.mem_singleton.mp hp
    exact .inr ⟨5, number?_eq_some_iff.mp (by decide)⟩
  refine ⟨hpath, ?_, ?_⟩
  · exact (previewed hpath _ _ _).reached.mpr ⟨_, _, hfits, rfl, load_greeting⟩
  · exact (previewed hpath _ _ _).offended _ ⟨_, _, hseed, rfl, .valueless .origin⟩

/-- As many samples of a text that cannot be read as make the count of errors negative. -/
def hopeless : List Pair := [(.origin, "##"), (.seed, "1"), (.count, "2147483648")]

theorem hopeless_fits : ∀ p ∈ hopeless, p.Fits := by
  intro p hp
  simp only [hopeless, List.mem_cons, List.not_mem_nil, or_false] at hp
  rcases hp with rfl | rfl | rfl
  · exact .inl rfl
  · exact .inr ⟨1, number?_eq_some_iff.mp (by decide)⟩
  · exact .inr ⟨2147483648, number?_eq_some_iff.mp (by decide)⟩

/-- No sample of this preview has a text, and it succeeds. -/
theorem forgotten_errors :
    (∀ number, sampleAt greeting "##" (Generator.ofSeed 1) number =
      .error (.template .emptyTag)) ∧
    (preview (lone greetingText)
      ["d/x.json", "--origin", "##", "--seed", "1", "--count", "2147483648"]
      (Generator.ofSeed 0)).exitCode = 0 := by
  have hparse : Template.parse "##" = .error .emptyTag := by cbv
  have hsample : ∀ source : Generator,
      (greeting.flatten "##" source).1 = .error (.template .emptyTag) := by
    intro source
    rw [Grammar.flatten, Grammar.flattenWithin, hparse]
  have hcount : failureCount greeting "##" (Generator.ofSeed 1) 2147483648 = 2147483648 := by
    have hall : ∀ number ∈ List.range 2147483648,
        failed (sampleAt greeting "##" (Generator.ofSeed 1) number) = true :=
      fun number _ => failed_iff.mpr ⟨_, hsample _⟩
    rw [failureCount, List.countP_eq_length.mpr hall, List.length_range]
  have hpreview : preview (lone greetingText) ("d/x.json" :: written hopeless)
      (Generator.ofSeed 0) = print greeting (defaults.after hopeless) (Generator.ofSeed 0) :=
    preview_loaded (by decide) hopeless_fits load_greeting
  have hafter : defaults.after hopeless = ⟨"##", some 1, 2147483648⟩ := by decide
  refine ⟨fun number => hsample _, (congrArg Outcome.exitCode hpreview).trans ?_⟩
  rw [hafter, exitCode_print]
  simp only [Settings.generator, Option.elim_some, hcount]
  rfl

end Announcer.Command.Preview
