import Ironstate.Aggregate.Draws
import Ironstate.Lib.Cover

/-!
# Unbiased ranges

The mask of `draw_range` keeps the least number of low bits that covers the span
(`rangeBits_ok`, `rangeMask_ok`); the loop answers at the first word whose low bits fall in the
span (`rangeLoop_accepted`); and among all words each value of the range has equally many
(`card_produced`).
-/

namespace Ironstate

open Lib (Panic)

/-! ## The mask -/

namespace U64

theorem add_ok {a b : UInt64} (fits : a.toNat + b.toNat < 2 ^ 64) : add a b = .ok (a + b) := by
  unfold add checked
  rw [Lib.Checked.add_ok fits]
  simp [Except.map]

theorem sub_ok {a b : UInt64} (fits : b ≤ a) : sub a b = .ok (a - b) := by
  unfold sub checked
  rw [Lib.Checked.sub_ok (UInt64.le_iff_toNat_le.mp fits)]
  simp only [Except.map]
  rw [← UInt64.toNat_sub_of_le a b fits, UInt64.ofNat_toNat]

end U64

/-- The least number of bits that covers the span. -/
structure Covers (bits : Nat) (span : UInt64) : Prop where
  fits : bits ≤ 64
  covers : span.toNat ≤ 2 ^ bits
  least : 2 ^ bits < 2 * span.toNat

theorem rangeBits_ok {span : UInt64} (nonempty : 0 < span) :
    ∃ bits, rangeBits span = .ok bits ∧ Covers bits span := by
  have positive : 0 < span.toNat := UInt64.lt_iff_toNat_lt.mp nonempty
  have one_le : (1 : UInt64) ≤ span := UInt64.le_iff_toNat_le.mpr positive
  have last : (span - 1).toBitVec.toNat = span.toNat - 1 := UInt64.toNat_sub_of_le _ _ one_le
  have below := BitVec.toNat_lt_two_pow_sub_clz (x := (span - 1).toBitVec)
  have zeros : (span - 1).toBitVec.clz.toNat ≤ 64 := BitVec.clz_le
  refine ⟨64 - U64.leadingZeros (span - 1), ?_, ?_⟩
  · rw [rangeBits, U64.sub_ok one_le]
    exact Lib.Checked.sub_ok zeros
  · unfold U64.leadingZeros
    rw [last] at below
    refine ⟨Nat.sub_le _ _, by omega, ?_⟩
    by_cases zero : (span - 1).toBitVec = 0#64
    · -- a span of one needs no bits
      rw [BitVec.clz_eq_iff_eq_zero.mpr zero]
      change 2 ^ 0 < 2 * span.toNat
      omega
    · have above := BitVec.two_pow_sub_clz_le_toNat_of_ne_zero (by decide) zero
      have some_bit : (span - 1).toBitVec.clz.toNat < 64 := BitVec.clz_lt_iff_ne_zero.mpr zero
      rw [last] at above
      have double : 64 - (span - 1).toBitVec.clz.toNat =
          64 - 1 - (span - 1).toBitVec.clz.toNat + 1 := by omega
      rw [double, Nat.pow_succ]
      omega

theorem rangeMask_ok {bits : Nat} (fits : bits ≤ 64) :
    ∃ mask, rangeMask bits = .ok mask ∧
      ∀ word : UInt64, (word &&& mask).toNat = word.toNat % 2 ^ bits := by
  rcases Nat.lt_or_ge bits 64 with below | full
  · have power_fits : 2 ^ bits < 2 ^ 64 := Nat.pow_lt_pow_right (by decide) below
    have power : (UInt64.ofNat (2 ^ bits)).toNat = 2 ^ bits := Nat.mod_eq_of_lt power_fits
    have one_le : (1 : UInt64) ≤ UInt64.ofNat (2 ^ bits) := by
      rw [UInt64.le_iff_toNat_le, power]
      exact Nat.one_le_two_pow
    refine ⟨UInt64.ofNat (2 ^ bits) - 1, ?_, ?_⟩
    · rw [rangeMask, if_neg (by omega), U64.shl, Lib.Checked.shl_ok below]
      simp only [Except.map, UInt64.reduceToNat, Nat.one_mul, Nat.mod_eq_of_lt power_fits]
      exact U64.sub_ok one_le
    · intro word
      rw [UInt64.toNat_and, UInt64.toNat_sub_of_le _ _ one_le, power]
      exact Nat.and_two_pow_sub_one_eq_mod _ _
  · obtain rfl : bits = 64 := Nat.le_antisymm fits full
    refine ⟨_, if_pos (Nat.le_refl 64), fun word => ?_⟩
    rw [UInt64.toNat_and]
    exact Nat.and_two_pow_sub_one_eq_mod word.toNat 64

/-! ## The loop -/

section Loop

variable {E : Type} [EntropySource E]

/-- The word the source draws after the first `k`. -/
def wordAt (k : Nat) (e : E) : UInt64 := (drawU64 (drawWords k e)).1

variable {start span mask : UInt64} (inside : start.toNat + span.toNat < 2 ^ 64)

include inside

theorem rangeLoop_accepted {fuel k : Nat} {e : E} (enough : k < fuel)
    (rejected : ∀ i < k, ¬wordAt i e &&& mask < span) (accepted : wordAt k e &&& mask < span) :
    rangeLoop start span mask fuel e =
      .ok (some (start + (wordAt k e &&& mask), drawWords (k + 1) e)) := by
  obtain ⟨fuel, rfl⟩ : ∃ rest, fuel = rest + 1 := ⟨fuel - 1, by omega⟩
  induction k generalizing fuel e with
  | zero =>
    have first : (drawU64 e).1 &&& mask < span := accepted
    have small := UInt64.lt_iff_toNat_lt.mp first
    rw [rangeLoop]
    simp only [first, if_true, U64.add_ok (Nat.lt_trans (Nat.add_lt_add_left small _) inside)]
    rfl
  | succ k ih =>
    have first : ¬(drawU64 e).1 &&& mask < span := rejected 0 (Nat.succ_pos k)
    obtain ⟨fuel, rfl⟩ : ∃ rest, fuel = rest + 1 := ⟨fuel - 1, by omega⟩
    rw [rangeLoop]
    simp only [first, if_false]
    exact ih (fun i below => rejected (i + 1) (Nat.succ_lt_succ below)) accepted fuel (by omega)

/-- The loop never adds beyond a word. -/
theorem rangeLoop_answers (fuel : Nat) (e : E) :
    ∃ answer, rangeLoop start span mask fuel e = .ok answer := by
  induction fuel generalizing e with
  | zero => exact ⟨none, rfl⟩
  | succ fuel ih =>
    rw [rangeLoop]
    by_cases accepted : (drawU64 e).1 &&& mask < span
    · have small := UInt64.lt_iff_toNat_lt.mp accepted
      simp only [accepted, if_true, U64.add_ok (Nat.lt_trans (Nat.add_lt_add_left small _) inside)]
      exact ⟨_, rfl⟩
    · simp only [accepted, if_false]
      exact ih _

omit inside in
theorem rangeLoop_rejected {fuel : Nat} {e : E}
    (rejected : ∀ i < fuel, ¬wordAt i e &&& mask < span) :
    rangeLoop start span mask fuel e = .ok none := by
  induction fuel generalizing e with
  | zero => rfl
  | succ fuel ih =>
    have first : ¬(drawU64 e).1 &&& mask < span := rejected 0 (Nat.succ_pos fuel)
    rw [rangeLoop]
    simp only [first, if_false]
    exact ih fun i below => rejected (i + 1) (Nat.succ_lt_succ below)

end Loop

/-! ## Counting words -/

/-- The words, by their values. -/
def words : UInt64 ≃ Fin (2 ^ 64) where
  toFun := UInt64.toFin
  invFun := UInt64.ofFin
  left_inv _ := rfl
  right_inv _ := rfl

/-- Each value of the low bits belongs to equally many words. -/
theorem card_kept {bits : Nat} (fits : bits ≤ 64) {mask : UInt64}
    (kept : ∀ word : UInt64, (word &&& mask).toNat = word.toNat % 2 ^ bits) (p : Nat → Prop)
    [DecidablePred p] :
    Nat.card {word : UInt64 // p (word &&& mask).toNat} =
      2 ^ (64 - bits) * Nat.count p (2 ^ bits) := by
  have counted := Lib.card_words words fun value => p (value % 2 ^ bits)
  have split : 64 = bits + (64 - bits) := by omega
  simp only [kept]
  refine counted.trans ?_
  rw [← Lib.count_low_bits p bits (64 - bits), ← split]

/-- The words that are accepted and produce a value below `bound`. -/
theorem card_below {bits : Nat} {span mask bound : UInt64} (covers : Covers bits span)
    (kept : ∀ word : UInt64, (word &&& mask).toNat = word.toNat % 2 ^ bits) (le : bound ≤ span) :
    Nat.card {word : UInt64 // word &&& mask < span ∧ word &&& mask < bound} =
      2 ^ (64 - bits) * bound.toNat := by
  have le := UInt64.le_iff_toNat_le.mp le
  have below := card_kept covers.fits kept (· < bound.toNat)
  rw [Lib.count_lt (Nat.le_trans le covers.covers)] at below
  rw [← below]
  apply Nat.card_congr
  refine Equiv.subtypeEquivRight fun word => ?_
  simp only [UInt64.lt_iff_toNat_lt]
  omega

theorem card_accepted {bits : Nat} {span mask : UInt64} (covers : Covers bits span)
    (kept : ∀ word : UInt64, (word &&& mask).toNat = word.toNat % 2 ^ bits) :
    Nat.card {word : UInt64 // word &&& mask < span} = 2 ^ (64 - bits) * span.toNat := by
  have all := card_below covers kept (UInt64.le_refl span)
  simp only [and_self] at all
  exact all

/-- More than half of the words are accepted. -/
theorem most_accepted {bits : Nat} {span mask : UInt64} (covers : Covers bits span)
    (kept : ∀ word : UInt64, (word &&& mask).toNat = word.toNat % 2 ^ bits) :
    2 ^ 63 < Nat.card {word : UInt64 // word &&& mask < span} := by
  rw [card_accepted covers kept]
  have split : 2 ^ 64 = 2 ^ (64 - bits) * 2 ^ bits := by
    rw [← Nat.pow_add, Nat.sub_add_cancel covers.fits]
  have least := Nat.mul_lt_mul_of_pos_left covers.least (Nat.two_pow_pos (64 - bits))
  have double : 2 ^ (64 - bits) * (2 * span.toNat) = 2 * (2 ^ (64 - bits) * span.toNat) :=
    Nat.mul_left_comm _ _ _
  omega

/-- The words that produce one value of the span. -/
theorem card_value {bits : Nat} {span mask : UInt64} (covers : Covers bits span)
    (kept : ∀ word : UInt64, (word &&& mask).toNat = word.toNat % 2 ^ bits) {value : Nat}
    (below : value < span.toNat) :
    Nat.card {word : UInt64 // (word &&& mask).toNat = value} = 2 ^ (64 - bits) := by
  rw [card_kept covers.fits kept (· = value), Lib.count_eq (Nat.lt_of_lt_of_le below covers.covers),
    Nat.mul_one]

/-! ## The draws -/

/-- What `draw_range` does for one range, when it keeps `bits` low bits by `mask`. -/
structure Uniform (start stop : UInt64) (bits : Nat) (mask : UInt64) : Prop where
  kept : rangeBits (stop - start) = .ok bits ∧ rangeMask bits = .ok mask
  answers : ∀ (E : Type) [EntropySource E] (fuel : Nat) (e : E),
    ∃ answer, drawRange fuel start stop e = .ok answer
  first : ∀ (E : Type) [EntropySource E] (fuel k : Nat) (e : E), k < fuel →
    (∀ i < k, ¬wordAt i e &&& mask < stop - start) → wordAt k e &&& mask < stop - start →
    drawRange fuel start stop e =
      .ok (some (start + (wordAt k e &&& mask), drawWords (k + 1) e))
  running : ∀ (E : Type) [EntropySource E] (fuel : Nat) (e : E),
    (∀ i < fuel, ¬wordAt i e &&& mask < stop - start) → drawRange fuel start stop e = .ok none
  inside : ∀ word : UInt64, word &&& mask < stop - start →
    start ≤ start + (word &&& mask) ∧ start + (word &&& mask) < stop
  even : ∀ value : UInt64, start ≤ value → value < stop →
    Nat.card {word : UInt64 // word &&& mask < stop - start ∧ start + (word &&& mask) = value} =
      2 ^ (64 - bits)
  most : 2 ^ 63 < Nat.card {word : UInt64 // word &&& mask < stop - start}

theorem drawRange_uniform {start stop : UInt64} (nonempty : start < stop) :
    ∃ bits mask, Covers bits (stop - start) ∧
      (∀ word : UInt64, (word &&& mask).toNat = word.toNat % 2 ^ bits) ∧
      Uniform start stop bits mask := by
  have lt := UInt64.lt_iff_toNat_lt.mp nonempty
  have le : start ≤ stop := UInt64.le_of_lt nonempty
  have span : (stop - start).toNat = stop.toNat - start.toNat := UInt64.toNat_sub_of_le _ _ le
  have positive : 0 < stop - start := by
    rw [UInt64.lt_iff_toNat_lt, span]
    exact Nat.sub_pos_of_lt lt
  have inside : start.toNat + (stop - start).toNat < 2 ^ 64 := by
    have := stop.toNat_lt
    omega
  obtain ⟨bits, bits_ok, covers⟩ := rangeBits_ok positive
  obtain ⟨mask, mask_ok, kept⟩ := rangeMask_ok covers.fits
  have runs (E : Type) [EntropySource E] (fuel : Nat) (e : E) :
      drawRange fuel start stop e = rangeLoop start (stop - start) mask fuel e := by
    simp only [drawRange, Lib.Checked.assert_ok (decide_eq_true le),
      Lib.Checked.assert_ok (decide_eq_true positive), bits_ok, mask_ok, bind, Except.bind]
  have sum (word : UInt64) (accepted : word &&& mask < stop - start) :
      (start + (word &&& mask)).toNat = start.toNat + (word &&& mask).toNat := by
    have := UInt64.lt_iff_toNat_lt.mp accepted
    rw [UInt64.toNat_add]
    exact Nat.mod_eq_of_lt (by omega)
  refine ⟨bits, mask, covers, kept, ⟨bits_ok, mask_ok⟩, ?_, ?_, ?_, ?_, ?_, ?_⟩
  · intro E _ fuel e
    rw [runs]
    exact rangeLoop_answers inside fuel e
  · intro E _ fuel k e enough rejected accepted
    rw [runs]
    exact rangeLoop_accepted inside enough rejected accepted
  · intro E _ fuel e rejected
    rw [runs]
    exact rangeLoop_rejected rejected
  · intro word accepted
    have := UInt64.lt_iff_toNat_lt.mp accepted
    rw [UInt64.le_iff_toNat_le, UInt64.lt_iff_toNat_lt, sum word accepted]
    omega
  · intro value from_start before_stop
    have from_start := UInt64.le_iff_toNat_le.mp from_start
    have before_stop := UInt64.lt_iff_toNat_lt.mp before_stop
    have below : value.toNat - start.toNat < (stop - start).toNat := by omega
    rw [← card_value covers kept below]
    apply Nat.card_congr
    refine Equiv.subtypeEquivRight fun word => ?_
    constructor
    · rintro ⟨accepted, rfl⟩
      rw [sum word accepted]
      omega
    · intro low
      have accepted : word &&& mask < stop - start := by
        rw [UInt64.lt_iff_toNat_lt]
        omega
      refine ⟨accepted, UInt64.toNat_inj.mp ?_⟩
      rw [sum word accepted]
      omega
  · exact most_accepted covers kept

/-- What `draw_below` does, drawing from the range below `den`. -/
structure Fair (num den : UInt64) (mask : UInt64) : Prop where
  first : ∀ (E : Type) [EntropySource E] (fuel k : Nat) (e : E), k < fuel →
    (∀ i < k, ¬wordAt i e &&& mask < den) → wordAt k e &&& mask < den →
    drawBelow fuel num den e =
      .ok (some (decide (wordAt k e &&& mask < num), drawWords (k + 1) e))
  share : Nat.card {word : UInt64 // word &&& mask < den ∧ word &&& mask < num} * den.toNat =
    num.toNat * Nat.card {word : UInt64 // word &&& mask < den}

/-- Every range is drawn from without bias, and `draw_below` is true for `num` of every `den`
accepted words. -/
theorem drawRange_unbiased :
    (∀ start stop : UInt64, start < stop → ∃ bits mask, Uniform start stop bits mask) ∧
    ∀ num den : UInt64, num ≤ den → 0 < den →
      ∃ bits mask, Uniform 0 den bits mask ∧ Fair num den mask := by
  constructor
  · intro start stop nonempty
    obtain ⟨bits, mask, _, _, uniform⟩ := drawRange_uniform nonempty
    exact ⟨bits, mask, uniform⟩
  · intro num den le positive
    obtain ⟨bits, mask, covers, kept, uniform⟩ := drawRange_uniform positive
    have same : den - 0 = den := UInt64.sub_zero den
    have first := uniform.first
    rw [same] at covers
    simp only [same, UInt64.zero_add] at first
    refine ⟨bits, mask, uniform, ?_, ?_⟩
    · intro E _ fuel k e enough rejected accepted
      simp only [drawBelow, Lib.Checked.assert_ok (decide_eq_true le),
        Lib.Checked.assert_ok (decide_eq_true positive), bind, Except.bind,
        first E fuel k e enough rejected accepted]
      rfl
    · rw [card_below covers kept le, card_accepted covers kept, Nat.mul_left_comm, Nat.mul_assoc]

end Ironstate
