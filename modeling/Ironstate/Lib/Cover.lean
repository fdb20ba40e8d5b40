import Mathlib.Data.Nat.Count
import Mathlib.SetTheory.Cardinal.Finite

/-!
# Counting words by their low bits

Of the words below a multiple of `m`, each remainder modulo `m` is taken equally often
(`count_mod_mul`). A word of `bits + rest` bits whose low `bits` bits are kept therefore takes
each value below `2 ^ bits` in `2 ^ rest` ways.
-/

namespace Ironstate.Lib

section Count

variable (p q : Nat → Prop) [DecidablePred p] [DecidablePred q]

theorem count_congr {n : Nat} (agree : ∀ k < n, p k ↔ q k) : Nat.count p n = Nat.count q n :=
  Nat.le_antisymm (Nat.count_mono_left fun k below => (agree k below).mp)
    (Nat.count_mono_left fun k below => (agree k below).mpr)

/-- Over whole periods each remainder is taken equally often. -/
theorem count_mod_mul (m times : Nat) :
    Nat.count (fun word => p (word % m)) (m * times) = times * Nat.count p m := by
  induction times with
  | zero => simp
  | succ times ih =>
    have period : Nat.count (fun k => p ((m * times + k) % m)) m = Nat.count p m := by
      apply count_congr
      intro k below
      rw [Nat.mul_add_mod, Nat.mod_eq_of_lt below]
    rw [Nat.mul_succ, Nat.count_add, ih, period, Nat.succ_mul]

theorem count_low_bits (bits rest : Nat) :
    Nat.count (fun word => p (word % 2 ^ bits)) (2 ^ (bits + rest)) =
      2 ^ rest * Nat.count p (2 ^ bits) := by
  rw [Nat.pow_add, count_mod_mul]

theorem count_lt {n m : Nat} (le : n ≤ m) : Nat.count (· < n) m = n := by
  obtain ⟨rest, rfl⟩ := Nat.exists_eq_add_of_le le
  rw [Nat.count_add, Nat.count_of_forall (fun k below => below),
    Nat.count_of_forall_not (fun k _ => by omega), Nat.add_zero]

theorem count_eq {c m : Nat} (lt : c < m) : Nat.count (· = c) m = 1 := by
  obtain ⟨rest, rfl⟩ := Nat.exists_eq_add_of_lt lt
  rw [Nat.add_assoc, Nat.count_add, Nat.count_of_forall_not (fun k below => by omega),
    Nat.count_succ', Nat.count_of_forall_not (fun k _ => by omega)]
  simp

end Count

/-- A subset of the words of some width, counted by their values. -/
theorem card_words {W : Type} {size : Nat} (words : W ≃ Fin size) (p : Nat → Prop)
    [DecidablePred p] :
    Nat.card {word : W // p (words word)} = Nat.count p size := by
  let := Nat.CountSet.fintype p size
  rw [Nat.count_eq_card_fintype, ← Nat.card_eq_fintype_card]
  exact Nat.card_congr
    { toFun := fun word => ⟨words word.1, (words word.1).2, word.2⟩
      invFun := fun k => ⟨words.symm ⟨k.1, k.2.1⟩, by simpa using k.2.2⟩
      left_inv := fun word => Subtype.ext (words.symm_apply_apply word.1)
      right_inv := fun k => by simp }

end Ironstate.Lib
