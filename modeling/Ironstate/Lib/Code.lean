import Mathlib.Algebra.Group.Nat.Defs

/-!
# Self-delimiting codes

A code word delimits itself when it can be told from whatever follows it: no continuation makes
it the beginning of another word's continuation. Unlike injectivity this composes, since the
code of a pair is read one part after the other (`Delimits.pair`), and a tag of fixed width
says which code comes next (`leBytes_append`). What a word determines is a relation, so that a
code may leave parts of a value out.
-/

namespace Ironstate.Lib

variable {α β : Type u} {δ : Type}

/-- The word of `x` ends where it ends, and determines `x` as far as `R` goes. -/
def Delimits (code : α → List δ) (R : α → α → Prop) (x : α) : Prop :=
  ∀ y p q, code x ++ p = code y ++ q → p = q ∧ R x y

namespace Delimits

variable {code : α → List δ} {R : α → α → Prop} {x : α}

/-- Words of one width delimit themselves when they determine the value. -/
theorem of_length (width : ∀ y, (code x).length = (code y).length)
    (determined : ∀ y, code x = code y → R x y) : Delimits code R x := by
  intro y p q same
  obtain ⟨word, rest⟩ := List.append_inj same (width y)
  exact ⟨rest, determined y word⟩

/-- One word after another. -/
theorem pair {code' : β → List δ} {R' : β → β → Prop} {y : β} (first : Delimits code R x)
    (second : Delimits code' R' y) {x' : α} {y' : β} {p q : List δ}
    (same : code x ++ code' y ++ p = code x' ++ code' y' ++ q) : p = q ∧ R x x' ∧ R' y y' := by
  rw [List.append_assoc, List.append_assoc] at same
  obtain ⟨later, front⟩ := first x' _ _ same
  obtain ⟨rest, back⟩ := second y' p q later
  exact ⟨rest, front, back⟩

end Delimits

/-! ## Little-endian bytes -/

/-- The `width` low bytes of a number, the least significant one first. -/
def leBytes : Nat → Nat → List UInt8
  | 0, _ => []
  | width + 1, n => UInt8.ofNat (n % 256) :: leBytes width (n / 256)

@[simp] theorem leBytes_length (width n : Nat) : (leBytes width n).length = width := by
  induction width generalizing n with
  | zero => rfl
  | succ width ih => simp [leBytes, ih]

theorem leBytes_inj {width m n : Nat} (small : m < 256 ^ width) (small' : n < 256 ^ width)
    (same : leBytes width m = leBytes width n) : m = n := by
  induction width generalizing m n with
  | zero => simp at small small'; omega
  | succ width ih =>
    rw [Nat.pow_succ] at small small'
    rw [leBytes, leBytes, List.cons.injEq] at same
    have low := congrArg UInt8.toNat same.1
    simp only [UInt8.toNat_ofNat'] at low
    have high := ih (Nat.div_lt_of_lt_mul (Nat.mul_comm _ 256 ▸ small))
      (Nat.div_lt_of_lt_mul (Nat.mul_comm _ 256 ▸ small')) same.2
    omega

/-- A tag of fixed width is read off first. -/
theorem leBytes_append {width m n : Nat} {p q : List UInt8} (small : m < 256 ^ width)
    (small' : n < 256 ^ width) (same : leBytes width m ++ p = leBytes width n ++ q) :
    m = n ∧ p = q := by
  obtain ⟨tag, rest⟩ := List.append_inj same (by simp)
  exact ⟨leBytes_inj small small' tag, rest⟩

end Ironstate.Lib
