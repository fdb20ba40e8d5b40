import Mathlib.Algebra.Group.Nat.Defs

/-!
# Checked machine arithmetic

Operations on unsigned words of a given width, as natural numbers, and on sequences, as lists.
Where a machine would wrap, stop or read out of bounds the operation panics, so that a computation
that ends without a panic has the value that unbounded arithmetic gives it.
-/

namespace Ironstate.Lib

/-- Why a computation stops. -/
inductive Panic where
  /-- The result of an addition, a subtraction or a shift is not a word. -/
  | overflow
  /-- An index or a range leaves its sequence. -/
  | bounds
  /-- A cast changes the value it is applied to. -/
  | lossy
  /-- An assertion fails. -/
  | failed (message : String)
  deriving DecidableEq

namespace Checked

def add (bits a b : Nat) : Except Panic Nat :=
  if a + b < 2 ^ bits then .ok (a + b) else .error .overflow

def sub (a b : Nat) : Except Panic Nat :=
  if b ≤ a then .ok (a - b) else .error .overflow

/-- A shift by less than the width; bits that leave the word are lost. -/
def shl (bits a count : Nat) : Except Panic Nat :=
  if count < bits then .ok (a * 2 ^ count % 2 ^ bits) else .error .overflow

/-- A cast to words of the given width. -/
def cast (bits a : Nat) : Except Panic Nat :=
  if a < 2 ^ bits then .ok a else .error .lossy

/-- A conversion that answers the largest word where the value is not one. -/
def saturate (bits a : Nat) : Nat := if a < 2 ^ bits then a else 2 ^ bits - 1

def assert (holds : Bool) (message : String) : Except Panic Unit :=
  if holds then .ok () else .error (.failed message)

variable {α : Type}

def get (xs : List α) (i : Nat) : Except Panic α :=
  match xs[i]? with
  | some x => .ok x
  | none => .error .bounds

/-- The sequence without its first elements. -/
def drain (xs : List α) (count : Nat) : Except Panic (List α) :=
  if count ≤ xs.length then .ok (xs.drop count) else .error .bounds

/-- The sequence with one more element, while its length is a word. -/
def push (bits : Nat) (xs : List α) (x : α) : Except Panic (List α) :=
  if xs.length + 1 < 2 ^ bits then .ok (xs ++ [x]) else .error .overflow

section

variable {bits a b : Nat}

theorem add_ok (fits : a + b < 2 ^ bits) : add bits a b = .ok (a + b) := if_pos fits

theorem sub_ok (fits : b ≤ a) : sub a b = .ok (a - b) := if_pos fits

theorem shl_ok (fits : b < bits) : shl bits a b = .ok (a * 2 ^ b % 2 ^ bits) := if_pos fits

theorem cast_ok (fits : a < 2 ^ bits) : cast bits a = .ok a := if_pos fits

theorem assert_ok {holds : Bool} {message : String} (held : holds = true) :
    assert holds message = .ok () := if_pos held

variable {xs : List α} {x : α}

theorem get_ok (found : xs[a]? = some x) : get xs a = .ok x := by
  unfold get
  rw [found]

theorem push_ok (fits : xs.length + 1 < 2 ^ bits) : push bits xs x = .ok (xs ++ [x]) :=
  if_pos fits

theorem drain_ok (fits : a ≤ xs.length) : drain xs a = .ok (xs.drop a) := if_pos fits

/-- What is saturated was beyond any length. -/
theorem min_saturate (fits : xs.length < 2 ^ bits) :
    min (saturate bits a) xs.length = min a xs.length := by
  unfold saturate
  split <;> omega

theorem drop_saturate (fits : xs.length < 2 ^ bits) : xs.drop (saturate bits a) = xs.drop a := by
  unfold saturate
  split
  · rfl
  · rw [List.drop_eq_nil_of_le (by omega), List.drop_eq_nil_of_le (by omega)]

/-- A loop whose every turn goes well. -/
theorem mapM_ok {β : Type} {f : α → Except Panic β} {g : α → β}
    (turns : ∀ x ∈ xs, f x = .ok (g x)) : xs.mapM f = .ok (xs.map g) := by
  induction xs with
  | nil => rfl
  | cons x xs ih =>
    rw [List.mapM_cons, turns x List.mem_cons_self,
      ih fun y later => turns y (List.mem_cons_of_mem x later)]
    rfl

end

end Checked

end Ironstate.Lib
