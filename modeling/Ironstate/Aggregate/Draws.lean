import Ironstate.Aggregate.Entropy
import Ironstate.Lib.Checked

/-!
# The derived draws

`draw_range`, `draw_below`, `shuffle_len` and `EntropySourceExt::shuffle` of `entropy.rs`. An
operation that can panic or lose bits is checked, and the loop of `draw_range` is given fuel: it
answers `none` when that is spent. The shuffles take the `draw_range` of their source, which an
implementation may override, and the width of a `usize`.
-/

namespace Ironstate

open Lib (Panic)

/-! ## Arithmetic on `u64` -/

namespace U64

/-- An operation on the values of words, answered as a word. -/
def checked (op : Nat → Nat → Except Panic Nat) (a b : UInt64) : Except Panic UInt64 :=
  (op a.toNat b.toNat).map UInt64.ofNat

def add : UInt64 → UInt64 → Except Panic UInt64 := checked (Lib.Checked.add 64)

def sub : UInt64 → UInt64 → Except Panic UInt64 := checked Lib.Checked.sub

def shl (a : UInt64) (count : Nat) : Except Panic UInt64 :=
  (Lib.Checked.shl 64 a.toNat count).map UInt64.ofNat

/-- `u64::leading_zeros`. -/
def leadingZeros (a : UInt64) : Nat := a.toBitVec.clz.toNat

end U64

/-! ## Ranges -/

section Range

variable {E : Type} [EntropySource E]

/-- `let bits = u64::BITS - (span - 1).leading_zeros()`. -/
def rangeBits (span : UInt64) : Except Panic Nat := do
  let last ← U64.sub span 1
  Lib.Checked.sub 64 (U64.leadingZeros last)

/-- `let mask = ..`. -/
def rangeMask (bits : Nat) : Except Panic UInt64 :=
  if bits ≥ 64 then .ok 0xFFFFFFFFFFFFFFFF
  else do
    let power ← U64.shl 1 bits
    U64.sub power 1

/-- The loop of `draw_range`. -/
def rangeLoop (start span mask : UInt64) : Nat → E → Except Panic (Option (UInt64 × E))
  | 0, _ => .ok none
  | fuel + 1, e =>
    let (word, e) := drawU64 e
    let candidate := word &&& mask
    if candidate < span then do
      let value ← U64.add start candidate
      .ok (some (value, e))
    else rangeLoop start span mask fuel e

/-- `EntropySource::draw_range`, for the range from `start` to `stop`. -/
def drawRange (fuel : Nat) (start stop : UInt64) (e : E) : Except Panic (Option (UInt64 × E)) := do
  Lib.Checked.assert (start ≤ stop) "draw_range needs end >= start"
  let span := stop - start
  Lib.Checked.assert (span > 0) "draw_range needs a non-empty range"
  let bits ← rangeBits span
  let mask ← rangeMask bits
  rangeLoop start span mask fuel e

/-- `EntropySource::draw_below`. -/
def drawBelow (fuel : Nat) (num den : UInt64) (e : E) : Except Panic (Option (Bool × E)) := do
  Lib.Checked.assert (den > 0) "draw_below needs a positive denominator"
  Lib.Checked.assert (num ≤ den) "draw_below needs num <= den"
  let drawn ← drawRange fuel 0 den e
  .ok (drawn.map fun (value, e) => (decide (value < num), e))

end Range

/-! ## Shuffles -/

section Shuffle

variable {E α : Type} (range : UInt64 → UInt64 → E → Except Panic (Option (UInt64 × E)))
variable (usize : Nat)

/-- `slice::swap`. -/
def swap (xs : List α) (i j : Nat) : Except Panic (List α) := do
  let x ← Lib.Checked.get xs i
  let y ← Lib.Checked.get xs j
  .ok ((xs.set i y).set j x)

/-- `self.draw_range(0..(i as u64 + 1)) as usize`. -/
def drawIndex (i : Nat) (e : E) : Except Panic (Option (Nat × E)) := do
  let i ← Lib.Checked.cast 64 i
  let stop ← Lib.Checked.add 64 i 1
  match ← range 0 (.ofNat stop) e with
  | none => .ok none
  | some (j, e) => do
    let j ← Lib.Checked.cast usize j.toNat
    .ok (some (j, e))

/-- The loop of `shuffle_len`, from index `i` down to 1. -/
def shuffleLenLoop : Nat → List Nat → E → Except Panic (Option (List Nat × E))
  | 0, indices, e => .ok (some (indices, e))
  | i + 1, indices, e => do
    match ← drawIndex range usize (i + 1) e with
    | none => .ok none
    | some (j, e) => do
      let indices ← swap indices (i + 1) j
      shuffleLenLoop i indices e

/-- `EntropySource::shuffle_len`. -/
def shuffleLen (len : Nat) (e : E) : Except Panic (Option (List Nat × E)) :=
  let indices := List.range len
  shuffleLenLoop range usize (len - 1) indices e

/-- The loop of `shuffle`. -/
def shuffleLoop : Nat → List α → E → Except Panic (Option (List α × E))
  | 0, slice, e => .ok (some (slice, e))
  | i + 1, slice, e => do
    match ← drawIndex range usize (i + 1) e with
    | none => .ok none
    | some (j, e) => do
      let slice ← swap slice (i + 1) j
      shuffleLoop i slice e

/-- `EntropySourceExt::shuffle`. -/
def shuffle (slice : List α) (e : E) : Except Panic (Option (List α × E)) :=
  shuffleLoop range usize (slice.length - 1) slice e

end Shuffle

end Ironstate
