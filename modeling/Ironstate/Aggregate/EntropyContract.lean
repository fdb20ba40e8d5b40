import Ironstate.Aggregate.Draws
import Ironstate.Lib.Yields

/-!
# `assert_entropy_contract`

The checks of `entropy.rs` for a custom source. The calls of `fresh` are numbered in order. A panic is
an error that carries what its message names; a draw that is given fuel may also spend it. A `usize`
has 64 bits. `Splitmix` is the source that the documentation checks, with a `draw_range` of its own.
-/

namespace Ironstate

open Lib (Panic)

/-- The methods that `trait EntropySource` provides, and a source may override. -/
structure Provided (E : Type) where
  range : UInt64 → UInt64 → E → Except Panic (Option (UInt64 × E))
  below : UInt64 → UInt64 → E → Except Panic (Option (Bool × E))
  shuffleLen : Nat → E → Except Panic (Option (List Nat × E))

/-- The other methods as the trait has them, over some `draw_range`. -/
def Provided.ofRange {E : Type}
    (range : UInt64 → UInt64 → E → Except Panic (Option (UInt64 × E))) : Provided E where
  range := range
  below num den e := do
    Lib.Checked.assert (den > 0) "draw_below needs a positive denominator"
    Lib.Checked.assert (num ≤ den) "draw_below needs num <= den"
    let drawn ← range 0 den e
    .ok (drawn.map fun (value, e) => (decide (value < num), e))
  shuffleLen := Ironstate.shuffleLen range 64

/-- Why the assertion stops. -/
inductive Breach where
  | panicked (panic : Panic)
  /-- A draw has spent its fuel. -/
  | spent
  | stream (word : Nat) (x y : UInt64)
  | seek (pos : DrawPos)
  | rewind (early : DrawPos)
  | probeAdvances
  | probeForks (forkedAt : DrawPos)
  | rangeBounds (v : UInt64)
  | unitRange (v : UInt64)
  | coverBounds (v : UInt64)
  | uncovered (seen : List Bool)
  | belowNone
  | belowAll
  | permutation (perm : List Nat)
  | shuffles
  | shuffleOne
  deriving DecidableEq

/-- `assert!`. -/
def ensure (holds : Bool) (breach : Breach) : Except Breach Unit :=
  if holds then .ok () else .error breach

/-- The answer of a draw. -/
def asked {α : Type} : Except Panic (Option α) → Except Breach α
  | .error panic => .error (.panicked panic)
  | .ok none => .error .spent
  | .ok (some answer) => .ok answer

section Checks

variable {E : Type} [EntropySource E] (provided : Provided E)

/-- The words of two sources side by side, from the one numbered `word`. -/
def sameStream (word : Nat) : Nat → E → E → Except Breach Unit
  | 0, _, _ => .ok ()
  | left + 1, a, b => do
    let (x, a) := drawU64 a
    let (y, b) := drawU64 b
    ensure (x == y) (.stream word x y)
    sameStream (word + 1) left a b

/-- A fresh source, seeked to a position, resumes the stream there. -/
def seekRoundTrips (original seeked : E) : Except Breach Unit :=
  let original := drawWords 5 original
  let pos := draws original
  let (next, _) := drawU64 original
  let seeked := seek seeked pos
  ensure ((drawU64 seeked).1 == next) (.seek pos)

/-- A source seeks backwards too. -/
def seekRewinds (e : E) : Except Breach Unit :=
  let e := drawWords 2 e
  let early := draws e
  let (atEarly, e) := drawU64 e
  let e := drawWords 5 e
  let e := seek e early
  ensure ((drawU64 e).1 == atEarly) (.rewind early)

/-- The next two words. -/
def twoWords (e : E) : List UInt64 := [(drawU64 e).1, (drawU64 (drawU64 e).2).1]

/-- `probe` leaves its parent where it is, and forks from there. -/
def probeIsPure (parent rebuilt : E) : Except Breach Unit := do
  let parent := drawWords 1 parent
  let forkedAt := draws parent
  let probed := twoWords (probe parent)
  ensure (draws parent == forkedAt) .probeAdvances
  let rebuilt := seek rebuilt forkedAt
  ensure (twoWords rebuilt == probed) (.probeForks forkedAt)

/-- `for _ in 0..count`: a draw and a check of it. -/
def eachDraw {α : Type} (draw : E → Except Panic (Option (α × E)))
    (check : α → Except Breach Unit) : Nat → E → Except Breach Unit
  | 0, _ => .ok ()
  | count + 1, e => do
    let (v, e) ← asked (draw e)
    check v
    eachDraw draw check count e

/-- The loop that notes which values below 6 come up. -/
def coverLoop : Nat → List Bool → E → Except Breach (List Bool)
  | 0, seen, _ => .ok seen
  | count + 1, seen, e => do
    let (v, e) ← asked (provided.range 0 6 e)
    ensure (v < 6) (.coverBounds v)
    coverLoop count (seen.set v.toNat true) e

/-- `draw_range` covers a small range. -/
def rangeCovers (e : E) : Except Breach Unit := do
  let seen ← coverLoop provided 200 (List.replicate 6 false) e
  ensure (seen.all id) (.uncovered seen)

/-- `shuffle_len` permutes. -/
def shufflePermutes (e : E) : Except Breach Unit := do
  let (perm, _) ← asked (provided.shuffleLen 8 e)
  let sorted := perm.mergeSort fun i j => decide (i ≤ j)
  ensure (sorted == List.range 8) (.permutation perm)

/-- `shuffle_len` and `shuffle` issue the same permutation. -/
def shufflesAgree (e e' : E) : Except Breach Unit := do
  let (viaLen, _) ← asked (provided.shuffleLen 10 e)
  let (identity, _) ← asked (shuffle provided.range 64 (List.range 10) e')
  ensure (viaLen == identity) .shuffles

/-- `shuffle_len` of a single element draws nothing. -/
def shuffleOneDraws (e : E) : Except Breach Unit := do
  let start := draws e
  let (_, e) ← asked (provided.shuffleLen 1 e)
  ensure (draws e == start) .shuffleOne

/-- `assert_entropy_contract`. -/
def assertEntropyContract (fresh : Nat → E) : Except Breach Unit := do
  sameStream 0 32 (fresh 0) (fresh 1)
  seekRoundTrips (fresh 2) (fresh 3)
  seekRewinds (fresh 4)
  probeIsPure (fresh 5) (fresh 6)
  eachDraw (provided.range 10 20) (fun v => ensure (10 ≤ v && v < 20) (.rangeBounds v)) 1000
    (fresh 7)
  eachDraw (provided.range 5 6) (fun v => ensure (v == 5) (.unitRange v)) 8 (fresh 8)
  rangeCovers provided (fresh 9)
  eachDraw (provided.below 0 10) (fun hit => ensure (!hit) .belowNone) 100 (fresh 10)
  eachDraw (provided.below 10 10) (fun hit => ensure hit .belowAll) 100 (fresh 11)
  shufflePermutes provided (fresh 12)
  shufflesAgree provided (fresh 13) (fresh 14)
  shuffleOneDraws provided (fresh 15)

end Checks

/-! ## A source of one's own -/

/-- splitmix64 at a position, which wraps as it does in a release build. -/
structure Splitmix where
  seed : UInt64
  pos : UInt64
  deriving DecidableEq

namespace Splitmix

/-- The word at a position. -/
def word (seed pos : UInt64) : UInt64 :=
  let z := seed + pos * 0x9E3779B97F4A7C15
  let z := (z ^^^ (z >>> 30)) * 0xBF58476D1CE4E5B9
  let z := (z ^^^ (z >>> 27)) * 0x94D049BB133111EB
  z ^^^ (z >>> 31)

instance : EntropySource Splitmix where
  drawU64 e := (word e.seed (e.pos + 1), { e with pos := e.pos + 1 })
  seek e pos := { e with pos := pos }
  draws e := e.pos
  probe e := e

instance : LawfulEntropySource Splitmix where
  draws_seek _ _ := rfl
  seek_draws _ := rfl
  seek_drawU64 _ _ := rfl
  probe_eq _ := rfl

/-- The loop of its `draw_range`. -/
def rejectLoop (start n zone : UInt64) : Nat → Splitmix → Except Panic (Option (UInt64 × Splitmix))
  | 0, _ => .ok none
  | fuel + 1, e =>
    let (v, e) := drawU64 e
    if v < zone then do
      let value ← U64.add start (v % n)
      .ok (some (value, e))
    else rejectLoop start n zone fuel e

/-- Its `draw_range`, which rejects what the last multiple of the span leaves over. -/
def drawRange (fuel : Nat) (start stop : UInt64) (e : Splitmix) :
    Except Panic (Option (UInt64 × Splitmix)) := do
  let n ← U64.sub stop start
  Lib.Checked.assert (n != 0) "attempt to calculate the remainder with a divisor of zero"
  let zone := 0xFFFFFFFFFFFFFFFF - 0xFFFFFFFFFFFFFFFF % n
  rejectLoop start n zone fuel e

end Splitmix

end Ironstate
