/-!
# Entropy and the decision context

`entropy.rs`. A source is counter-addressable: what it draws next is a function of its seed
and its position, and `seek` moves the position. `LawfulEntropySource` is the contract
`assert_entropy_contract` checks (seeking lands exactly there, rewinding included, and a
probe starts where its parent stands); `SeededEntropy` satisfies it, at the positions that a
`DrawPos` can name.
-/

namespace Ironstate

/-- `DrawPos(pub u64)`: the count of words drawn so far. -/
abbrev DrawPos := UInt64

/-- `Seed(pub [u8; 32])`. -/
structure Seed where
  bytes : Vector UInt8 32
  deriving DecidableEq

/-- `LogicalTime(pub u64)`. -/
abbrev LogicalTime := UInt64

/-- The required methods of `trait EntropySource`. -/
class EntropySource (E : Type) where
  drawU64 : E → UInt64 × E
  seek : E → DrawPos → E
  draws : E → DrawPos
  /-- An independent fork at the current position. -/
  probe : E → E

export EntropySource (drawU64 seek draws probe)

/-- What the trait's documentation promises of every source. -/
class LawfulEntropySource (E : Type) [EntropySource E] : Prop where
  draws_seek : ∀ (e : E) (pos : DrawPos), draws (seek e pos) = pos
  seek_draws : ∀ e : E, seek e (draws e) = e
  seek_drawU64 : ∀ (e : E) (pos : DrawPos), seek (drawU64 e).2 pos = seek e pos
  probe_eq : ∀ e : E, probe e = e

/-- `n` draws in a row, forgetting the words. -/
def drawWords {E : Type} [EntropySource E] : Nat → E → E
  | 0, e => e
  | n + 1, e => drawWords n (drawU64 e).2

/-- A rewind after any number of draws lands on the stream it started from. -/
theorem seek_drawWords {E : Type} [EntropySource E] [LawfulEntropySource E] (n : Nat) (e : E)
    (pos : DrawPos) : seek (drawWords n e) pos = seek e pos := by
  induction n generalizing e with
  | zero => rfl
  | succ n ih => rw [drawWords, ih, LawfulEntropySource.seek_drawU64]

/-- `SeededEntropy`: the ChaCha12 stream of a seed, at a word position. The generator is
third-party code; `chacha12` gives the 32-bit word of a seed at a position. The position is kept
to the 64 bits a `DrawPos` can name; `Keystream.SeededEntropy` has that of the generator, from
which this one cannot be told apart below word 2^64. -/
structure SeededEntropy (chacha12 : Seed → UInt64 → UInt32) where
  seed : Seed
  wordPos : UInt64
  deriving DecidableEq

namespace SeededEntropy

variable {chacha12 : Seed → UInt64 → UInt32}

/-- `SeededEntropy::at`: a stream positioned at `pos`. -/
def «at» (seed : Seed) (pos : DrawPos) : SeededEntropy chacha12 := ⟨seed, pos⟩

/-- `SeededEntropy::from_seed`. -/
def fromSeed (seed : Seed) : SeededEntropy chacha12 := .at seed 0

/-- `next_u64` reads two words of the stream, the low one first. -/
instance : EntropySource (SeededEntropy chacha12) where
  drawU64 e :=
    (((chacha12 e.seed (e.wordPos + 1)).toUInt64 <<< 32) ||| (chacha12 e.seed e.wordPos).toUInt64,
      { e with wordPos := e.wordPos + 2 })
  seek e pos := { e with wordPos := pos }
  draws e := e.wordPos
  probe e := .at e.seed e.wordPos

instance : LawfulEntropySource (SeededEntropy chacha12) where
  draws_seek _ _ := rfl
  seek_draws _ := rfl
  seek_drawU64 _ _ := rfl
  probe_eq _ := rfl

@[simp] theorem draws_at (seed : Seed) (pos : DrawPos) :
    draws (SeededEntropy.at seed pos : SeededEntropy chacha12) = pos := rfl

@[simp] theorem seek_at (seed : Seed) (pos target : DrawPos) :
    seek (SeededEntropy.at seed pos : SeededEntropy chacha12) target = .at seed target := rfl

/-- Draws move a stream along its own seed. -/
theorem drawWords_at (n : Nat) (seed : Seed) (pos : DrawPos) :
    ∃ reached, drawWords n (SeededEntropy.at seed pos : SeededEntropy chacha12) =
      .at seed reached := by
  induction n generalizing pos with
  | zero => exact ⟨pos, rfl⟩
  | succ n ih => exact ih (pos + 2)

end SeededEntropy

/-- `trait CtxEntropy`. The `Option<&mut dyn EntropySource>` that `entropy_mut` lends out is
a read (`entropy`) and a write back through the reference (`setEntropy`), with the laws a
reference into the context has. -/
class CtxEntropy (Ctx : Type) (E : outParam Type) where
  entropy : Ctx → Option E
  setEntropy : Ctx → E → Ctx
  entropy_setEntropy : ∀ (ctx : Ctx) (e e' : E), entropy ctx = some e →
    entropy (setEntropy ctx e') = some e'
  setEntropy_entropy : ∀ (ctx : Ctx) (e : E), entropy ctx = some e → setEntropy ctx e = ctx
  setEntropy_setEntropy : ∀ (ctx : Ctx) (e e' e'' : E), entropy ctx = some e →
    setEntropy (setEntropy ctx e') e'' = setEntropy ctx e''

export CtxEntropy (entropy setEntropy)

/-- `OwnedDeterministicCtx`: a context that owns its entropy. -/
structure OwnedDeterministicCtx (E Actor : Type) where
  entropy : E
  actor : Actor
  now : LogicalTime
  deriving DecidableEq

instance {E Actor : Type} : CtxEntropy (OwnedDeterministicCtx E Actor) E where
  entropy ctx := some ctx.entropy
  setEntropy ctx e := { ctx with entropy := e }
  entropy_setEntropy _ _ _ _ := rfl
  setEntropy_entropy := by
    intro ctx e present
    obtain rfl := Option.some.inj present
    rfl
  setEntropy_setEntropy _ _ _ _ _ := rfl

section Ctx

variable {Ctx E : Type} [EntropySource E] [CtxEntropy Ctx E]

/-- Where the context's stream stands, if it has one. -/
def ctxDraws (ctx : Ctx) : Option DrawPos := (entropy ctx).map draws

/-- `n` words drawn from the context's stream, if it has one. -/
def drawnCtx (n : Nat) (ctx : Ctx) : Ctx :=
  match entropy ctx with
  | none => ctx
  | some e => setEntropy ctx (drawWords n e)

theorem entropy_drawnCtx (n : Nat) (ctx : Ctx) :
    entropy (drawnCtx n ctx) = (entropy ctx).map (drawWords n) := by
  unfold drawnCtx
  cases present : entropy ctx with
  | none => simpa using present
  | some e => exact CtxEntropy.entropy_setEntropy ctx e _ present

@[simp] theorem drawnCtx_zero (ctx : Ctx) : drawnCtx 0 ctx = ctx := by
  unfold drawnCtx
  cases present : entropy ctx with
  | none => rfl
  | some e => exact CtxEntropy.setEntropy_entropy ctx e present

end Ctx

end Ironstate
