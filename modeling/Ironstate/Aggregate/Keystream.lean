import Mathlib.Algebra.Group.Nat.Defs
import Ironstate.Aggregate.Entropy

/-!
# The seeded source and its generator

`struct SeededEntropy` of `entropy.rs` with the generator it holds. `rand_chacha` counts the words
of a stream in a `u128`, of which `draws` answers the low 64 bits, so that past word 2^64 a seek to
`draws` is a move. A `Client` is whoever holds a `dyn EntropySource`: what it asks next depends on
what it has been answered.
-/

namespace Ironstate

variable {chacha12 : Seed → BitVec 128 → UInt32}

/-! ## The generator -/

/-- `ChaCha12Rng`, at a word of the stream of its seed, which is third-party code: `chacha12` gives
the words. -/
structure ChaCha12Rng (chacha12 : Seed → BitVec 128 → UInt32) where
  seed : Seed
  wordPos : BitVec 128
  deriving DecidableEq

namespace ChaCha12Rng

def fromSeed (seed : Seed) : ChaCha12Rng chacha12 := ⟨seed, 0⟩

def setWordPos (rng : ChaCha12Rng chacha12) (pos : BitVec 128) : ChaCha12Rng chacha12 :=
  { rng with wordPos := pos }

def getWordPos (rng : ChaCha12Rng chacha12) : BitVec 128 := rng.wordPos

/-- Two words of the stream, the low one first. -/
def nextU64 (rng : ChaCha12Rng chacha12) : UInt64 × ChaCha12Rng chacha12 :=
  (((chacha12 rng.seed (rng.wordPos + 1)).toUInt64 <<< 32) |||
      (chacha12 rng.seed rng.wordPos).toUInt64,
    { rng with wordPos := rng.wordPos + 2 })

end ChaCha12Rng

/-! ## The source -/

namespace Keystream

/-- `struct SeededEntropy`; its generator is always that of its seed. -/
structure SeededEntropy (chacha12 : Seed → BitVec 128 → UInt32) where
  rng : ChaCha12Rng chacha12
  seed : Seed
  seeded : rng.seed = seed
  deriving DecidableEq

namespace SeededEntropy

/-- `SeededEntropy::at`. -/
def «at» (seed : Seed) (pos : DrawPos) : SeededEntropy chacha12 :=
  let rng := ChaCha12Rng.fromSeed seed
  let rng := rng.setWordPos (pos.toBitVec.setWidth 128)
  ⟨rng, seed, rfl⟩

/-- `SeededEntropy::from_seed`. -/
def fromSeed (seed : Seed) : SeededEntropy chacha12 := .at seed 0

/-- `DrawPos(self.rng.get_word_pos() as u64)`. -/
def drawPos (e : SeededEntropy chacha12) : DrawPos := .ofBitVec (e.rng.getWordPos.setWidth 64)

instance : EntropySource (SeededEntropy chacha12) where
  drawU64 e := (e.rng.nextU64.1, ⟨e.rng.nextU64.2, e.seed, e.seeded⟩)
  seek e pos := ⟨e.rng.setWordPos (pos.toBitVec.setWidth 128), e.seed, e.seeded⟩
  draws e := e.drawPos
  probe e := .at e.seed e.drawPos

/-- The source stands at a word that a `DrawPos` can name. -/
def Low (e : SeededEntropy chacha12) : Prop := e.rng.wordPos.toNat < 2 ^ 64

instance (e : SeededEntropy chacha12) : Decidable e.Low := inferInstanceAs (Decidable (_ < _))

end SeededEntropy

end Keystream

/-! ## Its users -/

/-- What is done with a source, step by step; on a fork of it something may be tried first. -/
inductive Client (α : Type) where
  | done (answer : α)
  | drawU64 (rest : UInt64 → Client α)
  | seek (pos : DrawPos) (rest : Client α)
  | draws (rest : DrawPos → Client α)
  | probe (aside : Client α) (rest : α → Client α)

namespace Client

variable {α E : Type} [EntropySource E]

/-- What the client ends with, and where it leaves its source. -/
def run : Client α → E → α × E
  | done answer, e => (answer, e)
  | drawU64 rest, e => (rest (Ironstate.drawU64 e).1).run (Ironstate.drawU64 e).2
  | seek pos rest, e => rest.run (Ironstate.seek e pos)
  | draws rest, e => (rest (Ironstate.draws e)).run e
  | probe aside rest, e => (rest (aside.run (Ironstate.probe e)).1).run e

/-- Both words of every draw are words that a `DrawPos` can name. -/
def Below : Client α → Keystream.SeededEntropy chacha12 → Prop
  | done _, _ => True
  | drawU64 rest, e => e.rng.wordPos.toNat + 1 < 2 ^ 64 ∧
      (rest (Ironstate.drawU64 e).1).Below (Ironstate.drawU64 e).2
  | seek pos rest, e => rest.Below (Ironstate.seek e pos)
  | draws rest, e => (rest (Ironstate.draws e)).Below e
  | probe aside rest, e => aside.Below (Ironstate.probe e) ∧
      (rest (aside.run (Ironstate.probe e)).1).Below e

end Client

end Ironstate
