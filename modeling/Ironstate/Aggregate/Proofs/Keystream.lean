import Ironstate.Aggregate.Keystream

/-!
# The source by its `DrawPos`

Forgetting all but the position that `draws` answers takes each operation of the source to that of
`Ironstate.SeededEntropy`, wherever it stands (`narrow_drawU64`, `narrow_probe`), and the words it
draws are the same below 2^64. So no client that stays there can tell the two apart
(`Client.run_narrow`), and the laws of a source hold exactly there (`narrow_exact`).
-/

namespace Ironstate

open Keystream

variable {chacha12 : Seed → BitVec 128 → UInt32}

namespace Keystream.SeededEntropy

/-- The words that a `DrawPos` can name. -/
def named (chacha12 : Seed → BitVec 128 → UInt32) (seed : Seed) (pos : UInt64) : UInt32 :=
  chacha12 seed (pos.toBitVec.setWidth 128)

/-- The source at the position that it answers. -/
def narrow (e : SeededEntropy chacha12) : Ironstate.SeededEntropy (named chacha12) :=
  .at e.seed (draws e)

/-! ## Positions -/

theorem ext_wordPos {e e' : SeededEntropy chacha12} (seed : e.seed = e'.seed)
    (wordPos : e.rng.wordPos = e'.rng.wordPos) : e = e' := by
  obtain ⟨⟨_, _⟩, _, rfl⟩ := e
  obtain ⟨⟨_, _⟩, _, rfl⟩ := e'
  cases seed
  cases wordPos
  rfl

/-- Truncated and widened again, a position is itself exactly if it fits. -/
theorem setWidth_draws (e : SeededEntropy chacha12) :
    (draws e).toBitVec.setWidth 128 = e.rng.wordPos ↔ e.Low := by
  show (e.rng.wordPos.setWidth 64).setWidth 128 = e.rng.wordPos ↔ e.rng.wordPos.toNat < 2 ^ 64
  rw [← BitVec.toNat_inj, BitVec.toNat_setWidth, BitVec.toNat_setWidth]
  omega

/-- Widened and truncated again, a `DrawPos` is always itself. -/
theorem ofBitVec_setWidth (pos : DrawPos) :
    UInt64.ofBitVec ((pos.toBitVec.setWidth 128).setWidth 64) = pos := by
  rw [BitVec.setWidth_setWidth_of_le _ (by decide), BitVec.setWidth_eq]

theorem draws_seek (e : SeededEntropy chacha12) (pos : DrawPos) : draws (seek e pos) = pos :=
  ofBitVec_setWidth pos

/-- The source at the position that it answers is itself exactly if it stands low enough. -/
theorem eq_iff_low {e e' : SeededEntropy chacha12} (seed : e'.seed = e.seed)
    (sought : e'.rng.wordPos = (draws e).toBitVec.setWidth 128) : e' = e ↔ e.Low := by
  rw [← setWidth_draws, ← sought]
  constructor
  · exact congrArg fun e : SeededEntropy chacha12 => e.rng.wordPos
  · exact ext_wordPos seed

theorem seek_draws_iff (e : SeededEntropy chacha12) : seek e (draws e) = e ↔ e.Low :=
  eq_iff_low rfl rfl

theorem probe_eq_iff (e : SeededEntropy chacha12) : probe e = e ↔ e.Low := eq_iff_low rfl rfl

/-! ## One operation -/

theorem narrow_seek (e : SeededEntropy chacha12) (pos : DrawPos) :
    (seek e pos).narrow = seek e.narrow pos :=
  congrArg (Ironstate.SeededEntropy.at e.seed) (draws_seek e pos)

theorem narrow_at (seed : Seed) (pos : DrawPos) :
    (SeededEntropy.at seed pos : SeededEntropy chacha12).narrow = .at seed pos :=
  congrArg (Ironstate.SeededEntropy.at seed) (ofBitVec_setWidth pos)

theorem narrow_probe (e : SeededEntropy chacha12) : (probe e).narrow = probe e.narrow :=
  narrow_at e.seed (draws e)

/-- A draw moves both by two words, past 2^64 too. -/
theorem narrow_drawU64 (e : SeededEntropy chacha12) :
    (drawU64 e).2.narrow = (drawU64 e.narrow).2 := by
  refine congrArg (Ironstate.SeededEntropy.at e.seed) ?_
  show UInt64.ofBitVec ((e.rng.wordPos + 2).setWidth 64) =
    UInt64.ofBitVec (e.rng.wordPos.setWidth 64) + 2
  rw [BitVec.setWidth_add _ _ (by decide)]
  rfl

/-- Below 2^64 they draw the same word. -/
theorem drawU64_narrow (e : SeededEntropy chacha12) (low : e.rng.wordPos.toNat + 1 < 2 ^ 64) :
    (drawU64 e.narrow).1 = (drawU64 e).1 := by
  have here : (draws e).toBitVec.setWidth 128 = e.rng.wordPos :=
    (setWidth_draws e).mpr (by unfold Low; omega)
  have next : (draws e + 1).toBitVec.setWidth 128 = e.rng.wordPos + 1 := by
    have value := congrArg BitVec.toNat here
    rw [BitVec.toNat_setWidth] at value
    apply BitVec.eq_of_toNat_eq
    rw [UInt64.toBitVec_add, BitVec.toNat_setWidth, BitVec.toNat_add, BitVec.toNat_add]
    have one : (1 : UInt64).toBitVec.toNat = 1 := rfl
    have one' : (1 : BitVec 128).toNat = 1 := rfl
    omega
  show ((chacha12 e.seed ((draws e + 1).toBitVec.setWidth 128)).toUInt64 <<< 32) |||
      (chacha12 e.seed ((draws e).toBitVec.setWidth 128)).toUInt64 =
    ((chacha12 e.rng.seed (e.rng.wordPos + 1)).toUInt64 <<< 32) |||
      (chacha12 e.rng.seed e.rng.wordPos).toUInt64
  rw [next, here, e.seeded]

end Keystream.SeededEntropy

/-! ## Every use -/

/-- By induction on the client: what it is answered is the same on both sides, so it goes on
alike. -/
theorem Client.run_narrow {α : Type} (client : Client α) (e : Keystream.SeededEntropy chacha12)
    (below : client.Below e) :
    client.run e.narrow = ((client.run e).1, (client.run e).2.narrow) := by
  induction client generalizing e with
  | done answer => rfl
  | drawU64 rest ih =>
    rw [Client.run, Client.run, ← SeededEntropy.narrow_drawU64,
      SeededEntropy.drawU64_narrow e below.1]
    exact ih _ _ below.2
  | seek pos rest ih =>
    rw [Client.run, Client.run, ← SeededEntropy.narrow_seek]
    exact ih _ below
  | draws rest ih => exact ih _ _ below
  | probe aside rest tried ih =>
    rw [Client.run, Client.run, ← SeededEntropy.narrow_probe, tried _ below.1]
    exact ih _ _ below.2

namespace Keystream.SeededEntropy

/-- The source keeps the laws of a seek wherever it stands, and the others exactly below word
2^64; and whoever draws nothing but words below 2^64 is answered as by a source whose position is
a `DrawPos`. -/
theorem narrow_exact (e : SeededEntropy chacha12) :
    (∀ pos, draws (seek e pos) = pos) ∧ (∀ pos, seek (drawU64 e).2 pos = seek e pos) ∧
      (seek e (draws e) = e ↔ e.Low) ∧ (probe e = e ↔ e.Low) ∧
      ∀ {α : Type} (client : Client α), client.Below e →
        client.run e.narrow = ((client.run e).1, (client.run e).2.narrow) :=
  ⟨draws_seek e, fun _ => rfl, seek_draws_iff e, probe_eq_iff e,
    fun client below => client.run_narrow e below⟩

/-- A draw, a second one that is rewound, and a third after it was tried on a fork. -/
def rewinding : Client (UInt64 × UInt64) :=
  .drawU64 fun first => .draws fun pos => .drawU64 fun _ => .seek pos
    (.probe (.drawU64 fun guess => .done (first, guess)) fun guessed => .drawU64 fun second =>
      .done (guessed.2, second))

/-- On a stream whose words are their own positions. -/
theorem narrow_exact_rewinding :
    let e : SeededEntropy (fun _ pos => .ofBitVec (pos.setWidth 32)) := .fromSeed ⟨.replicate 32 7⟩
    rewinding.run e.narrow = ((rewinding.run e).1, (rewinding.run e).2.narrow) ∧
      (rewinding.run e).1 = (0x300000002, 0x300000002) := by
  intro e
  have below : rewinding.Below e := ⟨by decide, by decide, ⟨by decide, trivial⟩, by decide, trivial⟩
  exact ⟨(narrow_exact e).2.2.2.2 rewinding below, by decide⟩

/-- Past word 2^64 a probe is no fork at the current position: after one draw from `u64::MAX` it
draws other words. -/
theorem probe_drifts :
    let e : SeededEntropy (fun _ pos => if pos.toNat < 2 ^ 64 then 0 else 1) :=
      .at ⟨.replicate 32 7⟩ 0xFFFFFFFFFFFFFFFF
    let moved := (drawU64 e).2
    (drawU64 (probe moved)).1 ≠ (drawU64 moved).1 := by
  decide

end Keystream.SeededEntropy

end Ironstate
