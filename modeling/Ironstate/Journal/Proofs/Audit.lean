import Ironstate.Journal.Audit
import Ironstate.Journal.Fixture
import Ironstate.Journal.Kept
import Ironstate.Aggregate.Proofs.Encoding

/-!
# What an audit digest attests

Whoever holds an honest snapshot and the events since computes the digest of the live state; and
whoever computes that digest from a snapshot and events of their own has a state that agrees with
the live one, or a collision of the hash (`replayHash_attests`).
-/

namespace Ironstate

open StableHash (Decls Target Ty Val CanonicalEncoder)

variable {A : AggregateRules} {decls : Decls} {target : Target} {ty : Ty}

/-- The canonical bytes of two values are the same exactly if they agree. -/
theorem StableHash.bytes_eq_iff (x y : Val decls target ty) : x.bytes = y.bytes ↔ x.Agree y := by
  constructor
  · intro same
    exact (x.delimits y [] [] (congrArg (· ++ []) same)).2
  · intro agree
    exact congrArg CanonicalEncoder.bytes (agree.encode CanonicalEncoder.new)

/-- Digests are equal exactly if the values agree or the hash collides on them. -/
theorem auditDigest_eq_iff (blake3 : List UInt8 → Vector UInt8 32) (x y : Val decls target ty) :
    auditDigest blake3 x = auditDigest blake3 y ↔
      x.Agree y ∨ x.bytes ≠ y.bytes ∧ blake3 x.bytes = blake3 y.bytes := by
  have digests : auditDigest blake3 x = auditDigest blake3 y ↔ blake3 x.bytes = blake3 y.bytes :=
    ⟨congrArg AuditDigest.bytes, congrArg AuditDigest.mk⟩
  rw [digests, ← StableHash.bytes_eq_iff]
  by_cases same : x.bytes = y.bytes
  · simp [same]
  · simp [same]

variable {J : Type} [Journal J A Unit] [ContractJournal J A] [KeepsHistory J A]

/-- Over a journal that keeps its history: from any honest snapshot and the events the journal has
since, `replay_hash` gives the digest of the state that `resume` gives; and from any snapshot and
any events it gives this digest exactly if they lead to a state that agrees with that one, or to
a collision of the hash. -/
theorem replayHash_attests {chacha12 : Seed → UInt64 → UInt32} {genesis : A.State}
    {history : StreamId → List (Record A)} {journal : J}
    (holds : KeepsHistory.Holds genesis history journal)
    (blake3 : List UInt8 → Vector UInt8 32) (stable : A.State → Val decls target ty)
    (stream : StreamId) (seed : Seed) :
    ∃ (live : Aggregate A) (entropy : SeededEntropy chacha12),
      resume journal stream seed = .ok (live, entropy) ∧
        (∀ snapshot : Snapshot A, Honest genesis (history stream) snapshot →
          ∃ events, Journal.eventsSince journal stream (some snapshot.atSeq) = .ok events ∧
            replayHash blake3 stable snapshot events =
              .ok (auditDigest blake3 (stable live.state))) ∧
        ∀ (snapshot : Snapshot A) (claimed : List (VersionedEvent A)),
          let told := stable (claimed.foldl (fun state stored => A.evolve state stored.event)
            snapshot.state)
          replayHash blake3 stable snapshot claimed =
              .ok (auditDigest blake3 (stable live.state)) ↔
            told.Agree (stable live.state) ∨ told.bytes ≠ (stable live.state).bytes ∧
              blake3 told.bytes = blake3 (stable live.state).bytes := by
  refine ⟨_, _, KeepsHistory.resume holds stream seed, ?_, ?_⟩
  · intro snapshot honest
    refine ⟨_, KeepsHistory.eventsSince stream _ holds, ?_⟩
    rw [replayHash, Option.getD_some, replay_eventsAfter genesis (history stream) honest.state]
  · intro snapshot claimed told
    have folded : replay snapshot claimed = .ok ⟨claimed.foldl
        (fun state stored => A.evolve state stored.event) snapshot.state⟩ := by
      have evolved := foldl_evolve (claimed.map (·.event)) (.fromState snapshot.state)
      rw [List.foldl_map, List.foldl_map] at evolved
      rw [replay, evolved]
      rfl
    rw [replayHash, folded]
    exact ⟨fun same => (auditDigest_eq_iff blake3 _ _).mp (Except.ok.inj same),
      fun agree => congrArg Except.ok ((auditDigest_eq_iff blake3 _ _).mpr agree)⟩

namespace Fixture

/-- No type derives `StableHash`: the name is that of a struct without fields. -/
def noDecls : Decls :=
  ⟨fun _ => .struct [], fun _ => .struct [], fun _ => rfl, fun _ _ arms => by cases arms⟩

/-- The state of a `Tally`, by its count. -/
def counts (tally : (Tally Rng).State) : Val noDecls .bits64 (.int .u32) :=
  .int .u32 (TallyState.count tally).toBitVec

/-- In place of the hash, the first bytes. -/
def firstBytes (bytes : List UInt8) : Vector UInt8 32 := Vector.ofFn fun i => bytes.getD i 0

/-- After one bump: genesis and the events since have the digest of the live tally, and two bumps
have it only if they lead to the same count or collide. -/
theorem replayHash_attests_tally :
    ∃ journal : MemoryJournal (Tally Rng),
      Journal.appendIn (ContractJournal.fresh genesis) () "tally" [TallyEvent.bumped] 0 =
          (.ok 1, journal, ()) ∧
        ∃ (live : Aggregate (Tally Rng)) (entropy : Rng),
          resume journal "tally" seed = .ok (live, entropy) ∧
            (∃ events, Journal.eventsSince journal "tally" (some 0) = .ok events ∧
              replayHash firstBytes counts ⟨genesis, 0, 0, 0⟩ events =
                .ok (auditDigest firstBytes (counts live.state))) ∧
            (replayHash firstBytes counts ⟨genesis, 0, 0, 0⟩
                [.new .bumped 1 "Tally" 0, .new .bumped 2 "Tally" 0] =
                  .ok (auditDigest firstBytes (counts live.state)) ↔
              (counts (counted 2)).Agree (counts live.state) ∨
                (counts (counted 2)).bytes ≠ (counts live.state).bytes ∧
                  firstBytes (counts (counted 2)).bytes =
                    firstBytes (counts live.state).bytes) := by
  obtain ⟨journal, appended, holds⟩ := KeepsHistory.append (J := MemoryJournal (Tally Rng))
    "tally" [TallyEvent.bumped] 0 (KeepsHistory.fresh genesis)
  obtain ⟨live, entropy, resumed, told, claimed⟩ :=
    @replayHash_attests _ _ _ _ _ _ _ _ (fun _ _ => 0) _ _ _ holds firstBytes counts "tally" seed
  have honest := told ⟨genesis, 0, 0, 0⟩ ⟨Nat.zero_le _, rfl, rfl⟩
  exact ⟨journal, appended, live, entropy, resumed, honest, claimed ⟨genesis, 0, 0, 0⟩ _⟩

end Fixture

end Ironstate
