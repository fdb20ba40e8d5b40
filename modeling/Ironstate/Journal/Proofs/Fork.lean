import Ironstate.Journal.Fixture
import Ironstate.Journal.Proofs.Resume

/-!
# Which forks can be resumed

A fork is granted on any snapshot at or below the fork point, and replay also needs that
snapshot at or above the horizon. The two agree unless a snapshot was stored late, below the
horizon; then the branch of a granted fork may have nothing to resume from.
-/

namespace Ironstate

variable {A : AggregateRules} {genesis : A.State}

/-- Honest snapshots, none of them stored below the horizon, and no fork. -/
def Policy.timely (genesis : A.State) : Policy A :=
  ⟨fun _ _ => True, fun s history snap => Honest genesis history snap ∧ s.truncated ≤ snap.atSeq,
    False⟩

theorem Reached.honest_of_timely {t : Traced A} (reached : Reached genesis (.timely genesis) t) :
    Reached genesis (.honest genesis) t := by
  apply reached.mono
  intro t op admitted
  cases op with
  | append stream events pos => trivial
  | snapshot stream snap => exact admitted.1
  | truncate stream seq => trivial
  | fork stream seq => exact admitted

/-- Timely runs hold no snapshot below the horizon. -/
theorem timelyInv (genesis : A.State) :
    StreamInv genesis (.timely genesis) fun _ s => ∀ snap ∈ s.snapshots, s.truncated ≤ snap.atSeq
    where
  new := by
    intro snap _
    exact Nat.zero_le _
  append _ _ above _ := above
  snapshot := by
    intro _ s added above admitted snap member
    rcases List.mem_append.mp member with stored | new
    · exact above snap stored
    · obtain rfl := List.mem_singleton.mp new
      exact admitted.2
  truncate := by
    intro _ s s' seq above accepted snap member
    obtain ⟨-, -, -, rfl⟩ := (Stream.truncateBefore_ok s s' seq).mp accepted
    rw [List.mem_filter, decide_eq_true_eq] at member
    exact member.2
  fork forbidden := forbidden.elim

namespace Stream

variable {s s' : Stream A} {seq : Nat}

/-- A branch is based when a snapshot of the source lies between the horizon and the fork
point. -/
theorem based_fork_iff (granted : s.fork seq = .ok s') :
    s'.Based ↔ ∃ snap ∈ s.snapshots, s.truncated ≤ snap.atSeq ∧ snap.atSeq ≤ seq := by
  have head := headNat_fork granted
  obtain ⟨-, -, -, result⟩ := (fork_ok s s' seq).mp granted
  constructor
  · intro based
    obtain ⟨snap, member, above, bound⟩ := based
    rw [result] at member above
    rw [List.mem_filter, decide_eq_true_eq] at member
    exact ⟨snap, member.1, above, member.2⟩
  · intro base
    obtain ⟨snap, member, above, bound⟩ := base
    refine ⟨snap, ?_, ?_, head ▸ bound⟩
    · rw [result]
      exact List.mem_filter.mpr ⟨member, decide_eq_true bound⟩
    · rw [result]
      exact above

/-- A granted fork has a snapshot at or below the fork point. -/
theorem exists_base_of_fork (granted : s.fork seq = .ok s') :
    ∃ snap ∈ s.snapshots, snap.atSeq ≤ seq :=
  ((fork_ok s s' seq).mp granted).2.2.1

end Stream

/-- A granted fork resumes to the state and the position of the fork point exactly when a
snapshot lies between the horizon and the fork point; runs that store no snapshot below the
horizon grant no other fork. -/
theorem fork_usable_iff (chacha12 : Seed → UInt64 → UInt32) (genesis : A.State) :
    (∀ t : Traced A, Reached genesis (.honest genesis) t →
      ∀ (stream : StreamId) (seq : Nat) (branch : MemoryJournal A),
        ForkableJournal.fork t.journal stream seq = .ok branch →
        ((∀ seed, (resume branch stream seed : Resumed A chacha12) =
            .ok (⟨stateAfter genesis (t.history stream) seq⟩,
              .at seed (posAt (t.history stream) seq))) ↔
          ∃ snap ∈ (t.journal.streamMut stream).snapshots,
            (t.journal.streamMut stream).truncated ≤ snap.atSeq ∧ snap.atSeq ≤ seq)) ∧
    ∀ t : Traced A, Reached genesis (.timely genesis) t →
      ∀ (stream : StreamId) (seq : Nat) (branch : MemoryJournal A),
        ForkableJournal.fork t.journal stream seq = .ok branch →
        ∀ seed, (resume branch stream seed : Resumed A chacha12) =
          .ok (⟨stateAfter genesis (t.history stream) seq⟩,
            .at seed (posAt (t.history stream) seq)) := by
  have exactly : ∀ t : Traced A, Reached genesis (.honest genesis) t →
      ∀ (stream : StreamId) (seq : Nat) (branch : MemoryJournal A),
        ForkableJournal.fork t.journal stream seq = .ok branch →
        ((∀ seed, (resume branch stream seed : Resumed A chacha12) =
            .ok (⟨stateAfter genesis (t.history stream) seq⟩,
              .at seed (posAt (t.history stream) seq))) ↔
          ∃ snap ∈ (t.journal.streamMut stream).snapshots,
            (t.journal.streamMut stream).truncated ≤ snap.atSeq ∧ snap.atSeq ≤ seq) := by
    intro t reached stream seq branch granted
    obtain ⟨-, forked, -⟩ := MemoryJournal.fork_ok granted
    have sound := (reached.stream (soundInv genesis)).2 stream
    have bound := ((Stream.fork_ok _ _ _).mp forked).1
    rw [Stream.headNat_eq sound.retains] at bound
    rw [← Stream.based_fork_iff forked]
    constructor
    · intro resumed
      exact (resume_ok_iff ⟨Vector.replicate 32 0⟩).mp ⟨_, resumed _⟩
    · intro based seed
      have length : ((t.history stream).take seq).length = seq := by
        rw [List.length_take, Nat.min_eq_left bound]
      rw [resume_sound (sound.fork forked) based seed, length,
        stateAfter_take genesis _ (Nat.le_refl seq), posAt_take _ (Nat.le_refl seq)]
  refine ⟨exactly, ?_⟩
  intro t reached stream seq branch granted
  apply (exactly t reached.honest_of_timely stream seq branch granted).mpr
  obtain ⟨-, forked, -⟩ := MemoryJournal.fork_ok granted
  obtain ⟨snap, member, below⟩ := Stream.exists_base_of_fork forked
  exact ⟨snap, member, (reached.stream (timelyInv genesis)).2 stream snap member, below⟩

section Stranded

open Fixture

/-- Three records, a snapshot of the head, and the first record discarded. -/
def truncatedRun : Traced (Tally Rng) :=
  (((((Traced.fresh Fixture.genesis).step (.append "tally" [TallyEvent.bumped] 2)).step
    (.append "tally" [TallyEvent.bumped] 4)).step (.append "tally" [TallyEvent.bumped] 6)).step
      (.snapshot "tally" ⟨counted 3, 0, 3, 6⟩)).step (.truncate "tally" 2)

theorem truncatedRun_reached : Reached Fixture.genesis (.honest Fixture.genesis) truncatedRun := by
  refine .next (.next (.next (.next (.next .start trivial) trivial) trivial) ?_) trivial
  exact ⟨by decide, rfl, rfl⟩

/-- The same, and then an honest snapshot of the genesis, stored late. -/
def strandedRun : Traced (Tally Rng) :=
  truncatedRun.step (.snapshot "tally" ⟨Fixture.genesis, 0, 0, 0⟩)

/-- The late snapshot lets a fork through that nothing can resume. -/
theorem fork_stranded :
    Reached Fixture.genesis (.honest Fixture.genesis) strandedRun ∧
      ∃ branch, ForkableJournal.fork strandedRun.journal "tally" 2 = .ok branch ∧
        (resume branch "tally" Fixture.seed : Resumed (Tally Rng) fun _ _ => 0) =
          .error (.journal (.unknownSeq 0)) := by
  refine ⟨.next truncatedRun_reached ?_, _, rfl, rfl⟩
  exact ⟨by decide, rfl, rfl⟩

/-- The head of the same stream can be forked and resumed, with the late snapshot and
without it. -/
theorem fork_usable_iff_stranded :
    (∃ branch, ForkableJournal.fork strandedRun.journal "tally" 3 = .ok branch ∧
      ∀ seed, (resume branch "tally" seed : Resumed (Tally Rng) fun _ _ => 0) =
        .ok (⟨counted 3⟩, .at seed 6)) ∧
    ∃ branch, ForkableJournal.fork truncatedRun.journal "tally" 3 = .ok branch ∧
      ∀ seed, (resume branch "tally" seed : Resumed (Tally Rng) fun _ _ => 0) =
        .ok (⟨counted 3⟩, .at seed 6) := by
  have reached : Reached Fixture.genesis (.honest Fixture.genesis) strandedRun := by
    refine .next truncatedRun_reached ?_
    exact ⟨by decide, rfl, rfl⟩
  have timely : Reached Fixture.genesis (.timely Fixture.genesis) truncatedRun := by
    refine .next (.next (.next (.next (.next .start trivial) trivial) trivial) ?_) trivial
    exact ⟨⟨by decide, rfl, rfl⟩, by decide⟩
  refine ⟨⟨_, rfl, ?_⟩, _, rfl, ?_⟩
  · apply ((fork_usable_iff (fun _ _ => 0) Fixture.genesis).1 strandedRun reached "tally" 3 _
      rfl).mpr
    exact ⟨⟨counted 3, 0, 3, 6⟩, List.Mem.head _, by decide, by decide⟩
  · exact (fork_usable_iff (fun _ _ => 0) Fixture.genesis).2 truncatedRun timely "tally" 3 _ rfl

end Stranded

end Ironstate
