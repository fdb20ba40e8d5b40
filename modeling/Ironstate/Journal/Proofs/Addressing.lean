import Ironstate.Journal.Fixture
import Ironstate.Journal.Proofs.Resume

/-!
# Which positions a stream answers

`entropy_pos` asks the snapshots before the records, and snapshots are stored unvalidated.
The first snapshot stored at a `Seq` therefore decides what is answered there: at a `Seq`
the stream does not reach (`out_of_range_refused_iff`), and in place of a record it retains
(`snapshotIn_frame_iff`). Runs that store their snapshots in range, or at the recorded
positions, are free of either effect.
-/

namespace Ironstate

variable {A : AggregateRules} {genesis : A.State} {history : List (Record A)}

/-! ## Addresses past the head or below the horizon -/

/-- Past the head, or further than one below the first retained record. -/
def OutOfRange (j : MemoryJournal A) (stream : StreamId) (seq : Nat) : Prop :=
  (Journal.head j stream).getD 0 < seq ∨ seq < RetainableJournal.retainedFrom j stream - 1

/-- A snapshot may only be stored where the stream could still be addressed. -/
def Policy.inRange : Policy A :=
  ⟨fun _ _ => True, fun s _ snap => s.truncated ≤ snap.atSeq ∧ snap.atSeq ≤ s.headNat, True⟩

theorem outOfRange_iff {j : MemoryJournal A} {stream : StreamId} {seq : Nat} :
    OutOfRange j stream seq ↔
      (j.streamMut stream).headNat < seq ∨ seq < (j.streamMut stream).truncated := by
  simp [OutOfRange, Stream.retainedFrom]

namespace Stream

/-- Out of range only a stored snapshot keeps `entropy_pos` from refusing. -/
theorem entropyPos_outside {s : Stream A} {seq : Nat}
    (outside : s.headNat < seq ∨ seq < s.truncated) :
    s.entropyPos seq = .error (.unknownSeq seq) ↔ ∀ snap ∈ s.snapshots, snap.atSeq ≠ seq := by
  cases stored : s.snapshots.find? fun snap => snap.atSeq == seq with
  | some snap =>
    obtain ⟨member, same⟩ := stored_mem stored
    rw [entropyPos_of_snapshot stored]
    constructor
    · intro refused
      cases refused
    · intro elsewhere
      exact absurd same (elsewhere snap member)
  | none =>
    constructor
    · intro _ snap member
      exact ne_of_unstored stored member
    · intro _
      exact entropyPos_refused outside stored

/-- Every snapshot lies within the range the stream can address. -/
def InRange (s : Stream A) : Prop :=
  ∀ snap ∈ s.snapshots, s.truncated ≤ snap.atSeq ∧ snap.atSeq ≤ s.headNat

end Stream

theorem inRangeInv (genesis : A.State) :
    StreamInv genesis .inRange fun _ s => s.InRange where
  new := by
    intro snap member
    obtain rfl := List.mem_singleton.mp member
    exact ⟨Nat.le_refl 0, Nat.le_refl 0⟩
  append := by
    intro _ s events pos inside _ snap member
    rw [Stream.headNat_append]
    have bounds := inside snap member
    exact ⟨bounds.1, Nat.le_succ_of_le bounds.2⟩
  snapshot := by
    intro _ s added inside admitted snap member
    rcases List.mem_append.mp member with stored | new
    · exact inside snap stored
    · obtain rfl := List.mem_singleton.mp new
      exact admitted
  truncate := by
    intro _ s s' seq inside accepted snap member
    rw [Stream.headNat_truncateBefore accepted]
    obtain ⟨-, -, -, rfl⟩ := (Stream.truncateBefore_ok s s' seq).mp accepted
    rw [List.mem_filter, decide_eq_true_eq] at member
    exact ⟨member.2, (inside snap member.1).2⟩
  fork := by
    intro _ _ s s' seq inside granted snap member
    rw [Stream.headNat_fork granted]
    obtain ⟨-, -, -, rfl⟩ := (Stream.fork_ok s s' seq).mp granted
    rw [List.mem_filter, decide_eq_true_eq] at member
    exact ⟨(inside snap member.1).1, member.2⟩

/-- Out of range, `entropy_pos` refuses exactly where no snapshot is stored; in runs that
store their snapshots in range it always refuses. -/
theorem out_of_range_refused_iff :
    (∀ (j : MemoryJournal A) (stream : StreamId) (seq : Nat), OutOfRange j stream seq →
      (Journal.entropyPos j stream seq = .error (.unknownSeq seq) ↔
        ∀ snap ∈ (j.streamMut stream).snapshots, snap.atSeq ≠ seq)) ∧
    ∀ (genesis : A.State) (t : Traced A), Reached genesis .inRange t →
      ∀ (stream : StreamId) (seq : Nat), OutOfRange t.journal stream seq →
        Journal.entropyPos t.journal stream seq = .error (.unknownSeq seq) := by
  have pointwise : ∀ (j : MemoryJournal A) (stream : StreamId) (seq : Nat),
      OutOfRange j stream seq →
        (Journal.entropyPos j stream seq = .error (.unknownSeq seq) ↔
          ∀ snap ∈ (j.streamMut stream).snapshots, snap.atSeq ≠ seq) := by
    intro j stream seq outside
    rw [MemoryJournal.entropyPos_eq]
    exact Stream.entropyPos_outside (outOfRange_iff.mp outside)
  refine ⟨pointwise, ?_⟩
  intro genesis t reached stream seq outside
  apply (pointwise t.journal stream seq outside).mpr
  intro snap member same
  have bounds := (reached.stream (inRangeInv genesis)).2 stream snap member
  rcases outOfRange_iff.mp outside with past | below
  · omega
  · omega

section Stray

open Fixture

/-- A snapshot of an empty stream, stored seven records past its head. -/
def strayRun : Traced (Tally Rng) :=
  (Traced.fresh Fixture.genesis).step (.snapshot "tally" ⟨Fixture.genesis, 0, 7, 9⟩)

/-- The stray snapshot is answered as a position, at an address no record ever had. -/
theorem stray_snapshot_answered :
    Reached Fixture.genesis .any strayRun ∧ OutOfRange strayRun.journal "tally" 7 ∧
      Journal.entropyPos strayRun.journal "tally" 7 = .ok 9 := by
  refine ⟨.next .start trivial, ?_, ?_⟩
  · rw [outOfRange_iff]
    exact .inl (by decide)
  · rfl

/-- One record and a snapshot of it, in range. -/
def coveredRun : Traced (Tally Rng) :=
  ((Traced.fresh Fixture.genesis).step (.append "tally" [TallyEvent.bumped] 2)).step
    (.snapshot "tally" ⟨counted 1, 0, 1, 2⟩)

/-- Another unused address of the same stream is refused, and so is one past the head of a
stream whose snapshot is in range. -/
theorem out_of_range_refused_iff_stray :
    (OutOfRange strayRun.journal "tally" 8 ∧
      Journal.entropyPos strayRun.journal "tally" 8 = .error (.unknownSeq 8)) ∧
    OutOfRange coveredRun.journal "tally" 2 ∧
      Journal.entropyPos coveredRun.journal "tally" 2 = .error (.unknownSeq 2) := by
  have outside : OutOfRange strayRun.journal "tally" 8 := by
    rw [outOfRange_iff]
    exact .inl (by decide)
  have past : OutOfRange coveredRun.journal "tally" 2 := by
    rw [outOfRange_iff]
    exact .inl (by decide)
  have reached : Reached Fixture.genesis .inRange coveredRun := by
    refine .next (.next .start trivial) ?_
    exact ⟨by decide, by decide⟩
  refine ⟨⟨outside, ?_⟩, past, ?_⟩
  · apply (out_of_range_refused_iff.1 strayRun.journal "tally" 8 outside).mpr
    decide
  · exact out_of_range_refused_iff.2 Fixture.genesis coveredRun reached "tally" 2 past

end Stray

/-! ## Snapshots stored at a retained record -/

/-- The stream still holds the record at `seq`. -/
def Retained (j : MemoryJournal A) (stream : StreamId) (seq : Nat) : Prop :=
  RetainableJournal.retainedFrom j stream ≤ seq ∧ seq ≤ (Journal.head j stream).getD 0

/-- The snapshot says of its `Seq` what the stream says already: another one is stored
there, or it holds the position recorded there. -/
def Stream.Agrees (s : Stream A) (history : List (Record A)) (snap : Snapshot A) : Prop :=
  (∃ stored ∈ s.snapshots, stored.atSeq = snap.atSeq) ∨
    snap.entropyPos = posAt history snap.atSeq

/-- Snapshots at retained records hold the recorded position, and so does every append
where a snapshot has been stored ahead of it. -/
def Policy.faithful : Policy A :=
  ⟨fun s pos => ∀ snap,
      (s.snapshots.find? fun snap => snap.atSeq == s.headNat + 1) = some snap →
        snap.entropyPos = pos,
    fun s history snap => s.truncated < snap.atSeq → snap.atSeq ≤ s.headNat →
      s.Agrees history snap,
    True⟩

theorem retained_iff {j : MemoryJournal A} {stream : StreamId} {seq : Nat} :
    Retained j stream seq ↔
      (j.streamMut stream).truncated < seq ∧ seq ≤ (j.streamMut stream).headNat := by
  unfold Retained
  rw [MemoryJournal.retainedFrom_eq, MemoryJournal.head_eq, Stream.head_getD]
  exact Iff.rfl

namespace Stream

theorem find?_snapshot (s : Stream A) (snap : Snapshot A) (seq : Nat) :
    ((s.snapshot snap).snapshots.find? fun snap => snap.atSeq == seq) =
      ((s.snapshots.find? fun snap => snap.atSeq == seq).or
        (if snap.atSeq = seq then some snap else none)) := by
  simp only [snapshot, List.find?_append, List.find?_cons, List.find?_nil]
  by_cases here : snap.atSeq = seq
  · simp only [here, beq_self_eq_true, if_true]
  · simp only [here, beq_eq_false_iff_ne.mpr here, if_false]

/-- What is answered at a retained `Seq` changes with a snapshot stored at it, unless the
snapshot agrees. -/
theorem entropyPos_snapshot_iff {s : Stream A}
    (retains : Lib.Retains history s.records s.truncated) (snap : Snapshot A) :
    (∀ seq, s.truncated < seq → seq ≤ s.headNat →
        (s.snapshot snap).entropyPos seq = s.entropyPos seq) ↔
      (s.truncated < snap.atSeq → snap.atSeq ≤ s.headNat → s.Agrees history snap) := by
  constructor
  · intro same above bound
    cases stored : s.snapshots.find? fun other => other.atSeq == snap.atSeq with
    | some other =>
      exact .inl ⟨other, stored_mem stored⟩
    | none =>
      have first := find?_snapshot s snap snap.atSeq
      rw [stored, if_pos rfl, Option.none_or] at first
      have answered := same snap.atSeq above bound
      rw [entropyPos_of_snapshot first, entropyPos_of_record retains above bound stored] at answered
      exact .inr (Except.ok.inj answered)
  · intro agrees seq above bound
    have first := find?_snapshot s snap seq
    cases stored : s.snapshots.find? fun other => other.atSeq == seq with
    | some other =>
      rw [stored, Option.some_or] at first
      rw [entropyPos_of_snapshot first, entropyPos_of_snapshot stored]
    | none =>
      rw [stored, Option.none_or] at first
      by_cases here : snap.atSeq = seq
      · subst here
        rw [if_pos rfl] at first
        rw [entropyPos_of_snapshot first, entropyPos_of_record retains above bound stored]
        rcases agrees above bound with ⟨other, member, same⟩ | recorded
        · exact absurd same (ne_of_unstored stored member)
        · rw [recorded]
      · rw [if_neg here] at first
        rw [entropyPos_of_record retains above bound stored]
        exact entropyPos_of_record (s := s.snapshot snap) retains above bound first

/-- The positions a stream answers are the recorded ones: at each retained record, and at
the head once everything has been discarded. -/
structure Recorded (history : List (Record A)) (s : Stream A) : Prop where
  retains : Lib.Retains history s.records s.truncated
  retained : ∀ seq snap, s.truncated < seq → seq ≤ s.headNat →
    (s.snapshots.find? fun snap => snap.atSeq == seq) = some snap →
      snap.entropyPos = posAt history seq
  whole : 0 < s.truncated → s.truncated = s.headNat → ∃ snap,
    (s.snapshots.find? fun snap => snap.atSeq == s.headNat) = some snap ∧
      snap.entropyPos = posAt history s.headNat

namespace Recorded

variable {s s' : Stream A}

theorem new (snap : Snapshot A) : Recorded [] (.new snap) := by
  refine ⟨Lib.Retains.nil, ?_, ?_⟩
  · intro seq snap above bound
    exact absurd (Nat.lt_of_lt_of_le above bound) (Nat.lt_irrefl 0)
  · intro positive
    exact absurd positive (Nat.lt_irrefl 0)

theorem append (recorded : Recorded history s) (events : List A.Event) {pos : DrawPos}
    (admitted : Policy.faithful.append s pos) :
    Recorded (history ++ [⟨events, pos⟩]) (s.append events pos) := by
  have length := headNat_eq recorded.retains
  refine ⟨recorded.retains.push _, ?_, ?_⟩
  · intro seq snap above bound stored
    rw [headNat_append] at bound
    by_cases new : seq = s.headNat + 1
    · subst new
      have same := admitted snap stored
      rw [same, length, posAt_push]
    · have earlier : seq ≤ s.headNat := by omega
      rw [posAt_append (by omega)]
      exact recorded.retained seq snap above earlier stored
  · intro _ same
    rw [headNat_append] at same
    have horizon := recorded.retains.horizon_le
    have unchanged : (s.append events pos).truncated = s.truncated := rfl
    omega

theorem snapshot (recorded : Recorded history s) {snap : Snapshot A}
    (admitted : Policy.faithful.snapshot s history snap) :
    Recorded history (s.snapshot snap) := by
  refine ⟨recorded.retains, ?_, ?_⟩
  · intro seq first above bound stored
    rw [find?_snapshot] at stored
    cases earlier : s.snapshots.find? fun snap => snap.atSeq == seq with
    | some other =>
      rw [earlier, Option.some_or] at stored
      obtain rfl := Option.some.inj stored
      exact recorded.retained seq other above bound earlier
    | none =>
      rw [earlier, Option.none_or] at stored
      by_cases here : snap.atSeq = seq
      · subst here
        rw [if_pos rfl] at stored
        obtain rfl := Option.some.inj stored
        rcases admitted above bound with ⟨other, member, same⟩ | agrees
        · exact absurd same (ne_of_unstored earlier member)
        · exact agrees
      · rw [if_neg here] at stored
        cases stored
  · intro positive whole
    obtain ⟨first, stored, pos⟩ := recorded.whole positive whole
    refine ⟨first, ?_, pos⟩
    rw [find?_snapshot, headNat_snapshot, stored, Option.some_or]

theorem truncate (recorded : Recorded history s) {seq : Nat}
    (accepted : s.truncateBefore seq = .ok s') : Recorded history s' := by
  have sameHead := headNat_truncateBefore accepted
  have retains := retains_truncateBefore recorded.retains accepted
  obtain ⟨above, bound, ⟨base, member, high, low⟩, result⟩ :=
    (truncateBefore_ok s s' seq).mp accepted
  have horizon : s'.truncated = seq - 1 := by rw [result]
  refine ⟨retains, ?_, ?_⟩
  · intro n snap later below stored
    rw [horizon] at later
    rw [sameHead] at below
    rw [find?_truncateBefore accepted (by omega)] at stored
    exact recorded.retained n snap (by omega) below stored
  · intro positive whole
    rw [sameHead] at whole ⊢
    rw [find?_truncateBefore accepted (by omega)]
    by_cases already : s.truncated = s.headNat
    · exact recorded.whole (by omega) already
    · -- the snapshot that let the truncation through lies at the head
      cases stored : s.snapshots.find? fun snap => snap.atSeq == s.headNat with
      | some first =>
        refine ⟨first, rfl, recorded.retained _ first ?_ (Nat.le_refl _) stored⟩
        omega
      | none =>
        have at_head : base.atSeq = s.headNat := by omega
        exact absurd at_head (ne_of_unstored stored member)

theorem fork (recorded : Recorded history s) {seq : Nat} (granted : s.fork seq = .ok s') :
    Recorded (history.take seq) s' := by
  have head := headNat_fork granted
  have retains := retains_fork recorded.retains granted
  obtain ⟨bound, above, -, result⟩ := (fork_ok s s' seq).mp granted
  have horizon : s'.truncated = s.truncated := by rw [result]
  refine ⟨retains, ?_, ?_⟩
  · intro n snap later below stored
    rw [horizon] at later
    rw [head] at below
    rw [find?_fork granted below] at stored
    rw [posAt_take history below]
    exact recorded.retained n snap later (Nat.le_trans below bound) stored
  · intro positive whole
    rw [horizon] at positive whole
    rw [head] at whole
    omega

/-- Every position a stream can vouch for is then the recorded one. -/
theorem entropyPos (recorded : Recorded history s) {seq : Nat} (above : s.truncated < seq)
    (bound : seq ≤ s.headNat) : s.entropyPos seq = .ok (posAt history seq) := by
  cases stored : s.snapshots.find? fun snap => snap.atSeq == seq with
  | some snap =>
    rw [entropyPos_of_snapshot stored, recorded.retained seq snap above bound stored]
  | none => exact entropyPos_of_record recorded.retains above bound stored

theorem entropyPos_head (recorded : Recorded history s) (headed : 0 < s.headNat) :
    s.entropyPos s.headNat = .ok (posAt history s.headNat) := by
  by_cases whole : s.truncated = s.headNat
  · obtain ⟨snap, stored, pos⟩ := recorded.whole (by omega) whole
    rw [entropyPos_of_snapshot stored, pos]
  · have horizon : s.truncated ≤ s.headNat := Nat.le_add_right _ _
    exact recorded.entropyPos (by omega) (Nat.le_refl _)

end Recorded

end Stream

theorem recordedInv (genesis : A.State) : StreamInv genesis .faithful Stream.Recorded where
  new := .new _
  append events _ recorded admitted := recorded.append events admitted
  snapshot recorded admitted := recorded.snapshot admitted
  truncate recorded accepted := recorded.truncate accepted
  fork _ _ _ _ _ recorded granted := recorded.fork granted

/-- `snapshot_in` leaves `head`, `retained_from`, `events_since` and the success of `resume`
as they were, and `entropy_pos` at the retained records exactly when the snapshot agrees
with the stream. In runs whose snapshots do, every retained record answers the position it
was appended with, and `resume` the one of the head. -/
theorem snapshotIn_frame_iff {chacha12 : Seed → UInt64 → UInt32} :
    (∀ (genesis : A.State) (t : Traced A), Reached genesis .any t →
      ∀ (stream : StreamId) (snap : Snapshot A) (after : MemoryJournal A),
        after = (Journal.snapshotIn t.journal () stream snap).2.1 →
      (∀ id, Journal.head after id = Journal.head t.journal id ∧
        RetainableJournal.retainedFrom after id = RetainableJournal.retainedFrom t.journal id ∧
        ∀ since, Journal.eventsSince after id since = Journal.eventsSince t.journal id since) ∧
      (∀ seed, (∃ resumed, (resume t.journal stream seed : Resumed A chacha12) = .ok resumed) →
        ∃ resumed, (resume after stream seed : Resumed A chacha12) = .ok resumed) ∧
      ((∀ seq, Retained t.journal stream seq →
          Journal.entropyPos after stream seq = Journal.entropyPos t.journal stream seq) ↔
        (Retained t.journal stream snap.atSeq →
          (t.journal.streamMut stream).Agrees (t.history stream) snap))) ∧
    ∀ (genesis : A.State) (t : Traced A), Reached genesis .faithful t → ∀ (stream : StreamId),
      (∀ seq, Retained t.journal stream seq →
        Journal.entropyPos t.journal stream seq = .ok (posAt (t.history stream) seq)) ∧
      ∀ seed aggregate (e : SeededEntropy chacha12),
        resume t.journal stream seed = .ok (aggregate, e) →
          ∀ head, Journal.head t.journal stream = some head →
            draws e = posAt (t.history stream) head := by
  refine ⟨?_, ?_⟩
  · rintro genesis t reached stream snap after rfl
    have retains := (reached.stream (retainsInv genesis .any)).2 stream
    have written : (Journal.snapshotIn t.journal () stream snap).2.1.streamMut stream =
        (t.journal.streamMut stream).snapshot snap :=
      MemoryJournal.streamMut_snapshotIn t.journal stream snap
    refine ⟨?_, ?_, ?_⟩
    · intro id
      simp only [MemoryJournal.head_eq, MemoryJournal.retainedFrom_eq, MemoryJournal.eventsSince_eq]
      refine ⟨?_, ?_, ?_⟩
      · exact MemoryJournal.snapshotIn_frame Stream.head (fun s => s.head_snapshot snap) _ _ _
      · exact MemoryJournal.snapshotIn_frame Stream.retainedFrom
          (fun s => s.retainedFrom_snapshot snap) _ _ _
      · intro since
        exact MemoryJournal.snapshotIn_frame (fun s => s.eventsSince since)
          (fun s => s.eventsSince_snapshot snap since) _ _ _
    · intro seed succeeded
      rw [resume_ok_iff] at succeeded ⊢
      rw [written]
      exact succeeded.snapshot snap
    · simp only [MemoryJournal.entropyPos_eq, written, retained_iff, and_imp]
      exact Stream.entropyPos_snapshot_iff retains snap
  · intro genesis t reached stream
    have recorded := (reached.stream (recordedInv genesis)).2 stream
    refine ⟨?_, ?_⟩
    · intro seq retained
      obtain ⟨above, bound⟩ := retained_iff.mp retained
      rw [MemoryJournal.entropyPos_eq]
      exact recorded.entropyPos above bound
    · intro seed aggregate e resumed head headed
      rw [MemoryJournal.head_eq] at headed
      obtain ⟨rfl, positive⟩ := Stream.head_eq_some headed
      have based := (resume_ok_iff seed).mp ⟨_, resumed⟩
      obtain ⟨snap, pos, events, -, -, -, found, result⟩ := resume_based chacha12 based seed
      rw [resumed] at result
      have position := found positive
      rw [recorded.entropyPos_head positive] at position
      obtain ⟨-, rfl⟩ := Prod.mk.inj (Except.ok.inj result)
      rw [SeededEntropy.draws_at]
      exact (Except.ok.inj position).symm

section Rewritten

open Fixture

/-- One record, appended at position 2. -/
def appendedRun : Traced (Tally Rng) :=
  (Traced.fresh Fixture.genesis).step (.append "tally" [TallyEvent.bumped] 2)

/-- The same with a snapshot of the record's `Seq` that holds position 9. -/
def rewrittenRun : Traced (Tally Rng) :=
  appendedRun.step (.snapshot "tally" ⟨Fixture.genesis, 0, 1, 9⟩)

/-- The position of a retained record, and the one resume draws from, is the snapshot's. -/
theorem snapshot_rewrites_position :
    Reached Fixture.genesis .any rewrittenRun ∧ Retained appendedRun.journal "tally" 1 ∧
      Journal.entropyPos appendedRun.journal "tally" 1 = .ok 2 ∧
      Journal.entropyPos rewrittenRun.journal "tally" 1 = .ok 9 ∧
      ∃ aggregate, (resume rewrittenRun.journal "tally" Fixture.seed :
        Resumed (Tally Rng) fun _ _ => 0) = .ok (aggregate, .at Fixture.seed 9) := by
  refine ⟨.next (.next .start trivial) trivial, ?_, rfl, rfl, _, rfl⟩
  rw [retained_iff]
  decide

/-- A snapshot with the record's own position changes nothing. -/
theorem snapshotIn_frame_iff_appended :
    Journal.entropyPos (Journal.snapshotIn appendedRun.journal () "tally"
        ⟨Fixture.genesis, 0, 1, 2⟩).2.1 "tally" 1 =
      Journal.entropyPos appendedRun.journal "tally" 1 ∧
    Journal.entropyPos appendedRun.journal "tally" 1 = .ok 2 := by
  have retained : Retained appendedRun.journal "tally" 1 := by
    rw [retained_iff]
    decide
  have reached : Reached Fixture.genesis .any appendedRun := .next .start trivial
  have frame := (@snapshotIn_frame_iff (Tally Rng) fun _ _ => 0).1 _ _ reached "tally"
    ⟨Fixture.genesis, 0, 1, 2⟩ _ rfl
  have faithful : Reached Fixture.genesis .faithful appendedRun := by
    refine .next .start ?_
    intro snap stored
    cases stored
  have positions := (@snapshotIn_frame_iff (Tally Rng) fun _ _ => 0).2 _ _ faithful "tally"
  refine ⟨frame.2.2.mpr ?_ 1 retained, positions.1 1 retained⟩
  intro _
  exact .inr rfl

end Rewritten

end Ironstate
