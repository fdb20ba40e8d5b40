import Ironstate.Journal.Guarded
import Ironstate.Journal.Trace
import Ironstate.Journal.Fixture
import Ironstate.Aggregate.StableHash

/-!
# No panic on machine words

The guards of `memory.rs` protect its arithmetic wherever the head of a stream and the length of
its records are words (`Stream.Fits`), and every operation keeps that. Each guarded method of such
a stream answers what the method on unbounded numbers answers, and so does each method of a journal
reached (`never_panics`).
-/

namespace Ironstate

open Lib (Panic)
open StableHash (Target)

variable {A : AggregateRules} {usize : Nat}

namespace Stream

/-- The number one past the head is a `u64`, and the length of the records is a `usize`. -/
structure Fits (usize : Nat) (s : Stream A) : Prop where
  head : s.headNat < 2 ^ 64 - 1
  length : s.records.length < 2 ^ usize

section Methods

variable {s : Stream A} (fits : s.Fits usize)

include fits

theorem headNat_guarded : Guarded.headNat s = .ok s.headNat := by
  have bound := fits.head
  unfold Stream.headNat at bound
  unfold Guarded.headNat
  rw [Lib.Checked.cast_ok (by omega)]
  exact Lib.Checked.add_ok (by omega)

theorem head_guarded : Guarded.head s = .ok s.head := by
  unfold Guarded.head
  rw [headNat_guarded fits]
  rfl

theorem retainedFrom_guarded : Guarded.retainedFrom s = .ok s.retainedFrom := by
  have bound := fits.head
  unfold Stream.headNat at bound
  exact Lib.Checked.add_ok (by omega)

theorem latestSnapshotAt_guarded : Guarded.latestSnapshotAt s = .ok s.latestSnapshotAt := by
  unfold Guarded.latestSnapshotAt
  rw [headNat_guarded fits]
  rfl

theorem latestSnapshot_guarded : Guarded.latestSnapshot s = .ok s.latestSnapshot := by
  unfold Guarded.latestSnapshot
  rw [headNat_guarded fits]
  rfl

/-- The index of a record between the horizon and the head is in bounds on every target. -/
theorem recordAt_guarded (seq : Nat) : Guarded.recordAt usize s seq = .ok (s.recordAt seq) := by
  have length := fits.length
  unfold Guarded.recordAt Stream.recordAt
  by_cases below : seq ≤ s.truncated
  · rw [if_pos below, dif_pos (.inl below)]
  · rw [if_neg below, headNat_guarded fits]
    by_cases past : seq > s.headNat
    · rw [dif_pos (.inr past)]
      exact if_pos past
    · rw [dif_neg (by unfold Stream.headNat at past; omega)]
      have inside : seq - s.truncated - 1 < s.records.length := by
        unfold Stream.headNat at past
        omega
      simp only [bind, Except.bind, if_neg past, Lib.Checked.sub_ok (Nat.le_of_not_le below),
        Lib.Checked.sub_ok (show 1 ≤ seq - s.truncated by omega),
        Lib.Checked.cast_ok (Nat.lt_trans inside length),
        Lib.Checked.get_ok (List.getElem?_eq_getElem inside)]
      rfl

theorem entropyPos_guarded (seq : Nat) :
    Guarded.entropyPos usize s seq = .ok (s.entropyPos seq) := by
  unfold Guarded.entropyPos Stream.entropyPos
  cases s.snapshots.find? fun snap => snap.atSeq == seq with
  | some snap => rfl
  | none =>
    by_cases genesis : seq = 0
    · simp only [if_pos genesis]
      split <;> rfl
    · simp only [if_neg genesis, recordAt_guarded fits seq]
      cases s.recordAt seq <;> rfl

theorem eventsSince_guarded (after : Option Nat) :
    Guarded.eventsSince usize s after = .ok (s.eventsSince after) := by
  have bound := fits.head
  have length := fits.length
  unfold Stream.headNat at bound
  unfold Guarded.eventsSince Stream.eventsSince
  by_cases below : after.getD 0 < s.truncated
  · simp only [if_pos below]
  · have numbered : ∀ numbered ∈ s.records.zipIdx.drop (after.getD 0 - s.truncated),
        (do
          let index ← Lib.Checked.cast 64 numbered.2
          let seq ← Lib.Checked.add 64 s.truncated index
          let seq ← Lib.Checked.add 64 seq 1
          .ok (numbered.1.events.map fun event => (seq, event))) =
        Except.ok (ε := Panic)
          (numbered.1.events.map fun event => (s.truncated + numbered.2 + 1, event)) := by
      intro numbered listed
      have index := List.snd_lt_of_mem_zipIdx (List.mem_of_mem_drop listed)
      simp only [bind, Except.bind, Lib.Checked.cast_ok (show numbered.2 < 2 ^ 64 by omega),
        Lib.Checked.add_ok (show s.truncated + numbered.2 < 2 ^ 64 by omega),
        Lib.Checked.add_ok (show s.truncated + numbered.2 + 1 < 2 ^ 64 by omega)]
    have skipped : (s.records.zipIdx.drop (Lib.Checked.saturate usize (after.getD 0 - s.truncated))) =
        s.records.zipIdx.drop (after.getD 0 - s.truncated) :=
      Lib.Checked.drop_saturate (by rwa [List.length_zipIdx])
    simp only [if_neg below, Lib.Checked.sub_ok (Nat.le_of_not_lt below), bind, Except.bind, skipped]
    simp only [bind, Except.bind] at numbered
    rw [Lib.Checked.mapM_ok numbered, List.flatMap_def]

theorem fork_guarded (seq : Nat) : Guarded.fork usize s seq = .ok (s.fork seq) := by
  have length := fits.length
  unfold Guarded.fork Stream.fork
  rw [headNat_guarded fits]
  by_cases unknown : seq > s.headNat ∨ (s.truncated > 0 ∧ seq ≤ s.truncated)
  · simp only [if_pos unknown, bind, Except.bind]
  · simp only [if_neg unknown, bind, Except.bind]
    by_cases empty : (s.snapshots.filter fun snap => snap.atSeq ≤ seq).isEmpty = true
    · simp only [if_pos empty]
    · have cutoff : seq - s.truncated < 2 ^ usize := by
        unfold Stream.headNat at unknown
        omega
      simp only [if_neg empty, Lib.Checked.sub_ok (show s.truncated ≤ seq by omega),
        Lib.Checked.cast_ok cutoff]

theorem truncateBefore_guarded (seq : Nat) :
    Guarded.truncateBefore usize s seq = .ok (s.truncateBefore seq) := by
  have head := fits.head
  unfold Guarded.truncateBefore Stream.truncateBefore
  rw [headNat_guarded fits]
  by_cases below : seq ≤ s.truncated
  · simp only [if_pos below, if_pos (Or.inl below), bind, Except.bind]
  · simp only [if_neg below, Lib.Checked.add_ok (show s.headNat + 1 < 2 ^ 64 by omega), bind,
      Except.bind]
    by_cases past : seq > s.headNat + 1
    · simp only [if_pos past, if_pos (Or.inr past)]
    · have known : ¬(seq ≤ s.truncated ∨ seq > s.headNat + 1) := by omega
      simp only [if_neg past, if_neg known, latestSnapshotAt_guarded fits]
      by_cases refused : s.latestSnapshotAt.all (· < seq - 1) = true
      · simp only [if_pos refused]
      · have dropped : min (seq - 1 - s.truncated) s.records.length ≤ s.records.length :=
          Nat.min_le_right _ _
        unfold Stream.headNat at head
        have count : min (seq - 1 - s.truncated) s.records.length < 2 ^ 64 := by omega
        have horizon : s.truncated + min (seq - 1 - s.truncated) s.records.length < 2 ^ 64 := by
          omega
        simp only [if_neg refused, Lib.Checked.min_saturate fits.length,
          Lib.Checked.drain_ok dropped, Lib.Checked.cast_ok count, Lib.Checked.add_ok horizon]

end Methods

/-! ### What the operations keep -/

variable {s s' : Stream A} {seq : Nat}

theorem Fits.new (snap : Snapshot A) : (Stream.new snap).Fits usize :=
  ⟨by rw [headNat_new]; decide, Nat.two_pow_pos usize⟩

theorem append_guarded (events : List A.Event) (pos : DrawPos)
    (room : s.records.length + 1 < 2 ^ usize) :
    Guarded.append usize s events pos = .ok (s.append events pos) := by
  unfold Guarded.append
  rw [Lib.Checked.push_ok room]
  rfl

theorem Fits.append (events : List A.Event) (pos : DrawPos) (numbered : s.headNat + 1 < 2 ^ 64 - 1)
    (room : s.records.length + 1 < 2 ^ usize) : (s.append events pos).Fits usize where
  head := by rwa [headNat_append]
  length := by simpa [Stream.append] using room

theorem Fits.truncateBefore (fits : s.Fits usize) (accepted : s.truncateBefore seq = .ok s') :
    s'.Fits usize where
  head := headNat_truncateBefore accepted ▸ fits.head
  length := by
    obtain ⟨-, -, -, rfl⟩ := (truncateBefore_ok s s' seq).mp accepted
    exact Nat.lt_of_le_of_lt (List.length_drop ▸ Nat.sub_le _ _) fits.length

theorem Fits.fork (fits : s.Fits usize) (granted : s.fork seq = .ok s') : s'.Fits usize where
  head := by
    rw [headNat_fork granted]
    exact Nat.lt_of_le_of_lt ((fork_ok s s' seq).mp granted).1 fits.head
  length := by
    obtain ⟨-, -, -, rfl⟩ := (fork_ok s s' seq).mp granted
    exact Nat.lt_of_le_of_lt (List.length_take ▸ Nat.min_le_right _ _) fits.length

end Stream

/-! ## Runs -/

/-- A stream takes fewer than `2 ^ 64 - 1` appends, and a push needs room in its `Vec`. Any
snapshot may be stored. -/
def Policy.sized (usize : Nat) : Policy A where
  append s _ := s.headNat + 1 < 2 ^ 64 - 1 ∧ s.records.length + 1 < 2 ^ usize
  snapshot _ _ _ := True
  fork := True

/-- The head counts the appends, and the words fit. -/
theorem fitsInv (genesis : A.State) (usize : Nat) :
    StreamInv genesis (Policy.sized usize)
      fun history s => history.length = s.headNat ∧ s.Fits usize where
  new := ⟨rfl, .new _⟩
  append := by
    rintro history s events pos ⟨counted, _⟩ ⟨numbered, room⟩
    refine ⟨?_, .append events pos numbered room⟩
    rw [Stream.headNat_append, List.length_append, counted]
    rfl
  snapshot := fun ⟨counted, fits⟩ _ => ⟨counted, fits.head, fits.length⟩
  truncate := fun ⟨counted, fits⟩ accepted =>
    ⟨counted.trans (Stream.headNat_truncateBefore accepted).symm, fits.truncateBefore accepted⟩
  fork := by
    rintro - history s s' seq ⟨counted, fits⟩ granted
    refine ⟨?_, fits.fork granted⟩
    rw [Stream.headNat_fork granted, List.length_take, counted]
    exact Nat.min_eq_left ((Stream.fork_ok s s' seq).mp granted).1

namespace MemoryJournal

/-- No method of the journal panics: each answers as it does on unbounded numbers. -/
structure Unpanicking (usize : Nat) (j : MemoryJournal A) : Prop where
  entropyPos : ∀ (stream : StreamId) (seq : UInt64),
    Guarded.entropyPos usize j stream seq.toNat = .ok (Journal.entropyPos j stream seq.toNat)
  head : ∀ stream : StreamId, Guarded.head j stream = .ok (Journal.head j stream)
  eventsSince : ∀ (stream : StreamId) (after : Option UInt64),
    Guarded.eventsSince usize j stream (after.map UInt64.toNat) =
      .ok (Journal.eventsSince j stream (after.map UInt64.toNat))
  latestSnapshot : ∀ stream : StreamId,
    Guarded.latestSnapshot j stream = .ok (Journal.latestSnapshot j stream)
  fork : ∀ (stream : StreamId) (seq : UInt64),
    Guarded.fork usize j stream seq.toNat = .ok (ForkableJournal.fork j stream seq.toNat)
  truncateBefore : ∀ (stream : StreamId) (seq : UInt64),
    Guarded.truncateBefore usize j stream seq.toNat =
      .ok (RetainableJournal.truncateBefore j stream seq.toNat)
  retainedFrom : ∀ stream : StreamId,
    Guarded.retainedFrom j stream = .ok (RetainableJournal.retainedFrom j stream)
  appendIn : ∀ (stream : StreamId) (events : List A.Event) (pos : DrawPos),
    (Policy.sized usize).append (j.streamMut stream) pos →
      Guarded.appendIn usize j stream events pos = .ok (j.appendIn stream events pos)

variable {j : MemoryJournal A} (fits : ∀ stream, (j.streamMut stream).Fits usize)

include fits

theorem fits_touched {stream : StreamId} {s : Stream A} (touched : j.streams[stream]? = some s) :
    s.Fits usize :=
  streamMut_touched touched ▸ fits stream

theorem unpanicking : j.Unpanicking usize where
  entropyPos stream seq := by
    change _ = Except.ok (j.entropyPos stream seq.toNat)
    unfold Guarded.entropyPos MemoryJournal.entropyPos
    cases touched : j.streams[stream]? with
    | none => rfl
    | some s => exact Stream.entropyPos_guarded (fits_touched fits touched) _
  head stream := by
    change _ = Except.ok (j.head stream)
    unfold Guarded.head MemoryJournal.head
    cases touched : j.streams[stream]? with
    | none => rfl
    | some s => exact Stream.head_guarded (fits_touched fits touched)
  eventsSince stream after := by
    change _ = Except.ok (j.eventsSince stream _)
    unfold Guarded.eventsSince MemoryJournal.eventsSince
    cases touched : j.streams[stream]? with
    | none => rfl
    | some s => exact Stream.eventsSince_guarded (fits_touched fits touched) _
  latestSnapshot stream := by
    change _ = Except.ok (j.latestSnapshot stream)
    unfold Guarded.latestSnapshot MemoryJournal.latestSnapshot
    cases touched : j.streams[stream]? with
    | none => rfl
    | some s =>
      simp only [Stream.latestSnapshot_guarded (fits_touched fits touched)]
      rfl
  fork stream seq := by
    change _ = Except.ok (j.fork stream seq.toNat)
    unfold Guarded.fork MemoryJournal.fork
    cases touched : j.streams[stream]? with
    | none => rfl
    | some s =>
      simp only [Stream.fork_guarded (fits_touched fits touched)]
      cases s.fork seq.toNat <;> rfl
  truncateBefore stream seq := by
    change _ = Except.ok (j.truncateBefore stream seq.toNat)
    unfold Guarded.truncateBefore MemoryJournal.truncateBefore
    cases touched : j.streams[stream]? with
    | none => rfl
    | some s =>
      simp only [Stream.truncateBefore_guarded (fits_touched fits touched)]
      cases s.truncateBefore seq.toNat <;> rfl
  retainedFrom stream := by
    change _ = Except.ok (j.retainedFrom stream)
    unfold Guarded.retainedFrom MemoryJournal.retainedFrom
    cases touched : j.streams[stream]? with
    | none => rfl
    | some s => exact Stream.retainedFrom_guarded (fits_touched fits touched)
  appendIn stream events pos admitted := by
    unfold Guarded.appendIn MemoryJournal.appendIn
    rw [Stream.append_guarded events pos admitted.2]
    simp only [bind, Except.bind,
      Stream.headNat_guarded (Stream.Fits.append events pos admitted.1 admitted.2)]
    rfl

end MemoryJournal

/-- In every journal reached with fewer than `2 ^ 64 - 1` appends to each stream, no method panics,
overflows, or changes a value by a cast, for any `Seq` and on either target. -/
theorem never_panics (genesis : A.State) (target : Target) (t : Traced A)
    (reached : Reached genesis (Policy.sized target.bits) t) :
    (∀ stream, (t.history stream).length = (t.journal.streamMut stream).headNat) ∧
      t.journal.Unpanicking target.bits := by
  obtain ⟨-, holds⟩ := reached.stream (fitsInv genesis target.bits)
  exact ⟨fun stream => (holds stream).1, MemoryJournal.unpanicking fun stream => (holds stream).2⟩

section Bounded

open Fixture

/-- Two records, of which the first is discarded, and a snapshot past the head. -/
def boundedRun : Traced (Tally Rng) :=
  (((((Traced.fresh Fixture.genesis).step (.append "tally" [TallyEvent.bumped] 2)).step
    (.append "tally" [TallyEvent.bumped] 4)).step (.snapshot "tally" ⟨counted 1, 0, 1, 2⟩)).step
      (.snapshot "tally" ⟨counted 9, 0, 9, 9⟩)).step (.truncate "tally" 2)

/-- On a target of 32 bits the largest `Seq` is unknown, and not record 2 of the stream. -/
theorem never_panics_bounded :
    MemoryJournal.Guarded.entropyPos 32 boundedRun.journal "tally" 0xFFFFFFFFFFFFFFFF =
      .ok (.error (.unknownSeq 0xFFFFFFFFFFFFFFFF)) := by
  have reached : Reached Fixture.genesis (Policy.sized Target.bits32.bits) boundedRun :=
    .next (.next (.next (.next (.next .start ⟨by decide, by decide⟩) ⟨by decide, by decide⟩) trivial)
      trivial) trivial
  exact (never_panics Fixture.genesis .bits32 boundedRun reached).2.entropyPos "tally"
    0xFFFFFFFFFFFFFFFF

end Bounded

end Ironstate
