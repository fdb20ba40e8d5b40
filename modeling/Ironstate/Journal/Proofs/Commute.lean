import Ironstate.Journal.Fixture
import Ironstate.Journal.Trace

/-!
# Forking and truncating commute

Truncating before `a` and forking at `f`, in either order, keeps the same window of a stream
(`Stream.Window`): the records `a` to `f`, and the snapshots from one below the window to its
end. Either order succeeds when some snapshot lies there.
-/

namespace Ironstate

variable {A : AggregateRules}

namespace Stream

variable {s s' : Stream A} {a f : Nat}

/-- The window of `s` from record `a` to record `f`, with a snapshot to replay it from. -/
structure Window (s : Stream A) (a f : Nat) (s' : Stream A) : Prop where
  above : s.truncated < a
  bound : f ≤ s.headNat
  base : ∃ snap ∈ s.snapshots, a - 1 ≤ snap.atSeq ∧ snap.atSeq ≤ f
  result : s' = ⟨(s.records.drop (a - 1 - s.truncated)).take (f - (a - 1)),
    s.snapshots.filter fun snap => a - 1 ≤ snap.atSeq ∧ snap.atSeq ≤ f, a - 1⟩

/-- What is truncated first and forked then is the window. -/
theorem truncateBefore_fork_iff (ordered : a ≤ f) :
    (∃ cut, s.truncateBefore a = .ok cut ∧ cut.fork f = .ok s') ↔ s.Window a f s' := by
  constructor
  · rintro ⟨cut, accepted, granted⟩
    have head := headNat_truncateBefore accepted
    obtain ⟨above, -, -, rfl⟩ := (truncateBefore_ok s cut a).mp accepted
    obtain ⟨bound, -, ⟨snap, kept, below⟩, rfl⟩ := (fork_ok _ s' f).mp granted
    rw [List.mem_filter, decide_eq_true_eq] at kept
    refine ⟨above, head ▸ bound, ⟨snap, kept.1, kept.2, below⟩, ?_⟩
    simp [List.filter_filter, Bool.and_comm]
  · rintro ⟨above, bound, ⟨snap, stored, high, low⟩, rfl⟩
    have accepted := (truncateBefore_ok s _ a).mpr
      ⟨above, by omega, ⟨snap, stored, high, Nat.le_trans low bound⟩, rfl⟩
    refine ⟨_, accepted, (fork_ok _ _ f).mpr ⟨?_, ?_, ⟨snap, ?_, low⟩, ?_⟩⟩
    · rw [headNat_truncateBefore accepted]
      exact bound
    · show a - 1 = 0 ∨ a - 1 < f
      omega
    · exact List.mem_filter.mpr ⟨stored, decide_eq_true high⟩
    · simp [List.filter_filter, Bool.and_comm]

/-- What is forked first and truncated then is the window. -/
theorem fork_truncateBefore_iff (ordered : a ≤ f) :
    (∃ branch, s.fork f = .ok branch ∧ branch.truncateBefore a = .ok s') ↔ s.Window a f s' := by
  constructor
  · rintro ⟨branch, granted, accepted⟩
    have head := headNat_fork granted
    obtain ⟨bound, -, -, rfl⟩ := (fork_ok s branch f).mp granted
    obtain ⟨above, -, ⟨snap, kept, high, low⟩, rfl⟩ := (truncateBefore_ok _ s' a).mp accepted
    rw [List.mem_filter, decide_eq_true_eq] at kept
    refine ⟨above, bound, ⟨snap, kept.1, high, kept.2⟩, ?_⟩
    have above : s.truncated < a := above
    have cut : f - s.truncated - (a - 1 - s.truncated) = f - (a - 1) := by omega
    simp [List.filter_filter, List.drop_take, cut]
  · rintro ⟨above, bound, ⟨snap, stored, high, low⟩, rfl⟩
    have granted := (fork_ok s _ f).mpr ⟨bound, by omega, ⟨snap, stored, low⟩, rfl⟩
    have head := headNat_fork granted
    refine ⟨_, granted, (truncateBefore_ok _ _ a).mpr ⟨above, ?_, ⟨snap, ?_, high, ?_⟩, ?_⟩⟩
    · rw [head]
      omega
    · exact List.mem_filter.mpr ⟨stored, decide_eq_true low⟩
    · rw [head]
      exact low
    · have cut : f - s.truncated - (a - 1 - s.truncated) = f - (a - 1) := by omega
      simp [List.filter_filter, List.drop_take, cut]

end Stream

section Journal

variable {j forked : MemoryJournal A} {stream : StreamId} {s : Stream A} {a f : Nat}

theorem truncate_fork_touched (touched : j.streams[stream]? = some s) (ordered : a ≤ f) :
    (∃ cut, RetainableJournal.truncateBefore j stream a = (.ok (), cut) ∧
        ForkableJournal.fork cut stream f = .ok forked) ↔
      ∃ s', s.Window a f s' ∧ forked = (MemoryJournal.new j.genesis).put stream s' := by
  constructor
  · rintro ⟨cut, accepted, granted⟩
    obtain ⟨t, kept, rfl⟩ := (MemoryJournal.truncateBefore_touched_iff touched).mp accepted
    have stored := j.getElem?_put_self stream t
    obtain ⟨s', branched, rfl⟩ := (MemoryJournal.fork_touched_iff stored).mp granted
    exact ⟨s', (Stream.truncateBefore_fork_iff ordered).mp ⟨t, kept, branched⟩, rfl⟩
  · rintro ⟨s', window, rfl⟩
    obtain ⟨t, kept, branched⟩ := (Stream.truncateBefore_fork_iff ordered).mpr window
    have stored := j.getElem?_put_self stream t
    exact ⟨j.put stream t, (MemoryJournal.truncateBefore_touched_iff touched).mpr ⟨t, kept, rfl⟩,
      (MemoryJournal.fork_touched_iff stored).mpr ⟨s', branched, rfl⟩⟩

theorem fork_truncate_touched (touched : j.streams[stream]? = some s) (ordered : a ≤ f) :
    (∃ branch, ForkableJournal.fork j stream f = .ok branch ∧
        RetainableJournal.truncateBefore branch stream a = (.ok (), forked)) ↔
      ∃ s', s.Window a f s' ∧ forked = (MemoryJournal.new j.genesis).put stream s' := by
  have stored := (MemoryJournal.new j.genesis).getElem?_put_self stream
  have again := (MemoryJournal.new j.genesis).put_put stream
  constructor
  · rintro ⟨branch, granted, accepted⟩
    obtain ⟨t, branched, rfl⟩ := (MemoryJournal.fork_touched_iff touched).mp granted
    obtain ⟨s', kept, rfl⟩ := (MemoryJournal.truncateBefore_touched_iff (stored t)).mp accepted
    exact ⟨s', (Stream.fork_truncateBefore_iff ordered).mp ⟨t, branched, kept⟩, again t s'⟩
  · rintro ⟨s', window, rfl⟩
    obtain ⟨t, branched, kept⟩ := (Stream.fork_truncateBefore_iff ordered).mpr window
    exact ⟨_, (MemoryJournal.fork_touched_iff touched).mpr ⟨t, branched, rfl⟩,
      (MemoryJournal.truncateBefore_touched_iff (stored t)).mpr ⟨s', kept, (again t s').symm⟩⟩

/-- An untouched stream has nothing to truncate, and neither has its branch. -/
theorem untouched_not_truncated (untouched : j.streams[stream]? = none) :
    RetainableJournal.truncateBefore j stream a ≠ (.ok (), forked) := by
  intro accepted
  cases (MemoryJournal.truncateBefore_untouched untouched).symm.trans accepted

theorem untouched_branch_not_truncated (untouched : j.streams[stream]? = none)
    {branch : MemoryJournal A} (granted : ForkableJournal.fork j stream f = .ok branch) :
    RetainableJournal.truncateBefore branch stream a ≠ (.ok (), forked) := by
  obtain ⟨-, rfl⟩ := (MemoryJournal.fork_untouched_iff untouched).mp granted
  exact untouched_not_truncated Std.ExtTreeMap.getElem?_empty

end Journal

/-- Truncating before `a` and then forking at `f` succeeds exactly when forking first and then
truncating the branch does, with the same journal, whose stream is the window of the source. -/
theorem truncate_fork_comm (j : MemoryJournal A) (stream : StreamId) (a f : Nat) (ordered : a ≤ f)
    (forked : MemoryJournal A) :
    ((∃ cut, RetainableJournal.truncateBefore j stream a = (.ok (), cut) ∧
        ForkableJournal.fork cut stream f = .ok forked) ↔
      ∃ branch, ForkableJournal.fork j stream f = .ok branch ∧
        RetainableJournal.truncateBefore branch stream a = (.ok (), forked)) ∧
    ∀ cut, RetainableJournal.truncateBefore j stream a = (.ok (), cut) →
      ForkableJournal.fork cut stream f = .ok forked →
        (j.streamMut stream).Window a f (forked.streamMut stream) := by
  cases touched : j.streams[stream]? with
  | none =>
    refine ⟨iff_of_false ?_ ?_, ?_⟩
    · rintro ⟨cut, accepted, -⟩
      exact untouched_not_truncated touched accepted
    · rintro ⟨branch, granted, accepted⟩
      exact untouched_branch_not_truncated touched granted accepted
    · intro cut accepted
      exact absurd accepted (untouched_not_truncated touched)
  | some s =>
    refine ⟨?_, ?_⟩
    · rw [truncate_fork_touched touched ordered, fork_truncate_touched touched ordered]
    · intro cut accepted granted
      obtain ⟨s', window, rfl⟩ :=
        (truncate_fork_touched touched ordered).mp ⟨cut, accepted, granted⟩
      rw [MemoryJournal.streamMut_touched touched, MemoryJournal.streamMut_put_self]
      exact window

section Windowed

open Fixture

/-- Three records, with a snapshot of the second. -/
def windowedRun : Traced (Tally Rng) :=
  ((((Traced.fresh Fixture.genesis).step (.append "tally" [TallyEvent.bumped] 2)).step
    (.append "tally" [TallyEvent.bumped] 4)).step (.append "tally" [TallyEvent.bumped] 6)).step
      (.snapshot "tally" ⟨counted 2, 0, 2, 4⟩)

/-- The branch at record 2 can be truncated to that record, since the source could be truncated
and then forked there. -/
theorem truncate_fork_comm_windowed : ∃ branch forked,
    ForkableJournal.fork windowedRun.journal "tally" 2 = .ok branch ∧
      RetainableJournal.truncateBefore branch "tally" 2 = (.ok (), forked) ∧
      (forked.streamMut "tally").truncated = 1 := by
  obtain ⟨commutes, window⟩ := truncate_fork_comm windowedRun.journal "tally" 2 2 (Nat.le_refl 2) _
  obtain ⟨branch, granted, accepted⟩ := commutes.mp ⟨_, rfl, rfl⟩
  exact ⟨branch, _, granted, accepted, congrArg Stream.truncated (window _ rfl rfl).result⟩

end Windowed

end Ironstate
