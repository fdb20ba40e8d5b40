import Ironstate.Journal.Fixture
import Ironstate.Journal.Proofs.Resume

/-!
# A fork is the prefix of its source

The branch of a granted fork answers every read up to the fork point as its source does, and
refuses every one past it. Forking in two steps is forking once (`Stream.fork_fork`).
-/

namespace Ironstate

variable {A : AggregateRules} {genesis : A.State} {history : List (Record A)}

namespace Stream

variable {s s' s'' : Stream A} {f g : Nat}

theorem truncated_fork (granted : s.fork f = .ok s') : s'.truncated = s.truncated := by
  obtain ⟨-, -, -, rfl⟩ := (fork_ok s s' f).mp granted
  rfl

theorem recordAt_fork (granted : s.fork f = .ok s') {seq : Nat} (below : seq ≤ f) :
    s'.recordAt seq = s.recordAt seq := by
  have head := headNat_fork granted
  have horizon := truncated_fork granted
  obtain ⟨bound, -, -, result⟩ := (fork_ok s s' f).mp granted
  by_cases discarded : seq ≤ s.truncated
  · rw [recordAt_unknown (.inr discarded), recordAt_unknown (.inr (horizon ▸ discarded))]
  · have known : ¬(seq ≤ s.truncated ∨ seq > s.truncated + s.records.length) := by
      unfold headNat at bound
      omega
    have known' : ¬(seq ≤ s'.truncated ∨ seq > s'.truncated + s'.records.length) := by
      unfold headNat at head
      omega
    unfold recordAt
    rw [dif_neg known, dif_neg known']
    simp only [result, List.get_eq_getElem, List.getElem_take]

/-- Up to the fork point every position is the source's. -/
theorem entropyPos_fork (granted : s.fork f = .ok s') {seq : Nat} (below : seq ≤ f) :
    s'.entropyPos seq = s.entropyPos seq := by
  unfold entropyPos
  rw [find?_fork granted below, recordAt_fork granted below, truncated_fork granted]

/-- Past the fork point nothing is stored, and no snapshot lies there. -/
theorem entropyPos_fork_past (granted : s.fork f = .ok s') {seq : Nat} (past : f < seq) :
    s'.entropyPos seq = .error (.unknownSeq seq) := by
  have head := headNat_fork granted
  obtain ⟨-, -, -, result⟩ := (fork_ok s s' f).mp granted
  apply entropyPos_refused (.inl (by omega))
  rw [List.find?_eq_none]
  intro snap member same
  rw [result, List.mem_filter, decide_eq_true_eq] at member
  have reached := member.2
  have here : snap.atSeq = seq := beq_iff_eq.mp same
  omega

/-- A branch lists what its source does, as far as the fork point. -/
theorem eventsSince_fork (retains : Lib.Retains history s.records s.truncated)
    (granted : s.fork f = .ok s') (since : Option Nat) :
    s'.eventsSince since =
      (s.eventsSince since).map fun events => events.filter fun stored => stored.seq ≤ f := by
  have horizon := truncated_fork granted
  by_cases discarded : since.getD 0 < s.truncated
  · rw [eventsSince_below discarded, eventsSince_below (horizon ▸ discarded)]
    rfl
  · have above : s.truncated ≤ since.getD 0 := by omega
    rw [eventsSince_eq retains above,
      eventsSince_eq (retains_fork retains granted) (horizon ▸ above), Except.map,
      eventsAfter_filter]

/-- The newest snapshot of a branch is the newest of the source's up to the fork point. -/
theorem latestSnapshot_fork (granted : s.fork f = .ok s') :
    ∃ before snap later, (s.snapshots.filter fun snap => snap.atSeq ≤ f) =
        before ++ snap :: later ∧ (∀ other ∈ before, other.atSeq ≤ snap.atSeq) ∧
      (∀ other ∈ later, other.atSeq < snap.atSeq) ∧ s'.latestSnapshot = some snap := by
  have head := headNat_fork granted
  obtain ⟨-, -, ⟨base, member, below⟩, result⟩ := (fork_ok s s' f).mp granted
  have usable : base ∈ s.snapshots.filter fun snap => snap.atSeq ≤ f :=
    List.mem_filter.mpr ⟨member, decide_eq_true below⟩
  obtain ⟨snap, newest, -⟩ := @Lib.newest_isSome _ (·.atSeq) _ _ usable
  obtain ⟨before, later, split, high, low⟩ := Lib.newest_split newest
  refine ⟨before, snap, later, split, high, low, ?_⟩
  have kept : (s'.snapshots.filter fun snap => snap.atSeq ≤ s'.headNat) =
      s.snapshots.filter fun snap => snap.atSeq ≤ f := by
    rw [head, result, List.filter_filter]
    simp only [Bool.and_self]
  unfold latestSnapshot
  rw [kept, newest]

/-- Forking a branch is forking its source. -/
theorem fork_fork (granted : s.fork f = .ok s') (below : g ≤ f) (alone : s.fork g = .ok s'') :
    s'.fork g = .ok s'' := by
  have head := headNat_fork granted
  obtain ⟨-, -, -, result⟩ := (fork_ok s s' f).mp granted
  obtain ⟨bound, above, ⟨base, member, reached⟩, result'⟩ := (fork_ok s s'' g).mp alone
  rw [fork_ok]
  refine ⟨by omega, ?_, ⟨base, ?_, reached⟩, ?_⟩
  · rw [truncated_fork granted]
    exact above
  · rw [result]
    exact List.mem_filter.mpr ⟨member, decide_eq_true (Nat.le_trans reached below)⟩
  · rw [result, result', List.take_take, List.filter_filter]
    have cut : min (g - s.truncated) (f - s.truncated) = g - s.truncated := by omega
    have snapshots : (s.snapshots.filter fun snap => snap.atSeq ≤ g) =
        s.snapshots.filter fun snap => snap.atSeq ≤ g ∧ snap.atSeq ≤ f := by
      apply List.filter_congr
      intro snap _
      rw [decide_eq_decide]
      omega
    simp only [cut, snapshots, Bool.decide_and]

end Stream

/-- Forking the branch of a journal is forking the journal. -/
theorem MemoryJournal.fork_fork {j branch forked : MemoryJournal A} {stream : StreamId} {f g : Nat}
    (granted : j.fork stream f = .ok branch) (below : g ≤ f)
    (alone : j.fork stream g = .ok forked) : branch.fork stream g = .ok forked := by
  cases touched : j.streams[stream]? with
  | none =>
    obtain ⟨rfl, rfl⟩ := (fork_untouched_iff touched).mp granted
    obtain ⟨rfl, rfl⟩ := (fork_untouched_iff touched).mp alone
    exact (fork_untouched_iff Std.ExtTreeMap.getElem?_empty).mpr ⟨rfl, rfl⟩
  | some s =>
    obtain ⟨s', once, rfl⟩ := (fork_touched_iff touched).mp granted
    obtain ⟨s'', direct, rfl⟩ := (fork_touched_iff touched).mp alone
    have stored := (MemoryJournal.new j.genesis).getElem?_put_self stream s'
    exact (fork_touched_iff stored).mpr ⟨s'', Stream.fork_fork once below direct, rfl⟩

/-- A granted fork is exactly the prefix of its source. -/
theorem fork_exact_prefix (genesis : A.State) (t : Traced A) (reached : Reached genesis .any t)
    (stream : StreamId) (f : Nat) (branch : MemoryJournal A)
    (granted : ForkableJournal.fork t.journal stream f = .ok branch) :
    Journal.head branch stream = (if f > 0 then some f else none) ∧
    RetainableJournal.retainedFrom branch stream =
      RetainableJournal.retainedFrom t.journal stream ∧
    (∀ seq, seq ≤ f →
      Journal.entropyPos branch stream seq = Journal.entropyPos t.journal stream seq) ∧
    (∀ seq, f < seq → Journal.entropyPos branch stream seq = .error (.unknownSeq seq)) ∧
    (∀ since : Option Nat, since.getD 0 ≤ f → Journal.eventsSince branch stream since =
      (Journal.eventsSince t.journal stream since).map fun events =>
        events.filter fun stored => stored.seq ≤ f) ∧
    (∃ before snap later,
      ((t.journal.streamMut stream).snapshots.filter fun snap => snap.atSeq ≤ f) =
        before ++ snap :: later ∧ (∀ other ∈ before, other.atSeq ≤ snap.atSeq) ∧
      (∀ other ∈ later, other.atSeq < snap.atSeq) ∧
      Journal.latestSnapshot branch stream = .ok (some snap)) ∧
    ∀ (g : Nat) (forked : MemoryJournal A), g ≤ f →
      ForkableJournal.fork t.journal stream g = .ok forked →
        ForkableJournal.fork branch stream g = .ok forked := by
  have retains := (reached.stream (retainsInv genesis .any)).2 stream
  obtain ⟨-, once, -⟩ := MemoryJournal.fork_ok granted
  simp only [MemoryJournal.head_eq, MemoryJournal.retainedFrom_eq, MemoryJournal.entropyPos_eq,
    MemoryJournal.eventsSince_eq, MemoryJournal.latestSnapshot_eq]
  refine ⟨?_, ?_, ?_, ?_, ?_, ?_, ?_⟩
  · unfold Stream.head
    rw [Stream.headNat_fork once]
  · unfold Stream.retainedFrom
    rw [Stream.truncated_fork once]
  · intro seq below
    exact Stream.entropyPos_fork once below
  · intro seq past
    exact Stream.entropyPos_fork_past once past
  · intro since _
    exact Stream.eventsSince_fork retains once since
  · obtain ⟨before, snap, later, split, high, low, latest⟩ := Stream.latestSnapshot_fork once
    exact ⟨before, snap, later, split, high, low, congrArg Except.ok latest⟩
  · intro g forked below alone
    exact MemoryJournal.fork_fork granted below alone

section Branched

open Fixture

/-- Three records, with two snapshots of the second and one past the head, stored ahead. -/
def aheadRun : Traced (Tally Rng) :=
  ((((((Traced.fresh Fixture.genesis).step (.append "tally" [TallyEvent.bumped] 2)).step
    (.append "tally" [TallyEvent.bumped] 4)).step (.snapshot "tally" ⟨counted 2, 0, 2, 4⟩)).step
      (.snapshot "tally" ⟨counted 2, 1, 2, 4⟩)).step
        (.append "tally" [TallyEvent.bumped] 6)).step (.snapshot "tally" ⟨counted 9, 0, 9, 9⟩)

theorem fork_exact_prefix_ahead : ∃ branch,
    ForkableJournal.fork aheadRun.journal "tally" 2 = .ok branch ∧
      Journal.head branch "tally" = some 2 ∧
      Journal.entropyPos branch "tally" 9 = .error (.unknownSeq 9) := by
  have reached : Reached Fixture.genesis .any aheadRun :=
    .next (.next (.next (.next (.next (.next .start trivial) trivial) trivial) trivial) trivial)
      trivial
  refine ⟨_, rfl, ?_⟩
  obtain ⟨head, -, -, past, -⟩ := fork_exact_prefix Fixture.genesis aheadRun reached "tally" 2 _ rfl
  exact ⟨head, past 9 (by decide)⟩

end Branched

end Ironstate
