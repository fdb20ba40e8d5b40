import Ironstate.Journal.Fixture
import Ironstate.Journal.Proofs.Resume

/-!
# What truncation keeps

A truncation is accepted or refused by what the stream holds, and a refused one leaves the
journal as it was. An accepted one answers every read from its first kept record on, and
every resume, as before (`Stream.Kept`); truncating twice is truncating once
(`Stream.truncateBefore_truncateBefore`).
-/

namespace Ironstate

variable {A : AggregateRules} {genesis : A.State} {history : List (Record A)}

namespace Stream

variable {s s' s'' : Stream A} {a b : Nat}

/-- From `a` on the two streams answer alike, and replay starts from the same snapshot. -/
structure Kept (a : Nat) (s s' : Stream A) : Prop where
  retainedFrom : s'.retainedFrom = a
  head : s'.headNat = s.headNat
  entropyPos : ∀ seq, a ≤ seq → s'.entropyPos seq = s.entropyPos seq
  headPos : s'.entropyPos s.headNat = s.entropyPos s.headNat
  eventsSince : ∀ after, a - 1 ≤ after.getD 0 → s'.eventsSince after = s.eventsSince after
  latestSnapshot : s'.latestSnapshot = s.latestSnapshot

theorem Kept.head_eq (kept : Kept a s s') : s'.head = s.head := by
  unfold Stream.head
  rw [kept.head]

/-- The base of replay survives a truncation, so it lies no further than one below its first
kept record. -/
theorem latestSnapshot_truncateBefore (accepted : s.truncateBefore a = .ok s')
    {snap : Snapshot A} (chosen : s'.latestSnapshot = some snap) : a - 1 ≤ snap.atSeq := by
  have member := (latestSnapshot_mem chosen).1
  obtain ⟨-, -, -, rfl⟩ := (truncateBefore_ok s s' a).mp accepted
  rw [List.mem_filter, decide_eq_true_eq] at member
  exact member.2

/-- A later horizon does not change what is answered above it. -/
theorem entropyPos_congr (retains : Lib.Retains history s.records s.truncated)
    (retains' : Lib.Retains history s'.records s'.truncated) {seq : Nat}
    (above : s.truncated < seq) (above' : s'.truncated < seq)
    (same : (s'.snapshots.find? fun snap => snap.atSeq == seq) =
      s.snapshots.find? fun snap => snap.atSeq == seq) :
    s'.entropyPos seq = s.entropyPos seq := by
  have sameHead : s'.headNat = s.headNat := by rw [headNat_eq retains, headNat_eq retains']
  cases stored : s.snapshots.find? fun snap => snap.atSeq == seq with
  | some snap =>
    rw [stored] at same
    rw [entropyPos_of_snapshot stored, entropyPos_of_snapshot same]
  | none =>
    rw [stored] at same
    by_cases bound : seq ≤ s.headNat
    · rw [entropyPos_of_record retains above bound stored,
        entropyPos_of_record retains' above' (sameHead ▸ bound) same]
    · have past : s.headNat < seq := by omega
      rw [entropyPos_refused (.inl past) stored, entropyPos_refused (.inl (sameHead ▸ past)) same]

theorem kept_truncateBefore (retains : Lib.Retains history s.records s.truncated)
    (accepted : s.truncateBefore a = .ok s') : Kept a s s' := by
  have sameHead := headNat_truncateBefore accepted
  have retains' := retains_truncateBefore retains accepted
  obtain ⟨above, bound, ⟨base, member, high, low⟩, result⟩ :=
    (truncateBefore_ok s s' a).mp accepted
  have horizon : s'.truncated = a - 1 := by rw [result]
  refine ⟨?_, sameHead, ?_, ?_, ?_, ?_⟩
  · show s'.truncated + 1 = a
    omega
  · intro seq kept
    exact entropyPos_congr retains retains' (by omega) (by omega)
      (find?_truncateBefore accepted (by omega))
  · by_cases whole : a = s.headNat + 1
    · -- everything is discarded, and the position of the head is its snapshot's
      have reached : a - 1 ≤ s.headNat := by omega
      have first := find?_truncateBefore accepted reached
      cases stored : s.snapshots.find? fun snap => snap.atSeq == s.headNat with
      | some snap =>
        rw [stored] at first
        rw [entropyPos_of_snapshot stored, entropyPos_of_snapshot first]
      | none =>
        have there : base.atSeq = s.headNat := by omega
        exact absurd there (ne_of_unstored stored member)
    · exact entropyPos_congr retains retains' (by omega) (by omega)
        (find?_truncateBefore accepted (by omega))
  · intro after reached
    rw [eventsSince_eq retains (by omega), eventsSince_eq retains' (by omega)]
  · have usable : base ∈ s.snapshots.filter fun snap => snap.atSeq ≤ s.headNat :=
      List.mem_filter.mpr ⟨member, decide_eq_true low⟩
    obtain ⟨best, latest, higher⟩ := @Lib.newest_isSome _ (·.atSeq) _ _ usable
    have chosen : s.latestSnapshot = some best := latest
    have swapped : (s'.snapshots.filter fun snap => snap.atSeq ≤ s'.headNat) =
        (s.snapshots.filter fun snap => snap.atSeq ≤ s.headNat).filter
          fun snap => a - 1 ≤ snap.atSeq := by
      rw [sameHead, result, List.filter_filter, List.filter_filter]
      apply List.filter_congr
      intro snap _
      exact Bool.and_comm _ _
    unfold latestSnapshot at chosen ⊢
    rw [swapped, Lib.newest_filter_ge, chosen]
    have reached : a - 1 ≤ best.atSeq := Nat.le_trans high higher
    simp only [Option.filter, decide_eq_true reached, if_true]

/-- After a truncation, a later one does what it would have done alone. -/
theorem truncateBefore_truncateBefore (first : s.truncateBefore a = .ok s')
    (later : a ≤ b) (alone : s.truncateBefore b = .ok s'') : s'.truncateBefore b = .ok s'' := by
  have sameHead := headNat_truncateBefore first
  obtain ⟨above, bound, -, result⟩ := (truncateBefore_ok s s' a).mp first
  obtain ⟨above', bound', ⟨base, member, high, low⟩, result'⟩ :=
    (truncateBefore_ok s s'' b).mp alone
  rw [truncateBefore_ok]
  refine ⟨?_, ?_, ⟨base, ?_, high, ?_⟩, ?_⟩
  · rw [result]
    show a - 1 < b
    omega
  · rw [sameHead]
    exact bound'
  · rw [result]
    exact List.mem_filter.mpr ⟨member, decide_eq_true (by omega)⟩
  · rw [sameHead]
    exact low
  · rw [result, result', List.drop_drop, List.filter_filter]
    have drops : a - 1 - s.truncated + (b - 1 - (a - 1)) = b - 1 - s.truncated := by omega
    have filters : (s.snapshots.filter fun snap => b - 1 ≤ snap.atSeq) =
        s.snapshots.filter fun snap => b - 1 ≤ snap.atSeq ∧ a - 1 ≤ snap.atSeq := by
      apply List.filter_congr
      intro snap _
      rw [decide_eq_decide]
      omega
    simp only [drops, filters, Bool.decide_and]

end Stream

/-- What `truncate_before(stream, a)` answers, and the journal it leaves. -/
structure TruncatedExactly (chacha12 : Seed → UInt64 → UInt32) (j : MemoryJournal A)
    (stream : StreamId) (a : Nat) (result : Except JournalError Unit) (after : MemoryJournal A) :
    Prop where
  accepted_iff : result = .ok () ↔ (j.streams[stream]?).isSome = true ∧
    RetainableJournal.retainedFrom j stream ≤ a ∧ a ≤ (Journal.head j stream).getD 0 + 1 ∧
    ∃ snap ∈ (j.streamMut stream).snapshots,
      a - 1 ≤ snap.atSeq ∧ snap.atSeq ≤ (Journal.head j stream).getD 0
  refused : ∀ error, result = .error error → after = j
  retainedFrom : result = .ok () → RetainableJournal.retainedFrom after stream = a
  head : result = .ok () → Journal.head after stream = Journal.head j stream
  entropyPos : result = .ok () → ∀ seq, a ≤ seq →
    Journal.entropyPos after stream seq = Journal.entropyPos j stream seq
  eventsSince : result = .ok () → ∀ since : Option Nat, a - 1 ≤ since.getD 0 →
    Journal.eventsSince after stream since = Journal.eventsSince j stream since
  latestSnapshot : result = .ok () →
    Journal.latestSnapshot after stream = Journal.latestSnapshot j stream
  resumed : result = .ok () → ∀ seed, ∃ resumed,
    (resume j stream seed : Resumed A chacha12) = .ok resumed ∧
      (resume after stream seed : Resumed A chacha12) = .ok resumed
  absorbed : ∀ b, a ≤ b → (RetainableJournal.truncateBefore j stream b).1 = .ok () →
    RetainableJournal.truncateBefore after stream b = RetainableJournal.truncateBefore j stream b

section Journal

variable {j after : MemoryJournal A} {stream : StreamId} {a b : Nat} {s s' : Stream A}

theorem truncateBefore_accepted (touched : j.streams[stream]? = some s)
    (cut : s.truncateBefore a = .ok s') :
    RetainableJournal.truncateBefore j stream a = (.ok (), j.put stream s') :=
  (MemoryJournal.truncateBefore_touched_iff touched).mpr ⟨s', cut, rfl⟩

/-- A truncation is accepted on what the stream and its snapshots cover. -/
theorem truncateBefore_accepted_iff :
    (RetainableJournal.truncateBefore j stream a).1 = .ok () ↔
      (j.streams[stream]?).isSome = true ∧ RetainableJournal.retainedFrom j stream ≤ a ∧
        a ≤ (Journal.head j stream).getD 0 + 1 ∧
        ∃ snap ∈ (j.streamMut stream).snapshots,
          a - 1 ≤ snap.atSeq ∧ snap.atSeq ≤ (Journal.head j stream).getD 0 := by
  rw [MemoryJournal.retainedFrom_eq, MemoryJournal.head_eq, Stream.head_getD]
  cases touched : j.streams[stream]? with
  | none =>
    have refused : (j.truncateBefore stream a).1 = .error (.unknownSeq a) :=
      congrArg Prod.fst (MemoryJournal.truncateBefore_untouched touched)
    apply iff_of_false
    · intro accepted
      cases refused.symm.trans accepted
    · intro covered
      simp at covered
  | some s =>
    rw [MemoryJournal.streamMut_touched touched]
    constructor
    · intro accepted
      obtain ⟨s₁, s', touched', cut, -⟩ := MemoryJournal.truncateBefore_ok accepted
      obtain rfl : s₁ = s := Option.some.inj (touched'.symm.trans touched)
      obtain ⟨above, bound, base, -⟩ := (Stream.truncateBefore_ok _ _ _).mp cut
      exact ⟨rfl, above, bound, base⟩
    · intro covered
      obtain ⟨-, above, bound, base⟩ := covered
      have cut := (Stream.truncateBefore_ok s _ a).mpr ⟨above, bound, base, rfl⟩
      rw [truncateBefore_accepted touched cut]

/-- Replay starts from the same snapshot, over the same events, up to the same head. -/
theorem Stream.Kept.resume {chacha12 : Seed → UInt64 → UInt32}
    (kept : Stream.Kept a (j.streamMut stream) (after.streamMut stream)) (seed : Seed)
    (base : ∀ snap, (after.streamMut stream).latestSnapshot = some snap → a - 1 ≤ snap.atSeq) :
    (resume after stream seed : Resumed A chacha12) = resume j stream seed := by
  apply resume_congr
  · rw [MemoryJournal.latestSnapshot_eq, MemoryJournal.latestSnapshot_eq, kept.latestSnapshot]
  · intro snap found
    rw [MemoryJournal.latestSnapshot_eq] at found
    rw [MemoryJournal.eventsSince_eq, MemoryJournal.eventsSince_eq]
    apply kept.eventsSince
    apply base snap
    rw [kept.latestSnapshot]
    exact Except.ok.inj found
  · rw [MemoryJournal.head_eq, MemoryJournal.head_eq, kept.head_eq]
  · intro seq headed
    rw [MemoryJournal.head_eq] at headed
    obtain ⟨rfl, -⟩ := Stream.head_eq_some headed
    rw [MemoryJournal.entropyPos_eq, MemoryJournal.entropyPos_eq, kept.headPos]

/-- A later truncation, accepted by the journal as it was, does there what it does after an
earlier one. -/
theorem truncateBefore_absorbed (touched : j.streams[stream]? = some s)
    (cut : s.truncateBefore a = .ok s') (later : a ≤ b)
    (accepted : (RetainableJournal.truncateBefore j stream b).1 = .ok ()) :
    RetainableJournal.truncateBefore (j.put stream s') stream b =
      RetainableJournal.truncateBefore j stream b := by
  obtain ⟨s₁, s'', touched', alone, -⟩ := MemoryJournal.truncateBefore_ok accepted
  obtain rfl : s₁ = s := Option.some.inj (touched'.symm.trans touched)
  have again := Stream.truncateBefore_truncateBefore cut later alone
  have stored := j.getElem?_put_self stream s'
  rw [truncateBefore_accepted stored again, truncateBefore_accepted touched alone,
    MemoryJournal.put_put]

end Journal

/-- Truncation is exact, and invisible to everything it keeps. -/
theorem truncateBefore_exact (chacha12 : Seed → UInt64 → UInt32) (genesis : A.State)
    (t : Traced A) (reached : Reached genesis .linear t) (stream : StreamId) (a : Nat) :
    TruncatedExactly chacha12 t.journal stream a
      (RetainableJournal.truncateBefore t.journal stream a).1
      (RetainableJournal.truncateBefore t.journal stream a).2 := by
  have retains := (reached.stream (retainsInv genesis .linear)).2 stream
  have based := (reached.stream (@basedInv A genesis .linear id)).2 stream
  cases outcome : (RetainableJournal.truncateBefore t.journal stream a).1 with
  | error error =>
    have unchanged : (RetainableJournal.truncateBefore t.journal stream a).2 = t.journal :=
      MemoryJournal.truncateBefore_error outcome
    rw [unchanged]
    refine ⟨?_, fun _ _ => rfl, ?_, ?_, ?_, ?_, ?_, ?_, fun _ _ _ => rfl⟩
    · rw [← outcome]
      exact truncateBefore_accepted_iff
    all_goals
      intro accepted
      cases accepted
  | ok _ =>
    obtain ⟨s, s', touched, cut, -⟩ := MemoryJournal.truncateBefore_ok outcome
    have written := congrArg Prod.snd (truncateBefore_accepted touched cut)
    have before := MemoryJournal.streamMut_touched touched
    have now : (t.journal.put stream s').streamMut stream = s' :=
      MemoryJournal.streamMut_put_self _ _ _
    have kept : Stream.Kept a (t.journal.streamMut stream)
        ((t.journal.put stream s').streamMut stream) := by
      rw [now, before]
      exact Stream.kept_truncateBefore (before ▸ retains) cut
    rw [written]
    refine ⟨?_, ?_, ?_, ?_, ?_, ?_, ?_, ?_, ?_⟩
    · have accepted_iff := @truncateBefore_accepted_iff A t.journal stream a
      rw [outcome] at accepted_iff
      exact accepted_iff
    · intro error failed
      cases failed
    · intro _
      rw [MemoryJournal.retainedFrom_eq, kept.retainedFrom]
    · intro _
      rw [MemoryJournal.head_eq, MemoryJournal.head_eq, kept.head_eq]
    · intro _ seq above
      rw [MemoryJournal.entropyPos_eq, MemoryJournal.entropyPos_eq, kept.entropyPos seq above]
    · intro _ since above
      rw [MemoryJournal.eventsSince_eq, MemoryJournal.eventsSince_eq, kept.eventsSince since above]
    · intro _
      rw [MemoryJournal.latestSnapshot_eq, MemoryJournal.latestSnapshot_eq, kept.latestSnapshot]
    · intro _ seed
      obtain ⟨resumed, succeeded⟩ := (@resume_ok_iff A chacha12 t.journal stream seed).mpr based
      refine ⟨resumed, succeeded, ?_⟩
      rw [kept.resume seed, succeeded]
      intro snap chosen
      rw [now] at chosen
      exact Stream.latestSnapshot_truncateBefore cut chosen
    · intro b later accepted
      exact truncateBefore_absorbed touched cut later accepted

section Discarded

open Fixture

/-- Two records and a snapshot of the head, then everything discarded. -/
def discardedRun : Traced (Tally Rng) :=
  (((Traced.fresh Fixture.genesis).step (.append "tally" [TallyEvent.bumped] 2)).step
    (.append "tally" [TallyEvent.bumped] 4)).step
      (.snapshot "tally" ⟨counted 2, 0, 2, 4⟩)

theorem truncateBefore_exact_discarded :
    (RetainableJournal.truncateBefore discardedRun.journal "tally" 3).1 = .ok () ∧
      RetainableJournal.retainedFrom
        (RetainableJournal.truncateBefore discardedRun.journal "tally" 3).2 "tally" = 3 := by
  have reached : Reached Fixture.genesis .linear discardedRun :=
    .next (.next (.next .start trivial) trivial) trivial
  have accepted : (RetainableJournal.truncateBefore discardedRun.journal "tally" 3).1 = .ok () := rfl
  have exact := truncateBefore_exact (fun _ _ => 0) _ _ reached "tally" 3
  exact ⟨accepted, exact.retainedFrom accepted⟩

end Discarded

end Ironstate
