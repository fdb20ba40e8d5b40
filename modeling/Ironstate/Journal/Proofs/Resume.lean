import Ironstate.Journal.Trace

/-!
# What resume returns

A stream is resumed exactly when it is based (`resume_ok_iff`), and a sound, based stream is
resumed to the state and the position its history ends in (`resume_sound`). Appends,
truncations and snapshots keep a stream based; honest snapshots keep it sound. A fork keeps
it sound, and based only when a base above the horizon survives the cut.
-/

namespace Ironstate

variable {A : AggregateRules} {genesis : A.State} {history : List (Record A)}

/-- Honest snapshots only, stored at any later time, and no fork. -/
def Policy.honest (genesis : A.State) : Policy A :=
  ⟨fun _ _ => True, fun _ history snap => Honest genesis history snap, False⟩

/-! ## What the operations keep -/

namespace Stream

theorem based_new (snap : Snapshot A) (zero : snap.atSeq = 0) : (Stream.new snap).Based := by
  refine ⟨snap, by simp [new], ?_, ?_⟩
  · exact Nat.zero_le _
  · rw [zero]
    exact Nat.zero_le _

theorem Based.append {s : Stream A} (events : List A.Event) (pos : DrawPos) :
    s.Based → (s.append events pos).Based := by
  intro based
  obtain ⟨snap, stored, above, bound⟩ := based
  refine ⟨snap, stored, above, ?_⟩
  rw [headNat_append]
  exact Nat.le_succ_of_le bound

theorem Based.snapshot {s : Stream A} (snap : Snapshot A) : s.Based → (s.snapshot snap).Based := by
  intro based
  obtain ⟨base, stored, above, bound⟩ := based
  exact ⟨base, List.mem_append_left _ stored, above, bound⟩

/-- The snapshot that let a truncation through is a base of what is left. -/
theorem based_truncateBefore {s s' : Stream A} {seq : Nat} :
    s.truncateBefore seq = .ok s' → s'.Based := by
  intro accepted
  have sameHead := headNat_truncateBefore accepted
  obtain ⟨_, _, ⟨snap, stored, high, bound⟩, rfl⟩ := (truncateBefore_ok s s' seq).mp accepted
  refine ⟨snap, List.mem_filter.mpr ⟨stored, decide_eq_true high⟩, high, ?_⟩
  rw [sameHead]
  exact bound

end Stream

namespace Sound

theorem new (genesis : A.State) : Sound genesis [] (.new ⟨genesis, 0, 0, 0⟩) := by
  refine ⟨Lib.Retains.nil, ?_⟩
  intro snap member
  obtain rfl := List.mem_singleton.mp member
  exact ⟨Nat.le_refl 0, rfl, rfl⟩

theorem append {s : Stream A} (sound : Sound genesis history s) (events : List A.Event)
    (pos : DrawPos) : Sound genesis (history ++ [⟨events, pos⟩]) (s.append events pos) := by
  refine ⟨sound.retains.push _, ?_⟩
  intro snap member
  exact (sound.honest snap member).push _

theorem snapshot {s : Stream A} {snap : Snapshot A} (sound : Sound genesis history s)
    (honest : Honest genesis history snap) : Sound genesis history (s.snapshot snap) := by
  refine ⟨sound.retains, ?_⟩
  intro other member
  rcases List.mem_append.mp member with stored | added
  · exact sound.honest other stored
  · obtain rfl := List.mem_singleton.mp added
    exact honest

theorem truncate {s s' : Stream A} {seq : Nat} (sound : Sound genesis history s)
    (accepted : s.truncateBefore seq = .ok s') : Sound genesis history s' := by
  refine ⟨Stream.retains_truncateBefore sound.retains accepted, ?_⟩
  · obtain ⟨-, -, -, rfl⟩ := (Stream.truncateBefore_ok s s' seq).mp accepted
    intro snap member
    exact sound.honest snap (List.mem_of_mem_filter member)

theorem fork {s s' : Stream A} {seq : Nat} (sound : Sound genesis history s)
    (granted : s.fork seq = .ok s') : Sound genesis (history.take seq) s' := by
  refine ⟨Stream.retains_fork sound.retains granted, ?_⟩
  · obtain ⟨-, -, -, rfl⟩ := (Stream.fork_ok s s' seq).mp granted
    intro snap member
    rw [List.mem_filter, decide_eq_true_eq] at member
    exact (sound.honest snap member.1).take member.2

end Sound

/-- Every operation keeps what a stream retains of its history. -/
theorem retainsInv (genesis : A.State) (policy : Policy A) :
    StreamInv genesis policy fun history s => Lib.Retains history s.records s.truncated where
  new := Lib.Retains.nil
  append events pos retains _ := retains.push ⟨events, pos⟩
  snapshot retains _ := retains
  truncate retains accepted := Stream.retains_truncateBefore retains accepted
  fork _ _ _ _ _ retains granted := Stream.retains_fork retains granted

/-- Honest runs keep every stream sound. -/
theorem soundInv (genesis : A.State) : StreamInv genesis (.honest genesis) (Sound genesis) where
  new := Sound.new genesis
  append events pos sound _ := sound.append events pos
  snapshot sound honest := sound.snapshot honest
  truncate sound accepted := sound.truncate accepted
  fork forbidden := forbidden.elim

/-- Runs without a fork keep every stream based, whatever snapshots they store. -/
theorem basedInv (genesis : A.State) {policy : Policy A} (linear : ¬policy.fork) :
    StreamInv genesis policy fun _ s => s.Based where
  new := Stream.based_new _ rfl
  append events pos based _ := based.append events pos
  snapshot based _ := based.snapshot _
  truncate _ accepted := Stream.based_truncateBefore accepted
  fork allowed := absurd allowed linear

/-! ## Resume -/

namespace Stream

/-- The head of a based stream is retained, or else a snapshot is stored at it. -/
theorem Based.head_known {s : Stream A} :
    s.Based → s.truncated < s.headNat ∨ ∃ snap ∈ s.snapshots, snap.atSeq = s.headNat := by
  intro based
  obtain ⟨base, member, above, bound⟩ := based
  by_cases whole : s.truncated = s.headNat
  · exact .inr ⟨base, member, by omega⟩
  · exact .inl (by omega)

/-- A based stream answers the position of its head. -/
theorem Based.entropyPos {s : Stream A} (based : s.Based) (headed : 0 < s.headNat) :
    ∃ pos, s.entropyPos s.headNat = .ok pos := by
  cases stored : s.snapshots.find? fun snap => snap.atSeq == s.headNat with
  | some snap => exact ⟨snap.entropyPos, entropyPos_of_snapshot stored⟩
  | none =>
    rcases based.head_known with retained | ⟨snap, member, same⟩
    · obtain ⟨record, found⟩ := recordAt_ok retained (Nat.le_refl _)
      refine ⟨record.entropyPos, ?_⟩
      rw [entropyPos_of_recordAt stored headed, found]
      rfl
    · exact absurd same (ne_of_unstored stored member)

end Stream

section Resume

variable {chacha12 : Seed → UInt64 → UInt32} {j : MemoryJournal A} {stream : StreamId}

variable (chacha12) in
/-- Where a resumed stream starts drawing: at the position of the head, or of the snapshot
when nothing has been appended. -/
theorem resume_based (based : (j.streamMut stream).Based) (seed : Seed) :
    ∃ snap pos events, (j.streamMut stream).latestSnapshot = some snap ∧
      (j.streamMut stream).eventsSince (some snap.atSeq) = .ok events ∧
      ((j.streamMut stream).headNat = 0 → pos = snap.entropyPos) ∧
      (0 < (j.streamMut stream).headNat →
        (j.streamMut stream).entropyPos (j.streamMut stream).headNat = .ok pos) ∧
      (resume j stream seed : Resumed A chacha12) =
        .ok (events.foldl (fun aggregate stored => aggregate.evolve stored.event)
          (.fromState snap.state), .at seed pos) := by
  obtain ⟨snap, latest, above, bound⟩ := based.latestSnapshot
  obtain ⟨events, listed⟩ :
      ∃ events, (j.streamMut stream).eventsSince (some snap.atSeq) = .ok events :=
    Stream.eventsSince_ok above
  by_cases empty : (j.streamMut stream).headNat = 0
  · refine ⟨snap, snap.entropyPos, events, latest, listed, fun _ => rfl, ?_, ?_⟩
    · intro positive
      omega
    · unfold resume
      simp [latest, listed, replay, Stream.head_of_empty empty]
  · have headed : 0 < (j.streamMut stream).headNat := by omega
    obtain ⟨pos, found⟩ := based.entropyPos headed
    refine ⟨snap, pos, events, latest, listed, fun none => absurd none empty, fun _ => found, ?_⟩
    unfold resume
    simp [latest, listed, replay, Stream.head_of_pos headed, found]

/-- A stream resumes exactly when one of its snapshots is a point replay can start from. -/
theorem resume_ok_iff (seed : Seed) :
    (∃ resumed, (resume j stream seed : Resumed A chacha12) = .ok resumed) ↔
      (j.streamMut stream).Based := by
  constructor
  · intro resumed
    obtain ⟨resumed, succeeded⟩ := resumed
    unfold resume at succeeded
    simp only [MemoryJournal.latestSnapshot_eq, MemoryJournal.eventsSince_eq] at succeeded
    cases found : (j.streamMut stream).latestSnapshot with
    | none => simp [found] at succeeded
    | some snap =>
      simp only [found] at succeeded
      obtain ⟨stored, bound⟩ := Stream.latestSnapshot_mem found
      refine ⟨snap, stored, ?_, bound⟩
      by_cases below : snap.atSeq < (j.streamMut stream).truncated
      · rw [@Stream.eventsSince_below _ _ (some snap.atSeq) below] at succeeded
        cases succeeded
      · omega
  · intro based
    obtain ⟨snap, pos, events, -, -, -, -, resumed⟩ := resume_based chacha12 based seed
    exact ⟨_, resumed⟩

/-- A sound, based stream resumes to the state and the position its history ends in. -/
theorem resume_sound (sound : Sound genesis history (j.streamMut stream))
    (based : (j.streamMut stream).Based) (seed : Seed) :
    (resume j stream seed : Resumed A chacha12) =
      .ok (⟨stateAfter genesis history history.length⟩,
        .at seed (posAt history history.length)) := by
  obtain ⟨snap, pos, events, latest, listed, unheaded, headed, resumed⟩ :=
    resume_based chacha12 based seed
  obtain ⟨stored, bound⟩ := Stream.latestSnapshot_mem latest
  have honest := sound.honest snap stored
  have above : (j.streamMut stream).truncated ≤ (some snap.atSeq).getD 0 := by
    by_cases below : (some snap.atSeq).getD 0 < (j.streamMut stream).truncated
    · rw [Stream.eventsSince_below below] at listed
      cases listed
    · omega
  rw [Stream.eventsSince_eq sound.retains above] at listed
  obtain rfl := Except.ok.inj listed
  have replayed := replay_eventsAfter genesis history honest.state
  rw [resumed]
  have length := Stream.headNat_eq sound.retains
  have position : pos = posAt history history.length := by
    by_cases empty : (j.streamMut stream).headNat = 0
    · have zero : snap.atSeq = history.length := by omega
      rw [unheaded empty, honest.pos, zero]
    · have found := headed (by omega)
      rw [sound.entropyPos (Nat.le_refl _) based.head_known, length] at found
      exact (Except.ok.inj found).symm
  rw [position]
  exact congrArg (fun aggregate => Except.ok (aggregate, SeededEntropy.at seed _))
    (Except.ok.inj replayed)

/-- The rewind target of `execute` on a sound, based stream is the recorded position. -/
theorem headPos_sound (sound : Sound genesis history (j.streamMut stream))
    (based : (j.streamMut stream).Based) :
    headPos j stream = .ok (posAt history history.length) := by
  have length := Stream.headNat_eq sound.retains
  unfold headPos
  by_cases empty : (j.streamMut stream).headNat = 0
  · have zero : history.length = 0 := by omega
    simp [Stream.head_of_empty empty, zero]
  · have found := sound.entropyPos (Nat.le_refl _) based.head_known
    rw [length] at found
    simp [Stream.head_of_pos (Nat.pos_of_ne_zero empty), length, found]

end Resume

end Ironstate
