import Ironstate.Journal.Memory
import Ironstate.Journal.Replay

/-!
# The history a stream stands for

What a stream is for: it is the list of all records ever appended to it, of which it keeps
those above the horizon. The state, the position and the events at each `Seq` are functions
of that list (`stateAfter`, `posAt`, `eventsAfter`), and every read of a stream that retains
a history (`Lib.Retains`) is one of them. A snapshot is honest when it holds the state and
the position of its `Seq`; a stream is based when one of its snapshots is a point replay can
start from. A sound, based stream is resumed exactly.
-/

namespace Ironstate

variable {A : AggregateRules}

/-! ## States, positions and events of a history -/

/-- The position the append of record `seq` was given; the genesis is at 0. -/
def posAt (history : List (Record A)) : Nat → DrawPos
  | 0 => 0
  | seq + 1 => (history[seq]?.map (·.entropyPos)).getD 0

/-- The fold of `evolve` over the events of the first `seq` records. -/
def stateAfter (genesis : A.State) (history : List (Record A)) (seq : Nat) : A.State :=
  Lib.stateAt A.evolve genesis (history.map (·.events)) seq

/-- The events of one record, each tagged with the record's `Seq`. -/
def tagged (seq : Nat) (record : Record A) : List (VersionedEvent A) :=
  record.events.map fun event => .new event seq A.eventTypeName 1

/-- The events of the records after `seq`, in append order. -/
def eventsAfter (history : List (Record A)) (seq : Nat) : List (VersionedEvent A) :=
  Lib.readings tagged (seq + 1) (history.drop seq)

@[simp] theorem posAt_zero (history : List (Record A)) : posAt history 0 = 0 := rfl

theorem posAt_append {history : List (Record A)} {seq : Nat} (bound : seq ≤ history.length)
    (later : List (Record A)) : posAt (history ++ later) seq = posAt history seq := by
  cases seq with
  | zero => rfl
  | succ seq => simp only [posAt, List.getElem?_append_left bound]

theorem posAt_take (history : List (Record A)) {seq cut : Nat} (bound : seq ≤ cut) :
    posAt (history.take cut) seq = posAt history seq := by
  cases seq with
  | zero => rfl
  | succ seq => simp only [posAt, List.getElem?_take_of_lt bound]

@[simp] theorem posAt_push (history : List (Record A)) (record : Record A) :
    posAt (history ++ [record]) (history.length + 1) = record.entropyPos := by
  simp [posAt]

private theorem seq_tagged (seq : Nat) (record : Record A) :
    ∀ stored ∈ tagged seq record, stored.seq = seq := by
  intro stored member
  obtain ⟨event, -, rfl⟩ := List.mem_map.mp member
  rfl

/-- The events up to a `Seq` are those of the history cut there. -/
theorem eventsAfter_filter (history : List (Record A)) (seq cut : Nat) :
    (eventsAfter history seq).filter (fun stored => stored.seq ≤ cut) =
      eventsAfter (history.take cut) seq := by
  unfold eventsAfter
  rw [Lib.readings_filter_le seq_tagged, List.drop_take, Nat.add_sub_add_right]

/-- Reading up to a `Seq` and on from it is reading through. -/
theorem eventsAfter_split (history : List (Record A)) {seq cut : Nat} (ordered : seq ≤ cut)
    (bound : cut ≤ history.length) :
    eventsAfter (history.take cut) seq ++ eventsAfter history cut = eventsAfter history seq := by
  have later : history.drop cut = (history.drop seq).drop (cut - seq) := by
    rw [List.drop_drop, Nat.add_sub_cancel' ordered]
  have whole : history.drop seq = (history.take cut).drop seq ++ history.drop cut := by
    rw [List.drop_take, later, List.take_append_drop]
  unfold eventsAfter
  rw [whole, Lib.readings_append, List.length_drop, List.length_take, Nat.min_eq_left bound]
  congr 2
  omega

theorem stateAfter_append (genesis : A.State) {history : List (Record A)} {seq : Nat}
    (bound : seq ≤ history.length) (later : List (Record A)) :
    stateAfter genesis (history ++ later) seq = stateAfter genesis history seq := by
  unfold stateAfter
  rw [List.map_append, Lib.stateAt_append]
  simpa using bound

theorem stateAfter_take (genesis : A.State) (history : List (Record A)) {seq cut : Nat}
    (bound : seq ≤ cut) :
    stateAfter genesis (history.take cut) seq = stateAfter genesis history seq := by
  unfold stateAfter
  rw [List.map_take, Lib.stateAt_take A.evolve genesis _ bound]

theorem stateAfter_push (genesis : A.State) (history : List (Record A)) (record : Record A) :
    stateAfter genesis (history ++ [record]) (history.length + 1) =
      record.events.foldl A.evolve (stateAfter genesis history history.length) := by
  have pushed := Lib.stateAt_push A.evolve genesis (history.map (·.events)) record.events
  rw [List.length_map] at pushed
  unfold stateAfter
  rw [List.map_append, List.map_singleton, pushed]

theorem foldl_tagged (seq : Nat) (record : Record A) (aggregate : Aggregate A) :
    (tagged seq record).foldl (fun aggregate stored => aggregate.evolve stored.event) aggregate =
      ⟨record.events.foldl A.evolve aggregate.state⟩ := by
  unfold tagged
  rw [List.foldl_map]
  exact foldl_evolve record.events aggregate

private theorem foldl_readings (first : Nat) (records : List (Record A))
    (aggregate : Aggregate A) :
    (Lib.readings tagged first records).foldl
        (fun aggregate stored => aggregate.evolve stored.event) aggregate =
      ⟨(records.map (·.events)).flatten.foldl A.evolve aggregate.state⟩ := by
  induction records generalizing first aggregate with
  | nil => rfl
  | cons record records ih =>
    rw [Lib.readings_cons, List.foldl_append, foldl_tagged, ih, List.map_cons,
      List.flatten_cons, List.foldl_append]

/-- Replay over the later events from a snapshot of the true state reaches the head. -/
theorem replay_eventsAfter (genesis : A.State) (history : List (Record A)) {snap : Snapshot A}
    (true_state : snap.state = stateAfter genesis history snap.atSeq) :
    replay snap (eventsAfter history snap.atSeq) =
      .ok ⟨stateAfter genesis history history.length⟩ := by
  have whole := Lib.foldl_stateAt A.evolve genesis (history.map (·.events)) snap.atSeq
  rw [List.length_map] at whole
  unfold replay eventsAfter
  rw [foldl_readings, List.map_drop, Aggregate.fromState, true_state]
  exact congrArg (fun state => Except.ok (Aggregate.mk state)) whole

/-! ## What a stream reads of its history -/

namespace Stream

variable {s : Stream A} {history : List (Record A)}

theorem headNat_eq (retains : Lib.Retains history s.records s.truncated) :
    s.headNat = history.length := retains.length_eq

theorem head_of_empty (empty : s.headNat = 0) : s.head = none := by
  unfold head
  rw [if_neg (by omega)]

theorem head_of_pos (headed : 0 < s.headNat) : s.head = some s.headNat := by
  unfold head
  rw [if_pos headed]

theorem head_eq_some {seq : Nat} (headed : s.head = some seq) :
    seq = s.headNat ∧ 0 < s.headNat := by
  by_cases empty : s.headNat = 0
  · rw [head_of_empty empty] at headed
    cases headed
  · have positive : 0 < s.headNat := by omega
    rw [head_of_pos positive] at headed
    exact ⟨(Option.some.inj headed).symm, positive⟩

@[simp] theorem head_getD (s : Stream A) : s.head.getD 0 = s.headNat := by
  by_cases empty : s.headNat = 0
  · rw [head_of_empty empty, Option.getD_none, empty]
  · rw [head_of_pos (by omega), Option.getD_some]

theorem recordAt_ok {seq : Nat} (above : s.truncated < seq) (bound : seq ≤ s.headNat) :
    ∃ record, s.recordAt seq = .ok record := by
  have known : ¬(seq ≤ s.truncated ∨ seq > s.truncated + s.records.length) := by
    unfold headNat at bound
    omega
  exact ⟨_, dif_neg known⟩

theorem recordAt_unknown {seq : Nat} (unknown : s.headNat < seq ∨ seq ≤ s.truncated) :
    s.recordAt seq = .error (.unknownSeq seq) := by
  apply dif_pos
  unfold headNat at unknown
  omega

theorem recordAt_eq (retains : Lib.Retains history s.records s.truncated) {seq : Nat}
    (above : s.truncated < seq) (bound : seq ≤ s.headNat) :
    ∃ record, s.recordAt seq = .ok record ∧ record.entropyPos = posAt history seq := by
  have known : ¬(seq ≤ s.truncated ∨ seq > s.truncated + s.records.length) := by
    unfold headNat at bound
    omega
  refine ⟨_, dif_neg known, ?_⟩
  obtain ⟨index, rfl⟩ : ∃ index, seq = s.truncated + index + 1 := ⟨seq - s.truncated - 1, by omega⟩
  have present := retains.getElem? index
  have shifted : s.truncated + index + 1 - s.truncated - 1 = index := by omega
  have inside : index < s.records.length := by
    unfold headNat at bound
    omega
  simp only [posAt, ← present, shifted, List.get_eq_getElem, List.getElem?_eq_getElem inside,
    Option.map_some, Option.getD_some]

theorem stored_mem {snapshots : List (Snapshot A)} {seq : Nat} {snap : Snapshot A}
    (stored : (snapshots.find? fun snap => snap.atSeq == seq) = some snap) :
    snap ∈ snapshots ∧ snap.atSeq = seq := by
  have same := List.find?_some stored
  exact ⟨List.mem_of_find?_eq_some stored, beq_iff_eq.mp same⟩

theorem ne_of_unstored {snapshots : List (Snapshot A)} {seq : Nat} {snap : Snapshot A}
    (unstored : (snapshots.find? fun snap => snap.atSeq == seq) = none)
    (member : snap ∈ snapshots) : snap.atSeq ≠ seq := by
  intro same
  exact List.find?_eq_none.mp unstored snap member (beq_iff_eq.mpr same)

theorem entropyPos_of_snapshot {seq : Nat} {snap : Snapshot A}
    (stored : (s.snapshots.find? fun snap => snap.atSeq == seq) = some snap) :
    s.entropyPos seq = .ok snap.entropyPos := by
  unfold entropyPos
  simp only [stored]

/-- Where no snapshot is stored the records are asked. -/
theorem entropyPos_of_recordAt {seq : Nat}
    (unstored : (s.snapshots.find? fun snap => snap.atSeq == seq) = none) (positive : 0 < seq) :
    s.entropyPos seq = (s.recordAt seq).map (·.entropyPos) := by
  have nonzero : seq ≠ 0 := by omega
  unfold entropyPos
  simp only [unstored, if_neg nonzero]
  cases s.recordAt seq with
  | error error => rfl
  | ok record => rfl

/-- A position read where no snapshot is stored is the record's. -/
theorem entropyPos_of_record (retains : Lib.Retains history s.records s.truncated) {seq : Nat}
    (above : s.truncated < seq) (bound : seq ≤ s.headNat)
    (unstored : (s.snapshots.find? fun snap => snap.atSeq == seq) = none) :
    s.entropyPos seq = .ok (posAt history seq) := by
  obtain ⟨record, found, same⟩ := recordAt_eq retains above bound
  rw [entropyPos_of_recordAt unstored (by omega), found, ← same]
  rfl

/-- Out of range and with no snapshot stored there, a position is refused. -/
theorem entropyPos_refused {seq : Nat} (outside : s.headNat < seq ∨ seq < s.truncated)
    (unstored : (s.snapshots.find? fun snap => snap.atSeq == seq) = none) :
    s.entropyPos seq = .error (.unknownSeq seq) := by
  by_cases zero : seq = 0
  · have discarded : s.truncated > 0 := by omega
    unfold entropyPos
    simp only [unstored, if_pos zero, if_pos discarded]
  · rw [entropyPos_of_recordAt unstored (by omega), recordAt_unknown (by omega)]
    rfl

theorem eventsSince_eq (retains : Lib.Retains history s.records s.truncated)
    {after : Option Nat} (above : s.truncated ≤ after.getD 0) :
    s.eventsSince after = .ok (eventsAfter history (after.getD 0)) := by
  have kept : ¬after.getD 0 < s.truncated := by omega
  unfold eventsSince
  simp only [if_neg kept]
  congr 1
  rw [List.map_flatMap]
  have retagged : ∀ numbered : Record A × Nat,
      (numbered.1.events.map fun event => (s.truncated + numbered.2 + 1, event)).map
          (fun t => VersionedEvent.new t.2 t.1 A.eventTypeName 1) =
        tagged (s.truncated + 1 + numbered.2) numbered.1 := by
    intro numbered
    unfold tagged
    rw [List.map_map, Nat.add_right_comm]
    rfl
  simp only [retagged]
  rw [Lib.readings_zipIdx_drop, retains.drop_eq above]
  unfold eventsAfter
  congr 1
  omega

theorem eventsSince_ok {after : Option Nat} (above : s.truncated ≤ after.getD 0) :
    ∃ events, s.eventsSince after = .ok events := by
  have kept : ¬after.getD 0 < s.truncated := by omega
  exact ⟨_, if_neg kept⟩

theorem eventsSince_below {after : Option Nat} (below : after.getD 0 < s.truncated) :
    s.eventsSince after = .error (.unknownSeq (after.getD 0)) := by
  unfold eventsSince
  simp only [if_pos below]

theorem latestSnapshot_mem {snap : Snapshot A} (latest : s.latestSnapshot = some snap) :
    snap ∈ s.snapshots ∧ snap.atSeq ≤ s.headNat := by
  have member := Lib.newest_mem latest
  rw [List.mem_filter] at member
  exact ⟨member.1, by simpa using member.2⟩

/-- Some stored snapshot is a point that replay can start from: not past the head, and with
every record after it retained. -/
def Based (s : Stream A) : Prop :=
  ∃ snap ∈ s.snapshots, s.truncated ≤ snap.atSeq ∧ snap.atSeq ≤ s.headNat

theorem Based.latestSnapshot (based : s.Based) :
    ∃ snap, s.latestSnapshot = some snap ∧ s.truncated ≤ snap.atSeq ∧ snap.atSeq ≤ s.headNat := by
  obtain ⟨base, stored, above, bound⟩ := based
  have usable : base ∈ s.snapshots.filter fun snap => snap.atSeq ≤ s.headNat :=
    List.mem_filter.mpr ⟨stored, by simpa using bound⟩
  obtain ⟨snap, latest, higher⟩ := Lib.newest_isSome usable
  exact ⟨snap, latest, Nat.le_trans above higher, (latestSnapshot_mem latest).2⟩

end Stream

/-! ## Honest snapshots and sound streams -/

/-- The snapshot holds the state and the position of its `Seq` in the history. -/
structure Honest (genesis : A.State) (history : List (Record A)) (snap : Snapshot A) : Prop where
  bound : snap.atSeq ≤ history.length
  state : snap.state = stateAfter genesis history snap.atSeq
  pos : snap.entropyPos = posAt history snap.atSeq

namespace Honest

variable {genesis : A.State} {history : List (Record A)} {snap : Snapshot A}

theorem push (honest : Honest genesis history snap) (record : Record A) :
    Honest genesis (history ++ [record]) snap := by
  refine ⟨?_, ?_, ?_⟩
  · rw [List.length_append]
    exact Nat.le_trans honest.bound (Nat.le_add_right _ _)
  · rw [stateAfter_append genesis honest.bound, honest.state]
  · rw [posAt_append honest.bound, honest.pos]

theorem take (honest : Honest genesis history snap) {cut : Nat} (bound : snap.atSeq ≤ cut) :
    Honest genesis (history.take cut) snap := by
  refine ⟨?_, ?_, ?_⟩
  · rw [List.length_take]
    exact Nat.le_min.mpr ⟨bound, honest.bound⟩
  · rw [stateAfter_take genesis history bound, honest.state]
  · rw [posAt_take history bound, honest.pos]

end Honest

/-- The stream keeps the history above its horizon, and its snapshots are honest. -/
structure Sound (genesis : A.State) (history : List (Record A)) (s : Stream A) : Prop where
  retains : Lib.Retains history s.records s.truncated
  honest : ∀ snap ∈ s.snapshots, Honest genesis history snap

/-- The position a sound stream answers at a `Seq` it can still vouch for is the recorded
one, whether a snapshot or the record holds it. -/
theorem Sound.entropyPos {genesis : A.State} {history : List (Record A)} {s : Stream A}
    (sound : Sound genesis history s) {seq : Nat} (bound : seq ≤ s.headNat)
    (known : s.truncated < seq ∨ ∃ snap ∈ s.snapshots, snap.atSeq = seq) :
    s.entropyPos seq = .ok (posAt history seq) := by
  cases stored : s.snapshots.find? fun snap => snap.atSeq == seq with
  | some snap =>
    obtain ⟨member, same⟩ := Stream.stored_mem stored
    rw [Stream.entropyPos_of_snapshot stored, (sound.honest snap member).pos, same]
  | none =>
    rcases known with above | ⟨snap, member, same⟩
    · exact Stream.entropyPos_of_record sound.retains above bound stored
    · exact absurd same (Stream.ne_of_unstored stored member)

end Ironstate
