import Ironstate.Journal.History
import Ironstate.Journal.Sim
import Ironstate.Lib.Reach

/-!
# Journals that stage their appends in the caller's transaction

`execute_in` runs against a journal with a unit of work of its own. `StagingJournal` is what
it relies on there: an append only stages its record, reads see committed records only, and
a commit appends what was staged. `StagedJournal` is the one `tests/transactional.rs` gives.
`runUnit` is the protocol of `execute_in`'s documentation, one call in each transaction,
over a `FaultInjector` so that any append may fail.
-/

namespace Ironstate

variable {A : AggregateRules} {J Tx E : Type}

/-- A journal with a real unit of work, and the log it stands for: `committed` is what reads
see of a stream, `staged` what a transaction would add to it. -/
class StagingJournal (J : Type) (A : outParam AggregateRules) (Tx : outParam Type)
    extends Journal J A Tx where
  beginTx : Tx
  commitTx : J → Tx → J
  committed : J → StreamId → List (Record A)
  staged : Tx → StreamId → List (Record A)
  staged_beginTx : ∀ stream, staged beginTx stream = []
  committed_commitTx : ∀ j tx stream,
    committed (commitTx j tx) stream = committed j stream ++ staged tx stream
  appendIn_result : ∀ j tx stream events pos, (appendIn j tx stream events pos).1 =
    .ok ((committed j stream).length + (staged tx stream).length + 1)
  appendIn_committed : ∀ j tx stream events pos other,
    committed (appendIn j tx stream events pos).2.1 other = committed j other
  appendIn_staged : ∀ j tx stream events pos other,
    staged (appendIn j tx stream events pos).2.2 other =
      staged tx other ++ if other = stream then [⟨events, pos⟩] else []
  head_eq : ∀ j stream, head j stream =
    if (committed j stream).length > 0 then some (committed j stream).length else none
  entropyPos_eq : ∀ j stream seq, 0 < seq → seq ≤ (committed j stream).length →
    entropyPos j stream seq = .ok (posAt (committed j stream) seq)
  eventsSince_eq : ∀ j stream, eventsSince j stream none = .ok (eventsAfter (committed j stream) 0)

export StagingJournal (beginTx commitTx committed staged)

namespace StagingJournal

variable [StagingJournal J A Tx]

/-- The rewind target of `execute_in` is the position recorded at the committed head. -/
theorem headPos_eq (j : J) (stream : StreamId) :
    headPos j stream = .ok (posAt (committed j stream) (committed j stream).length) := by
  unfold headPos
  rw [head_eq]
  by_cases empty : (committed j stream).length > 0
  · rw [if_pos empty]
    exact entropyPos_eq j stream _ empty (Nat.le_refl _)
  · have none : (committed j stream).length = 0 := by omega
    rw [if_neg empty, none, posAt_zero]

end StagingJournal

/-! ## The journal of `tests/transactional.rs` -/

/-- `struct Staged`: appends land here first; dropping it is the rollback. -/
structure Staged (A : AggregateRules) where
  pending : List (StreamId × Record A)

/-- `struct StagedJournal`, over any aggregate. -/
structure StagedJournal (A : AggregateRules) where
  committed : BTreeMap StreamId (List (Record A))
  genesis : A.State

namespace StagedJournal

/-- `StagedJournal::new`. -/
def new (genesis : A.State) : StagedJournal A := ⟨∅, genesis⟩

/-- `StagedJournal::records`. -/
def records (j : StagedJournal A) (stream : StreamId) : List (Record A) :=
  j.committed[stream]?.getD []

/-- `entry(stream).or_default().push(record)`. -/
def push (j : StagedJournal A) (staged : StreamId × Record A) : StagedJournal A :=
  { j with committed := j.committed.insert staged.1 (j.records staged.1 ++ [staged.2]) }

/-- `StagedJournal::commit`. -/
def commit (j : StagedJournal A) (tx : Staged A) : StagedJournal A := tx.pending.foldl push j

/-- The records the transaction holds for one stream. -/
def stagedFor (tx : Staged A) (stream : StreamId) : List (Record A) :=
  (tx.pending.filter fun staged => staged.1 = stream).map (·.2)

instance : Journal (StagedJournal A) A (Staged A) where
  appendIn j tx stream events pos :=
    let tx : Staged A := ⟨tx.pending ++ [(stream, ⟨events, pos⟩)]⟩
    let stagedHere := (tx.pending.filter fun staged => staged.1 = stream).length
    (.ok ((j.records stream).length + stagedHere), j, tx)
  snapshotIn j tx _ _ := (.ok (), j, tx)
  entropyPos j stream seq :=
    if seq = 0 then .ok 0
    else
      match (j.records stream)[seq - 1]? with
      | none => .error (.unknownSeq seq)
      | some record => .ok record.entropyPos
  head j stream :=
    if (j.records stream).length > 0 then some (j.records stream).length else none
  eventsSince j stream after :=
    .ok ((((j.records stream).zipIdx.drop (after.getD 0)).flatMap fun numbered =>
        numbered.1.events.map fun event => (numbered.2 + 1, event)).map
      fun tagged => VersionedEvent.new tagged.2 tagged.1 A.eventTypeName 1)
  latestSnapshot j _ := .ok (some ⟨j.genesis, 0, 0, 0⟩)

theorem records_push (j : StagedJournal A) (entry : StreamId × Record A) (stream : StreamId) :
    (j.push entry).records stream =
      j.records stream ++ if entry.1 = stream then [entry.2] else [] := by
  by_cases here : entry.1 = stream
  · subst here
    simp only [records, push, BTreeMap.getElem?_insert_self, Option.getD_some, if_pos]
  · have elsewhere : stream ≠ entry.1 := fun same => here same.symm
    simp only [records, push, BTreeMap.getElem?_insert_ne _ _ elsewhere, if_neg here,
      List.append_nil]

/-- A commit appends to each stream what the transaction holds for it. -/
theorem records_commit (j : StagedJournal A) (tx : Staged A) (stream : StreamId) :
    (j.commit tx).records stream = j.records stream ++ stagedFor tx stream := by
  obtain ⟨pending⟩ := tx
  unfold commit stagedFor
  induction pending generalizing j with
  | nil => rw [List.foldl_nil, List.filter_nil, List.map_nil, List.append_nil]
  | cons entry pending ih =>
    rw [List.foldl_cons, ih, records_push, List.append_assoc, List.filter_cons]
    by_cases here : entry.1 = stream
    · simp only [here, if_true, decide_true, List.map_cons, List.singleton_append]
    · simp only [here, if_false, decide_false, Bool.false_eq_true, List.nil_append]

theorem stagedFor_append (tx : Staged A) (stream other : StreamId) (record : Record A) :
    stagedFor ⟨tx.pending ++ [(stream, record)]⟩ other =
      stagedFor tx other ++ if other = stream then [record] else [] := by
  unfold stagedFor
  rw [List.filter_append, List.map_append, List.filter_cons, List.filter_nil]
  by_cases here : other = stream
  · subst here
    simp
  · have elsewhere : ¬stream = other := fun same => here same.symm
    simp [here, elsewhere]

theorem eventsSince_none (j : StagedJournal A) (stream : StreamId) :
    Journal.eventsSince j stream none = .ok (eventsAfter (j.records stream) 0) := by
  have retagged : ∀ numbered : Record A × Nat,
      (numbered.1.events.map fun event => (numbered.2 + 1, event)).map
          (fun t => VersionedEvent.new t.2 t.1 A.eventTypeName 1) =
        tagged (1 + numbered.2) numbered.1 := by
    intro numbered
    unfold tagged
    rw [List.map_map, Nat.add_comm]
    rfl
  have numbered := Lib.readings_zipIdx_drop (@tagged A) 1 0 (j.records stream)
  simp only [Journal.eventsSince, Option.getD_none, List.map_flatMap, retagged]
  exact congrArg Except.ok numbered

instance : StagingJournal (StagedJournal A) A (Staged A) where
  beginTx := ⟨[]⟩
  commitTx := commit
  committed := records
  staged := stagedFor
  staged_beginTx _ := rfl
  committed_commitTx := records_commit
  appendIn_result j tx stream events pos := by
    have pushed := congrArg List.length (stagedFor_append tx stream stream ⟨events, pos⟩)
    simp only [stagedFor, List.length_map, if_pos, List.length_append, List.length_singleton]
      at pushed
    simp only [Journal.appendIn, stagedFor, List.length_map, pushed, Nat.add_assoc]
  appendIn_committed _ _ _ _ _ _ := rfl
  appendIn_staged _ tx stream events pos other := stagedFor_append tx stream other ⟨events, pos⟩
  head_eq _ _ := rfl
  entropyPos_eq := by
    intro j stream seq positive bound
    obtain ⟨index, rfl⟩ : ∃ index, seq = index + 1 := ⟨seq - 1, by omega⟩
    have present := List.getElem?_eq_getElem (show index < (j.records stream).length by omega)
    simp only [Journal.entropyPos, Nat.add_one_sub_one, posAt, present, Nat.succ_ne_zero,
      if_false, Option.map_some, Option.getD_some]
  eventsSince_eq := eventsSince_none

end StagedJournal

/-! ## Units of work -/

/-- How the caller's transaction resolves once `execute_in` has returned `Ok`. -/
inductive Resolution where
  | commit
  | rollback
  deriving DecidableEq

/-- One unit of work: at most one command, whether its append is made to fail, and how the
transaction resolves. -/
structure UnitOfWork (A : AggregateRules) where
  cmd : Option A.Command
  failAppend : Bool
  resolution : Resolution

section Units

variable [EntropySource E] [CtxEntropy A.Ctx E] [StagingJournal J A Tx]

/-- What `Pending::commit` returned, where it was called, and the state after the unit. -/
structure UnitOutcome (A : AggregateRules) (J : Type) where
  committedAt : Option Nat
  live : Live A (FaultInjector J)

/-- The caller's transaction commits. -/
def commitUnit (journal : FaultInjector J) (tx : Tx) : FaultInjector J :=
  { journal with inner := commitTx journal.inner tx }

/-- One unit of work. An `execute_in` that fails ends it, and the transaction is dropped. -/
def runUnit (stream : StreamId) (live : Live A (FaultInjector J)) (unit : UnitOfWork A) :
    UnitOutcome A J :=
  let journal := live.journal.arm unit.failAppend
  match unit.cmd with
  | none =>
    match unit.resolution with
    | .commit => ⟨none, { live with journal := commitUnit journal (beginTx J) }⟩
    | .rollback => ⟨none, { live with journal := journal }⟩
  | some cmd =>
    match executeIn journal (beginTx J) stream live.aggregate cmd live.ctx with
    | ⟨.error _, journal, _, ctx⟩ => ⟨none, journal, live.aggregate, ctx⟩
    | ⟨.ok pending, journal, tx, ctx⟩ =>
      match unit.resolution with
      | .commit =>
        let (seq, aggregate) := pending.commit live.aggregate
        ⟨some seq, commitUnit journal tx, aggregate, ctx⟩
      | .rollback => ⟨none, journal, live.aggregate, pending.abort ctx⟩

/-- The state after one unit. -/
def afterUnit (stream : StreamId) (live : Live A (FaultInjector J)) (unit : UnitOfWork A) :
    Live A (FaultInjector J) :=
  (runUnit stream live unit).live

/-- The state after a sequence of units. -/
def runUnits (stream : StreamId) (live : Live A (FaultInjector J)) (units : List (UnitOfWork A)) :
    Live A (FaultInjector J) :=
  units.foldl (afterUnit stream) live

/-- The unit, if it commits. -/
def committing (stream : StreamId) (live : Live A (FaultInjector J)) (unit : UnitOfWork A) :
    Option (UnitOfWork A) :=
  if (runUnit stream live unit).committedAt.isSome then some unit else none

/-- The units of a sequence that commit. -/
def committedUnits (stream : StreamId) (live : Live A (FaultInjector J))
    (units : List (UnitOfWork A)) : List (UnitOfWork A) :=
  Lib.emitted (afterUnit stream) (committing stream) live units

end Units

end Ironstate
