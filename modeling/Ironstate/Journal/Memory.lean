import Ironstate.Journal.Journal
import Ironstate.Lib.Log

/-!
# The in-memory journal

`memory.rs`. Each method of `MemoryJournal` that looks its stream up has its branch for a
touched stream as a function of that stream, under the method's name. Sequence numbers
and counts are natural numbers: `u64` and `usize` conversions are the identity below the
sizes a run can reach, and the saturating ones (`saturating_sub`, `try_from(..).unwrap_or`)
are subtraction and `min`.
-/

namespace Ironstate

variable {A : AggregateRules}

/-- `struct Record`. -/
structure Record (A : AggregateRules) where
  events : List A.Event
  entropyPos : DrawPos

/-- `struct Stream`: `records[i]` is always `Seq(truncated + i + 1)`. -/
structure Stream (A : AggregateRules) where
  records : List (Record A)
  snapshots : List (Snapshot A)
  truncated : Nat

namespace Stream

/-- `Stream::new`. -/
def new (genesis : Snapshot A) : Stream A := ⟨[], [genesis], 0⟩

/-- `truncated + records.len()`, which the source recomputes where it needs it. -/
def headNat (s : Stream A) : Nat := s.truncated + s.records.length

/-- `Stream::head`. -/
def head (s : Stream A) : Option Nat := if s.headNat > 0 then some s.headNat else none

/-- `Stream::retained_from`. -/
def retainedFrom (s : Stream A) : Nat := s.truncated + 1

/-- `Stream::record_at`. -/
def recordAt (s : Stream A) (seq : Nat) : Except JournalError (Record A) :=
  if unknown : seq ≤ s.truncated ∨ seq > s.truncated + s.records.length then
    .error (.unknownSeq seq)
  else .ok (s.records.get ⟨seq - s.truncated - 1, by omega⟩)

/-- `Stream::latest_snapshot_at`. -/
def latestSnapshotAt (s : Stream A) : Option Nat :=
  ((s.snapshots.map (·.atSeq)).filter fun seq => seq ≤ s.headNat).max?

/-- The append of one record. -/
def append (s : Stream A) (events : List A.Event) (pos : DrawPos) : Stream A :=
  { s with records := s.records ++ [⟨events, pos⟩] }

/-- The snapshots are kept in the order they were stored. -/
def snapshot (s : Stream A) (snap : Snapshot A) : Stream A :=
  { s with snapshots := s.snapshots ++ [snap] }

def entropyPos (s : Stream A) (seq : Nat) : Except JournalError DrawPos :=
  match s.snapshots.find? fun snap => snap.atSeq == seq with
  | some snap => .ok snap.entropyPos
  | none =>
    if seq = 0 then
      if s.truncated > 0 then .error (.unknownSeq seq) else .ok 0
    else
      match s.recordAt seq with
      | .error error => .error error
      | .ok record => .ok record.entropyPos

def eventsSince (s : Stream A) (after : Option Nat) :
    Except JournalError (List (VersionedEvent A)) :=
  let start := after.getD 0
  if start < s.truncated then .error (.unknownSeq (after.getD 0))
  else
    .ok (((s.records.zipIdx.drop (start - s.truncated)).flatMap fun numbered =>
        numbered.1.events.map fun event => (s.truncated + numbered.2 + 1, event)).map
      fun tagged => VersionedEvent.new tagged.2 tagged.1 A.eventTypeName 1)

/-- `max_by_key` answers the last of several equally high snapshots. -/
def latestSnapshot (s : Stream A) : Option (Snapshot A) :=
  Lib.newest (·.atSeq) (s.snapshots.filter fun snap => snap.atSeq ≤ s.headNat)

def fork (s : Stream A) (seq : Nat) : Except JournalError (Stream A) :=
  if seq > s.headNat ∨ (s.truncated > 0 ∧ seq ≤ s.truncated) then .error (.unknownSeq seq)
  else
    let base := s.snapshots.filter fun snap => snap.atSeq ≤ seq
    if base.isEmpty then .error (.noBaseForFork seq)
    else .ok ⟨s.records.take (seq - s.truncated), base, s.truncated⟩

def truncateBefore (s : Stream A) (seq : Nat) : Except JournalError (Stream A) :=
  if seq ≤ s.truncated ∨ seq > s.headNat + 1 then .error (.unknownSeq seq)
  else
    let needed := seq - 1
    if s.latestSnapshotAt.all (· < needed) then
      .error (.noSnapshotForTruncation seq s.latestSnapshotAt)
    else
      let dropCount := min (seq - 1 - s.truncated) s.records.length
      let horizon := s.truncated + dropCount
      .ok ⟨s.records.drop dropCount, s.snapshots.filter fun snap => horizon ≤ snap.atSeq, horizon⟩

end Stream

/-- `struct MemoryJournal`. -/
structure MemoryJournal (A : AggregateRules) where
  genesis : A.State
  streams : BTreeMap StreamId (Stream A)

namespace MemoryJournal

/-- `MemoryJournal::new`. -/
def new (genesis : A.State) : MemoryJournal A := ⟨genesis, ∅⟩

/-- `MemoryJournal::genesis_snapshot`. -/
def genesisSnapshot (j : MemoryJournal A) : Snapshot A := ⟨j.genesis, 0, 0, 0⟩

/-- `MemoryJournal::stream_mut`: the stream, seeded with its genesis snapshot at its first
use. -/
def streamMut (j : MemoryJournal A) (id : StreamId) : Stream A :=
  match j.streams[id]? with
  | some s => s
  | none => .new j.genesisSnapshot

/-- Writes a stream back through the reference `stream_mut` or `get_mut` lent out. -/
def put (j : MemoryJournal A) (id : StreamId) (s : Stream A) : MemoryJournal A :=
  { j with streams := j.streams.insert id s }

def appendIn (j : MemoryJournal A) (stream : StreamId) (events : List A.Event) (pos : DrawPos) :
    Except JournalError Nat × MemoryJournal A :=
  let s := (j.streamMut stream).append events pos
  (.ok (s.truncated + s.records.length), j.put stream s)

def snapshotIn (j : MemoryJournal A) (stream : StreamId) (snap : Snapshot A) :
    Except JournalError Unit × MemoryJournal A :=
  (.ok (), j.put stream ((j.streamMut stream).snapshot snap))

def entropyPos (j : MemoryJournal A) (stream : StreamId) (seq : Nat) :
    Except JournalError DrawPos :=
  match j.streams[stream]? with
  | none => if seq = 0 then .ok 0 else .error (.unknownSeq seq)
  | some s => s.entropyPos seq

def head (j : MemoryJournal A) (stream : StreamId) : Option Nat :=
  match j.streams[stream]? with
  | none => none
  | some s => s.head

def eventsSince (j : MemoryJournal A) (stream : StreamId) (after : Option Nat) :
    Except JournalError (List (VersionedEvent A)) :=
  match j.streams[stream]? with
  | none => .ok []
  | some s => s.eventsSince after

def latestSnapshot (j : MemoryJournal A) (stream : StreamId) :
    Except JournalError (Option (Snapshot A)) :=
  match j.streams[stream]? with
  | none => .ok (some j.genesisSnapshot)
  | some s => .ok s.latestSnapshot

/-- `MemoryJournal::fork`: a new journal that holds the one stream. -/
def fork (j : MemoryJournal A) (stream : StreamId) (seq : Nat) :
    Except JournalError (MemoryJournal A) :=
  let forked := MemoryJournal.new j.genesis
  match j.streams[stream]? with
  | none => if seq = 0 then .ok forked else .error (.unknownSeq seq)
  | some source =>
    match source.fork seq with
    | .error error => .error error
    | .ok s => .ok (forked.put stream s)

/-- `MemoryJournal::truncate_before`: a refused truncation leaves the journal as it was. -/
def truncateBefore (j : MemoryJournal A) (id : StreamId) (seq : Nat) :
    Except JournalError Unit × MemoryJournal A :=
  match j.streams[id]? with
  | none => (.error (.unknownSeq seq), j)
  | some stream =>
    match stream.truncateBefore seq with
    | .error error => (.error error, j)
    | .ok s => (.ok (), j.put id s)

def retainedFrom (j : MemoryJournal A) (stream : StreamId) : Nat :=
  match j.streams[stream]? with
  | none => 1
  | some s => s.retainedFrom

def streamIds (j : MemoryJournal A) : Except JournalError (List StreamId) := .ok j.streams.keys

end MemoryJournal

/-- Its unit of work is `()`: it owns its durability. -/
instance : Journal (MemoryJournal A) A Unit where
  appendIn j tx stream events pos :=
    let (result, j) := j.appendIn stream events pos
    (result, j, tx)
  snapshotIn j tx stream snap :=
    let (result, j) := j.snapshotIn stream snap
    (result, j, tx)
  entropyPos j := j.entropyPos
  head j := j.head
  eventsSince j := j.eventsSince
  latestSnapshot j := j.latestSnapshot

instance : ForkableJournal (MemoryJournal A) A Unit where
  fork j := j.fork

instance : RetainableJournal (MemoryJournal A) A Unit where
  truncateBefore j := j.truncateBefore
  retainedFrom j := j.retainedFrom
  streams j := j.streamIds

instance : AtomicAppend (MemoryJournal A) where
  appendIn_error := by
    intro j tx stream events pos error failed
    cases failed

end Ironstate
