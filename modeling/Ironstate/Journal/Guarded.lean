import Ironstate.Journal.Memory
import Ironstate.Lib.Checked

/-!
# The in-memory journal on machine words

The methods of `memory.rs` once more, with each operation on words as the source has it: a `u64`
sum, a subtraction, a cast between `usize` and `u64`, an index and a drained range are checked, and
`usize::try_from(..).unwrap_or(usize::MAX)` saturates. `usize` is its width.
-/

namespace Ironstate

open Lib (Panic)
open Lib.Checked (add sub cast saturate)

variable {A : AggregateRules} (usize : Nat)

namespace Stream.Guarded

variable (s : Stream A)

/-- `truncated + records.len() as u64`. -/
def headNat : Except Panic Nat := do
  let length ← cast 64 s.records.length
  add 64 s.truncated length

/-- `Stream::head`. -/
def head : Except Panic (Option Nat) := do
  let head ← headNat s
  .ok (if head > 0 then some head else none)

/-- `Stream::record_at`. -/
def recordAt (seq : Nat) : Except Panic (Except JournalError (Record A)) :=
  if seq ≤ s.truncated then .ok (.error (.unknownSeq seq))
  else do
    let head ← headNat s
    if seq > head then .ok (.error (.unknownSeq seq))
    else do
      let index ← sub seq s.truncated
      let index ← sub index 1
      let index ← cast usize index
      let record ← Lib.Checked.get s.records index
      .ok (.ok record)

/-- `Stream::latest_snapshot_at`. -/
def latestSnapshotAt : Except Panic (Option Nat) := do
  let head ← headNat s
  .ok ((s.snapshots.map (·.atSeq)).filter fun seq => seq ≤ head).max?

def append (events : List A.Event) (pos : DrawPos) : Except Panic (Stream A) := do
  let records ← Lib.Checked.push usize s.records ⟨events, pos⟩
  .ok { s with records := records }

def entropyPos (seq : Nat) : Except Panic (Except JournalError DrawPos) :=
  match s.snapshots.find? fun snap => snap.atSeq == seq with
  | some snap => .ok (.ok snap.entropyPos)
  | none =>
    if seq = 0 then
      if s.truncated > 0 then .ok (.error (.unknownSeq seq)) else .ok (.ok 0)
    else do
      match ← recordAt usize s seq with
      | .error error => .ok (.error error)
      | .ok record => .ok (.ok record.entropyPos)

def eventsSince (after : Option Nat) :
    Except Panic (Except JournalError (List (VersionedEvent A))) :=
  let start := after.getD 0
  if start < s.truncated then .ok (.error (.unknownSeq (after.getD 0)))
  else do
    let skipped ← sub start s.truncated
    let tagged ← (s.records.zipIdx.drop (saturate usize skipped)).mapM fun numbered => do
      let index ← cast 64 numbered.2
      let seq ← add 64 s.truncated index
      let seq ← add 64 seq 1
      .ok (numbered.1.events.map fun event => (seq, event))
    .ok (.ok (tagged.flatten.map fun tagged =>
      VersionedEvent.new tagged.2 tagged.1 A.eventTypeName 1))

def latestSnapshot : Except Panic (Option (Snapshot A)) := do
  let head ← headNat s
  .ok (Lib.newest (·.atSeq) (s.snapshots.filter fun snap => snap.atSeq ≤ head))

def fork (seq : Nat) : Except Panic (Except JournalError (Stream A)) := do
  let head ← headNat s
  if seq > head ∨ (s.truncated > 0 ∧ seq ≤ s.truncated) then .ok (.error (.unknownSeq seq))
  else
    let base := s.snapshots.filter fun snap => snap.atSeq ≤ seq
    if base.isEmpty then .ok (.error (.noBaseForFork seq))
    else do
      let cutoff ← sub seq s.truncated
      let cutoff ← cast usize cutoff
      .ok (.ok ⟨s.records.take cutoff, base, s.truncated⟩)

def truncateBefore (seq : Nat) : Except Panic (Except JournalError (Stream A)) := do
  let head ← headNat s
  if seq ≤ s.truncated then .ok (.error (.unknownSeq seq))
  else do
    let past ← add 64 head 1
    if seq > past then .ok (.error (.unknownSeq seq))
    else do
      let latestSnapshot ← latestSnapshotAt s
      let needed := seq - 1
      if latestSnapshot.all (· < needed) then
        .ok (.error (.noSnapshotForTruncation seq latestSnapshot))
      else do
        let dropCount := min (saturate usize (seq - 1 - s.truncated)) s.records.length
        let records ← Lib.Checked.drain s.records dropCount
        let dropped ← cast 64 dropCount
        let horizon ← add 64 s.truncated dropped
        .ok (.ok ⟨records, s.snapshots.filter fun snap => horizon ≤ snap.atSeq, horizon⟩)

/-- `Stream::retained_from`. -/
def retainedFrom : Except Panic Nat := add 64 s.truncated 1

end Stream.Guarded

namespace MemoryJournal.Guarded

variable (j : MemoryJournal A)

def appendIn (stream : StreamId) (events : List A.Event) (pos : DrawPos) :
    Except Panic (Except JournalError Nat × MemoryJournal A) := do
  let s ← Stream.Guarded.append usize (j.streamMut stream) events pos
  let head ← Stream.Guarded.headNat s
  .ok (.ok head, j.put stream s)

def entropyPos (stream : StreamId) (seq : Nat) : Except Panic (Except JournalError DrawPos) :=
  match j.streams[stream]? with
  | none => .ok (if seq = 0 then .ok 0 else .error (.unknownSeq seq))
  | some s => Stream.Guarded.entropyPos usize s seq

def head (stream : StreamId) : Except Panic (Option Nat) :=
  match j.streams[stream]? with
  | none => .ok none
  | some s => Stream.Guarded.head s

def eventsSince (stream : StreamId) (after : Option Nat) :
    Except Panic (Except JournalError (List (VersionedEvent A))) :=
  match j.streams[stream]? with
  | none => .ok (.ok [])
  | some s => Stream.Guarded.eventsSince usize s after

def latestSnapshot (stream : StreamId) :
    Except Panic (Except JournalError (Option (Snapshot A))) :=
  match j.streams[stream]? with
  | none => .ok (.ok (some j.genesisSnapshot))
  | some s => do
    let latest ← Stream.Guarded.latestSnapshot s
    .ok (.ok latest)

def fork (stream : StreamId) (seq : Nat) :
    Except Panic (Except JournalError (MemoryJournal A)) :=
  let forked := MemoryJournal.new j.genesis
  match j.streams[stream]? with
  | none => .ok (if seq = 0 then .ok forked else .error (.unknownSeq seq))
  | some source => do
    match ← Stream.Guarded.fork usize source seq with
    | .error error => .ok (.error error)
    | .ok s => .ok (.ok (forked.put stream s))

def truncateBefore (id : StreamId) (seq : Nat) :
    Except Panic (Except JournalError Unit × MemoryJournal A) :=
  match j.streams[id]? with
  | none => .ok (.error (.unknownSeq seq), j)
  | some stream => do
    match ← Stream.Guarded.truncateBefore usize stream seq with
    | .error error => .ok (.error error, j)
    | .ok s => .ok (.ok (), j.put id s)

def retainedFrom (stream : StreamId) : Except Panic Nat :=
  match j.streams[stream]? with
  | none => .ok 1
  | some s => Stream.Guarded.retainedFrom s

end MemoryJournal.Guarded

end Ironstate
