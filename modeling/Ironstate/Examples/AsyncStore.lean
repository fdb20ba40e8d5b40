import Ironstate.Journal.Contract
import Ironstate.Journal.Memory
import Ironstate.Lib.Async

/-!
# The asynchronous store

`examples/async-store`. One `Log` with two front ends: `SyncStore`, which is a journal, and
`AsyncStore`, whose operations await and which drives the persistent loop through `prepare`,
`commit` and `abort` itself. An `async fn` is a `Lib.Async` over what its `&mut` arguments
borrow; awaiting `rt::yield_now` is its one way to be suspended. Sequence numbers and counts
are natural numbers, as in the in-memory journal.
-/

namespace Ironstate.Examples

open Lib (Async)

variable {A : AggregateRules} {E : Type}

/-! ## The log -/

/-- `struct Log`; its `struct Record` has the fields of the in-memory journal's. -/
structure Log (A : AggregateRules) where
  genesis : A.State
  streams : BTreeMap StreamId (List (Record A))
  snapshots : BTreeMap StreamId (List (Snapshot A))

namespace Log

/-- `Log::new`. -/
def new (genesis : A.State) : Log A := ⟨genesis, ∅, ∅⟩

/-- `Log::genesis_snapshot`. -/
def genesisSnapshot (log : Log A) : Snapshot A := ⟨log.genesis, 0, 0, 0⟩

/-- `Log::records`. -/
def records (log : Log A) (stream : StreamId) : List (Record A) := log.streams[stream]?.getD []

/-- `Log::record_at`. -/
def recordAt (log : Log A) (stream : StreamId) (seq : Nat) : Except JournalError (Record A) :=
  if unknown : seq = 0 ∨ seq > (log.records stream).length then .error (.unknownSeq seq)
  else .ok ((log.records stream).get ⟨seq - 1, by omega⟩)

/-- `Log::append`. -/
def append (log : Log A) (stream : StreamId) (events : List A.Event) (entropyPos : DrawPos) :
    Except JournalError Nat × Log A :=
  let records := log.streams[stream]?.getD [] ++ [⟨events, entropyPos⟩]
  (.ok records.length, { log with streams := log.streams.insert stream records })

/-- `Log::entropy_pos`. -/
def entropyPos (log : Log A) (stream : StreamId) (seq : Nat) : Except JournalError DrawPos :=
  if seq = 0 then
    .ok (((log.snapshots[stream]?.bind fun snapshots =>
      snapshots.find? fun snap => snap.atSeq == 0).map (·.entropyPos)).getD 0)
  else
    match log.recordAt stream seq with
    | .error error => .error error
    | .ok record => .ok record.entropyPos

/-- `Log::head`. -/
def head (log : Log A) (stream : StreamId) : Option Nat :=
  let records := log.records stream
  if records.isEmpty then none else some records.length

/-- `Log::events_since`. -/
def eventsSince (log : Log A) (stream : StreamId) (after : Option Nat) :
    Except JournalError (List (VersionedEvent A)) :=
  .ok ((((log.records stream).zipIdx.drop (after.getD 0)).flatMap fun numbered =>
      numbered.1.events.map fun event => (numbered.2 + 1, event)).map
    fun tagged => VersionedEvent.new tagged.2 tagged.1 A.eventTypeName 1)

/-- `Log::latest_snapshot`: `max_by_key` answers the last of several equally high ones. -/
def latestSnapshot (log : Log A) (stream : StreamId) :
    Except JournalError (Option (Snapshot A)) :=
  match log.snapshots[stream]? with
  | none => .ok (some log.genesisSnapshot)
  | some snapshots => .ok (Lib.newest (·.atSeq) snapshots)

/-- `Log::snapshot`: the list of a stream starts with its genesis. -/
def snapshot (log : Log A) (stream : StreamId) (snap : Snapshot A) :
    Except JournalError Unit × Log A :=
  let snapshots := log.snapshots[stream]?.getD [log.genesisSnapshot] ++ [snap]
  (.ok (), { log with snapshots := log.snapshots.insert stream snapshots })

/-- `Log::fork`. -/
def fork (log : Log A) (stream : StreamId) (seq : Nat) : Except JournalError (Log A) :=
  let records := log.records stream
  if seq > records.length then .error (.unknownSeq seq)
  else
    let forked := new log.genesis
    let forked := { forked with streams := forked.streams.insert stream (records.take seq) }
    match log.snapshots[stream]? with
    | none => .ok forked
    | some snapshots =>
      let kept := snapshots.filter fun snap => snap.atSeq ≤ seq
      .ok { forked with snapshots := forked.snapshots.insert stream kept }

end Log

/-! ## The synchronous twin -/

/-- `struct SyncStore`. -/
structure SyncStore (A : AggregateRules) where
  log : Log A

instance : Journal (SyncStore A) A Unit where
  appendIn store tx stream events entropyPos :=
    let (result, log) := store.log.append stream events entropyPos
    (result, ⟨log⟩, tx)
  snapshotIn store tx stream snap :=
    let (result, log) := store.log.snapshot stream snap
    (result, ⟨log⟩, tx)
  entropyPos store := store.log.entropyPos
  head store := store.log.head
  eventsSince store := store.log.eventsSince
  latestSnapshot store := store.log.latestSnapshot

instance : ForkableJournal (SyncStore A) A Unit where
  fork store stream seq := (store.log.fork stream seq).map SyncStore.mk

instance : ContractJournal (SyncStore A) A := ⟨fun genesis => ⟨.new genesis⟩⟩

/-! ## The asynchronous front end -/

/-- `struct AsyncStore`. -/
structure AsyncStore (A : AggregateRules) where
  log : Log A
  stream : StreamId
  failNextAppend : Bool

namespace AsyncStore

/-- `AsyncStore::connect`. -/
def connect (genesis : A.State) : AsyncStore A := ⟨.new genesis, "async-store", false⟩

/-- `AsyncStore::arm_append_failure`. -/
def armAppendFailure (store : AsyncStore A) : AsyncStore A :=
  { store with failNextAppend := true }

/-- `AsyncStore::head`. -/
def head : Async (AsyncStore A) (Option Nat) := do
  Async.yieldNow
  let store ← Async.get
  return store.log.head store.stream

/-- `AsyncStore::entropy_pos`. -/
def entropyPos (seq : Nat) : Async (AsyncStore A) (Except JournalError DrawPos) := do
  Async.yieldNow
  let store ← Async.get
  return store.log.entropyPos store.stream seq

/-- `AsyncStore::head_pos`. -/
def headPos : Async (AsyncStore A) (Except JournalError DrawPos) := do
  match ← head with
  | some seq => entropyPos seq
  | none => return .ok 0

/-- The write of `append`, once it is reached. -/
def write (events : List A.Event) (pos : DrawPos) (store : AsyncStore A) :
    Except JournalError Nat × AsyncStore A :=
  if store.failNextAppend then
    (.error (.storage "simulated write failure (the row was not committed)"),
      { store with failNextAppend := false })
  else
    let (result, log) := store.log.append store.stream events pos
    (result, { store with log := log })

/-- `AsyncStore::append`. -/
def append (events : List A.Event) (pos : DrawPos) :
    Async (AsyncStore A) (Except JournalError Nat) := do
  Async.yieldNow
  Async.access (write events pos)

/-- `AsyncStore::events_since`. -/
def eventsSince (after : Option Nat) :
    Async (AsyncStore A) (Except JournalError (List (VersionedEvent A))) := do
  Async.yieldNow
  let store ← Async.get
  return store.log.eventsSince store.stream after

/-- `AsyncStore::latest_snapshot`. -/
def latestSnapshot : Async (AsyncStore A) (Except JournalError (Option (Snapshot A))) := do
  Async.yieldNow
  let store ← Async.get
  return store.log.latestSnapshot store.stream

end AsyncStore

/-- What a call of `execute_async` borrows. -/
structure Call (A : AggregateRules) where
  store : AsyncStore A
  aggregate : Aggregate A
  ctx : A.Ctx

namespace Call

def putStore (call : Call A) (store : AsyncStore A) : Call A := { call with store := store }

def putCtx (call : Call A) (ctx : A.Ctx) : Call A := { call with ctx := ctx }

def putAggregate (call : Call A) (aggregate : Aggregate A) : Call A :=
  { call with aggregate := aggregate }

end Call

/-- An operation of the borrowed store. -/
def onStore {α : Type} (operation : Async (AsyncStore A) α) : Async (Call A) α :=
  operation.zoom Call.store Call.putStore

section Loop

variable [EntropySource E] [CtxEntropy A.Ctx E]

/-- `execute_async`. -/
def executeAsync (cmd : A.Command) : Async (Call A) (Except (ExecuteError A) Nat) := do
  match ← onStore AsyncStore.headPos with
  | .error error => return .error (.journal error)
  | .ok head =>
    let prepared ← Async.access fun call =>
      let (prepared, ctx) := prepare call.aggregate cmd call.ctx head
      (prepared, call.putCtx ctx)
    match prepared with
    | .error rejection => return .error (.rejected rejection)
    | .ok prepared =>
      match ← onStore (AsyncStore.append prepared.events prepared.draws) with
      | .ok seq =>
        Async.modify fun call => call.putAggregate (prepared.commit call.aggregate)
        return .ok seq
      | .error error =>
        Async.modify fun call => call.putCtx (prepared.abort call.ctx)
        return .error (.journal error)

end Loop

/-- `resume_async`. -/
def resumeAsync (chacha12 : Seed → UInt64 → UInt32) (seed : Seed) :
    Async (AsyncStore A) (Resumed A chacha12) := do
  match ← AsyncStore.latestSnapshot with
  | .error error => return .error (.journal error)
  | .ok none => return .error .noBase
  | .ok (some snapshot) =>
    match ← AsyncStore.eventsSince (some snapshot.atSeq) with
    | .error error => return .error (.journal error)
    | .ok events =>
      match replay snapshot events with
      | .error error => return .error (.restore error)
      | .ok aggregate =>
        match ← AsyncStore.head with
        | none => return .ok (aggregate, .at seed snapshot.entropyPos)
        | some head =>
          match ← AsyncStore.entropyPos head with
          | .error error => return .error (.journal error)
          | .ok pos => return .ok (aggregate, .at seed pos)

/-- `ctx_at_head`, of a context made of a stream. -/
def ctxAtHead {chacha12 : Seed → UInt64 → UInt32} (make : SeededEntropy chacha12 → A.Ctx)
    (seed : Seed) : Async (AsyncStore A) (Except JournalError A.Ctx) := do
  match ← AsyncStore.headPos with
  | .error error => return .error error
  | .ok pos => return .ok (make (.at seed pos))

end Ironstate.Examples
