import Ironstate.Aggregate.Testkit
import Ironstate.Journal.Replay
import Ironstate.Lib.Checked

/-!
# The journal conformance suite

`contract.rs`, the functions behind `journal_contract_test!`. A panic is an error that carries
what its message names: an `expect`, or the property that does not hold. A strategy is sampled
from a test runner of any type, and a digest is of any type with equality.
-/

namespace Ironstate

open StateMachine (isTerminal)

variable {A : AggregateRules} {J Tx R E D : Type}

/-- `trait ContractJournal`. -/
class ContractJournal (J : Type) (A : outParam AggregateRules) where
  /-- A fresh, empty journal seeded with the aggregate's genesis state. -/
  fresh : A.State → J

/-- The panics of the suite. -/
inductive ContractFailure where
  | expect (message : String)
  | overflow
  | unreachable (message : String)
  | violated (property : String) (message : String) (case : UInt32)
  deriving DecidableEq

/-- `struct FailNextAppend`: fails the next append. -/
structure FailNextAppend (J : Type) where
  inner : J
  armed : Bool

namespace FailNextAppend

instance [Journal J A Tx] : Journal (FailNextAppend J) A Tx where
  appendIn journal tx stream events pos :=
    if journal.armed then
      (.error (.storage "injected append failure"), { journal with armed := false }, tx)
    else
      let (result, inner, tx) := Journal.appendIn journal.inner tx stream events pos
      (result, { journal with inner := inner }, tx)
  snapshotIn journal tx stream snapshot :=
    let (result, inner, tx) := Journal.snapshotIn journal.inner tx stream snapshot
    (result, { journal with inner := inner }, tx)
  entropyPos journal := Journal.entropyPos journal.inner
  head journal := Journal.head journal.inner
  eventsSince journal := Journal.eventsSince journal.inner
  latestSnapshot journal := Journal.latestSnapshot journal.inner

instance [ForkableJournal J A Tx] : ForkableJournal (FailNextAppend J) A Tx where
  fork journal stream seq :=
    (ForkableJournal.fork journal.inner stream seq).map fun inner => ⟨inner, journal.armed⟩

end FailNextAppend

namespace Contract

/-- `test_stream`. -/
def testStream : StreamId := "contract"

/-- `other_stream`: never touched by appends to `testStream`. -/
def otherStream : StreamId := "contract-other"

/-- `genesis_snapshot`. -/
def genesisSnapshot (state : A.State) : Snapshot A := ⟨state, 0, 0, 0⟩

/-- `Result::expect`. -/
def expect {α ε : Type} (message : String) : Except ε α → Except ContractFailure α
  | .ok a => .ok a
  | .error _ => .error (.expect message)

/-- `sample`. -/
def sample {α : Type} : Option (α × R) → Except ContractFailure (α × R)
  | some drawn => .ok drawn
  | none => .error (.expect "strategy")

/-- `Aggregate::new(genesis).expect(..)`. -/
def newAggregate (message : String) (genesis : A.State) :
    Except ContractFailure (Aggregate A) :=
  expect message (Aggregate.new genesis)

/-- `assert!` and `assert_eq!` of a property. -/
def check (property message : String) (case : UInt32) (holds : Bool) :
    Except ContractFailure Unit :=
  if holds then .ok () else .error (.violated property message case)

/-- An addition of `u64`. -/
def addU64 (a b : Nat) : Except ContractFailure Nat :=
  match Lib.Checked.add 64 a b with
  | .ok sum => .ok sum
  | .error _ => .error .overflow

/-- The `Seq` in the middle of a stream: `Seq(head.0.div_ceil(2).max(1))`. -/
def midpoint (head : Nat) : Nat := max ((head + 1) / 2) 1

/-! ## Driving a journal -/

section Reads

variable [Journal J A Tx]

/-- `head_pos`. -/
def headPos (journal : J) (stream : StreamId) : Except ContractFailure DrawPos :=
  match Journal.head journal stream with
  | none => .ok 0
  | some head => expect "position at head" (Journal.entropyPos journal stream head)

/-- One position of a loop: it is defined and not below the one before it. -/
def checkPosition (property place : String) (journal : J) (stream : StreamId) (case : UInt32)
    (previous : DrawPos) (seq : Nat) : Except ContractFailure DrawPos :=
  match Journal.entropyPos journal stream seq with
  | .error _ => .error (.violated property s!"entropy_pos undefined at {place}({seq})" case)
  | .ok pos => do
    check property s!"entropy_pos decreased at Seq({seq})" case (previous ≤ pos)
    .ok pos

/-- A loop over positions. -/
def checkPositions (property place : String) (journal : J) (stream : StreamId) (case : UInt32)
    (seqs : List Nat) : Except ContractFailure DrawPos :=
  seqs.foldlM (checkPosition property place journal stream case) 0

end Reads

section Suite

variable [EntropySource E] [CtxEntropy A.Ctx E] {chacha12 : Seed → UInt64 → UInt32}
variable [DecidableEq D] (arbitrary : AggregateArbitrary A R chacha12) (digest128 : A.State → D)
variable (seed : Seed)

section Drive

variable [Journal J A Unit]

/-- The loop of `drive`, with the number of the next step and how many are left: the journal,
the live aggregate and the digest after each append. -/
def driveLoop : Nat → Nat → J → Aggregate A → R →
    Except ContractFailure (J × Aggregate A × List (Nat × D) × R)
  | 0, _, journal, aggregate, runner => .ok (journal, aggregate, [], runner)
  | left + 1, step, journal, aggregate, runner =>
    if isTerminal aggregate.phase then .ok (journal, aggregate, [], runner)
    else do
      let (cmd, runner) ← sample (arbitrary.commandStrategy aggregate.state runner)
      let pos ← headPos journal testStream
      let ctx := arbitrary.testCtx (.at seed pos) (.ofNat step)
      let executed := execute journal testStream aggregate cmd ctx
      let (journal, live, steps, runner) ←
        driveLoop left (step + 1) executed.journal executed.aggregate runner
      match executed.result with
      | .ok seq => .ok (journal, live, (seq, digest128 executed.aggregate.state) :: steps, runner)
      | .error _ => .ok (journal, live, steps, runner)

/-- `drive`. -/
def drive [ContractJournal J A] (genesis : A.State) (runner : R) (maxSteps : Nat) :
    Except ContractFailure (J × Aggregate A × List (Nat × D) × R) := do
  let aggregate ← newAggregate "a sampled initial state is in its initial phase" genesis
  driveLoop arbitrary digest128 seed maxSteps 0 (ContractJournal.fresh genesis) aggregate runner

/-! ## The properties -/

/-- `property_1_round_trip`. -/
def property1RoundTrip (journal : J) (stream : StreamId) (genesis : A.State)
    (steps : List (Nat × D)) (case : UInt32) : Except ContractFailure Unit :=
  match steps.getLast? with
  | none => .ok ()
  | some (_, liveDigest) => do
    let events ← expect "events" (Journal.eventsSince journal stream none)
    let rebuilt ← expect "replay" (replay (genesisSnapshot genesis) events)
    check "1" "replay of the whole log did not reproduce the live digest" case
      (digest128 rebuilt.state = liveDigest)

/-- `property_2_positions_total_and_monotonic`. -/
def property2Positions (journal : J) (stream : StreamId) (case : UInt32) :
    Except ContractFailure Unit :=
  match Journal.head journal stream with
  | none => .ok ()
  | some head => do
    let _ ← checkPositions "2" "Seq" journal stream case (List.range' 1 head)
    .ok ()

/-- `property_3_resume_identity`. -/
def property3ResumeIdentity (journal : J) (stream : StreamId) (live : Aggregate A) (runner : R)
    (case : UInt32) : Except ContractFailure R :=
  match Journal.head journal stream with
  | none => .ok runner
  | some _ => do
    let pos ← headPos journal stream
    let (cmd, runner) ← sample (arbitrary.commandStrategy live.state runner)
    let (resumed, _) ← expect "resume" (resume journal stream seed : Resumed A chacha12)
    let (_, resumed, _) := resumed.handle cmd (arbitrary.testCtx (.at seed pos) 0)
    let (_, live, _) := live.handle cmd (arbitrary.testCtx (.at seed pos) 0)
    check "3" "resume-to-head then handle diverged from the live handle" case
      (digest128 resumed.state = digest128 live.state)
    .ok runner

/-- `property_5_snapshot_vs_head`. -/
def property5SnapshotVsHead (chacha12 : Seed → UInt64 → UInt32) (journal : J) (stream : StreamId)
    (seed : Seed) (case : UInt32) : Except ContractFailure Unit :=
  match Journal.head journal stream with
  | none => .ok ()
  | some _ => do
    let pos ← headPos journal stream
    let (_, e) ← expect "resume" (resume journal stream seed : Resumed A chacha12)
    check "5" "resume must position entropy at the head, not an earlier snapshot" case
      (draws e = pos)

/-- The loop of `property_6_failed_append_atomicity`: up to eight commands, until one reaches
the append. -/
def property6Loop (before : D) (case : UInt32) : Nat → FailNextAppend J → Aggregate A → R →
    Except ContractFailure R
  | 0, _, _, runner => .ok runner
  | left + 1, journal, aggregate, runner =>
    if isTerminal aggregate.phase then .ok runner
    else do
      let (cmd, runner) ← sample (arbitrary.commandStrategy aggregate.state runner)
      let executed :=
        execute journal testStream aggregate cmd (arbitrary.testCtx (.at seed 0) 0)
      match executed.result with
      | .error (.journal _) => do
        check "6" "a failed append journaled something" case
          ((Journal.head executed.journal testStream).isNone)
        check "6" "a failed append mutated the state" case
          (digest128 executed.aggregate.state = before)
        check "6" "a failed append left the entropy advanced" case
          ((ctxDraws executed.ctx).getD 0 = 0)
        .ok runner
      | .error (.rejected _) =>
        property6Loop before case left executed.journal executed.aggregate runner
      | .ok _ => .error (.unreachable "FailNextAppend was armed")

/-- `property_6_failed_append_atomicity`. -/
def property6FailedAppend (J : Type) [Journal J A Unit] [ContractJournal J A] (runner : R)
    (case : UInt32) : Except ContractFailure R := do
  let (genesis, runner) ← sample (arbitrary.initialStateStrategy runner)
  let journal : FailNextAppend J := ⟨ContractJournal.fresh genesis, true⟩
  let aggregate ← newAggregate "initial" genesis
  property6Loop arbitrary digest128 seed (digest128 aggregate.state) case 8 journal aggregate
    runner

/-- `property_7_version_tagging`. -/
def property7VersionTagging (journal : J) (stream : StreamId) (case : UInt32) :
    Except ContractFailure Unit := do
  let events ← expect "events" (Journal.eventsSince journal stream none)
  events.forM fun stored => do
    check "7" "a record is missing its type name" case (!stored.typeName.isEmpty)
    check "7" "a record is missing its version" case (1 ≤ stored.version)

/-- The loop of `property_8_stream_independence`: after each command the untouched stream has
the head it had before. -/
def property8Loop (beforeHead : Option Nat) (case : UInt32) : Nat → Nat → J → Aggregate A → R →
    Except ContractFailure (J × R)
  | 0, _, journal, _, runner => .ok (journal, runner)
  | left + 1, step, journal, aggregate, runner =>
    if isTerminal aggregate.phase then .ok (journal, runner)
    else do
      let (cmd, runner) ← sample (arbitrary.commandStrategy aggregate.state runner)
      let pos ← headPos journal testStream
      let ctx := arbitrary.testCtx (.at seed pos) (.ofNat step)
      let executed := execute journal testStream aggregate cmd ctx
      check "8" "an append to one stream moved another's head" case
        (Journal.head executed.journal otherStream = beforeHead)
      property8Loop beforeHead case left (step + 1) executed.journal executed.aggregate runner

/-- What property 8 compares of a snapshot: `(s.at, s.entropy_pos)`. -/
def snapshotKey (snap : Snapshot A) : Nat × DrawPos := (snap.atSeq, snap.entropyPos)

/-- `property_8_stream_independence`. -/
def property8StreamIndependence (J : Type) [Journal J A Unit] [ContractJournal J A]
    (genesis : A.State) (runner : R) (maxSteps : Nat) (case : UInt32) :
    Except ContractFailure R := do
  let journal : J := ContractJournal.fresh genesis
  let aggregate ← newAggregate "a sampled initial state is in its initial phase" genesis
  let beforeHead := Journal.head journal otherStream
  let beforeEvents ← expect "events" (Journal.eventsSince journal otherStream none)
  let beforeSnapshot ← expect "snapshot" (Journal.latestSnapshot journal otherStream)
  let (journal, runner) ←
    property8Loop arbitrary seed beforeHead case maxSteps 0 journal aggregate runner
  let events ← expect "events" (Journal.eventsSince journal otherStream none)
  check "8" "an append to one stream added events to another" case
    (events.length = beforeEvents.length)
  let pos ← expect "genesis position" (Journal.entropyPos journal otherStream 0)
  check "8" "an append to one stream moved another's entropy" case (pos = 0)
  let snapshot ← expect "snapshot" (Journal.latestSnapshot journal otherStream)
  check "8" "an append to one stream moved another's snapshot" case
    (snapshot.map snapshotKey = beforeSnapshot.map snapshotKey)
  .ok runner

/-- `property_9_out_of_range_seq`. -/
def property9OutOfRange (journal : J) (stream : StreamId) (case : UInt32) :
    Except ContractFailure Unit := do
  let head := (Journal.head journal stream).getD 0
  let next ← addU64 head 1
  let second ← addU64 head 2
  let wide ← addU64 (2 ^ 32 - 1) head
  let wide ← addU64 wide 1
  [next, second, wide, 2 ^ 64 - 1].forM fun probe =>
    match Journal.entropyPos journal stream probe with
    | .error (.unknownSeq seq) =>
      check "9" "UnknownSeq reported the wrong Seq" case (seq = probe)
    | .error _ =>
      .error (.violated "9" s!"out-of-range Seq({probe}) gave another error" case)
    | .ok _ => .error (.violated "9" s!"out-of-range Seq({probe}) returned a position" case)

end Drive

/-! ## The properties that need branching -/

section Forkable

variable [ForkableJournal J A Unit]

/-- `property_1_round_trip_at_each_step`. -/
def property1RoundTripAtEachStep (journal : J) (stream : StreamId) (genesis : A.State)
    (steps : List (Nat × D)) (case : UInt32) : Except ContractFailure Unit :=
  steps.forM fun (seq, liveDigest) => do
    let branch ← expect "fork at a recorded Seq" (ForkableJournal.fork journal stream seq)
    let events ← expect "events" (Journal.eventsSince branch stream none)
    let rebuilt ← expect "replay" (replay (genesisSnapshot genesis) events)
    check "1b" s!"replay did not reproduce the live digest at Seq({seq})" case
      (digest128 rebuilt.state = liveDigest)

/-- `property_4_fork_position_equality`. -/
def property4ForkPosition (journal : J) (stream : StreamId) (case : UInt32) :
    Except ContractFailure Unit :=
  match Journal.head journal stream with
  | none => .ok ()
  | some head => do
    let seq := midpoint head
    let branch ← expect "fork" (ForkableJournal.fork journal stream seq)
    let branchPos ← expect "branch position" (Journal.entropyPos branch stream seq)
    let mainPos ← expect "main position" (Journal.entropyPos journal stream seq)
    check "4" "entropy_pos disagreed at the fork point" case (branchPos = mainPos)
    check "4" "a fork's head should sit at the fork point" case
      (Journal.head branch stream = some seq)

end Forkable

/-! ## The property of retention -/

section Retainable

variable [RetainableJournal J A Unit]

/-- A position below the horizon is out of range. -/
def checkGone (journal : J) (stream : StreamId) (case : UInt32) (gone : Nat) :
    Except ContractFailure Unit :=
  check "10" s!"truncated Seq({gone}) must be UnknownSeq" case
    (match Journal.entropyPos journal stream gone with
    | .error (.unknownSeq _) => true
    | _ => false)

/-- `property_10_truncation_preserves_resume`. -/
def property10Truncation (chacha12 : Seed → UInt64 → UInt32) (digest128 : A.State → D)
    (journal : J) (stream : StreamId) (seed : Seed) (case : UInt32) :
    Except ContractFailure Unit :=
  match Journal.head journal stream with
  | none => .ok ()
  | some head =>
    match (resume journal stream seed : Resumed A chacha12) with
    | .error _ => .ok ()
    | .ok (before, entropyBefore) => do
      let snapshot : Snapshot A := ⟨before.state, 0, head, draws entropyBefore⟩
      let (stored, journal, _) := Journal.snapshotIn journal () stream snapshot
      expect "snapshot" stored
      let seq := midpoint head
      let (truncated, journal) := RetainableJournal.truncateBefore journal stream seq
      expect "truncating below a snapshot taken at the head must be allowed" truncated
      let horizon := RetainableJournal.retainedFrom journal stream
      let _ ← checkPositions "10" "retained Seq" journal stream case
        (List.range' horizon (head + 1 - horizon))
      (List.range' 1 (horizon - 1)).forM (checkGone journal stream case)
      let (after, entropyAfter) ←
        expect "resume after" (resume journal stream seed : Resumed A chacha12)
      check "10" "truncation changed what the stream resumes to" case
        (digest128 after.state = digest128 before.state)
      check "10" "truncation moved the resume entropy position" case
        (draws entropyAfter = draws entropyBefore)
      check "10" "retained_from must report the new horizon" case
        (RetainableJournal.retainedFrom journal stream = seq)

end Retainable

/-! ## The three suites -/

section Run

variable (seededRunner : UInt64 → R) (maxSteps : Nat) (seedBase : UInt64)

/-- A loop over the cases, with the number of the next case and how many are left. -/
def forCases (body : UInt32 → R → Except ContractFailure R) :
    Nat → UInt32 → R → Except ContractFailure Unit
  | 0, _, _ => .ok ()
  | left + 1, case, runner => do
    let runner ← body case runner
    forCases body left (case + 1) runner

/-- The eight properties that every journal must satisfy, on one case: what `run_contract` and
`run_contract_forkable` share. -/
def contractCase [Journal J A Unit] [ContractJournal J A] (case : UInt32) (genesis : A.State)
    (runner : R) : Except ContractFailure (J × List (Nat × D) × R) := do
  let seed := runSeed seedBase case
  let (journal, live, steps, runner) ←
    drive (J := J) arbitrary digest128 seed genesis runner maxSteps
  property2Positions journal testStream case
  property1RoundTrip digest128 journal testStream genesis steps case
  property7VersionTagging journal testStream case
  let runner ← property3ResumeIdentity arbitrary digest128 seed journal testStream live runner case
  property5SnapshotVsHead chacha12 journal testStream seed case
  property9OutOfRange journal testStream case
  let runner ← property6FailedAppend arbitrary digest128 seed J runner case
  let runner ← property8StreamIndependence arbitrary seed J genesis runner maxSteps case
  .ok (journal, steps, runner)

/-- `run_contract`. -/
def runContract (J : Type) [Journal J A Unit] [ContractJournal J A] (cases : UInt32) :
    Except ContractFailure Unit :=
  forCases (fun case runner => do
    let (genesis, runner) ← sample (arbitrary.initialStateStrategy runner)
    let (_, _, runner) ←
      contractCase (J := J) arbitrary digest128 maxSteps seedBase case genesis runner
    .ok runner) cases.toNat 0 (seededRunner seedBase)

/-- `run_contract_forkable`. -/
def runContractForkable (J : Type) [ForkableJournal J A Unit] [ContractJournal J A]
    (cases : UInt32) : Except ContractFailure Unit :=
  forCases (fun case runner => do
    let (genesis, runner) ← sample (arbitrary.initialStateStrategy runner)
    let (journal, steps, runner) ←
      contractCase (J := J) arbitrary digest128 maxSteps seedBase case genesis runner
    property1RoundTripAtEachStep digest128 journal testStream genesis steps case
    property4ForkPosition journal testStream case
    .ok runner) cases.toNat 0 (seededRunner seedBase)

/-- `run_contract_retainable`. -/
def runContractRetainable (J : Type) [RetainableJournal J A Unit] [ContractJournal J A]
    (cases : UInt32) : Except ContractFailure Unit :=
  forCases (fun case runner => do
    let (genesis, runner) ← sample (arbitrary.initialStateStrategy runner)
    let seed := runSeed seedBase case
    let (journal, _, _, runner) ←
      drive (J := J) arbitrary digest128 seed genesis runner maxSteps
    property10Truncation chacha12 digest128 journal testStream seed case
    .ok runner) cases.toNat 0 (seededRunner seedBase)

end Run

end Suite

end Contract

end Ironstate
