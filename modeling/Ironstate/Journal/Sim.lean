import Ironstate.Journal.Memory
import Ironstate.Journal.Replay

/-!
# Fault injection and the scenario drivers

`sim.rs`. A driver answers `none` where the source panics: at an `expect` that fails, or at
the assertion that a fork reproduces the live state. `test_ctx` and `digest128` belong to the
aggregate under test and are parameters, as is the sampling of a command. The commands a
reference run sampled can be given back to it: `faultFree` is the loop of `record` over a
given list.
-/

namespace Ironstate

variable {A : AggregateRules} {J Tx E : Type}

/-- `enum Fault`. -/
inductive Fault where
  | appendFailure
  | duplicateDelivery (ofSeq : Nat)
  | reorderDelivery (window : UInt32)
  | crashResume (atSeq : Nat)
  | forkContinue (atSeq : Nat)
  | plantOldVersion (version : UInt32)
  deriving DecidableEq

/-- `struct FaultSchedule`. -/
structure FaultSchedule where
  perStep : List (Option Fault)

/-- `FaultSchedule::at`. -/
def FaultSchedule.«at» (schedule : FaultSchedule) (step : Nat) : Option Fault :=
  schedule.perStep[step]?.join

/-- `struct FaultInjector`. -/
structure FaultInjector (J : Type) where
  inner : J
  failNextAppend : Bool

namespace FaultInjector

/-- `FaultInjector::new`. -/
def new (inner : J) : FaultInjector J := ⟨inner, false⟩

/-- `FaultInjector::arm_append_failure`. -/
def armAppendFailure (journal : FaultInjector J) : FaultInjector J :=
  { journal with failNextAppend := true }

/-- `FaultInjector::disarm`. -/
def disarm (journal : FaultInjector J) : FaultInjector J :=
  { journal with failNextAppend := false }

/-- Whether the next append fails, set either way. -/
def arm (journal : FaultInjector J) (fails : Bool) : FaultInjector J :=
  if fails then journal.armAppendFailure else journal.disarm

/-- An armed injector fails one append and forwards everything else. -/
instance [Journal J A Tx] : Journal (FaultInjector J) A Tx where
  appendIn journal tx stream events pos :=
    if journal.failNextAppend then (.error (.storage "injected append failure"), journal.disarm, tx)
    else
      let (result, inner, tx) := Journal.appendIn journal.inner tx stream events pos
      (result, { journal with inner := inner }, tx)
  snapshotIn journal tx stream snapshot :=
    let (result, inner, tx) := Journal.snapshotIn journal.inner tx stream snapshot
    (result, { journal with inner := inner }, tx)
  entropyPos journal := Journal.entropyPos journal.inner
  head journal := Journal.head journal.inner
  eventsSince journal := Journal.eventsSince journal.inner
  latestSnapshot journal := Journal.latestSnapshot journal.inner

instance [ForkableJournal J A Tx] : ForkableJournal (FaultInjector J) A Tx where
  fork journal stream seq := (ForkableJournal.fork journal.inner stream seq).map .new

section Reads

variable [Journal J A Tx] (journal : FaultInjector J) (stream : StreamId)

@[simp] theorem head_eq : Journal.head journal stream = Journal.head journal.inner stream := rfl

@[simp] theorem entropyPos_eq (seq : Nat) :
    Journal.entropyPos journal stream seq = Journal.entropyPos journal.inner stream seq := rfl

@[simp] theorem headPos_eq : headPos journal stream = headPos journal.inner stream := rfl

@[simp] theorem resume_eq {chacha12 : Seed → UInt64 → UInt32} (seed : Seed) :
    (resume journal stream seed : Resumed A chacha12) = resume journal.inner stream seed := rfl

end Reads

@[simp] theorem arm_true (journal : FaultInjector J) : journal.arm true = ⟨journal.inner, true⟩ :=
  rfl

@[simp] theorem arm_false (journal : FaultInjector J) :
    journal.arm false = ⟨journal.inner, false⟩ := rfl

@[simp] theorem inner_arm (journal : FaultInjector J) (fails : Bool) :
    (journal.arm fails).inner = journal.inner := by
  cases fails with
  | true => rfl
  | false => rfl

/-- What an append through the injector does: the armed failure, or the inner append. -/
theorem appendIn_armed [Journal J A Tx] (inner : J) (tx : Tx) (stream : StreamId)
    (events : List A.Event) (pos : DrawPos) :
    Journal.appendIn (FaultInjector.mk inner true) tx stream events pos =
      (.error (.storage "injected append failure"), ⟨inner, false⟩, tx) := rfl

theorem appendIn_unarmed [Journal J A Tx] (inner : J) (tx : Tx) (stream : StreamId)
    (events : List A.Event) (pos : DrawPos) :
    Journal.appendIn (FaultInjector.mk inner false) tx stream events pos =
      ((Journal.appendIn inner tx stream events pos).1,
        ⟨(Journal.appendIn inner tx stream events pos).2.1, false⟩,
        (Journal.appendIn inner tx stream events pos).2.2) := rfl

/-- An injected failure is not seen by any read. -/
instance [Journal J A Tx] [AtomicAppend J] : AtomicAppend (FaultInjector J) where
  appendIn_error := by
    rintro ⟨inner, armed⟩ tx stream events pos error failed
    cases armed with
    | true => exact ⟨fun _ => rfl, fun _ _ => rfl, fun _ _ => rfl, fun _ => rfl⟩
    | false =>
      have same := AtomicAppend.appendIn_error inner tx stream events pos error failed
      exact ⟨same.head, same.entropyPos, same.eventsSince, same.latestSnapshot⟩

end FaultInjector

/-- The stream every scenario runs on. -/
def scenarioStream : StreamId := "scenario"

section Scenario

variable [EntropySource E] [CtxEntropy A.Ctx E] {chacha12 : Seed → UInt64 → UInt32}
variable {R D : Type} [DecidableEq D]
variable (testCtx : SeededEntropy chacha12 → Nat → A.Ctx) (seed : Seed)

/-- `exec_step`: one command in a context positioned at the head. -/
def execStep [Journal J A Unit] (journal : J) (stream : StreamId) (aggregate : Aggregate A)
    (cmd : A.Command) : Option (Executed A J) :=
  match Journal.head journal stream with
  | none => some (execute journal stream aggregate cmd (testCtx (.at seed 0) 0))
  | some head =>
    match Journal.entropyPos journal stream head with
    | .error _ => none
    | .ok pos => some (execute journal stream aggregate cmd (testCtx (.at seed pos) 0))

/-- The loop of `ReferenceRun::record`: the commands it drove and the aggregate it ended in. -/
def recordLoop (sample : A.State → R → A.Command × R) :
    Nat → MemoryJournal A → Aggregate A → R → Option (List A.Command × Aggregate A)
  | 0, _, aggregate, _ => some ([], aggregate)
  | maxSteps + 1, journal, aggregate, runner =>
    if StateMachine.isTerminal aggregate.phase then some ([], aggregate)
    else do
      let (cmd, runner) := sample aggregate.state runner
      let executed ← execStep testCtx seed journal scenarioStream aggregate cmd
      let (commands, final) ←
        recordLoop sample maxSteps executed.journal executed.aggregate runner
      some (cmd :: commands, final)

/-- `struct ReferenceRun`. -/
structure ReferenceRun (A : AggregateRules) (D : Type) where
  commands : List A.Command
  finalDigest : D

/-- `ReferenceRun::record`. -/
def ReferenceRun.record (digest128 : A.State → D) (sample : A.State → R → A.Command × R)
    (genesis : A.State) (runner : R) (maxSteps : Nat) : Option (ReferenceRun A D) :=
  match Aggregate.new genesis with
  | .error _ => none
  | .ok aggregate => do
    let (commands, final) ←
      recordLoop testCtx seed sample maxSteps (.new genesis) aggregate runner
    some ⟨commands, digest128 final.state⟩

/-- The loop of `record` over commands already sampled. -/
def faultFree : List A.Command → MemoryJournal A → Aggregate A → Option (Aggregate A)
  | [], _, aggregate => some aggregate
  | cmd :: commands, journal, aggregate =>
    if StateMachine.isTerminal aggregate.phase then some aggregate
    else do
      let executed ← execStep testCtx seed journal scenarioStream aggregate cmd
      faultFree commands executed.journal executed.aggregate

/-- The body of the loop of `run_faulted`, under the fault scheduled for the step. -/
def faultedStep (digest128 : A.State → D) (fault : Option Fault) (cmd : A.Command)
    (journal : FaultInjector (MemoryJournal A)) (aggregate : Aggregate A) :
    Option (FaultInjector (MemoryJournal A) × Aggregate A) :=
  match fault with
  | some .appendFailure => do
    let executed ← execStep testCtx seed journal.armAppendFailure scenarioStream aggregate cmd
    match executed.result with
    | .error (.journal _) =>
      let retried ←
        execStep testCtx seed executed.journal scenarioStream executed.aggregate cmd
      some (retried.journal, retried.aggregate)
    | _ => some (executed.journal.disarm, executed.aggregate)
  | some (.crashResume _) => do
    let executed ← execStep testCtx seed journal scenarioStream aggregate cmd
    match (resume executed.journal scenarioStream seed : Resumed A chacha12) with
    | .error _ => none
    | .ok (resumed, _) => some (executed.journal, resumed)
  | some (.forkContinue _) => do
    let executed ← execStep testCtx seed journal scenarioStream aggregate cmd
    match Journal.head executed.journal scenarioStream with
    | none => some (executed.journal, executed.aggregate)
    | some head =>
      match ForkableJournal.fork executed.journal scenarioStream head with
      | .error _ => none
      | .ok branch =>
        match (resume branch scenarioStream seed : Resumed A chacha12) with
        | .error _ => none
        | .ok (forked, _) =>
          if digest128 forked.state = digest128 executed.aggregate.state then
            some (executed.journal, executed.aggregate)
          else none
  | _ => do
    let executed ← execStep testCtx seed journal scenarioStream aggregate cmd
    some (executed.journal, executed.aggregate)

/-- The loop of `run_faulted`, from step `step` on. -/
def faultedLoop (digest128 : A.State → D) (schedule : FaultSchedule) :
    Nat → List A.Command → FaultInjector (MemoryJournal A) → Aggregate A → Option (Aggregate A)
  | _, [], _, aggregate => some aggregate
  | step, cmd :: commands, journal, aggregate =>
    if StateMachine.isTerminal aggregate.phase then some aggregate
    else do
      let (journal, aggregate) ←
        faultedStep testCtx seed digest128 (schedule.at step) cmd journal aggregate
      faultedLoop digest128 schedule (step + 1) commands journal aggregate

/-- `run_faulted`. -/
def runFaulted (digest128 : A.State → D) (genesis : A.State) (commands : List A.Command)
    (schedule : FaultSchedule) : Option D :=
  match Aggregate.new genesis with
  | .error _ => none
  | .ok aggregate => do
    let final ← faultedLoop testCtx seed digest128 schedule 0 commands
      (.new (.new genesis)) aggregate
    some (digest128 final.state)

/-- A context is built at the recorded position of the head. -/
theorem execStep_of_headPos [Journal J A Unit] {journal : J} {stream : StreamId} {pos : DrawPos}
    (head : headPos journal stream = .ok pos) (aggregate : Aggregate A) (cmd : A.Command) :
    execStep testCtx seed journal stream aggregate cmd =
      some (execute journal stream aggregate cmd (testCtx (.at seed pos) 0)) := by
  unfold headPos at head
  unfold execStep
  cases headed : Journal.head journal stream with
  | none =>
    simp only [headed] at head
    obtain rfl := Except.ok.inj head
    rfl
  | some seq =>
    simp only [headed] at head
    simp only [head]

/-- An unarmed injector adds nothing to `execute`. -/
theorem execute_unarmed [Journal J A Unit] (inner : J) (stream : StreamId)
    (aggregate : Aggregate A) (cmd : A.Command) (ctx : A.Ctx) :
    execute (FaultInjector.mk inner false) stream aggregate cmd ctx =
      ⟨(execute inner stream aggregate cmd ctx).result,
        ⟨(execute inner stream aggregate cmd ctx).journal, false⟩,
        (execute inner stream aggregate cmd ctx).aggregate,
        (execute inner stream aggregate cmd ctx).ctx⟩ := by
  unfold execute executeIn
  rw [FaultInjector.headPos_eq]
  cases headPos inner stream with
  | error error => rfl
  | ok pos =>
    simp only [prepare]
    rcases aggregate.decideOnly cmd ctx with ⟨rejection | events, drawn⟩
    · rfl
    · simp only [FaultInjector.appendIn_unarmed]
      rcases Journal.appendIn inner () stream events ((ctxDraws drawn).getD pos) with
        ⟨error | seq, inner', _⟩
      · rfl
      · rfl

/-- An armed injector fails the append, or stays armed when the command never reaches it. -/
theorem execute_armed [Journal J A Unit] {inner : J} {stream : StreamId} {pos : DrawPos}
    (head : headPos inner stream = .ok pos) (aggregate : Aggregate A) (cmd : A.Command)
    (ctx : A.Ctx) :
    (∃ rejection drawn, aggregate.decideOnly cmd ctx = (.error rejection, drawn) ∧
      execute (FaultInjector.mk inner true) stream aggregate cmd ctx =
        ⟨.error (.rejected rejection), ⟨inner, true⟩, aggregate, rewind drawn pos⟩) ∨
    ∃ events drawn, aggregate.decideOnly cmd ctx = (.ok events, drawn) ∧
      execute (FaultInjector.mk inner true) stream aggregate cmd ctx =
        ⟨.error (.journal (.storage "injected append failure")), ⟨inner, false⟩, aggregate,
          rewind drawn pos⟩ := by
  have spec := execute_spec (FaultInjector.mk inner true) stream aggregate cmd ctx
  generalize execute (FaultInjector.mk inner true) stream aggregate cmd ctx = outcome at spec ⊢
  cases spec with
  | headFailed failed =>
    rw [FaultInjector.headPos_eq, head] at failed
    cases failed
  | rejected head' decided =>
    obtain rfl := Except.ok.inj (head.symm.trans head')
    exact .inl ⟨_, _, decided, rfl⟩
  | appendFailed head' decided failed =>
    obtain rfl := Except.ok.inj (head.symm.trans head')
    rw [FaultInjector.appendIn_armed] at failed
    cases failed
    exact .inr ⟨_, _, decided, rfl⟩
  | appended head' decided made =>
    rw [FaultInjector.appendIn_armed] at made
    cases made

/-- An unarmed injector adds nothing to `exec_step`. -/
theorem execStep_unarmed [Journal J A Unit] (inner : J) (stream : StreamId)
    (aggregate : Aggregate A) (cmd : A.Command) :
    execStep testCtx seed (FaultInjector.mk inner false) stream aggregate cmd =
      (execStep testCtx seed inner stream aggregate cmd).map fun executed =>
        ⟨executed.result, ⟨executed.journal, false⟩, executed.aggregate, executed.ctx⟩ := by
  unfold execStep
  simp only [FaultInjector.head_eq, FaultInjector.entropyPos_eq, execute_unarmed]
  cases Journal.head inner stream with
  | none => rfl
  | some head =>
    simp only
    cases Journal.entropyPos inner stream head with
    | error error => rfl
    | ok pos => rfl

/-- The loop of `record` is the fault-free loop over the commands it sampled. -/
theorem recordLoop_faultFree (sample : A.State → R → A.Command × R) (maxSteps : Nat)
    (journal : MemoryJournal A) (aggregate : Aggregate A) (runner : R)
    {commands : List A.Command} {final : Aggregate A}
    (recorded : recordLoop testCtx seed sample maxSteps journal aggregate runner =
      some (commands, final)) :
    faultFree testCtx seed commands journal aggregate = some final := by
  induction maxSteps generalizing journal aggregate runner commands with
  | zero =>
    obtain ⟨rfl, rfl⟩ := Prod.mk.inj (Option.some.inj recorded)
    rfl
  | succ maxSteps ih =>
    rw [recordLoop] at recorded
    by_cases terminal : StateMachine.isTerminal aggregate.phase = true
    · rw [if_pos terminal] at recorded
      obtain ⟨rfl, rfl⟩ := Prod.mk.inj (Option.some.inj recorded)
      rfl
    · rw [if_neg terminal] at recorded
      obtain ⟨executed, stepped, rest⟩ := Option.bind_eq_some_iff.mp recorded
      obtain ⟨⟨later, reached⟩, looped, result⟩ := Option.bind_eq_some_iff.mp rest
      obtain ⟨rfl, rfl⟩ := Prod.mk.inj (Option.some.inj result)
      rw [faultFree, if_neg terminal]
      exact Option.bind_eq_some_iff.mpr ⟨executed, stepped, ih _ _ _ looped⟩

end Scenario

end Ironstate
