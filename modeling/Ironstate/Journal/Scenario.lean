import Ironstate.Aggregate.Draws
import Ironstate.Aggregate.Testkit
import Ironstate.Journal.Sim

/-!
# The whole simulation

`run_scenario` of `sim.rs`, behind `scenario_test!`, with the schedule of faults it draws. One test
runner is sampled by every case in turn, so that a reference run hands it back, and a strategy
may have no value. As in `Ironstate.Journal.Sim` the panics inside the drivers are one.
-/

namespace Ironstate

open Lib (Panic)

variable {A : AggregateRules} {R D E : Type}

/-- The panics of `run_scenario`. -/
inductive ScenarioFailure (D : Type) where
  /-- `.expect("strategy")`. -/
  | noValue
  /-- `.expect("initial")`. -/
  | notInitial
  /-- A draw of the schedule panics, or never ends. -/
  | undrawn (panic : Option Panic)
  /-- Any other `expect` of the drivers, or the assertion that a fork reproduces the state. -/
  | panicked
  /-- The assertion that faults are invisible to outcomes. -/
  | diverged (faulted reference : D) (case : UInt32)
  deriving DecidableEq

namespace Scenario

/-! ## The schedule -/

section Schedule

variable [EntropySource E] (fuel : Nat)

/-- The answer of a draw. -/
def drawn {α : Type} : Except Panic (Option α) → Except (ScenarioFailure D) α
  | .error panic => .error (.undrawn (some panic))
  | .ok none => .error (.undrawn none)
  | .ok (some answer) => .ok answer

/-- The fault of one step: one in three, and then one of those a single aggregate can have. -/
def generateFault (e : E) : Except (ScenarioFailure D) (Option Fault × E) := do
  let (faulty, e) ← drawn (drawBelow fuel 1 3 e)
  if faulty then do
    let (kind, e) ← drawn (drawRange fuel 0 3 e)
    .ok (some (if kind = 0 then .appendFailure
      else if kind = 1 then .crashResume 0 else .forkContinue 0), e)
  else .ok (none, e)

/-- The loop of `FaultSchedule::generate`. -/
def generateLoop : Nat → List (Option Fault) → E → Except (ScenarioFailure D) FaultSchedule
  | 0, perStep, _ => .ok ⟨perStep⟩
  | steps + 1, perStep, e => do
    let (fault, e) ← generateFault fuel e
    generateLoop steps (perStep ++ [fault]) e

/-- `FaultSchedule::generate`. -/
def generate (e : E) (steps : Nat) : Except (ScenarioFailure D) FaultSchedule :=
  generateLoop fuel steps [] e

end Schedule

/-! ## The cases -/

section Cases

variable [EntropySource E] [CtxEntropy A.Ctx E] {chacha12 : Seed → UInt64 → UInt32}
variable [DecidableEq D] (arbitrary : AggregateArbitrary A R chacha12) (digest128 : A.State → D)

/-- `test_ctx`, at the step that `exec_step` names. -/
def testCtx (entropy : SeededEntropy chacha12) (step : Nat) : A.Ctx :=
  arbitrary.testCtx entropy (.ofNat step)

/-- The loop of `ReferenceRun::record`: the commands it drove, the aggregate it ended in and the
runner it sampled. -/
def sampledLoop (seed : Seed) : Nat → MemoryJournal A → Aggregate A → R →
    Except (ScenarioFailure D) ((List A.Command × Aggregate A) × R)
  | 0, _, aggregate, runner => .ok (([], aggregate), runner)
  | left + 1, journal, aggregate, runner =>
    if StateMachine.isTerminal aggregate.phase then .ok (([], aggregate), runner)
    else
      match arbitrary.commandStrategy aggregate.state runner with
      | none => .error .noValue
      | some (cmd, runner) =>
        match execStep (testCtx arbitrary) seed journal scenarioStream aggregate cmd with
        | none => .error .panicked
        | some executed => do
          let ((commands, final), runner) ←
            sampledLoop seed left executed.journal executed.aggregate runner
          .ok ((cmd :: commands, final), runner)

/-- `ReferenceRun::record`. -/
def record (seed : Seed) (genesis : A.State) (runner : R) (maxSteps : Nat) :
    Except (ScenarioFailure D) (ReferenceRun A D × R) :=
  match Aggregate.new genesis with
  | .error _ => .error .notInitial
  | .ok aggregate => do
    let ((commands, final), runner) ←
      sampledLoop arbitrary seed maxSteps (.new genesis) aggregate runner
    .ok (⟨commands, digest128 final.state⟩, runner)

/-- `run_seed` of `sim.rs`: the seed and the case, both little-endian, the stream, and zeros. -/
def runSeed (seed : UInt64) (case : UInt32) (stream : UInt8) : Seed :=
  ⟨.ofFn fun i =>
    if i.val < 8 then (seed >>> (8 * UInt64.ofNat i)).toUInt8
    else if i.val < 12 then (case >>> (8 * UInt32.ofNat (i - 8))).toUInt8
    else if i.val = 12 then stream
    else 0⟩

variable (fuel maxSteps : Nat) (seedBase : UInt64)

/-- One case: the genesis it samples, a reference run, and the same commands under faults. -/
def runCase (case : UInt32) (runner : R) : Except (ScenarioFailure D) R :=
  match arbitrary.initialStateStrategy runner with
  | none => .error .noValue
  | some (genesis, runner) => do
    let seed := runSeed seedBase case 0
    let (reference, runner) ← record arbitrary digest128 seed genesis runner maxSteps
    let scheduleEntropy : SeededEntropy chacha12 := .at (runSeed seedBase case 1) 0
    let schedule ← generate fuel scheduleEntropy reference.commands.length
    match runFaulted (testCtx arbitrary) seed digest128 genesis reference.commands schedule with
    | none => .error .panicked
    | some faulted =>
      if faulted = reference.finalDigest then .ok runner
      else .error (.diverged faulted reference.finalDigest case)

/-- The loop over the cases, with the number of the next case and how many are left. -/
def runCases : Nat → UInt32 → R → Except (ScenarioFailure D) Unit
  | 0, _, _ => .ok ()
  | left + 1, case, runner => do
    let runner ← runCase arbitrary digest128 fuel maxSteps seedBase case runner
    runCases left (case + 1) runner

/-- `run_scenario`. -/
def runScenario (seededRunner : UInt64 → R) (cases : UInt32) : Except (ScenarioFailure D) Unit :=
  runCases arbitrary digest128 fuel maxSteps seedBase cases.toNat 0 (seededRunner seedBase)

end Cases

end Scenario

end Ironstate
