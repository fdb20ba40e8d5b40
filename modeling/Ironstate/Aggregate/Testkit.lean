import Ironstate.Aggregate.Rules
import Ironstate.Core.Machine

/-!
# The driver of `test!`

`testkit.rs`. A panic is an error that carries what its message names. The strategies and the
test runner are third-party code: a value of `AggregateArbitrary` samples from a runner of any
type, or fails to produce a value. `holds` of an invariant is its closure.
-/

namespace Ironstate

open StateMachine (isTerminal)
open EventKind (eventVariants)

/-- `trait AggregateArbitrary`, with each strategy sampled. -/
structure AggregateArbitrary (A : AggregateRules) (R : Type)
    (chacha12 : Seed → UInt64 → UInt32) where
  initialStateStrategy : R → Option (A.State × R)
  commandStrategy : A.State → R → Option (A.Command × R)
  testCtx : SeededEntropy chacha12 → UInt64 → A.Ctx

/-- A strategy fails to produce a value: of an initial state, or of a command in some state. -/
inductive AggregateArbitrary.Gap {A : AggregateRules} {R : Type}
    {chacha12 : Seed → UInt64 → UInt32} (arbitrary : AggregateArbitrary A R chacha12) : Prop where
  | initial {runner : R} (none : arbitrary.initialStateStrategy runner = none)
  | command {state : A.State} {runner : R} (none : arbitrary.commandStrategy state runner = none)

/-- `struct DriveParams`. -/
structure DriveParams where
  cases : UInt32
  maxSteps : Nat
  seed : UInt64

/-- `struct AggregateInvariant`. -/
structure AggregateInvariant (A : AggregateRules) where
  description : String
  holds : A.State → A.Event → A.State → Bool

/-- The panics of a driver. -/
inductive TestFailure (A : AggregateRules) where
  | noValue
  | illegalHop (phaseBefore phaseAfter : A.Phase) (event : A.Event) (command : A.Command)
      (case : UInt32)
  | invariantViolated (description : String) (event : A.Event) (before after : A.State)
      (case : UInt32)

/-- `run_seed`: the seed and the case, both little-endian, and zeros. -/
def runSeed (seed : UInt64) (case : UInt32) : Seed :=
  ⟨.ofFn fun i =>
    if i < 8 then (seed >>> (8 * UInt64.ofNat i)).toUInt8
    else if i < 12 then (case >>> (8 * UInt32.ofNat (i - 8))).toUInt8
    else 0⟩

/-- `legal_hop`. -/
def legalHop {P : Type} [StateMachine P] (old new : P) : Bool :=
  if old == new then true
  else (eventVariants (E := Event P)).any fun event =>
    match transition old event with
    | some target => target == new
    | none => false

section Checks

variable {A : AggregateRules} (invariants : List (AggregateInvariant A)) (cmd : A.Command)
  (case : UInt32)

/-- The checks after one event: the phase hop, then each invariant. -/
def checkEvent (probe : A.State) (event : A.Event) : Except (TestFailure A) A.State :=
  let phaseBefore := A.phase probe
  let after := A.evolve probe event
  let phaseAfter := A.phase after
  if !legalHop phaseBefore phaseAfter then
    .error (.illegalHop phaseBefore phaseAfter event cmd case)
  else
    match invariants.find? fun invariant => !invariant.holds probe event after with
    | some invariant => .error (.invariantViolated invariant.description event probe after case)
    | none => .ok after

/-- The loop over the events of a batch. -/
def checkEvents : A.State → List A.Event → Except (TestFailure A) A.State
  | probe, [] => .ok probe
  | probe, event :: events => do
    let probe ← checkEvent invariants cmd case probe event
    checkEvents probe events

end Checks

section Drive

variable {A : AggregateRules} {R E : Type} {chacha12 : Seed → UInt64 → UInt32}
variable [EntropySource E] [CtxEntropy A.Ctx E]
variable (arbitrary : AggregateArbitrary A R chacha12)

/-- The loop over the steps of one case, with the number of the next step and how many are
left. -/
def runSteps (invariants : List (AggregateInvariant A)) (seed : Seed) (case : UInt32) :
    Nat → Nat → Aggregate A → DrawPos → R → Except (TestFailure A) R
  | 0, _, _, _, runner => .ok runner
  | left + 1, step, agg, pos, runner =>
    if isTerminal agg.phase then .ok runner
    else
      match arbitrary.commandStrategy agg.state runner with
      | none => .error .noValue
      | some (cmd, runner) =>
        let before := agg.state
        let ctx := arbitrary.testCtx (.at seed pos) (.ofNat step)
        match agg.handle cmd ctx with
        | (.error _, agg, _) => runSteps invariants seed case left (step + 1) agg pos runner
        | (.ok events, agg, ctx) =>
          let pos := (ctxDraws ctx).getD pos
          match checkEvents invariants cmd case before events with
          | .error failure => .error failure
          | .ok _ => runSteps invariants seed case left (step + 1) agg pos runner

/-- The loop over the cases, with the number of the next case and how many are left. -/
def runCases (params : DriveParams) (invariants : List (AggregateInvariant A)) :
    Nat → UInt32 → R → Except (TestFailure A) Unit
  | 0, _, _ => .ok ()
  | left + 1, case, runner =>
    match arbitrary.initialStateStrategy runner with
    | none => .error .noValue
    | some (initial, runner) =>
      match Aggregate.new initial with
      | .error _ => runCases params invariants left (case + 1) runner
      | .ok agg =>
        match runSteps arbitrary invariants (runSeed params.seed case) case params.maxSteps 0 agg
            0 runner with
        | .error failure => .error failure
        | .ok runner => runCases params invariants left (case + 1) runner

/-- `run_test`. -/
def runTest (seededRunner : UInt64 → R) (params : DriveParams)
    (invariants : List (AggregateInvariant A)) : Except (TestFailure A) Unit :=
  runCases arbitrary params invariants params.cases.toNat 0 (seededRunner params.seed)

end Drive

end Ironstate
