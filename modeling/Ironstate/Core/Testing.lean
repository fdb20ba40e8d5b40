import Ironstate.Core.Machine
import Ironstate.Lib.Checked

/-!
# The runtime behind `test!`

`testing.rs` and `invariant.rs`. The test runner and the strategy of index lists are third-party
code: a runner is any function of the bounds of the strategy and of the test that says whether it
failed, and on which list. `holds` of an invariant is its closure.
-/

namespace Ironstate

open EventKind (eventVariants)
open Lib (Panic)

/-- `struct Invariant`. -/
structure Invariant (S : Type) [StateMachine S] where
  description : String
  holds : S → Event S → Option S → Bool

namespace Testing

/-- `struct TestParams`. -/
structure TestParams where
  cases : UInt32
  maxSteps : Nat
  seed : Option UInt64

/-- `TestParams::new`. -/
def TestParams.new : TestParams := ⟨500, 100, none⟩

/-- What the message of a violated invariant names. -/
structure Violation (S : Type) [StateMachine S] where
  description : String
  before : S
  event : Event S
  after : Option S

/-- Why a case fails. -/
inductive CaseError (S : Type) [StateMachine S] where
  | invariantViolated (violation : Violation S)
  | panicked (panic : Panic)

/-- `TestError` of the runner. -/
inductive TestError (ε : Type) where
  | fail (reason : ε) (case : List Nat)
  | abort (reason : String)

/-- `TestRunner::run`, for lists of at most so many indices below a bound. -/
structure TestRunner (ε : Type) where
  run : TestParams → (below atMost : Nat) → (List Nat → Except ε Unit) → Except (TestError ε) Unit

/-- The panics of `run`. -/
inductive RunError (S : Type) [StateMachine S] where
  | noEvents
  | failed (reason : CaseError S) (case : List Nat)
  | aborted (reason : String)

variable {S : Type} [StateMachine S]

/-- The test of one case: the events that the indices name, and every invariant after each. -/
def testCase (events : List (Event S)) (invariants : List (Invariant S)) :
    Machine S → List Nat → Except (CaseError S) Unit
  | _, [] => .ok ()
  | machine, idx :: indices =>
    match Lib.Checked.get events idx with
    | .error panic => .error (.panicked panic)
    | .ok event =>
      let before := machine.state
      let (answer, machine) := machine.apply event
      let after := answer.toOption
      match invariants.find? fun invariant => !invariant.holds before event after with
      | some invariant => .error (.invariantViolated ⟨invariant.description, before, event, after⟩)
      | none => testCase events invariants machine indices

/-- `run`. -/
def run (runner : TestRunner (CaseError S)) (params : TestParams)
    (invariants : List (Invariant S)) : Except (RunError S) Unit :=
  let events := eventVariants (E := Event S)
  if events.isEmpty then .error .noEvents
  else
    match runner.run params events.length params.maxSteps
        (testCase events invariants (Machine.new S)) with
    | .ok () => .ok ()
    | .error (.fail reason case) => .error (.failed reason case)
    | .error (.abort reason) => .error (.aborted reason)

end Testing

end Ironstate
