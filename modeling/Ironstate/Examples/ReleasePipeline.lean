import Ironstate.Core.Testing

/-!
# The release pipeline

`Release` of the `release-pipeline` example: a machine without data, some of whose states accept
only operator or external events.
-/

namespace Ironstate.Examples.ReleasePipeline

/-- `enum Release`. -/
inductive Release where
  | draft
  | building
  | testing
  | awaitingApproval
  | deploying
  | live
  | failed
  | rolledBack
  | retired
  deriving DecidableEq

/-- `enum Signal`. -/
inductive Signal where
  | submit
  | buildOk
  | buildFailed
  | testsPassed
  | testsFailed
  | approve
  | reject
  | deploySucceeded
  | deployFailed
  | rollback
  | retire
  deriving DecidableEq

instance : EventKind Signal where
  kinds
    | .approve | .reject => some [⟨"operator"⟩]
    | .deploySucceeded | .deployFailed => some [⟨"external"⟩]
    | _ => none
  variantName
    | .submit => "Submit"
    | .buildOk => "BuildOk"
    | .buildFailed => "BuildFailed"
    | .testsPassed => "TestsPassed"
    | .testsFailed => "TestsFailed"
    | .approve => "Approve"
    | .reject => "Reject"
    | .deploySucceeded => "DeploySucceeded"
    | .deployFailed => "DeployFailed"
    | .rollback => "Rollback"
    | .retire => "Retire"
  eventVariants := [.submit, .buildOk, .buildFailed, .testsPassed, .testsFailed, .approve, .reject,
    .deploySucceeded, .deployFailed, .rollback, .retire]

instance : StateMachine Release where
  Event := Signal
  transition
    | .draft, .submit => some .building
    | .building, .buildOk => some .testing
    | .building, .buildFailed => some .failed
    | .testing, .testsPassed => some .awaitingApproval
    | .testing, .testsFailed => some .failed
    | .awaitingApproval, .approve => some .deploying
    | .awaitingApproval, .reject => some .failed
    | .deploying, .deploySucceeded => some .live
    | .deploying, .deployFailed => some .rolledBack
    | .live, .rollback => some .rolledBack
    | .live, .retire => some .retired
    | _, _ => none
  initial := .draft
  isTerminal state := state == .failed || state == .rolledBack || state == .retired
  restriction
    | .awaitingApproval => some [⟨"operator"⟩]
    | .deploying => some [⟨"external"⟩]
    | _ => none
  stateVariants := [.draft, .building, .testing, .awaitingApproval, .deploying, .live, .failed,
    .rolledBack, .retired]
  variantName
    | .draft => "Draft"
    | .building => "Building"
    | .testing => "Testing"
    | .awaitingApproval => "AwaitingApproval"
    | .deploying => "Deploying"
    | .live => "Live"
    | .failed => "Failed"
    | .rolledBack => "RolledBack"
    | .retired => "Retired"

/-- `Release::invariants`. -/
def invariants : List (Invariant Release) :=
  [⟨"Live is only reached from Deploying", fun before _ after =>
    !(after == some .live) || before == .deploying⟩]

end Ironstate.Examples.ReleasePipeline
