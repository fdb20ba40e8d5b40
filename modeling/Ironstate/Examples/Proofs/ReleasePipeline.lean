import Ironstate.Examples.ReleasePipeline
import Ironstate.Core.Proofs.Testing

/-!
# No gate is skipped

A release is where the signals it has accepted have brought it, and they are one of the `histories`
of that state, whatever was sent in between (`accepted_mem`).
-/

namespace Ironstate.Examples.ReleasePipeline

/-- The signals of a run that are accepted. -/
def accepted (machine : Machine Release) : List Signal → List Signal
  | [] => []
  | signal :: signals =>
    let rest := accepted (machine.apply signal).2 signals
    if (machine.apply signal).1.toOption.isSome then signal :: rest else rest

/-- The signals that bring a new release to a state. -/
def histories : Release → List (List Signal)
  | .draft => [[]]
  | .building => [[.submit]]
  | .testing => [[.submit, .buildOk]]
  | .awaitingApproval => [[.submit, .buildOk, .testsPassed]]
  | .deploying => [[.submit, .buildOk, .testsPassed, .approve]]
  | .live => [[.submit, .buildOk, .testsPassed, .approve, .deploySucceeded]]
  | .failed => [[.submit, .buildFailed], [.submit, .buildOk, .testsFailed],
      [.submit, .buildOk, .testsPassed, .reject]]
  | .rolledBack => [[.submit, .buildOk, .testsPassed, .approve, .deployFailed],
      [.submit, .buildOk, .testsPassed, .approve, .deploySucceeded, .rollback]]
  | .retired => [[.submit, .buildOk, .testsPassed, .approve, .deploySucceeded, .retire]]

/-- One signal either leaves the release where it is or extends its history. -/
theorem apply_histories (state : Release) (signal : Signal) :
    ((Machine.restore state).apply signal).1.toOption = none ∧
        ((Machine.restore state).apply signal).2 = Machine.restore state ∨
      ∃ next, (Machine.restore state).apply signal = (.ok next, Machine.restore next) ∧
        ∀ history ∈ histories state, history ++ [signal] ∈ histories next := by
  cases state <;> cases signal <;>
    first
    | exact .inl ⟨rfl, rfl⟩
    | exact .inr ⟨_, rfl, by decide⟩

theorem accepted_mem (signals : List Signal) (machine : Machine Release) {past : List Signal}
    (here : past ∈ histories machine.state) :
    past ++ accepted machine signals ∈ histories (machine.applyAll signals).state := by
  induction signals generalizing machine past with
  | nil => rwa [accepted, List.append_nil]
  | cons signal signals ih =>
    rw [accepted, Machine.applyAll]
    rcases apply_histories machine.state signal with ⟨refused, stays⟩ | ⟨next, answer, extends_⟩
    · change ((machine.apply signal).1).toOption = none at refused
      change (machine.apply signal).2 = machine at stays
      rw [refused, stays]
      exact ih machine here
    · change machine.apply signal = (.ok next, Machine.restore next) at answer
      rw [answer]
      have later := ih (.restore next) (extends_ past here)
      rwa [List.append_assoc] at later

/-- Each history is accepted as it stands, and leads there. -/
theorem histories_accepted (state : Release) : ∀ history ∈ histories state,
    ((Machine.new Release).applyAll history).state = state ∧
      accepted (Machine.new Release) history = history := by
  cases state <;> decide

/-- What a release has accepted when it is in a state, over all runs, are exactly the histories of
that state. -/
theorem accepted_iff_histories (state : Release) (history : List Signal) :
    (∃ signals, ((Machine.new Release).applyAll signals).state = state ∧
      accepted (Machine.new Release) signals = history) ↔ history ∈ histories state := by
  constructor
  · rintro ⟨signals, rfl, rfl⟩
    exact accepted_mem signals (.new Release) (by decide : [] ∈ histories Release.draft)
  · intro listed
    exact ⟨history, histories_accepted state history listed⟩

/-- `test!(Release)` does not fail. -/
theorem run_ne_failed {runner : Testing.TestRunner (Testing.CaseError Release)}
    (honest : runner.Honest) (params : Testing.TestParams) (reason : Testing.CaseError Release)
    (case : List Nat) : Testing.run runner params invariants ≠ .error (.failed reason case) := by
  intro reported
  obtain ⟨_, _, _, _, _, before, event, _, invariant, _, declared, violated, _⟩ :=
    Testing.run_failed honest reported
  obtain rfl := List.mem_singleton.mp declared
  have held : ∀ (state : Release) (signal : Signal),
      (!((((Machine.restore state).apply signal).1.toOption == some Release.live)) ||
        state == .deploying) = true := by
    intro state signal
    cases state <;> cases signal <;> rfl
  exact absurd (held _ event) (Bool.eq_false_iff.mp violated)

end Ironstate.Examples.ReleasePipeline
