import Ironstate.Aggregate.Proofs.Range
import Ironstate.Aggregate.Runs
import Ironstate.Journal.Proofs.Faults
import Ironstate.Journal.Scenario
import Ironstate.Lib.Yields

/-!
# `scenario_test!` has nothing to report

A reference run samples the commands that the fault-free loop then runs without sampling
(`sampledLoop_yields`), and the faulted loop over them ends where that one does. What is left to
stop `run_scenario` is in its inputs: a strategy without a value, a genesis state that is not
initial, or a schedule whose draws never end (`runScenario_yields`).
-/

namespace Ironstate.Scenario

open Lib (Yields)

variable {A : AggregateRules} {R D E : Type} {chacha12 : Seed → UInt64 → UInt32}

/-- The inputs of `run_scenario` that it cannot work with. -/
inductive Unfit (arbitrary : AggregateArbitrary A R chacha12) (fuel : Nat) :
    ScenarioFailure D → Prop where
  | noInitial {runner : R} (none : arbitrary.initialStateStrategy runner = none) :
      Unfit arbitrary fuel .noValue
  | noCommand {state : A.State} {runner : R}
      (none : arbitrary.commandStrategy state runner = none) : Unfit arbitrary fuel .noValue
  | notInitial {runner runner' : R} {genesis : A.State} {error : InitError A}
      (sampled : arbitrary.initialStateStrategy runner = some (genesis, runner'))
      (refused : Aggregate.new genesis = .error error) : Unfit arbitrary fuel .notInitial
  | endless {e : SeededEntropy chacha12} (rejected : drawRange fuel 0 3 e = .ok none) :
      Unfit arbitrary fuel (.undrawn none)

/-! ## The schedule -/

section Schedule

variable {arbitrary : AggregateArbitrary A R chacha12} {fuel : Nat}

theorem drawn_range (e : SeededEntropy chacha12) :
    Yields (Unfit (D := D) arbitrary fuel) (fun _ => True) (drawn (drawRange fuel 0 3 e)) := by
  obtain ⟨_, _, _, _, uniform⟩ := drawRange_uniform (by decide : (0 : UInt64) < 3)
  obtain ⟨answer, answered⟩ := uniform.answers _ fuel e
  rw [answered]
  cases answer with
  | none => exact .endless answered
  | some answer => exact trivial

theorem drawn_below (e : SeededEntropy chacha12) :
    Yields (Unfit (D := D) arbitrary fuel) (fun _ => True) (drawn (drawBelow fuel 1 3 e)) := by
  obtain ⟨_, _, _, _, uniform⟩ := drawRange_uniform (by decide : (0 : UInt64) < 3)
  obtain ⟨answer, answered⟩ := uniform.answers _ fuel e
  have below : drawBelow fuel 1 3 e =
      .ok (answer.map fun drawn => (decide (drawn.1 < 1), drawn.2)) := by
    rw [drawBelow, answered]
    rfl
  rw [below]
  cases answer with
  | none => exact .endless answered
  | some answer => exact trivial

theorem generate_yields (e : SeededEntropy chacha12) (steps : Nat) :
    Yields (Unfit (D := D) arbitrary fuel) (fun _ => True) (generate fuel e steps) := by
  have loop : ∀ (steps : Nat) (perStep : List (Option Fault)) (e : SeededEntropy chacha12),
      Yields (Unfit (D := D) arbitrary fuel) (fun _ => True)
        (generateLoop fuel steps perStep e) := by
    intro steps
    induction steps with
    | zero => exact fun _ _ => trivial
    | succ steps ih =>
      intro perStep e
      have fault : Yields (Unfit (D := D) arbitrary fuel) (fun _ => True)
          (generateFault fuel e) := by
        refine Yields.bind (drawn_below e) ?_
        rintro ⟨faulty, e⟩ _
        cases faulty with
        | false => exact trivial
        | true => exact Yields.bind (drawn_range e) fun _ _ => trivial
      exact Yields.bind fault fun _ _ => ih _ _
  exact loop steps [] e

end Schedule

/-! ## The cases -/

section Cases

variable [EntropySource E] [CtxEntropy A.Ctx E]
variable (arbitrary : AggregateArbitrary A R chacha12) (digest128 : A.State → D) (fuel : Nat)

/-- The commands a reference run samples take the fault-free loop where it ended. -/
theorem sampledLoop_yields {genesis : A.State} (seed : Seed) (left : Nat) {j : MemoryJournal A}
    {aggregate : Aggregate A} (runner : R) (rest : AtRest genesis j aggregate) :
    Yields (Unfit (D := D) arbitrary fuel)
      (fun ran => faultFree (testCtx arbitrary) seed ran.1.1 j aggregate = some ran.1.2)
      (sampledLoop arbitrary seed left j aggregate runner) := by
  induction left generalizing j aggregate runner with
  | zero => exact rfl
  | succ left ih =>
    unfold sampledLoop
    by_cases terminal : StateMachine.isTerminal aggregate.phase = true
    · rw [if_pos terminal]
      exact rfl
    rw [if_neg terminal]
    cases sampled : arbitrary.commandStrategy aggregate.state runner with
    | none => exact .noCommand sampled
    | some drawn =>
      obtain ⟨cmd, runner⟩ := drawn
      obtain ⟨executed, stepped, rest'⟩ := rest.execStep (testCtx arbitrary) seed cmd
      simp only [stepped]
      refine Yields.bind (ih runner rest') ?_
      rintro ⟨⟨commands, final⟩, runner'⟩ later
      change faultFree (testCtx arbitrary) seed (cmd :: commands) j aggregate = some final
      unfold faultFree
      rw [if_neg terminal, stepped]
      exact later

variable [DecidableEq D] (maxSteps : Nat)

/-- What a reference run recorded, a run under any faults reproduces. -/
theorem record_yields (seed : Seed) {genesis : A.State} {before runner : R}
    (sampled : arbitrary.initialStateStrategy before = some (genesis, runner)) :
    Yields (Unfit arbitrary fuel)
      (fun recorded => ∀ schedule,
        runFaulted (testCtx arbitrary) seed digest128 genesis recorded.1.commands schedule =
          some recorded.1.finalDigest)
      (record arbitrary digest128 seed genesis runner maxSteps) := by
  unfold record
  cases accepted : Aggregate.new genesis with
  | error error => exact Unfit.notInitial sampled accepted
  | ok aggregate =>
    obtain ⟨_, rfl⟩ := Aggregate.new_ok accepted
    have rest := AtRest.new genesis
    refine Yields.bind (sampledLoop_yields arbitrary fuel seed maxSteps runner rest) ?_
    rintro ⟨⟨commands, final⟩, runner'⟩ free schedule
    obtain ⟨final', free', faulted⟩ :=
      faultedLoop_eq (testCtx arbitrary) seed digest128 schedule commands 0 rest
    obtain rfl : final' = final := Option.some.inj (free'.symm.trans free)
    unfold runFaulted
    rw [accepted]
    change (faultedLoop (testCtx arbitrary) seed digest128 schedule 0 commands
      (.new (.new genesis)) (.fromState genesis)).bind _ = _
    rw [faulted]
    rfl

variable (seedBase : UInt64)

theorem runCase_yields (case : UInt32) (runner : R) :
    Yields (Unfit arbitrary fuel) (fun _ => True)
      (runCase arbitrary digest128 fuel maxSteps seedBase case runner) := by
  unfold runCase
  cases sampled : arbitrary.initialStateStrategy runner with
  | none => exact Unfit.noInitial sampled
  | some drawn =>
    obtain ⟨genesis, runner'⟩ := drawn
    have recorded := record_yields arbitrary digest128 fuel maxSteps (runSeed seedBase case 0) sampled
    refine Yields.bind recorded ?_
    rintro ⟨reference, runner''⟩ reproduced
    refine Yields.bind (generate_yields _ _) ?_
    intro schedule _
    simp only [reproduced schedule, if_true]
    exact trivial

/-- `scenario_test!` passes, whatever the aggregate and the digest, or its inputs are unfit: no
`expect` of the drivers fails, no fork shows another state, and no faulted run diverges. -/
theorem runScenario_yields (seededRunner : UInt64 → R) (cases : UInt32) :
    Yields (Unfit arbitrary fuel) (fun _ => True)
      (runScenario arbitrary digest128 fuel maxSteps seedBase seededRunner cases) := by
  have loop : ∀ (left : Nat) (case : UInt32) (runner : R),
      Yields (Unfit arbitrary fuel) (fun _ => True)
        (runCases arbitrary digest128 fuel maxSteps seedBase left case runner) := by
    intro left
    induction left with
    | zero => exact fun _ _ => trivial
    | succ left ih =>
      intro case runner
      refine Yields.bind (runCase_yields arbitrary digest128 fuel maxSteps seedBase case runner) ?_
      exact fun runner _ => ih (case + 1) runner
  exact loop cases.toNat 0 (seededRunner seedBase)

end Cases

end Ironstate.Scenario
