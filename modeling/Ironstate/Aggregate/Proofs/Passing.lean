import Ironstate.Aggregate.Runs
import Ironstate.Aggregate.Proofs.Hops
import Ironstate.Lib.Yields

/-!
# What `test!` finds

A failure that the driver reports is one: a run of sound steps from a state that the strategy
gave, and then a command of which the failure names the first step that is not sound
(`runTest_yields`). So an invariant of the states that rules such steps out lets every test pass,
unless a strategy has a gap (`runTest_invariant`).
-/

namespace Ironstate

open StateMachine (isTerminal initial)
open Lib (Yields)

section Passing

variable {A : AggregateRules} {R E : Type} {chacha12 : Seed → UInt64 → UInt32}
variable [EntropySource E] [CtxEntropy A.Ctx E]
variable (arbitrary : AggregateArbitrary A R chacha12) (invariants : List (AggregateInvariant A))

/-- The hop of a step is legal, and it breaks no invariant. -/
structure SoundStep (step : A.State × A.Event × A.State) : Prop where
  legal : legalHop (A.phase step.1) (A.phase step.2.2) = true
  holds : ∀ invariant ∈ invariants, invariant.holds step.1 step.2.1 step.2.2 = true

/-- What a failure says of the step it is about: its hop is illegal; or it is legal, and the
invariant named is the first that the step breaks. -/
inductive Blames (cmd : A.Command) (case : UInt32) (step : A.State × A.Event × A.State) :
    TestFailure A → Prop
  | hop (illegal : legalHop (A.phase step.1) (A.phase step.2.2) = false) :
      Blames cmd case step
        (.illegalHop (A.phase step.1) (A.phase step.2.2) step.2.1 cmd case)
  | invariant {invariant : AggregateInvariant A} {before after : List (AggregateInvariant A)}
      (legal : legalHop (A.phase step.1) (A.phase step.2.2) = true)
      (declared : invariants = before ++ invariant :: after)
      (upheld : ∀ other ∈ before, other.holds step.1 step.2.1 step.2.2 = true)
      (violated : invariant.holds step.1 step.2.1 step.2.2 = false) :
      Blames cmd case step
        (.invariantViolated invariant.description step.2.1 step.1 step.2.2 case)

/-- A failure names the first step of a batch that is not sound. -/
def FirstBad (cmd : A.Command) (case : UInt32) (state : A.State) (events : List A.Event)
    (failure : TestFailure A) : Prop :=
  ∃ before step after, steps state events = before ++ step :: after ∧
    (∀ earlier ∈ before, SoundStep invariants earlier) ∧ Blames invariants cmd case step failure

/-! ## A batch -/

theorem checkEvent_yields (cmd : A.Command) (case : UInt32) (state : A.State) (event : A.Event) :
    Yields (Blames invariants cmd case (state, event, A.evolve state event))
      (fun after => after = A.evolve state event ∧
        SoundStep invariants (state, event, A.evolve state event))
      (checkEvent invariants cmd case state event) := by
  unfold checkEvent
  dsimp only
  cases legal : legalHop (A.phase state) (A.phase (A.evolve state event)) with
  | false => exact Blames.hop legal
  | true =>
    cases found : invariants.find? fun invariant =>
        !invariant.holds state event (A.evolve state event) with
    | none => exact ⟨rfl, legal, by simpa using List.find?_eq_none.mp found⟩
    | some invariant =>
      obtain ⟨violated, before, after, declared, upheld⟩ := List.find?_eq_some_iff_append.mp found
      have broken : Blames invariants cmd case (state, event, A.evolve state event)
          (.invariantViolated invariant.description event state (A.evolve state event) case) :=
        .invariant legal declared (by simpa using upheld) (by simpa using violated)
      exact broken

theorem checkEvents_yields (cmd : A.Command) (case : UInt32) (state : A.State)
    (events : List A.Event) :
    Yields (FirstBad invariants cmd case state events)
      (fun _ => ∀ step ∈ steps state events, SoundStep invariants step)
      (checkEvents invariants cmd case state events) := by
  induction events generalizing state with
  | nil => exact List.forall_mem_nil _
  | cons event events ih =>
    rw [checkEvents]
    refine Yields.bind ((checkEvent_yields invariants cmd case state event).widen ?_) ?_
    · intro failure blames
      exact ⟨[], _, steps (A.evolve state event) events, rfl, List.forall_mem_nil _, blames⟩
    · rintro _ ⟨rfl, sound⟩
      refine Yields.mono ?_ ((ih (A.evolve state event)).widen ?_)
      · intro _ later
        exact List.forall_mem_cons.mpr ⟨sound, later⟩
      · rintro failure ⟨before, step, after, split, earlier, blames⟩
        refine ⟨_ :: before, step, after, congrArg _ split, ?_, blames⟩
        exact List.forall_mem_cons.mpr ⟨sound, earlier⟩

/-! ## A run of one case -/

/-- The driver hands the command to a live aggregate: it is one that the strategy gives there. -/
def Offered (aggregate : Aggregate A) (input : A.Command × A.Ctx) : Prop :=
  isTerminal aggregate.phase = false ∧ ∃ runner runner' entropy step,
    arbitrary.commandStrategy aggregate.state runner = some (input.1, runner') ∧
      input.2 = arbitrary.testCtx entropy step

/-- A run of the driver that has found nothing yet. -/
inductive TestRun : Aggregate A → List (A.Command × A.Ctx) → Aggregate A → Prop
  | nil {aggregate : Aggregate A} : TestRun aggregate [] aggregate
  | cons {aggregate reached : Aggregate A} {input : A.Command × A.Ctx}
      {inputs : List (A.Command × A.Ctx)} (offered : Offered arbitrary aggregate input)
      (sound : ∀ step ∈ steps aggregate.state (aggregate.emitted input),
        SoundStep invariants step)
      (later : TestRun (aggregate.handled input) inputs reached) :
      TestRun aggregate (input :: inputs) reached

/-- A failure within the steps of one case: the strategy has no command in the state that a run
has reached, or the next command has the first bad step. -/
inductive Failed (case : UInt32) (last : Nat) (start : Aggregate A) : TestFailure A → Prop
  | noValue {inputs : List (A.Command × A.Ctx)} {reached : Aggregate A} {runner : R}
      (run : TestRun arbitrary invariants start inputs reached) (within : inputs.length < last)
      (live : isTerminal reached.phase = false)
      (none : arbitrary.commandStrategy reached.state runner = none) :
      Failed case last start .noValue
  | step {failure : TestFailure A} {inputs : List (A.Command × A.Ctx)} {reached : Aggregate A}
      {input : A.Command × A.Ctx} (run : TestRun arbitrary invariants start inputs reached)
      (within : inputs.length < last) (offered : Offered arbitrary reached input)
      (bad : FirstBad invariants input.1 case reached.state (reached.emitted input) failure) :
      Failed case last start failure

variable {arbitrary invariants} in
/-- What each command keeps, a run keeps. -/
theorem TestRun.kept {start reached : Aggregate A} {inputs : List (A.Command × A.Ctx)}
    (run : TestRun arbitrary invariants start inputs reached) (Inv : Aggregate A → Prop)
    (step : ∀ aggregate input, Inv aggregate → Inv (aggregate.handled input))
    (started : Inv start) : Inv reached := by
  induction run with
  | nil => exact started
  | cons offered sound later ih => exact ih (step _ _ started)

variable {arbitrary invariants} in
/-- One more command in front of the run. -/
theorem Failed.cons {case : UInt32} {last : Nat} {start : Aggregate A} {failure : TestFailure A}
    {input : A.Command × A.Ctx} (offered : Offered arbitrary start input)
    (sound : ∀ step ∈ steps start.state (start.emitted input), SoundStep invariants step)
    (failed : Failed arbitrary invariants case last (start.handled input) failure) :
    Failed arbitrary invariants case (last + 1) start failure := by
  cases failed with
  | noValue run within live none =>
    exact .noValue (.cons offered sound run) (Nat.succ_lt_succ within) live none
  | step run within offered' bad =>
    exact .step (.cons offered sound run) (Nat.succ_lt_succ within) offered' bad

/-- The steps of one case, by induction on how many are left. -/
theorem runSteps_yields (seed : Seed) (case : UInt32) (left step : Nat) (agg : Aggregate A)
    (pos : DrawPos) (runner : R) :
    Yields (Failed arbitrary invariants case left agg) (fun _ => True)
      (runSteps arbitrary invariants seed case left step agg pos runner) := by
  induction left generalizing step agg pos runner with
  | zero => trivial
  | succ left ih =>
    rw [runSteps]
    split
    · trivial
    rename_i running
    have live := Bool.eq_false_iff.mpr running
    split
    · rename_i none
      exact .noValue .nil (Nat.succ_pos left) live none
    rename_i cmd runner' sampled
    let input := (cmd, arbitrary.testCtx (.at seed pos) (.ofNat step))
    have offered : Offered arbitrary agg input := ⟨live, _, _, _, _, sampled, rfl⟩
    have next : (∀ step ∈ steps agg.state (agg.emitted input), SoundStep invariants step) →
        ∀ pos runner, Yields (Failed arbitrary invariants case (left + 1) agg) (fun _ => True)
          (runSteps arbitrary invariants seed case left (step + 1) (agg.handled input) pos
            runner) :=
      fun sound pos runner =>
        (ih (step + 1) _ pos runner).widen fun _ failed => failed.cons offered sound
    dsimp only
    rcases answer : agg.handle cmd (arbitrary.testCtx (.at seed pos) (.ofNat step)) with
      ⟨rejection | events, after, ctx⟩
    · have reached : agg.handled input = after := congrArg (·.2.1) answer
      have emitted : agg.emitted input = [] := by
        unfold Aggregate.emitted
        rw [show agg.handle input.1 input.2 = _ from answer]
      rw [← reached]
      refine next ?_ _ _
      rw [emitted]
      exact List.forall_mem_nil _
    · have reached : agg.handled input = after := congrArg (·.2.1) answer
      have emitted : agg.emitted input = events := by
        unfold Aggregate.emitted
        rw [show agg.handle input.1 input.2 = _ from answer]
      have checked := checkEvents_yields invariants cmd case agg.state events
      rw [← emitted] at checked
      dsimp only
      rw [← emitted]
      split
      · rename_i failure failed
        rw [failed] at checked
        exact .step .nil (Nat.succ_pos left) offered checked
      · rename_i final passed
        rw [passed] at checked
        rw [← reached]
        exact next checked _ _

/-! ## The cases -/

/-- What a failure of `test!` means: there is no initial state, or a case in range fails from one
that the strategy gave. -/
inductive Found (params : DriveParams) : TestFailure A → Prop
  | noValue {runner : R} (none : arbitrary.initialStateStrategy runner = none) :
      Found params .noValue
  | inCase {failure : TestFailure A} {runner runner' : R} {state : A.State} {case : UInt32}
      (sampled : arbitrary.initialStateStrategy runner = some (state, runner'))
      (started : (A.phase state == initial) = true) (inRange : case < params.cases)
      (failed : Failed arbitrary invariants case params.maxSteps ⟨state⟩ failure) :
      Found params failure

/-- The cases, by induction on how many are left. -/
theorem runCases_yields (params : DriveParams) (left : Nat) (case : UInt32) (runner : R)
    (bound : case.toNat + left ≤ params.cases.toNat) :
    Yields (Found arbitrary invariants params) (fun _ => True)
      (runCases arbitrary params invariants left case runner) := by
  induction left generalizing case runner with
  | zero => trivial
  | succ left ih =>
    have small := params.cases.toNat_lt
    have next : (case + 1).toNat + left ≤ params.cases.toNat := by
      rw [UInt32.toNat_add]
      have : (1 : UInt32).toNat = 1 := rfl
      omega
    rw [runCases]
    split
    · rename_i none
      exact .noValue none
    rename_i state after sampled
    split
    · exact ih _ _ next
    rename_i agg accepted
    obtain ⟨started, rfl⟩ := Aggregate.new_ok accepted
    have inRange : case < params.cases := by
      rw [UInt32.lt_iff_toNat_lt]
      omega
    have ran := runSteps_yields arbitrary invariants (runSeed params.seed case) case params.maxSteps 0
      ⟨state⟩ 0 after
    split
    · rename_i failure failed
      rw [failed] at ran
      exact .inCase sampled started inRange ran
    · exact ih _ _ next

/-- `test!` passes, or a strategy has no value where the driver asks for one, or the failure it
reports is one. -/
theorem runTest_yields (seededRunner : UInt64 → R) (params : DriveParams) :
    Yields (Found arbitrary invariants params) (fun _ => True)
      (runTest arbitrary seededRunner params invariants) :=
  runCases_yields arbitrary invariants params params.cases.toNat 0 _ (by simp)

/-- An invariant of the states under which every batch is sound leaves nothing to report. -/
theorem runTest_invariant (Inv : A.State → Prop)
    (start : ∀ runner state runner', arbitrary.initialStateStrategy runner = some (state, runner') →
      (A.phase state == initial) = true → Inv state)
    (kept : ∀ (aggregate : Aggregate A) input, Inv aggregate.state →
      Inv (aggregate.handled input).state)
    (sound : ∀ (aggregate : Aggregate A) input, Inv aggregate.state →
      ∀ step ∈ steps aggregate.state (aggregate.emitted input), SoundStep invariants step)
    (seededRunner : UInt64 → R) (params : DriveParams) :
    Yields (fun failure => failure = .noValue ∧ arbitrary.Gap) (fun _ => True)
      (runTest arbitrary seededRunner params invariants) := by
  refine (runCases_yields arbitrary invariants params params.cases.toNat 0
    (seededRunner params.seed) (by simp)).widen fun failure found => ?_
  cases found with
  | noValue none => exact ⟨rfl, .initial none⟩
  | inCase sampled started _ failed =>
  cases failed with
  | noValue run within live none => exact ⟨rfl, .command none⟩
  | step run _ offered bad =>
    have reached := run.kept (fun aggregate => Inv aggregate.state) kept
      (start _ _ _ sampled started)
    obtain ⟨before, step, after, split, -, blames⟩ := bad
    have listed : step ∈ before ++ step :: after :=
      List.mem_append_right _ List.mem_cons_self
    obtain ⟨legal, holds⟩ := sound _ _ reached step (split ▸ listed)
    cases blames with
    | hop illegal => simp [legal] at illegal
    | invariant _ declared _ violated =>
      rw [holds _ (declared ▸ List.mem_append_right _ List.mem_cons_self)] at violated
      cases violated

variable {arbitrary invariants}

/-- Batches that are always sound leave nothing to report. -/
theorem runTest_sound
    (sound : ∀ (aggregate : Aggregate A) input,
      ∀ step ∈ steps aggregate.state (aggregate.emitted input), SoundStep invariants step)
    (seededRunner : UInt64 → R) (params : DriveParams) :
    Yields (fun failure => failure = .noValue ∧ arbitrary.Gap) (fun _ => True)
      (runTest arbitrary seededRunner params invariants) :=
  runTest_invariant arbitrary invariants (fun _ => True) (fun _ _ _ _ _ => trivial)
    (fun _ _ _ => trivial) (fun aggregate input _ => sound aggregate input) seededRunner params

/-- With strategies that always have a value, the test passes. -/
theorem runTest_gapless (gapless : ¬arbitrary.Gap)
    (sound : ∀ (aggregate : Aggregate A) input,
      ∀ step ∈ steps aggregate.state (aggregate.emitted input), SoundStep invariants step)
    (seededRunner : UInt64 → R) (params : DriveParams) :
    runTest arbitrary seededRunner params invariants = .ok () := by
  obtain ⟨_, passed, -⟩ :=
    (runTest_sound sound seededRunner params).ends_of fun _ failed => gapless failed.2
  exact passed

end Passing

end Ironstate
