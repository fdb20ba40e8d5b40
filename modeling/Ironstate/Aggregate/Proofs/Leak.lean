import Ironstate.Aggregate.Leak
import Ironstate.Aggregate.Runs
import Ironstate.Lib.Noninterference
import Ironstate.Lib.Yields

/-!
# What `leak_test!` finds

A leak that the driver reports is one: some of the commands it sampled, none of them excluded,
take a state and its sibling to the two views of the report, and no shorter part of them does
(`Genuine`, `runLeak_yields`). So an unwinding relation that holds between a state and its
siblings rules every report out, and the test passes unless a strategy has a gap
(`runLeak_unwinding`).
-/

namespace Ironstate

open StateMachine (isTerminal initial)
open Lib (Yields Unwinding)

section Leak

variable {A : AggregateRules} {P R E : Type} {chacha12 : Seed → UInt64 → UInt32}

/-- A failure is for want of a value, and then some strategy has a gap, or it is a leak of which
something is known. -/
inductive Explained {V : Type} (arbitrary : AggregateArbitrary A R chacha12)
    (known : Leak P V → Prop) : LeakFailure P V → Prop
  | noValue (gap : arbitrary.Gap) : Explained arbitrary known .noValue
  | leak {report : Leak P V} (genuine : known report) : Explained arbitrary known (.leak report)

theorem Explained.mono {V : Type} {arbitrary : AggregateArbitrary A R chacha12}
    {known known' : Leak P V → Prop} (weaker : ∀ report, known report → known' report)
    {failure : LeakFailure P V} (explained : Explained arbitrary known failure) :
    Explained arbitrary known' failure := by
  cases explained with
  | noValue gap => exact .noValue gap
  | leak genuine => exact .leak (weaker _ genuine)

variable [View P A.State] [BEq (View.Output P A.State)]

/-- What the viewer sees of an aggregate. -/
def seenBy (viewer : P) (aggregate : Aggregate A) : View.Output P A.State :=
  View.viewFor aggregate.state viewer

/-- A command that is not excluded. -/
def Admitted (excluding : List String) (input : A.Command × A.Ctx) : Prop :=
  excluding.contains (EventKind.variantName input.1) = false

/-- The inputs take the two aggregates to the views of a report, and no fewer of them tell the
aggregates apart. -/
structure Revealed (excluding : List String) (base sibling : Aggregate A)
    (report : Leak P (View.Output P A.State)) (inputs : List (A.Command × A.Ctx)) : Prop where
  admitted : ∀ input ∈ inputs, Admitted excluding input
  baseView : report.baseView = seenBy report.viewer (inputs.foldl Aggregate.handled base)
  siblingView : report.siblingView = seenBy report.viewer (inputs.foldl Aggregate.handled sibling)
  differ : (report.baseView == report.siblingView) = false
  earlier : ∀ count < inputs.length,
    (seenBy report.viewer ((inputs.take count).foldl Aggregate.handled base) ==
      seenBy report.viewer ((inputs.take count).foldl Aggregate.handled sibling)) = true

/-- One more input in front, before which the views agree. -/
theorem Revealed.cons {excluding : List String} {base sibling : Aggregate A}
    {report : Leak P (View.Output P A.State)} {inputs : List (A.Command × A.Ctx)}
    {input : A.Command × A.Ctx}
    (revealed : Revealed excluding (base.handled input) (sibling.handled input) report inputs)
    (admitted : Admitted excluding input)
    (agreed : (seenBy report.viewer base == seenBy report.viewer sibling) = true) :
    Revealed excluding base sibling report (input :: inputs) where
  admitted := List.forall_mem_cons.mpr ⟨admitted, revealed.admitted⟩
  baseView := revealed.baseView
  siblingView := revealed.siblingView
  differ := revealed.differ
  earlier := by
    intro count bound
    cases count with
    | zero => exact agreed
    | succ count => exact revealed.earlier count (Nat.lt_of_succ_lt_succ bound)

variable [EntropySource E] [CtxEntropy A.Ctx E]
variable (arbitrary : LeakTestable A P R chacha12) (excluding : List String)

section Pair

variable (seed : Seed) (case : UInt32) (p q : P)

/-- What is known of a leak that a pair of aggregates reports within its steps. -/
structure FromPair (base sibling : Aggregate A) (first last : Nat)
    (report : Leak P (View.Output P A.State)) : Prop where
  viewer : report.viewer = q
  perturbed : report.perturbed = p
  atCase : report.case = case
  within : report.step ≤ last
  revealed : ∃ inputs, first + inputs.length ≤ report.step ∧
    Revealed excluding base sibling report inputs

theorem assertViewsEqual_agree {base sibling : Aggregate A}
    (agreed : (seenBy q base == seenBy q sibling) = true) (step : Nat) :
    assertViewsEqual base sibling q p case step = .ok () :=
  if_pos agreed

theorem assertViewsEqual_differ {base sibling : Aggregate A}
    (differ : (seenBy q base == seenBy q sibling) = false) (step : Nat) :
    assertViewsEqual base sibling q p case step =
      .error (.leak ⟨q, p, step, seenBy q base, seenBy q sibling, case⟩) :=
  if_neg (Bool.eq_false_iff.mp differ)

/-- The comparison passes, or reports the views of the two aggregates as they are. -/
theorem assertViewsEqual_yields (base sibling : Aggregate A) (step : Nat) :
    Yields (Explained arbitrary.toAggregateArbitrary (FromPair excluding case p q base sibling step step))
      (fun _ => (seenBy q base == seenBy q sibling) = true)
      (assertViewsEqual base sibling q p case step) := by
  cases same : seenBy q base == seenBy q sibling with
  | true =>
    rw [assertViewsEqual_agree case p q same]
    exact rfl
  | false =>
    rw [assertViewsEqual_differ case p q same]
    exact .leak
      ⟨rfl, rfl, rfl, Nat.le_refl step, [], Nat.le_refl step, nofun, rfl, rfl, same, nofun⟩

/-- One more input in front of a report, at the step before. -/
theorem FromPair.cons {base sibling : Aggregate A} {step last : Nat}
    {report : Leak P (View.Output P A.State)} {input : A.Command × A.Ctx}
    (known : FromPair excluding case p q (base.handled input) (sibling.handled input) (step + 1)
      last report)
    (admitted : Admitted excluding input)
    (agreed : (seenBy q base == seenBy q sibling) = true) :
    FromPair excluding case p q base sibling step last report := by
  obtain ⟨rfl, perturbed, atCase, within, inputs, later, revealed⟩ := known
  refine ⟨rfl, perturbed, atCase, within, input :: inputs, ?_, revealed.cons admitted agreed⟩
  rw [List.length_cons]
  omega

theorem FromPair.mono {base sibling : Aggregate A} {step last step' last' : Nat}
    {report : Leak P (View.Output P A.State)} (sooner : step' ≤ step) (longer : last ≤ last')
    (known : FromPair excluding case p q base sibling step last report) :
    FromPair excluding case p q base sibling step' last' report := by
  obtain ⟨viewer, perturbed, atCase, within, inputs, later, revealed⟩ := known
  exact ⟨viewer, perturbed, atCase, by omega, inputs, by omega, revealed⟩

/-- The steps of one pair, by induction on how many are left. -/
theorem leakSteps_yields (left step : Nat) (base sibling : Aggregate A) (pos : DrawPos) (runner : R)
    (agreed : (seenBy q base == seenBy q sibling) = true) :
    Yields (Explained arbitrary.toAggregateArbitrary (FromPair excluding case p q base sibling step (step + left)))
      (fun _ => True)
      (leakSteps arbitrary excluding seed case p q left step base sibling pos runner) := by
  induction left generalizing step base sibling pos runner with
  | zero => trivial
  | succ left ih =>
    rw [leakSteps]
    split
    · trivial
    split
    · rename_i none
      exact .noValue (.command none)
    rename_i cmd runner _
    split
    · -- an excluded command is skipped, but counts as a step
      refine (ih (step + 1) base sibling pos runner agreed).widen fun failure => ?_
      exact Explained.mono fun report known => known.mono _ _ _ _ (by omega) (by omega)
    · rename_i included
      let input := (cmd, arbitrary.testCtx (.at seed pos) (.ofNat step))
      have admitted : Admitted excluding input := Bool.eq_false_iff.mpr included
      have compared := assertViewsEqual_yields arbitrary excluding case p q (base.handled input)
        (sibling.handled input) (step + 1)
      refine Yields.bind (compared.widen fun failure => ?_) fun _ after => ?_
      · exact Explained.mono fun report known =>
          (known.mono _ _ _ _ (Nat.le_refl _) (by omega)).cons _ _ _ _ admitted agreed
      · refine (ih (step + 1) _ _ _ runner after).widen fun failure => ?_
        exact Explained.mono fun report known =>
          (known.mono _ _ _ _ (Nat.le_refl _) (by omega)).cons _ _ _ _ admitted agreed

/-- One step with a command that is not excluded. -/
theorem leakSteps_sampled {left step : Nat} {base : Aggregate A} {pos : DrawPos} {runner runner' : R}
    {cmd : A.Command} (live : isTerminal base.phase = false)
    (sampled : arbitrary.commandStrategy base.state runner = some (cmd, runner'))
    {input : A.Command × A.Ctx} (made : input = (cmd, arbitrary.testCtx (.at seed pos) (.ofNat step)))
    (admitted : Admitted excluding input) (sibling : Aggregate A) :
    leakSteps arbitrary excluding seed case p q (left + 1) step base sibling pos runner =
      (assertViewsEqual (base.handled input) (sibling.handled input) q p case (step + 1) >>= fun _ =>
        leakSteps arbitrary excluding seed case p q left (step + 1) (base.handled input)
          (sibling.handled input) ((ctxDraws (base.handle input.1 input.2).2.2).getD pos)
          runner') := by
  subst made
  have included := Bool.eq_false_iff.mp admitted
  rw [leakSteps, if_neg (Bool.eq_false_iff.mp live), sampled]
  exact if_neg included

/-- An aggregate is never told apart from itself. -/
theorem leakSteps_self [ReflBEq (View.Output P A.State)]
    (total : ∀ state runner, arbitrary.commandStrategy state runner ≠ none) (left step : Nat)
    (aggregate : Aggregate A) (pos : DrawPos) (runner : R) :
    ∃ runner',
      leakSteps arbitrary excluding seed case p q left step aggregate aggregate pos runner =
        .ok runner' := by
  induction left generalizing step aggregate pos runner with
  | zero => exact ⟨runner, rfl⟩
  | succ left ih =>
    cases terminal : isTerminal aggregate.phase with
    | true => exact ⟨runner, by rw [leakSteps, if_pos terminal]⟩
    | false =>
      obtain ⟨⟨cmd, after⟩, sampled⟩ := Option.ne_none_iff_exists'.mp (total aggregate.state runner)
      let input := (cmd, arbitrary.testCtx (.at seed pos) (.ofNat step))
      cases excluded : excluding.contains (EventKind.variantName cmd) with
      | true =>
        obtain ⟨runner', later⟩ := ih (step + 1) aggregate pos after
        refine ⟨runner', ?_⟩
        rw [leakSteps, if_neg (Bool.eq_false_iff.mp terminal), sampled]
        exact (if_pos excluded).trans later
      | false =>
        rw [leakSteps_sampled arbitrary excluding seed case p q terminal sampled rfl excluded]
        rw [assertViewsEqual_agree case p q BEq.rfl]
        exact ih _ _ _ _

/-- Two aggregates that the first command tells apart are caught. -/
theorem leakSteps_caught (left : Nat) (base sibling : Aggregate A) {runner runner' : R}
    {cmd : A.Command} (live : isTerminal base.phase = false)
    (sampled : arbitrary.commandStrategy base.state runner = some (cmd, runner'))
    (admitted : Admitted excluding (cmd, arbitrary.testCtx (.at seed 0) 0))
    {base' sibling' : Aggregate A}
    (reached : base.handled (cmd, arbitrary.testCtx (.at seed 0) 0) = base')
    (reached' : sibling.handled (cmd, arbitrary.testCtx (.at seed 0) 0) = sibling')
    (differ : (seenBy q base' == seenBy q sibling') = false) :
    leakSteps arbitrary excluding seed case p q (left + 1) 0 base sibling 0 runner =
      .error (.leak ⟨q, p, 1, seenBy q base', seenBy q sibling', case⟩) := by
  subst reached reached'
  refine (leakSteps_sampled arbitrary excluding seed case p q live sampled rfl admitted
    sibling).trans ?_
  exact congrArg (· >>= _) (assertViewsEqual_differ case p q differ 1)

variable [BEq P]

theorem leakPair_refl (same : (p == q) = true) (maxSteps : Nat) (baseState : A.State) (runner : R) :
    leakPair arbitrary excluding seed case p q maxSteps baseState runner = .ok runner :=
  if_pos same

/-- A pair that `new` accepts and that looks alike at first goes through the steps. -/
theorem leakPair_accepted (maxSteps : Nat) {baseState siblingState : A.State} {runner : R}
    (distinct : (p == q) = false)
    (resampled : arbitrary.resampleHidden baseState p (.at seed 0) = siblingState)
    (baseAccepted : Aggregate.new baseState = .ok ⟨baseState⟩)
    (siblingAccepted : Aggregate.new siblingState = .ok ⟨siblingState⟩)
    (agreed : (seenBy q (⟨baseState⟩ : Aggregate A) == seenBy q ⟨siblingState⟩) = true) :
    leakPair arbitrary excluding seed case p q maxSteps baseState runner =
      leakSteps arbitrary excluding seed case p q maxSteps 0 ⟨baseState⟩ ⟨siblingState⟩ 0 runner := by
  unfold leakPair
  rw [if_neg (Bool.eq_false_iff.mp distinct)]
  dsimp only
  rw [resampled, baseAccepted, siblingAccepted]
  dsimp only
  rw [assertViewsEqual_agree case p q agreed, Lib.ok_bind]

/-- One pair of principals. -/
theorem leakPair_yields (maxSteps : Nat) (baseState : A.State) (runner : R) :
    Yields
      (Explained arbitrary.toAggregateArbitrary fun report => (p == q) = false ∧ (A.phase baseState == initial) = true ∧
        (A.phase (arbitrary.resampleHidden baseState p (.at seed 0)) == initial) = true ∧
        FromPair excluding case p q ⟨baseState⟩ ⟨arbitrary.resampleHidden baseState p (.at seed 0)⟩
          0 maxSteps report)
      (fun _ => True)
      (leakPair arbitrary excluding seed case p q maxSteps baseState runner) := by
  unfold leakPair
  split
  · trivial
  rename_i different
  dsimp only
  split
  · rename_i base sibling accepted accepted'
    obtain ⟨baseInitial, rfl⟩ := Aggregate.new_ok accepted
    obtain ⟨siblingInitial, rfl⟩ := Aggregate.new_ok accepted'
    let sibling := arbitrary.resampleHidden baseState p (.at seed 0)
    have compared := assertViewsEqual_yields arbitrary excluding case p q ⟨baseState⟩ ⟨sibling⟩ 0
    have steps := leakSteps_yields arbitrary excluding seed case p q maxSteps 0 ⟨baseState⟩ ⟨sibling⟩
      0 runner
    have distinct : (p == q) = false := Bool.eq_false_iff.mpr different
    refine Yields.bind (compared.widen fun failure => ?_) fun _ agreed =>
      (steps agreed).widen fun failure => ?_
    · exact Explained.mono fun report known => ⟨distinct, baseInitial, siblingInitial,
        known.mono _ _ _ _ (Nat.le_refl 0) (Nat.zero_le _)⟩
    · exact Explained.mono fun report known => ⟨distinct, baseInitial, siblingInitial,
        known.mono _ _ _ _ (Nat.le_refl 0) (by omega)⟩
  · trivial

end Pair

variable [BEq P]

/-- What a report means: the state that the strategy gave and its sibling are told apart. -/
structure Genuine (params : DriveParams) (report : Leak P (View.Output P A.State)) : Prop where
  case_lt : report.case < params.cases
  step_le : report.step ≤ params.maxSteps
  distinct : (report.perturbed == report.viewer) = false
  sampled : ∃ runner baseState runner',
    arbitrary.initialStateStrategy runner = some (baseState, runner') ∧
    report.perturbed ∈ arbitrary.principals baseState ∧
    report.viewer ∈ arbitrary.principals baseState ∧
    (A.phase baseState == initial) = true ∧
    ∃ sibling, sibling =
        arbitrary.resampleHidden baseState report.perturbed
          (.at (runSeed params.seed report.case) 0) ∧
      (A.phase sibling == initial) = true ∧
      ∃ inputs, inputs.length ≤ report.step ∧
        Revealed excluding ⟨baseState⟩ ⟨sibling⟩ report inputs

/-- The cases, by induction on how many are left. -/
theorem leakCases_yields (params : DriveParams) (left : Nat) (case : UInt32) (runner : R)
    (bound : case.toNat + left ≤ params.cases.toNat) :
    Yields (Explained arbitrary.toAggregateArbitrary (Genuine arbitrary excluding params)) (fun _ => True)
      (leakCases arbitrary excluding params left case runner) := by
  induction left generalizing case runner with
  | zero => trivial
  | succ left ih =>
    rw [leakCases]
    split
    · rename_i none
      exact .noValue (.initial none)
    rename_i baseState after sampled
    have small := params.cases.toNat_lt
    have next : (case + 1).toNat + left ≤ params.cases.toNat := by
      rw [UInt32.toNat_add]
      have : (1 : UInt32).toNat = 1 := rfl
      omega
    have inRange : case < params.cases := by
      rw [UInt32.lt_iff_toNat_lt]
      omega
    refine Yields.bind (?_ : Yields _ (fun _ => True) _) fun runner _ => ih (case + 1) runner next
    refine Yields.foldlM (fun _ _ => True) (fun _ p _ runner whole _ => ?_) trivial
    refine Yields.foldlM (fun _ _ => True) (fun _ q _ runner whole' _ => ?_) trivial
    refine (leakPair_yields arbitrary excluding _ case p q params.maxSteps baseState
      runner).widen fun failure => Explained.mono fun report known => ?_
    obtain ⟨distinct, baseInitial, siblingInitial, rfl, rfl, rfl, within, inputs, shorter,
      revealed⟩ := known
    have perturbed : report.perturbed ∈ arbitrary.principals baseState := by simp [whole]
    have viewer : report.viewer ∈ arbitrary.principals baseState := by simp [whole']
    exact ⟨inRange, within, distinct, _, baseState, after, sampled, perturbed, viewer, baseInitial,
      _, rfl, siblingInitial, inputs, by omega, revealed⟩

/-- `leak_test!` passes, or some strategy has no value to give, or the leak it reports is one. -/
theorem runLeak_yields (seededRunner : UInt64 → R) (params : DriveParams) :
    Yields (Explained arbitrary.toAggregateArbitrary (Genuine arbitrary excluding params)) (fun _ => True)
      (runLeak arbitrary excluding seededRunner params) :=
  leakCases_yields arbitrary excluding params params.cases.toNat 0 _ (by simp)

/-- A relation that holds between a state and its siblings, and that no command breaks but the
excluded ones, leaves nothing to report. -/
theorem runLeak_unwinding [ReflBEq (View.Output P A.State)]
    (Alike : P → Aggregate A → Aggregate A → Prop)
    (unwinding : ∀ viewer, Unwinding Aggregate.handled (seenBy viewer) (Admitted excluding)
      (Alike viewer))
    (siblings : ∀ state viewer perturbed entropy, (perturbed == viewer) = false →
      Alike viewer ⟨state⟩ ⟨arbitrary.resampleHidden state perturbed entropy⟩)
    (seededRunner : UInt64 → R) (params : DriveParams) :
    Yields (fun failure => failure = .noValue ∧ arbitrary.Gap) (fun _ => True)
      (runLeak arbitrary excluding seededRunner params) := by
  refine (leakCases_yields arbitrary excluding params params.cases.toNat 0
    (seededRunner params.seed) (by simp)).widen fun failure explained => ?_
  cases explained with
  | noValue gap => exact ⟨rfl, gap⟩
  | @leak report genuine =>
    obtain ⟨_, _, distinct, _, baseState, _, _, _, _, _, sibling, rfl, _, inputs, _, revealed⟩ :=
      genuine
    have start := siblings baseState report.viewer report.perturbed
      (.at (runSeed params.seed report.case) 0) distinct
    have alike := (unwinding report.viewer).run start inputs revealed.admitted
    have same : (report.baseView == report.siblingView) = true := by
      rw [revealed.baseView, revealed.siblingView, (unwinding report.viewer).seen alike]
      exact BEq.rfl
    exact absurd same (by simp [revealed.differ])

variable {arbitrary excluding}

/-- With strategies that always have a value, the test passes. -/
theorem runLeak_gapless [ReflBEq (View.Output P A.State)]
    (gapless : ¬arbitrary.toAggregateArbitrary.Gap)
    {Alike : P → Aggregate A → Aggregate A → Prop}
    (unwinding : ∀ viewer, Unwinding Aggregate.handled (seenBy viewer) (Admitted excluding)
      (Alike viewer))
    (siblings : ∀ state viewer perturbed entropy, (perturbed == viewer) = false →
      Alike viewer ⟨state⟩ ⟨arbitrary.resampleHidden state perturbed entropy⟩)
    (seededRunner : UInt64 → R) (params : DriveParams) :
    runLeak arbitrary excluding seededRunner params = .ok () := by
  obtain ⟨_, passed, -⟩ := (runLeak_unwinding arbitrary excluding Alike unwinding siblings
    seededRunner params).ends_of fun _ failed => gapless failed.2
  exact passed

end Leak

end Ironstate
