import Ironstate.Aggregate.Testkit

/-!
# Phase hops

`legal_hop` asks the transition function alone: a hop out of a terminal phase, or by an event of a
kind the phase does not accept, passes wherever the function declares it. `legalHop_iff` and
`enforced_iff` set the two sides apart, and `legalHop_exact` says which hops they differ on, for
one hop, for a batch of events and for a run of `test!`.
-/

namespace Ironstate

open StateMachine (isTerminal)
open EventKind (eventVariants)

/-! ## One hop -/

section Hop

variable {P : Type} [StateMachine P] (old new : P)

/-- The phase stays, or the machine at the old phase accepts an event that moves it to the new
one. -/
def Enforced : Prop :=
  (old == new) = true ∨
    ∃ event next, ((Machine.restore old).apply event).1 = .ok next ∧ (next == new) = true

/-- The transition function takes the old phase to the new one on the event. -/
def Declared (event : Event P) : Prop :=
  ∃ next, transition old event = some next ∧ (next == new) = true

/-- The phase changes, by events that the transition function declares and enforcement rejects. -/
def Blocked : Prop :=
  (old == new) = false ∧ (∃ event, Declared old new event) ∧
    ∀ event, Declared old new event → structurallyAllowed old event = false

/-- The phase changes, and no event is declared to change it so. -/
def Undeclared : Prop :=
  (old == new) = false ∧ ∀ event, ¬Declared old new event

theorem enforced_iff :
    Enforced old new ↔ (old == new) = true ∨
      ∃ event, structurallyAllowed old event = true ∧ Declared old new event := by
  unfold Enforced Declared
  simp only [Machine.apply_ok_iff, and_assoc, exists_and_left]
  rfl

variable (free : StateMachine.PayloadFree P)

include free

theorem legalHop_iff :
    legalHop old new = true ↔ (old == new) = true ∨ ∃ event, Declared old new event := by
  unfold legalHop
  cases old == new with
  | true => simp
  | false =>
    rw [if_neg Bool.false_ne_true, List.any_eq_true]
    simp only [Bool.false_eq_true, false_or, free.events, true_and]
    refine exists_congr fun event => ?_
    unfold Declared
    cases transition old event <;> simp

theorem undeclared_iff : Undeclared old new ↔ legalHop old new = false := by
  rw [← Bool.not_eq_true, legalHop_iff old new free, not_or, Bool.not_eq_true, not_exists]
  rfl

theorem Enforced.legalHop {old new : P} (enforced : Enforced old new) :
    legalHop old new = true := by
  rw [legalHop_iff old new free]
  rcases (enforced_iff old new).mp enforced with same | ⟨event, _, declared⟩
  · exact .inl same
  · exact .inr ⟨event, declared⟩

theorem blocked_iff : Blocked old new ↔ legalHop old new = true ∧ ¬Enforced old new := by
  rw [legalHop_iff old new free, enforced_iff, not_or, Bool.not_eq_true, not_exists]
  constructor
  · rintro ⟨moved, declared, rejected⟩
    refine ⟨.inr declared, moved, fun event ⟨allowed, declared⟩ => ?_⟩
    exact absurd (rejected event declared) (by simp [allowed])
  · rintro ⟨same | declared, moved, rejected⟩
    · exact absurd same (by simp [moved])
    · exact ⟨moved, declared, fun event declared =>
        Bool.eq_false_iff.mpr fun allowed => rejected event ⟨allowed, declared⟩⟩

/-- The check and the machine agree on a hop unless it is blocked. -/
theorem legalHop_agrees : (legalHop old new = true ↔ Enforced old new) ↔ ¬Blocked old new := by
  rw [blocked_iff old new free, not_and, Classical.not_not]
  exact ⟨fun agree => agree.mp, fun legal => ⟨legal, fun enforced => enforced.legalHop free⟩⟩

end Hop

/-! ## A batch -/

section Batch

variable {A : AggregateRules}

/-- The events of a batch, each with the state before and after it. -/
def steps : A.State → List A.Event → List (A.State × A.Event × A.State)
  | _, [] => []
  | state, event :: events =>
    (state, event, A.evolve state event) :: steps (A.evolve state event) events

/-- Every invariant holds at every event of the batch. -/
def Holds (invariants : List (AggregateInvariant A)) (state : A.State) (events : List A.Event) :
    Prop :=
  ∀ step ∈ steps state events, ∀ invariant ∈ invariants,
    invariant.holds step.1 step.2.1 step.2.2 = true

variable (invariants : List (AggregateInvariant A)) (cmd : A.Command) (case : UInt32)

/-- What the checks after one event can do. -/
theorem checkEvent_cases (state : A.State) (event : A.Event) :
    (legalHop (A.phase state) (A.phase (A.evolve state event)) = true ∧
      (∀ invariant ∈ invariants, invariant.holds state event (A.evolve state event) = true) ∧
      checkEvent invariants cmd case state event = .ok (A.evolve state event)) ∨
    (legalHop (A.phase state) (A.phase (A.evolve state event)) = false ∧
      checkEvent invariants cmd case state event =
        .error (.illegalHop (A.phase state) (A.phase (A.evolve state event)) event cmd case)) ∨
    ∃ invariant ∈ invariants, invariant.holds state event (A.evolve state event) = false ∧
      checkEvent invariants cmd case state event =
        .error (.invariantViolated invariant.description event state (A.evolve state event) case) := by
  unfold checkEvent
  cases legal : legalHop (A.phase state) (A.phase (A.evolve state event)) with
  | false => exact .inr (.inl ⟨rfl, by simp [legal]⟩)
  | true =>
    cases found : invariants.find? fun invariant =>
        !invariant.holds state event (A.evolve state event) with
    | none =>
      refine .inl ⟨rfl, ?_, by simp [legal, found]⟩
      simpa using List.find?_eq_none.mp found
    | some invariant =>
      refine .inr (.inr ⟨invariant, List.mem_of_find?_eq_some found, ?_, by simp [legal, found]⟩)
      simpa using List.find?_some found

/-- A batch passes when every hop is legal and every invariant holds. -/
theorem checkEvents_ok_iff (state : A.State) (events : List A.Event) :
    (∃ final, checkEvents invariants cmd case state events = .ok final) ↔
      (∀ step ∈ steps state events, legalHop (A.phase step.1) (A.phase step.2.2) = true) ∧
        Holds invariants state events := by
  induction events generalizing state with
  | nil => simp [checkEvents, steps, Holds]
  | cons event events ih =>
    rw [checkEvents]
    unfold Holds at ih ⊢
    simp only [steps, List.forall_mem_cons]
    rcases checkEvent_cases invariants cmd case state event with
      ⟨legal, holds, checked⟩ | ⟨illegal, checked⟩ | ⟨invariant, listed, fails, checked⟩
    · rw [checked]
      exact (ih _).trans
        ⟨fun ⟨hops, later⟩ => ⟨⟨legal, hops⟩, holds, later⟩, fun ⟨⟨_, hops⟩, _, later⟩ => ⟨hops, later⟩⟩
    · rw [checked]
      exact ⟨nofun, fun ⟨⟨legal, _⟩, _⟩ => absurd legal (by simp [illegal])⟩
    · rw [checked]
      exact ⟨nofun, fun ⟨_, holds, _⟩ => absurd (holds invariant listed) (by simp [fails])⟩

/-- What a failed batch reports. -/
theorem checkEvents_error {state : A.State} {events : List A.Event} {failure : TestFailure A}
    (failed : checkEvents invariants cmd case state events = .error failure) :
    ∃ step ∈ steps state events,
      (legalHop (A.phase step.1) (A.phase step.2.2) = false ∧
        failure = .illegalHop (A.phase step.1) (A.phase step.2.2) step.2.1 cmd case) ∨
      ∃ invariant ∈ invariants, invariant.holds step.1 step.2.1 step.2.2 = false ∧
        failure = .invariantViolated invariant.description step.2.1 step.1 step.2.2 case := by
  induction events generalizing state with
  | nil => cases failed
  | cons event events ih =>
    rw [checkEvents] at failed
    rcases checkEvent_cases invariants cmd case state event with
      ⟨legal, holds, checked⟩ | ⟨illegal, checked⟩ | ⟨invariant, listed, fails, checked⟩
    · rw [checked] at failed
      obtain ⟨step, later, reported⟩ := ih failed
      exact ⟨step, List.mem_cons_of_mem _ later, reported⟩
    · rw [checked] at failed
      cases failed
      exact ⟨_, List.mem_cons_self, .inl ⟨illegal, rfl⟩⟩
    · rw [checked] at failed
      cases failed
      exact ⟨_, List.mem_cons_self, .inr ⟨invariant, listed, fails, rfl⟩⟩

/-- What the check of a batch says of its hops. -/
structure BatchChecked (state : A.State) (events : List A.Event) : Prop where
  passes :
    ((∃ final, checkEvents invariants cmd case state events = .ok final) ↔
      (∀ step ∈ steps state events, Enforced (A.phase step.1) (A.phase step.2.2)) ∧
        Holds invariants state events) ↔
    (∀ step ∈ steps state events, ¬Blocked (A.phase step.1) (A.phase step.2.2)) ∨
      (∃ step ∈ steps state events, Undeclared (A.phase step.1) (A.phase step.2.2)) ∨
      ¬Holds invariants state events
  reported : ∀ phaseBefore phaseAfter event cmd' case',
    checkEvents invariants cmd case state events =
      .error (.illegalHop phaseBefore phaseAfter event cmd' case') →
    ¬Enforced phaseBefore phaseAfter
  illegal : Holds invariants state events → ∀ failure,
    checkEvents invariants cmd case state events = .error failure →
      ∃ phaseBefore phaseAfter event, failure = .illegalHop phaseBefore phaseAfter event cmd case

theorem batchChecked (free : StateMachine.PayloadFree A.Phase) (state : A.State)
    (events : List A.Event) : BatchChecked invariants cmd case state events where
  passes := by
    rw [checkEvents_ok_iff]
    by_cases holds : Holds invariants state events
    · simp only [holds, and_true, not_true, or_false]
      constructor
      · intro agree
        by_cases legal : ∀ step ∈ steps state events,
            legalHop (A.phase step.1) (A.phase step.2.2) = true
        · refine .inl fun step listed blocked => ?_
          exact ((blocked_iff _ _ free).mp blocked).2 (agree.mp legal step listed)
        · obtain ⟨step, listed, illegal⟩ : ∃ step ∈ steps state events,
              legalHop (A.phase step.1) (A.phase step.2.2) = false := by
            simpa using legal
          exact .inr ⟨step, listed, (undeclared_iff _ _ free).mpr illegal⟩
      · rintro (clear | ⟨step, listed, undeclared⟩)
        · exact forall₂_congr fun step listed => (legalHop_agrees _ _ free).mpr (clear step listed)
        · have illegal := (undeclared_iff _ _ free).mp undeclared
          constructor
          · intro legal
            exact absurd (legal step listed) (by simp [illegal])
          · intro enforced
            exact absurd ((enforced step listed).legalHop free) (by simp [illegal])
    · simp [holds]
  reported := by
    intro phaseBefore phaseAfter event cmd' case' failed enforced
    obtain ⟨step, _, ⟨illegal, same⟩ | ⟨_, _, _, other⟩⟩ := checkEvents_error _ _ _ failed
    · cases same
      exact absurd (enforced.legalHop free) (by simp [illegal])
    · cases other
  illegal := by
    intro holds failure failed
    obtain ⟨step, listed, ⟨_, same⟩ | ⟨invariant, declared, fails, _⟩⟩ :=
      checkEvents_error _ _ _ failed
    · exact ⟨_, _, _, same⟩
    · exact absurd (holds step listed invariant declared) (by simp [fails])

end Batch

/-! ## A run -/

section Run

variable {A : AggregateRules} {R E : Type} {chacha12 : Seed → UInt64 → UInt32}
variable [EntropySource E] [CtxEntropy A.Ctx E]
variable (arbitrary : AggregateArbitrary A R chacha12)

/-- The batches of one case, each with its number, its command and the state it starts from. -/
def stepBatches (seed : Seed) (case : UInt32) :
    Nat → Nat → Aggregate A → DrawPos → R → List (UInt32 × A.Command × A.State × List A.Event)
  | 0, _, _, _, _ => []
  | left + 1, step, agg, pos, runner =>
    if isTerminal agg.phase then []
    else
      match arbitrary.commandStrategy agg.state runner with
      | none => []
      | some (cmd, runner) =>
        match agg.handle cmd (arbitrary.testCtx (.at seed pos) (.ofNat step)) with
        | (.error _, agg, _) => stepBatches seed case left (step + 1) agg pos runner
        | (.ok events, after, ctx) =>
          (case, cmd, agg.state, events) ::
            stepBatches seed case left (step + 1) after ((ctxDraws ctx).getD pos) runner

/-- The batches of all cases. -/
def caseBatches (params : DriveParams) (invariants : List (AggregateInvariant A)) :
    Nat → UInt32 → R → List (UInt32 × A.Command × A.State × List A.Event)
  | 0, _, _ => []
  | left + 1, case, runner =>
    match arbitrary.initialStateStrategy runner with
    | none => []
    | some (initial, runner) =>
      match Aggregate.new initial with
      | .error _ => caseBatches params invariants left (case + 1) runner
      | .ok agg =>
        stepBatches arbitrary (runSeed params.seed case) case params.maxSteps 0 agg 0 runner ++
          match runSteps arbitrary invariants (runSeed params.seed case) case params.maxSteps 0 agg
              0 runner with
          | .error _ => []
          | .ok runner => caseBatches params invariants left (case + 1) runner

variable (invariants : List (AggregateInvariant A))

/-- The batch passes. -/
def Passes (batch : UInt32 × A.Command × A.State × List A.Event) : Prop :=
  ∃ final, checkEvents invariants batch.2.1 batch.1 batch.2.2.1 batch.2.2.2 = .ok final

theorem runSteps_ok {seed : Seed} {case : UInt32} {left step : Nat} {agg : Aggregate A}
    {pos : DrawPos} {runner runner' : R}
    (passed : runSteps arbitrary invariants seed case left step agg pos runner = .ok runner') :
    ∀ batch ∈ stepBatches arbitrary seed case left step agg pos runner,
      Passes invariants batch := by
  induction left generalizing step agg pos runner with
  | zero => nofun
  | succ left ih =>
    rw [runSteps] at passed
    rw [stepBatches]
    cases terminal : isTerminal agg.phase with
    | true => simp
    | false =>
      rw [terminal, if_neg Bool.false_ne_true] at passed
      rw [if_neg Bool.false_ne_true]
      cases sampled : arbitrary.commandStrategy agg.state runner with
      | none => simp
      | some drawn =>
        obtain ⟨cmd, runner⟩ := drawn
        simp only [sampled] at passed
        simp only
        generalize agg.handle cmd (arbitrary.testCtx (.at seed pos) (.ofNat step)) = handled
          at passed ⊢
        obtain ⟨rejection | events, after, ctx⟩ := handled
        · exact ih passed
        · simp only at passed ⊢
          cases checked : checkEvents invariants cmd case agg.state events with
          | error failure => simp [checked] at passed
          | ok final =>
            simp only [checked] at passed
            exact List.forall_mem_cons.mpr ⟨⟨final, checked⟩, ih passed⟩

/-- A run that passes has passed every batch. -/
theorem runCases_ok {params : DriveParams} {left : Nat} {case : UInt32} {runner : R}
    (passed : runCases arbitrary params invariants left case runner = .ok ()) :
    ∀ batch ∈ caseBatches arbitrary params invariants left case runner,
      Passes invariants batch := by
  induction left generalizing case runner with
  | zero => nofun
  | succ left ih =>
    rw [runCases] at passed
    rw [caseBatches]
    cases sampled : arbitrary.initialStateStrategy runner with
    | none => simp
    | some drawn =>
      obtain ⟨initial, runner⟩ := drawn
      simp only [sampled] at passed
      simp only
      cases made : Aggregate.new initial with
      | error e =>
        simp only [made] at passed
        exact ih passed
      | ok agg =>
        simp only [made] at passed
        simp only
        cases ran : runSteps arbitrary invariants (runSeed params.seed case) case params.maxSteps 0
            agg 0 runner with
        | error failure => simp [ran] at passed
        | ok runner =>
          simp only [ran] at passed
          intro batch listed
          rcases List.mem_append.mp listed with first | later
          · exact runSteps_ok arbitrary invariants ran batch first
          · exact ih passed batch later

/-- The check of `test!` accepts the hops that the phase machine makes, except for those that its
transition function declares and its enforcement blocks. -/
theorem legalHop_exact (free : StateMachine.PayloadFree A.Phase) :
    (∀ old new : A.Phase, (legalHop old new = true ↔ Enforced old new) ↔ ¬Blocked old new) ∧
    (∀ (invariants : List (AggregateInvariant A)) (cmd : A.Command) (case : UInt32)
      (state : A.State) (events : List A.Event), BatchChecked invariants cmd case state events) ∧
    ∀ (params : DriveParams) (invariants : List (AggregateInvariant A)) (seededRunner : UInt64 → R),
      let batches := caseBatches arbitrary params invariants params.cases.toNat 0
        (seededRunner params.seed)
      (∀ batch ∈ batches, ∀ step ∈ steps batch.2.2.1 batch.2.2.2,
        ¬Blocked (A.phase step.1) (A.phase step.2.2)) →
      runTest arbitrary seededRunner params invariants = .ok () →
      ∀ batch ∈ batches, ∀ step ∈ steps batch.2.2.1 batch.2.2.2,
        Enforced (A.phase step.1) (A.phase step.2.2) := by
  refine ⟨fun old new => legalHop_agrees old new free,
    fun invariants cmd case => batchChecked invariants cmd case free, ?_⟩
  intro params invariants seededRunner batches clear passed batch listed step taken
  have passes := runCases_ok arbitrary invariants passed batch listed
  have legal := ((checkEvents_ok_iff _ _ _ _ _).mp passes).1 step taken
  exact ((legalHop_agrees _ _ free).mpr (clear batch listed step taken)).mp legal

end Run

/-! ## A gate that is reopened -/

namespace Fixture

inductive Gate where
  | ajar
  | locked
  | bricked
  deriving DecidableEq

inductive GateStep where
  | lock
  | push
  | brick
  | reopen
  deriving DecidableEq

instance : EventKind GateStep where
  kinds _ := none
  variantName
    | .lock => "Lock"
    | .push => "Push"
    | .brick => "Brick"
    | .reopen => "Reopen"
  eventVariants := [.lock, .push, .brick, .reopen]

/-- The gate is terminal when it is bricked up, and takes a key when it is locked. The transition
function opens it again in both phases. -/
instance : StateMachine Gate where
  Event := GateStep
  transition
    | .ajar, .lock => some .locked
    | .locked, .push => some .ajar
    | .ajar, .brick => some .bricked
    | .bricked, .reopen => some .ajar
    | _, _ => none
  initial := .ajar
  isTerminal gate := gate == .bricked
  restriction
    | .locked => some [⟨"key"⟩]
    | _ => none
  stateVariants := [.ajar, .locked, .bricked]
  variantName
    | .ajar => "Ajar"
    | .locked => "Locked"
    | .bricked => "Bricked"

theorem GateStep.listed (step : GateStep) : step ∈ EventKind.eventVariants := by
  cases step <;> decide

theorem Gate.payloadFree : StateMachine.PayloadFree Gate where
  distinct := by decide
  states gate := by cases gate <;> decide
  events := GateStep.listed

inductive GateCommand where
  | slam

instance : EventKind GateCommand := ⟨fun _ => none, fun _ => "Slam", [.slam]⟩

/-- The aggregate that is its own phase: a slam bricks the gate up and opens it again. -/
def Gates : AggregateRules where
  State := Gate
  Phase := Gate
  Command := GateCommand
  Event := GateStep
  Error := Empty
  Ctx := OwnedDeterministicCtx (SeededEntropy fun _ _ => 0) Unit
  phase gate := gate
  decide _ _ ctx := (.ok [.brick, .reopen], ctx)
  evolve gate step := (transition gate step).getD gate
  eventTypeName := "GateStep"

instance : CtxEntropy Gates.Ctx (SeededEntropy fun _ _ => 0) :=
  inferInstanceAs
    (CtxEntropy (OwnedDeterministicCtx (SeededEntropy fun _ _ => 0) Unit) _)

/-- Runs that start at an open gate and slam it. -/
def gates : AggregateArbitrary Gates Unit (fun _ _ => 0) where
  initialStateStrategy runner := some (Gate.ajar, runner)
  commandStrategy _ runner := some (GateCommand.slam, runner)
  testCtx entropy _ := (⟨entropy, (), 0⟩ : OwnedDeterministicCtx _ Unit)

end Fixture

open Fixture in
/-- An open gate may be locked. -/
theorem legalHop_exact_lock :
    ¬Blocked Gate.ajar Gate.locked ∧
      (legalHop Gate.ajar Gate.locked = true ↔ Enforced Gate.ajar Gate.locked) := by
  have clear : ¬Blocked Gate.ajar Gate.locked := fun blocked =>
    absurd (blocked.2.2 GateStep.lock ⟨Gate.locked, rfl, rfl⟩) (by decide)
  exact ⟨clear, ((legalHop_exact gates Gate.payloadFree).1 _ _).mpr clear⟩

open Fixture in
/-- A bricked gate is opened and a locked one is pushed open: `apply` rejects both, and both pass,
as hops and in a run of `test!`. -/
theorem legalHop_reopens :
    StateMachine.PayloadFree Gate ∧
      (legalHop Gate.bricked Gate.ajar = true ∧ ¬Enforced Gate.bricked Gate.ajar) ∧
      (legalHop Gate.locked Gate.ajar = true ∧ ¬Enforced Gate.locked Gate.ajar) ∧
      runTest gates (fun _ => ()) ⟨1, 1, 0⟩ [] = .ok () := by
  refine ⟨Gate.payloadFree, ⟨by decide, ?_⟩, ⟨by decide, ?_⟩, ?_⟩
  · rintro (same | ⟨event, next, accepted, -⟩)
    · cases same
    · cases accepted
  · rintro (same | ⟨event, next, accepted, -⟩)
    · cases same
    · cases accepted
  · rfl

end Ironstate
