import Ironstate.Aggregate.Determinism
import Ironstate.Aggregate.Runs
import Ironstate.Lib.Yields

/-!
# What `determinism_test!` blames

Two runs of one case are alike until a command that they answer differently (`Diverges`), and so
are their digests (`digestSteps_agree`). So a failure that the driver reports is one: `decide` or
`evolve` have read the world (`runDeterminism_yields`).
-/

namespace Ironstate

open StateMachine (isTerminal)
open Lib (Yields)

/-- What the functions answer does not depend on the world. -/
structure Ambient.Blind {A : AggregateRules} {W : Type} (ambient : Ambient A W) : Prop where
  decide : ∀ state cmd ctx world world',
    (ambient.decide state cmd ctx world).1 = (ambient.decide state cmd ctx world').1
  evolve : ∀ state event world world',
    (ambient.evolve state event world).1 = (ambient.evolve state event world').1

section Blind

variable {A : AggregateRules} {W : Type} {ambient : Ambient A W}

theorem Ambient.Blind.evolveAll (blind : ambient.Blind) (events : List A.Event) (state : A.State)
    (world world' : W) :
    (ambient.evolveAll events state world).1 = (ambient.evolveAll events state world').1 := by
  induction events generalizing state world world' with
  | nil => rfl
  | cons event events ih =>
    rw [Ambient.evolveAll, Ambient.evolveAll]
    dsimp only
    rw [blind.evolve state event world world']
    exact ih _ _ _

theorem Ambient.Blind.handleIn (blind : ambient.Blind) (aggregate : Aggregate A) (cmd : A.Command)
    (ctx : A.Ctx) (world world' : W) :
    (aggregate.handleIn ambient cmd ctx world).1 =
      (aggregate.handleIn ambient cmd ctx world').1 := by
  have decided := blind.decide aggregate.state cmd ctx world world'
  rcases first : ambient.decide aggregate.state cmd ctx world with ⟨⟨answer, drawn⟩, left⟩
  rcases second : ambient.decide aggregate.state cmd ctx world' with ⟨decided', left'⟩
  rw [first, second] at decided
  obtain rfl : (answer, drawn) = decided' := decided
  unfold Aggregate.handleIn
  rw [first, second]
  cases aggregate.structuralCheck cmd with
  | some rejection => rfl
  | none =>
    cases answer with
    | error error => rfl
    | ok events =>
      have evolved := blind.evolveAll events aggregate.state left left'
      exact congrArg (fun state => (Except.ok events, Aggregate.mk state, drawn)) evolved

end Blind

section Drive

variable {A : AggregateRules} {R W D E : Type} {chacha12 : Seed → UInt64 → UInt32}
variable [EntropySource E] [CtxEntropy A.Ctx E]
variable (ambient : Ambient A W) (arbitrary : AggregateArbitrary A R chacha12)
variable (digest128 : A.State → D)

/-- The position after a command. -/
def posAfter (pos : DrawPos) :
    Except (Rejection A) (List A.Event) × Aggregate A × A.Ctx → DrawPos
  | (.error _, _, _) => pos
  | (.ok _, _, ctx) => (ctxDraws ctx).getD pos

/-- Two runs, each in its own world, are alike until they answer a command differently. -/
def Diverges (seed : Seed) : Nat → Nat → Aggregate A → DrawPos → R → W → W → Prop
  | 0, _, _, _, _, _, _ => False
  | left + 1, step, agg, pos, runner, world, world' =>
    isTerminal agg.phase = false ∧
      ∃ cmd runner', arbitrary.commandStrategy agg.state runner = some (cmd, runner') ∧
        let ctx := arbitrary.testCtx (.at seed pos) (.ofNat step)
        let handled := agg.handleIn ambient cmd ctx world
        let handled' := agg.handleIn ambient cmd ctx world'
        handled.1 ≠ handled'.1 ∨ handled.1 = handled'.1 ∧
          Diverges seed left (step + 1) handled.1.2.1 (posAfter pos handled.1) runner' handled.2
            handled'.2

variable {ambient arbitrary}

/-- Functions that are blind to the world do not diverge. -/
theorem Diverges.sighted {seed : Seed} {left step : Nat} {agg : Aggregate A} {pos : DrawPos}
    {runner : R} {world world' : W}
    (diverges : Diverges ambient arbitrary seed left step agg pos runner world world') :
    ¬ambient.Blind := by
  intro blind
  induction left generalizing step agg pos runner world world' with
  | zero => exact diverges
  | succ left ih =>
    obtain ⟨_, cmd, runner', _, differ | ⟨_, later⟩⟩ := diverges
    · exact differ (blind.handleIn agg cmd _ world world')
    · exact ih later

/-- Runs that do not diverge have the same digests. -/
theorem digestSteps_agree (seed : Seed) {left step : Nat} {agg : Aggregate A} {pos : DrawPos}
    {runner : R} {world world' : W}
    (together : ¬Diverges ambient arbitrary seed left step agg pos runner world world')
    (digests : List D) :
    (digestSteps ambient arbitrary digest128 seed left step agg pos runner world digests).map
        Prod.fst =
      (digestSteps ambient arbitrary digest128 seed left step agg pos runner world' digests).map
        Prod.fst := by
  induction left generalizing step agg pos runner world world' digests with
  | zero => rfl
  | succ left ih =>
    rw [digestSteps, digestSteps]
    cases terminal : isTerminal agg.phase with
    | true => rfl
    | false =>
      cases sampled : arbitrary.commandStrategy agg.state runner with
      | none => rfl
      | some sample =>
        obtain ⟨cmd, runner'⟩ := sample
        have alike : (agg.handleIn ambient cmd (arbitrary.testCtx (.at seed pos) (.ofNat step))
            world).1 = (agg.handleIn ambient cmd (arbitrary.testCtx (.at seed pos) (.ofNat step))
              world').1 := by
          refine Classical.byContradiction fun differ => together ?_
          exact ⟨terminal, cmd, runner', sampled, .inl differ⟩
        have later := fun diverges =>
          together ⟨terminal, cmd, runner', sampled, .inr ⟨alike, diverges⟩⟩
        dsimp only
        generalize agg.handleIn ambient cmd (arbitrary.testCtx (.at seed pos) (.ofNat step)) world =
          handled at alike later ⊢
        generalize agg.handleIn ambient cmd (arbitrary.testCtx (.at seed pos) (.ofNat step)) world' =
          handled' at alike later ⊢
        obtain ⟨⟨answer, agg', ctx'⟩, left'⟩ := handled
        obtain ⟨_, left''⟩ := handled'
        dsimp only at alike
        subst alike
        cases answer with
        | error error => exact ih later digests
        | ok events => exact ih later (digests ++ [digest128 agg'.state])

variable {digest128} {seededRunner : UInt64 → R}

/-- Two runs of one case with other digests have started alike, and diverged. -/
theorem oneRun_diverges {seed : UInt64} {case : UInt32} {maxSteps : Nat} {before before' after after' : W}
    {digests digests' : List D}
    (ran : oneRun ambient arbitrary digest128 seededRunner seed case maxSteps before =
      .ok (digests, after))
    (ran' : oneRun ambient arbitrary digest128 seededRunner seed case maxSteps before' =
      .ok (digests', after'))
    (differ : digests ≠ digests') :
    ∃ initial runner, arbitrary.initialStateStrategy (seededRunner (seed + case.toUInt64 + 1)) =
        some (initial, runner) ∧ Aggregate.new initial = .ok ⟨initial⟩ ∧
      Diverges ambient arbitrary (runSeed seed case) maxSteps 0 ⟨initial⟩ 0 runner before
        before' := by
  unfold oneRun at ran ran'
  cases sampled : arbitrary.initialStateStrategy (seededRunner (seed + case.toUInt64 + 1)) with
  | none =>
    rw [sampled] at ran
    cases ran
  | some sample =>
    obtain ⟨initial, runner⟩ := sample
    rw [sampled] at ran ran'
    dsimp only at ran ran'
    cases started : Aggregate.new (A := A) initial with
    | error error =>
      rw [started] at ran ran'
      cases ran
      cases ran'
      exact absurd rfl differ
    | ok agg =>
      obtain ⟨_, rfl⟩ := Aggregate.new_ok started
      rw [started] at ran ran'
      refine ⟨initial, runner, rfl, started, Classical.byContradiction fun together => differ ?_⟩
      have agree := digestSteps_agree digest128 (runSeed seed case) together []
      rw [show digestSteps _ _ _ _ _ _ _ _ _ _ _ = _ from ran,
        show digestSteps _ _ _ _ _ _ _ _ _ _ _ = _ from ran'] at agree
      exact Except.ok.inj agree

variable (ambient arbitrary digest128 seededRunner) in
/-- What a failure says is so: a strategy has a gap, or two runs of one case, the second after the
first, have diverged, and `decide` or `evolve` are not blind to the world. -/
inductive Nondeterministic (params : DriveParams) : DeterminismFailure D → Prop
  | noValue (gap : arbitrary.Gap) : Nondeterministic params .noValue
  | diverged {case : UInt32} {digestsA digestsB : List D} {before between after : W}
      {initial : A.State} {runner : R} (inRange : case.toNat < params.cases.toNat)
      (ranA : oneRun ambient arbitrary digest128 seededRunner params.seed case params.maxSteps
        before = .ok (digestsA, between))
      (ranB : oneRun ambient arbitrary digest128 seededRunner params.seed case params.maxSteps
        between = .ok (digestsB, after))
      (sampled : arbitrary.initialStateStrategy
        (seededRunner (params.seed + case.toUInt64 + 1)) = some (initial, runner))
      (diverges : Diverges ambient arbitrary (runSeed params.seed case) params.maxSteps 0 ⟨initial⟩
        0 runner before between)
      (sighted : ¬ambient.Blind) :
      Nondeterministic params (.nondeterminism digestsA digestsB case)

variable (ambient arbitrary digest128 seededRunner) in
/-- A run fails for want of a value only. -/
theorem oneRun_yields (params : DriveParams) (seed : UInt64) (case : UInt32) (world : W) :
    Yields (Nondeterministic ambient arbitrary digest128 seededRunner params) (fun _ => True)
      (oneRun ambient arbitrary digest128 seededRunner seed case params.maxSteps world) := by
  have loop : ∀ (left step : Nat) (agg : Aggregate A) (pos : DrawPos) (runner : R) (world : W)
      (digests : List D),
      Yields (Nondeterministic ambient arbitrary digest128 seededRunner params) (fun _ => True)
        (digestSteps ambient arbitrary digest128 (runSeed seed case) left step agg pos runner world
          digests) := by
    intro left
    induction left with
    | zero => exact fun _ _ _ _ _ _ => trivial
    | succ left ih =>
      intro step agg pos runner world digests
      rw [digestSteps]
      split
      · trivial
      split
      · rename_i none
        exact .noValue (.command none)
      dsimp only
      split
      · exact ih _ _ _ _ _ _
      · exact ih _ _ _ _ _ _
  unfold oneRun
  split
  · rename_i none
    exact .noValue (.initial none)
  split
  · trivial
  · exact loop _ _ _ _ _ _ _

variable [DecidableEq D]

theorem determinismCases_yields (params : DriveParams) (left : Nat) (case : UInt32)
    (bound : case.toNat + left ≤ params.cases.toNat) (world : W) :
    Yields (Nondeterministic ambient arbitrary digest128 seededRunner params) (fun _ => True)
      (determinismCases ambient arbitrary digest128 seededRunner params left case world) := by
  induction left generalizing case world with
  | zero => trivial
  | succ left ih =>
    have small := params.cases.toNat_lt
    have next : (case + 1).toNat + left ≤ params.cases.toNat := by
      rw [UInt32.toNat_add]
      have : (1 : UInt32).toNat = 1 := rfl
      omega
    rw [determinismCases]
    cases ranA : oneRun ambient arbitrary digest128 seededRunner params.seed case params.maxSteps
        world with
    | error failure =>
      have yields := oneRun_yields ambient arbitrary digest128 seededRunner params params.seed
        case world
      rw [ranA] at yields
      exact yields
    | ok first =>
    obtain ⟨digestsA, between⟩ := first
    cases ranB : oneRun ambient arbitrary digest128 seededRunner params.seed case params.maxSteps
        between with
    | error failure =>
      have yields := oneRun_yields ambient arbitrary digest128 seededRunner params params.seed
        case between
      rw [ranB] at yields
      simp only [Lib.ok_bind, ranB]
      exact yields
    | ok second =>
    obtain ⟨digestsB, after⟩ := second
    simp only [Lib.ok_bind, ranB]
    by_cases same : digestsA = digestsB
    · rw [if_pos same]
      exact ih _ next _
    · rw [if_neg same]
      obtain ⟨initial, runner, sampled, _, diverges⟩ := oneRun_diverges ranA ranB same
      exact .diverged (by omega) ranA ranB sampled diverges diverges.sighted

/-- `determinism_test!` passes, or some strategy has no value to give, or it has found two runs of
one case that are alike until `decide` or `evolve` answer otherwise than they did before. -/
theorem runDeterminism_yields (params : DriveParams) (world : W) :
    Yields (Nondeterministic ambient arbitrary digest128 seededRunner params) (fun _ => True)
      (runDeterminism ambient arbitrary digest128 seededRunner params world) := by
  refine Yields.bind (determinismCases_yields params params.cases.toNat 0 (by simp) world) ?_
  intro later _
  have last := oneRun_yields ambient arbitrary digest128 seededRunner params params.seed 0 later
  refine Yields.bind last ?_
  intro _ _
  exact trivial

end Drive

end Ironstate
