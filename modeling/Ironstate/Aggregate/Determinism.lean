import Ironstate.Aggregate.Testkit

/-!
# The driver of `determinism_test!`

`testkit.rs`. What `decide` and `evolve` read beside their arguments (a clock, a counter, the order
a hash map happens to iterate in) is a world, which they may change as well; the runs of the driver
follow one another in it. The digest is a function of the state. Where `write_golden` writes a file,
the digest is answered.
-/

namespace Ironstate

open StateMachine (isTerminal)

/-- `decide` and `evolve` as they run, in a world. -/
structure Ambient (A : AggregateRules) (W : Type) where
  decide : A.State → A.Command → A.Ctx → W → (Except A.Error (List A.Event) × A.Ctx) × W
  evolve : A.State → A.Event → W → A.State × W

section World

variable {A : AggregateRules} {W : Type} (ambient : Ambient A W)

/-- `evolve` for one event after another. -/
def Ambient.evolveAll : List A.Event → A.State → W → A.State × W
  | [], state, world => (state, world)
  | event :: events, state, world =>
    let (state, world) := ambient.evolve state event world
    evolveAll events state world

/-- `Aggregate::handle`, in a world. -/
def Aggregate.handleIn (aggregate : Aggregate A) (cmd : A.Command) (ctx : A.Ctx) (world : W) :
    (Except (Rejection A) (List A.Event) × Aggregate A × A.Ctx) × W :=
  match aggregate.structuralCheck cmd with
  | some rejection => ((.error rejection, aggregate, ctx), world)
  | none =>
    let (decided, world) := ambient.decide aggregate.state cmd ctx world
    match decided with
    | (.error error, ctx) => ((.error (.domain error), aggregate, ctx), world)
    | (.ok events, ctx) =>
      let (state, world) := ambient.evolveAll events aggregate.state world
      ((.ok events, ⟨state⟩, ctx), world)

end World

/-- The panics of the driver. -/
inductive DeterminismFailure (D : Type) where
  | noValue
  | nondeterminism (digestsA digestsB : List D) (case : UInt32)

section Drive

variable {A : AggregateRules} {R W D E : Type} {chacha12 : Seed → UInt64 → UInt32}
variable [EntropySource E] [CtxEntropy A.Ctx E]
variable (ambient : Ambient A W) (arbitrary : AggregateArbitrary A R chacha12)
variable (digest128 : A.State → D)

/-- The loop over the steps of `one_run`, with the number of the next step and how many are left. -/
def digestSteps (seed : Seed) : Nat → Nat → Aggregate A → DrawPos → R → W → List D →
    Except (DeterminismFailure D) (List D × W)
  | 0, _, _, _, _, world, digests => .ok (digests, world)
  | left + 1, step, agg, pos, runner, world, digests =>
    if isTerminal agg.phase then .ok (digests, world)
    else
      match arbitrary.commandStrategy agg.state runner with
      | none => .error .noValue
      | some (cmd, runner) =>
        let ctx := arbitrary.testCtx (.at seed pos) (.ofNat step)
        let (handled, world) := agg.handleIn ambient cmd ctx world
        match handled with
        | (.error _, agg, _) => digestSteps seed left (step + 1) agg pos runner world digests
        | (.ok _, agg, ctx) =>
          let pos := (ctxDraws ctx).getD pos
          digestSteps seed left (step + 1) agg pos runner world
            (digests ++ [digest128 agg.state])

variable (seededRunner : UInt64 → R)

/-- `one_run`. -/
def oneRun (seed : UInt64) (case : UInt32) (maxSteps : Nat) (world : W) :
    Except (DeterminismFailure D) (List D × W) :=
  match arbitrary.initialStateStrategy (seededRunner (seed + case.toUInt64 + 1)) with
  | none => .error .noValue
  | some (initial, runner) =>
    match Aggregate.new initial with
    | .error _ => .ok ([], world)
    | .ok agg =>
      digestSteps ambient arbitrary digest128 (runSeed seed case) maxSteps 0 agg 0 runner world []

variable [DecidableEq D]

/-- The loop over the cases, with the number of the next case and how many are left. -/
def determinismCases (params : DriveParams) : Nat → UInt32 → W → Except (DeterminismFailure D) W
  | 0, _, world => .ok world
  | left + 1, case, world => do
    let (digestsA, world) ←
      oneRun ambient arbitrary digest128 seededRunner params.seed case params.maxSteps world
    let (digestsB, world) ←
      oneRun ambient arbitrary digest128 seededRunner params.seed case params.maxSteps world
    if digestsA = digestsB then determinismCases params left (case + 1) world
    else .error (.nondeterminism digestsA digestsB case)

/-- `run_determinism`, with the digest of the pinned run. -/
def runDeterminism (params : DriveParams) (world : W) :
    Except (DeterminismFailure D) (Option D × W) := do
  let world ← determinismCases ambient arbitrary digest128 seededRunner params params.cases.toNat 0
    world
  let (digests, world) ←
    oneRun ambient arbitrary digest128 seededRunner params.seed 0 params.maxSteps world
  .ok (digests.getLast?, world)

end Drive

end Ironstate
