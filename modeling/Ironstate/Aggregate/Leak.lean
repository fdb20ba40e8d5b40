import Ironstate.Aggregate.Testkit
import Ironstate.Aggregate.Redaction

/-!
# The driver of `leak_test!`

`testkit.rs`. Two aggregates, of which one has the hidden values of one principal resampled, are
handed the same commands, and the views of every other principal are compared as they go.
-/

namespace Ironstate

open StateMachine (isTerminal)

/-! ## Equal views -/

section Views

variable {P T : Type} [Ord P] [Conceal T] [DecidableEq T] [DecidableEq (Concealed T)]

/-- `derive(PartialEq)` of `PerPrincipalView`. -/
instance [Std.TransOrd P] [Std.LawfulEqOrd P] : DecidableEq (PerPrincipalView P T) := fun a b =>
  decidable_of_iff (a.mine = b.mine ∧ a.others = b.others) PerPrincipalView.ext_iff.symm

/-- `derive(PartialEq)` of `OwnedView`. -/
instance : DecidableEq (OwnedView T)
  | .mine a, .mine b => decidable_of_iff (a = b) (by simp)
  | .concealed a, .concealed b => decidable_of_iff (a = b) (by simp)
  | .mine _, .concealed _ => isFalse nofun
  | .concealed _, .mine _ => isFalse nofun

end Views

/-! ## The driver -/

/-- `trait LeakTestable`. What `resample_hidden` leaves of the entropy it is lent is dropped. -/
structure LeakTestable (A : AggregateRules) (P R : Type) (chacha12 : Seed → UInt64 → UInt32)
    extends AggregateArbitrary A R chacha12 where
  principals : A.State → List P
  resampleHidden : A.State → P → SeededEntropy chacha12 → A.State

/-- The message of `assert_views_equal`. -/
structure Leak (P V : Type) where
  viewer : P
  perturbed : P
  step : Nat
  baseView : V
  siblingView : V
  case : UInt32

/-- The panics of the driver. -/
inductive LeakFailure (P V : Type) where
  | noValue
  | leak (report : Leak P V)

section Drive

variable {A : AggregateRules} {P R E : Type} {chacha12 : Seed → UInt64 → UInt32}
variable [View P A.State] [BEq (View.Output P A.State)]

/-- `assert_views_equal`. -/
def assertViewsEqual (base sibling : Aggregate A) (viewer perturbed : P) (case : UInt32)
    (step : Nat) : Except (LeakFailure P (View.Output P A.State)) Unit :=
  let viewBase := View.viewFor base.state viewer
  let viewSibling := View.viewFor sibling.state viewer
  if viewBase == viewSibling then .ok ()
  else .error (.leak ⟨viewer, perturbed, step, viewBase, viewSibling, case⟩)

variable [EntropySource E] [CtxEntropy A.Ctx E] [BEq P]
variable (arbitrary : LeakTestable A P R chacha12) (excluding : List String)

section Pair

variable (seed : Seed) (case : UInt32) (p q : P)

/-- The loop over the steps of one pair, with the number of the next step and how many are
left. -/
def leakSteps : Nat → Nat → Aggregate A → Aggregate A → DrawPos → R →
    Except (LeakFailure P (View.Output P A.State)) R
  | 0, _, _, _, _, runner => .ok runner
  | left + 1, step, base, sibling, pos, runner =>
    if isTerminal base.phase then .ok runner
    else
      match arbitrary.commandStrategy base.state runner with
      | none => .error .noValue
      | some (cmd, runner) =>
        if excluding.contains (EventKind.variantName cmd) then
          leakSteps left (step + 1) base sibling pos runner
        else do
          let ctxB := arbitrary.testCtx (.at seed pos) (.ofNat step)
          let ctxS := arbitrary.testCtx (.at seed pos) (.ofNat step)
          let (_, base, ctxB) := base.handle cmd ctxB
          let (_, sibling, _) := sibling.handle cmd ctxS
          let pos := (ctxDraws ctxB).getD pos
          assertViewsEqual base sibling q p case (step + 1)
          leakSteps left (step + 1) base sibling pos runner

/-- One pair of principals: the body of the inner loop over them. -/
def leakPair (maxSteps : Nat) (baseState : A.State) (runner : R) :
    Except (LeakFailure P (View.Output P A.State)) R :=
  if p == q then .ok runner
  else
    let siblingState := arbitrary.resampleHidden baseState p (.at seed 0)
    match Aggregate.new baseState, Aggregate.new siblingState with
    | .ok base, .ok sibling => do
      assertViewsEqual base sibling q p case 0
      leakSteps arbitrary excluding seed case p q maxSteps 0 base sibling 0 runner
    | _, _ => .ok runner

end Pair

/-- The loop over the cases, with the number of the next case and how many are left. -/
def leakCases (params : DriveParams) :
    Nat → UInt32 → R → Except (LeakFailure P (View.Output P A.State)) Unit
  | 0, _, _ => .ok ()
  | left + 1, case, runner =>
    match arbitrary.initialStateStrategy runner with
    | none => .error .noValue
    | some (baseState, runner) => do
      let principals := arbitrary.principals baseState
      let seed := runSeed params.seed case
      let runner ← principals.foldlM (fun runner p => principals.foldlM (fun runner q =>
        leakPair arbitrary excluding seed case p q params.maxSteps baseState runner) runner) runner
      leakCases params left (case + 1) runner

/-- `run_leak`. -/
def runLeak (seededRunner : UInt64 → R) (params : DriveParams) :
    Except (LeakFailure P (View.Output P A.State)) Unit :=
  leakCases arbitrary excluding params params.cases.toNat 0 (seededRunner params.seed)

end Drive

end Ironstate
