import Ironstate.Journal.Sim
import Ironstate.Journal.Subscription

/-!
# The aggregates of `tests/subscription.rs`

`Tally` counts the pings of a `Source`. Neither draws, so a concrete run of either shows the
bookkeeping of the journal alone.
-/

namespace Ironstate.Fixture

/-- `enum SrcPhase`. -/
inductive SrcPhase where
  | live
  | done
  deriving DecidableEq

/-- `enum SrcStep`. -/
inductive SrcStep where
  | finish
  deriving DecidableEq

instance : EventKind SrcStep := ⟨fun _ => none, fun _ => "End", [.finish]⟩

instance : StateMachine SrcPhase where
  Event := SrcStep
  transition phase _ := if phase = .live then some .done else none
  initial := .live
  isTerminal phase := phase == .done
  restriction _ := none
  stateVariants := [.live, .done]
  variantName
    | .live => "Live"
    | .done => "Done"

/-- `enum SrcCommand`. -/
inductive SrcCommand where
  | ping
  deriving DecidableEq

instance : EventKind SrcCommand := ⟨fun _ => none, fun _ => "Ping", [.ping]⟩

/-- `enum SrcEvent`. -/
inductive SrcEvent where
  | pinged
  deriving DecidableEq

/-- `struct Source`, by its one field. -/
def Source (E : Type) : AggregateRules where
  State := SrcPhase
  Phase := SrcPhase
  Command := SrcCommand
  Event := SrcEvent
  Error := Unit
  Ctx := OwnedDeterministicCtx E UInt32
  phase phase := phase
  decide _ _ ctx := (.ok [.pinged], ctx)
  evolve phase _ := phase
  eventTypeName := "subscription::SrcEvent"

/-- `enum TallyPhase`. -/
inductive TallyPhase where
  | opened
  | shut
  deriving DecidableEq

/-- `enum TallyStep`. -/
inductive TallyStep where
  | shut
  deriving DecidableEq

instance : EventKind TallyStep := ⟨fun _ => none, fun _ => "Shut", [.shut]⟩

instance : StateMachine TallyPhase where
  Event := TallyStep
  transition phase _ := if phase = .opened then some .shut else none
  initial := .opened
  isTerminal phase := phase == .shut
  restriction _ := none
  stateVariants := [.opened, .shut]
  variantName
    | .opened => "Open"
    | .shut => "Shut"

/-- `enum TallyCommand`. -/
inductive TallyCommand where
  | bump
  deriving DecidableEq

instance : EventKind TallyCommand := ⟨fun _ => none, fun _ => "Bump", [.bump]⟩

/-- `enum TallyEvent`. -/
inductive TallyEvent where
  | bumped
  deriving DecidableEq

/-- `struct Tally`. -/
structure TallyState where
  phase : TallyPhase
  count : UInt32
  deriving DecidableEq

def Tally (E : Type) : AggregateRules where
  State := TallyState
  Phase := TallyPhase
  Command := TallyCommand
  Event := TallyEvent
  Error := Unit
  Ctx := OwnedDeterministicCtx E UInt32
  phase tally := tally.phase
  decide _ _ ctx := (.ok [.bumped], ctx)
  evolve tally _ := { tally with count := tally.count + 1 }
  eventTypeName := "subscription::TallyEvent"

instance {E : Type} : CtxEntropy (Tally E).Ctx E :=
  inferInstanceAs (CtxEntropy (OwnedDeterministicCtx E UInt32) E)

/-- Every ping is one bump. -/
instance {E : Type} : React (Source E) (Tally E) := ⟨fun _ _ _ => [.bump]⟩

/-- A generator that the runs below never read. -/
abbrev Rng := SeededEntropy fun _ _ => 0

/-- The genesis of the tests. -/
def genesis : (Tally Rng).State := (⟨.opened, 0⟩ : TallyState)

/-- The state after `count` bumps. -/
def counted (count : UInt32) : (Tally Rng).State := (⟨.opened, count⟩ : TallyState)

/-- The seed of the tests. -/
def seed : Seed := ⟨Vector.replicate 32 0⟩

/-- The context of the tests, positioned at `pos`. -/
def ctx (pos : DrawPos) : (Tally Rng).Ctx := (⟨.at seed pos, 0, 0⟩ : OwnedDeterministicCtx Rng UInt32)

end Ironstate.Fixture
