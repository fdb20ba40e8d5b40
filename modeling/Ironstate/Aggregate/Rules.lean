import Ironstate.Core.StateMachine
import Ironstate.Aggregate.Entropy

/-!
# Aggregates

`rules.rs`. An implementation of `trait AggregateRules` is a value of `AggregateRules`: the
`Self` type is its `State`, the associated types and the required methods are its fields. A
`&mut` argument is passed in and handed back.
-/

namespace Ironstate

/-- `trait AggregateRules`. -/
structure AggregateRules where
  State : Type
  Phase : Type
  Command : Type
  Event : Type
  Error : Type
  Ctx : Type
  [phaseMachine : StateMachine Phase]
  [commandKind : EventKind Command]
  phase : State → Phase
  /-- Validates intent and emits the facts that follow; the only place that draws. -/
  decide : State → Command → Ctx → Except Error (List Event) × Ctx
  /-- Applies one fact: total and pure. -/
  evolve : State → Event → State
  /-- `core::any::type_name::<A::Event>()`. -/
  eventTypeName : String

attribute [instance] AggregateRules.phaseMachine AggregateRules.commandKind

/-- `enum Rejection`. -/
inductive Rejection (A : AggregateRules) where
  | terminalPhase (phase : A.Phase)
  | commandKindRejected (phase : A.Phase) (expectedKinds : List Kind)
  | domain (error : A.Error)

/-- `enum InitError`. -/
inductive InitError (A : AggregateRules) where
  | notInitialPhase (found : A.Phase)

/-- `struct Aggregate`: the state, driven through its phase's structure. -/
structure Aggregate (A : AggregateRules) where
  state : A.State

namespace Aggregate

variable {A : AggregateRules}

/-- `Aggregate::new`. -/
def new (state : A.State) : Except (InitError A) (Aggregate A) :=
  let phase := A.phase state
  if phase == StateMachine.initial then .ok ⟨state⟩ else .error (.notInitialPhase phase)

/-- `Aggregate::from_state`. -/
def fromState (state : A.State) : Aggregate A := ⟨state⟩

/-- `Aggregate::phase`. -/
def phase (aggregate : Aggregate A) : A.Phase := A.phase aggregate.state

/-- `Aggregate::evolve`. -/
def evolve (aggregate : Aggregate A) (event : A.Event) : Aggregate A :=
  ⟨A.evolve aggregate.state event⟩

/-- `kinds_intersect`. -/
def kindsIntersect (expected command : List Kind) : Bool :=
  expected.any fun kind => command.contains kind

/-- `Aggregate::structural_check`. -/
def structuralCheck (aggregate : Aggregate A) (cmd : A.Command) : Option (Rejection A) :=
  let phase := A.phase aggregate.state
  if StateMachine.isTerminal phase then some (.terminalPhase phase)
  else
    match StateMachine.restriction phase with
    | none => none
    | some expected =>
      let accepted :=
        match EventKind.kinds cmd with
        | some kinds => kindsIntersect expected kinds
        | none => false
      if accepted then none else some (.commandKindRejected phase expected)

/-- `Aggregate::decide_only`. -/
def decideOnly (aggregate : Aggregate A) (cmd : A.Command) (ctx : A.Ctx) :
    Except (Rejection A) (List A.Event) × A.Ctx :=
  match aggregate.structuralCheck cmd with
  | some rejection => (.error rejection, ctx)
  | none =>
    match A.decide aggregate.state cmd ctx with
    | (.ok events, ctx) => (.ok events, ctx)
    | (.error error, ctx) => (.error (.domain error), ctx)

/-- `Aggregate::handle`. -/
def handle (aggregate : Aggregate A) (cmd : A.Command) (ctx : A.Ctx) :
    Except (Rejection A) (List A.Event) × Aggregate A × A.Ctx :=
  match aggregate.structuralCheck cmd with
  | some rejection => (.error rejection, aggregate, ctx)
  | none =>
    match A.decide aggregate.state cmd ctx with
    | (.error error, ctx) => (.error (.domain error), aggregate, ctx)
    | (.ok events, ctx) => (.ok events, ⟨events.foldl A.evolve aggregate.state⟩, ctx)

/-- `Aggregate::why_not`. -/
def whyNot (aggregate : Aggregate A) (cmd : A.Command) (ctx : A.Ctx) :
    Option (Rejection A) × A.Ctx :=
  match aggregate.structuralCheck cmd with
  | some rejection => (some rejection, ctx)
  | none =>
    match A.decide aggregate.state cmd ctx with
    | (.ok _, ctx) => (none, ctx)
    | (.error error, ctx) => (some (.domain error), ctx)

end Aggregate

section Contract

variable (A : AggregateRules) {E : Type} [EntropySource E] [CtxEntropy A.Ctx E]

/-- `decide` touches its context only by drawing words, from where it stands onwards. -/
def DrawsForward : Prop :=
  ∀ (state : A.State) (cmd : A.Command) (ctx : A.Ctx),
    ∃ n, (A.decide state cmd ctx).2 = drawnCtx n ctx

/-- What `decide` answers, and where its draws end, is determined by the state, the command
and the entropy stream it is handed, wherever else the contexts differ. -/
def DecidesOnEntropy : Prop :=
  ∀ (state : A.State) (cmd : A.Command) (e : E), ∃ result pos, ∀ ctx : A.Ctx,
    entropy ctx = some e → (A.decide state cmd ctx).1 = result ∧
      entropy (A.decide state cmd ctx).2 = some (seek e pos)

/-- What `decide` answers, and where it leaves the entropy, depends on its context through the
entropy alone, whether there is an entropy stream or none. -/
def DeterminedByEntropy : Prop :=
  ∀ (state : A.State) (cmd : A.Command) (ctx ctx' : A.Ctx), entropy ctx' = entropy ctx →
    (A.decide state cmd ctx').1 = (A.decide state cmd ctx).1 ∧
      entropy (A.decide state cmd ctx').2 = entropy (A.decide state cmd ctx).2

/-- `decide` neither takes the context's entropy stream away nor plants one. -/
def KeepsEntropy : Prop :=
  ∀ (state : A.State) (cmd : A.Command) (ctx : A.Ctx),
    (entropy (A.decide state cmd ctx).2).isSome = (entropy ctx).isSome

end Contract

end Ironstate
