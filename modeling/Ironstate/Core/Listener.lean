import Ironstate.Core.Machine

/-!
# Listeners

`listener.rs`, and `Machine` of `machine.rs` with its listeners and its clock. They are closures,
which may change what they have captured: the world is all of that together. What `apply` does is
written once more, as the source has it.
-/

namespace Ironstate

open StateMachine (initial isTerminal restriction)

/-- `struct TransitionRecord`. -/
structure TransitionRecord (S E Instant : Type) where
  fromState : S
  event : E
  toState : S
  timestamp : Instant

/-- `struct Machine`. -/
structure Watched (S W Instant : Type) [StateMachine S] where
  state : S
  onTransition : List (TransitionRecord S (Event S) Instant → W → W)
  onRejection : List (TransitionError S (Event S) → W → W)
  clock : W → Instant × W

namespace Watched

variable {S W Instant : Type} [StateMachine S]

variable (S) in
/-- `Machine::new`. -/
def new (defaultClock : W → Instant × W) : Watched S W Instant :=
  ⟨initial, [], [], defaultClock⟩

/-- `fire_transition`. -/
def fireTransition (machine : Watched S W Instant)
    (record : TransitionRecord S (Event S) Instant) (world : W) : W :=
  machine.onTransition.foldl (fun world listener => listener record world) world

/-- `fire_rejection`. -/
def fireRejection (machine : Watched S W Instant) (error : TransitionError S (Event S))
    (world : W) : W :=
  machine.onRejection.foldl (fun world listener => listener error world) world

/-- The end of `apply`: the transition function runs, and the listeners after it. -/
def fire (machine : Watched S W Instant) (event : Event S) (world : W) :
    Except (TransitionError S (Event S)) S × Watched S W Instant × W :=
  match transition machine.state event with
  | some next =>
    let fromState := machine.state
    let machine := { machine with state := next }
    let (timestamp, world) := machine.clock world
    let record := { fromState, event, toState := next, timestamp }
    (.ok next, machine, machine.fireTransition record world)
  | none =>
    let err := .noTransition machine.state event
    (.error err, machine, machine.fireRejection err world)

/-- `Machine::apply`. -/
def apply (machine : Watched S W Instant) (event : Event S) (world : W) :
    Except (TransitionError S (Event S)) S × Watched S W Instant × W :=
  if isTerminal machine.state then
    let err := .terminalState machine.state event
    (.error err, machine, machine.fireRejection err world)
  else
    match restriction machine.state with
    | some expected =>
      let eventKind := EventKind.kinds event
      if !kindAccepted expected eventKind then
        let err := .eventKindRejected machine.state event expected eventKind
        (.error err, machine, machine.fireRejection err world)
      else machine.fire event world
    | none => machine.fire event world

/-- What takes `&mut self`. -/
inductive Op (S W Instant : Type) [StateMachine S] where
  | apply (event : Event S)
  | onTransition (listener : TransitionRecord S (Event S) Instant → W → W)
  | onRejection (listener : TransitionError S (Event S) → W → W)
  | setClock (clock : W → Instant × W)

/-- One call. Only `apply` answers. -/
def perform (machine : Watched S W Instant) (op : Op S W Instant) (world : W) :
    Option (Except (TransitionError S (Event S)) S) × Watched S W Instant × W :=
  match op with
  | .apply event =>
    let (answer, machine, world) := machine.apply event world
    (some answer, machine, world)
  | .onTransition listener =>
    (none, { machine with onTransition := machine.onTransition ++ [listener] }, world)
  | .onRejection listener =>
    (none, { machine with onRejection := machine.onRejection ++ [listener] }, world)
  | .setClock clock => (none, { machine with clock }, world)

/-- A run of calls, with what they answer. -/
def run (machine : Watched S W Instant) :
    List (Op S W Instant) → W →
      List (Except (TransitionError S (Event S)) S) × Watched S W Instant × W
  | [], world => ([], machine, world)
  | op :: ops, world =>
    let (answer, machine, world) := machine.perform op world
    let (answers, machine, world) := machine.run ops world
    (answer.toList ++ answers, machine, world)

/-- The events that a run applies. -/
def applied : List (Op S W Instant) → List (Event S)
  | [] => []
  | .apply event :: ops => event :: applied ops
  | .onTransition _ :: ops => applied ops
  | .onRejection _ :: ops => applied ops
  | .setClock _ :: ops => applied ops

end Watched

end Ironstate
