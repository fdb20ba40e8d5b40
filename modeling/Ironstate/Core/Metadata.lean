import Ironstate.Core.Machine

/-!
# The static description of a machine

`metadata.rs`. `build` walks every state and event variant and keeps the transitions that
survive enforcement.
-/

namespace Ironstate

open StateMachine (stateVariants isTerminal restriction initial)
open EventKind (eventVariants)

/-- `struct MachineMetadata`. -/
structure MachineMetadata (S : Type) [StateMachine S] where
  initialState : S
  allStates : List S
  terminalStates : List S
  /-- Legal `(from, event, to)` transitions, variant-level. -/
  transitions : List (S × Event S × S)

namespace Metadata

variable {S : Type} [StateMachine S]

/-- The inner loop, over the events. -/
def buildEvent (state : S) (restriction : Option (List Kind))
    (transitions : List (S × Event S × S)) (event : Event S) : List (S × Event S × S) :=
  let accepted :=
    match restriction with
    | some expected => kindAccepted expected (EventKind.kinds event)
    | none => true
  if !accepted then transitions
  else
    match transition state event with
    | some target => transitions ++ [(state, event, target)]
    | none => transitions

/-- The outer loop, over the states. -/
def buildState (transitions : List (S × Event S × S)) (state : S) : List (S × Event S × S) :=
  if isTerminal state then transitions
  else eventVariants.foldl (buildEvent state (restriction state)) transitions

variable (S) in
/-- `build`. -/
def build : MachineMetadata S where
  initialState := initial
  allStates := stateVariants
  terminalStates := stateVariants.filter isTerminal
  transitions := stateVariants.foldl buildState []

end Metadata

variable (S : Type) [StateMachine S] in
/-- `Machine::metadata`. -/
def Machine.metadata : MachineMetadata S := Metadata.build S

end Ironstate
