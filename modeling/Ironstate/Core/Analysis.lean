import Ironstate.Core.Machine
import Ironstate.Lib.Worklist

/-!
# `analyze!`

`analysis.rs`. A `Vec<Vec<usize>>` is a list of rows, and a stack has its top in front. The two
searches share their loop, `Lib.search`. `std::any::type_name` is an argument, and the
`Display` of a report is left out.
-/

namespace Ironstate.Analysis

open StateMachine (stateVariants isTerminal initial)
open EventKind (eventVariants)

/-- `enum Confidence`. -/
inductive Confidence where
  | proven
  | sampled
  deriving DecidableEq

/-- The `Display` of `Confidence`. -/
def Confidence.fmt : Confidence → String
  | .proven => "proven"
  | .sampled => "sampled"

/-- `struct Claim`. -/
structure Claim where
  confidence : Confidence
  isError : Bool
  message : String
  deriving DecidableEq

/-- `struct Report`. -/
structure Report where
  machine : String
  claims : List Claim

namespace Report

/-- `Report::has_errors`. -/
def hasErrors (report : Report) : Bool := report.claims.any Claim.isError

/-- `Report::assert_ok`: a panic is an error that carries its message. -/
def assertOk (report : Report) : Except String Unit :=
  if !report.hasErrors then .ok ()
  else
    let msg := "analysis of `" ++ report.machine ++ "` found design errors:\n"
    let msg := (report.claims.filter Claim.isError).foldl (fun msg claim =>
      msg ++ ("  - [" ++ claim.confidence.fmt ++ "] " ++ claim.message ++ "\n")) msg
    .error (msg ++
      ("Fix each error above: add the missing transition, make every state able to " ++
        "reach a terminal, or remove the transition that structural enforcement blocks."))

/-- The test that `analyze!` generates passes when no line is an error. -/
theorem assertOk_iff (report : Report) : report.assertOk = .ok () ↔ report.hasErrors = false := by
  unfold assertOk
  cases report.hasErrors <;> simp

end Report

/-- `proven`. -/
def proven (isError : Bool) (message : String) : Claim := ⟨.proven, isError, message⟩

/-! ## The lines -/

def unreachableClaim (name : String) : Claim :=
  proven true ("state `" ++ name ++ "` is unreachable from the initial state")

def allReachableClaim (n : Nat) (initialName : String) : Claim :=
  proven false ("all " ++ toString n ++ " variants are reachable from " ++ initialName)

def reachabilityClaims (n : Nat) (initialName : String) (unreachable : List String) :
    List Claim :=
  if unreachable.isEmpty then [allReachableClaim n initialName]
  else unreachable.map unreachableClaim

def deadlockClaim (name : String) : Claim :=
  proven true ("state `" ++ name ++ "` is a deadlock: non-terminal with no outbound transitions")

def inescapableClaim (name : String) : Claim :=
  proven true ("state `" ++ name ++ "` can never reach a terminal state (inescapable cycle)")

def deadClaims (dead : List String) : List Claim :=
  if dead.isEmpty then [proven false "no dead transitions"] else dead.map (proven true)

/-- The `Debug` of a list of names. -/
def debugNames (names : List String) : String :=
  "[" ++ ", ".intercalate (names.map fun name => "\"" ++ name ++ "\"") ++ "]"

def unusedClaims (unused : List String) : List Claim :=
  if unused.isEmpty then []
  else [proven false ("unused events (trigger no transition): " ++ debugNames unused)]

/-- `usize::saturating_mul`, for a `usize` of 64 bits. -/
def saturatingMul (a b : Nat) : Nat := min (a * b) 0xFFFFFFFFFFFFFFFF

def coverageClaim (producing totalPairs : Nat) : Claim :=
  ⟨.sampled, false, "coverage: " ++ toString producing ++ " of " ++ toString totalPairs ++
    " (state, event) pairs produce transitions " ++
    "— variant-level; data-dependent arms exercised by test!()"⟩

/-! ## The searches -/

/-- `reachable_from`. -/
def reachableFrom (start : Nat) (edges : List (List Nat)) (n : Nat) : List Bool :=
  let seen := List.replicate n false
  if n = 0 then seen
  else Lib.search (fun i => edges.getD i []) (seen.set start true) [start]

/-- The reversed edges. -/
def reversed (edges : List (List Nat)) (n : Nat) : List (List Nat) :=
  edges.zipIdx.foldl (fun rev outs =>
    outs.1.foldl (fun rev j => rev.modify j fun sources => sources ++ [outs.2]) rev)
    (List.replicate n [])

/-- `reaches_terminal`. -/
def reachesTerminal (edges : List (List Nat)) (terminal : List Bool) (n : Nat) : List Bool :=
  let rev := reversed edges n
  let (can, stack) := (List.range n).foldl (fun (can, stack) i =>
    if terminal.getD i false then (can.set i true, i :: stack) else (can, stack))
    (List.replicate n false, [])
  Lib.search (fun i => rev.getD i []) can stack

/-! ## The walk -/

section

variable (S : Type) [StateMachine S]

/-- The names of the variants, by which they are told apart. -/
def names : List String := (stateVariants (S := S)).map StateMachine.variantName

/-- `index_of`. -/
def indexOf (name : String) : Option Nat := (names S).findIdx? fun n => n == name

variable {S}

/-- The line for a transition that enforcement blocks. -/
def deadLine (state : S) (event : Event S) (target : S) : String :=
  let why :=
    if isTerminal state then "the source state is terminal"
    else "the event's kind is not accepted by the source state"
  "transition " ++ StateMachine.variantName state ++ " --" ++ EventKind.variantName event ++
    "--> " ++ StateMachine.variantName target ++ " can never fire: " ++ why

/-- What the walk has collected: the row of the state it is at, the dead transitions and the
events that made a move. -/
structure Walk where
  row : List Nat
  dead : List String
  usedEvent : List String

/-- The inner loop, over the events. -/
def walkEvent (state : S) (walk : Walk) (event : Event S) : Walk :=
  match transition state event with
  | none => walk
  | some target =>
    if structurallyAllowed state event then
      match indexOf S (StateMachine.variantName target) with
      | some j =>
        { walk with
          row := walk.row ++ [j]
          usedEvent := walk.usedEvent ++ [EventKind.variantName event] }
      | none => walk
    else { walk with dead := walk.dead ++ [deadLine state event target] }

/-- The outer loop, over the states: the rows so far, and the walk with an empty row. -/
def walkState (before : List (List Nat) × Walk) (state : S) : List (List Nat) × Walk :=
  let after := eventVariants.foldl (walkEvent state) before.2
  (before.1 ++ [after.row], { after with row := [] })

variable (S)

/-- `analyze`. -/
def analyze (typeName : String) : Report :=
  let states := stateVariants (S := S)
  let events := eventVariants (E := Event S)
  let n := states.length
  let terminal := states.map isTerminal
  let (edges, walk) := states.foldl walkState ([], ⟨[], [], []⟩)
  let initialName := StateMachine.variantName (initial (S := S))
  let reachable := reachableFrom ((indexOf S initialName).getD 0) edges n
  let unreachable := ((List.range n).filter fun i => !reachable.getD i false).map fun i =>
    (names S).getD i ""
  let deadlocks := ((List.range n).filter fun i =>
    !terminal.getD i false && (edges.getD i []).isEmpty).map fun i => (names S).getD i ""
  let canReachTerminal := reachesTerminal edges terminal n
  let inescapable := ((List.range n).filter fun i =>
    !terminal.getD i false && !canReachTerminal.getD i false &&
      !(edges.getD i []).isEmpty).map fun i => (names S).getD i ""
  let unused := (events.map EventKind.variantName).filter fun name =>
    !walk.usedEvent.contains name
  let producing := (edges.map List.length).foldl (· + ·) 0
  { machine := if states.isEmpty then "<empty>" else typeName
    claims := reachabilityClaims n initialName unreachable ++ deadlocks.map deadlockClaim ++
      inescapable.map inescapableClaim ++ deadClaims walk.dead ++ unusedClaims unused ++
      [coverageClaim producing (saturatingMul n events.length)] }

end

end Ironstate.Analysis
