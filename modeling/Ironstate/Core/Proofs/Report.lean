import Ironstate.Core.Proofs.Graph

/-!
# Reports and runs

The graph of the variants against the runs of the machine. A run whose moves are all edges of
the graph is a path of it (`Machine.Follows.path`), and a machine that makes every move of the
graph from some state it can be in enters each variant at the end of a path
(`Machine.Realises.entered`). Where no variant carries data the paths are the runs, so that each
line of a report is about the runs (`analyze_exact`).
-/

namespace Ironstate

open StateMachine (stateVariants isTerminal initial)
open EventKind (eventVariants)
open Analysis

variable {S : Type} [StateMachine S]

namespace Machine

/-- Every accepted event of the run makes a move that the graph has between the variants. -/
def Follows (machine : Machine S) : List (Event S) → Prop
  | [] => True
  | event :: events =>
    (∀ next, (machine.apply event).1 = .ok next →
      VariantEdge S (StateMachine.variantName machine.state) (StateMachine.variantName next)) ∧
    (machine.apply event).2.Follows events

/-- For each move that the graph has from a variant it leads to, some run ends in a state of the
variant from which an event makes the move. One such state is enough: other values of the
variant need not have the move. -/
def Realises (machine : Machine S) : Prop :=
  ∀ u v, VariantPath S (StateMachine.variantName machine.state) u → VariantEdge S u v →
    ∃ events event next, StateMachine.variantName (machine.applyAll events).state = u ∧
      ((machine.applyAll events).apply event).1 = .ok next ∧ StateMachine.variantName next = v

theorem Follows.path {machine : Machine S} {events : List (Event S)}
    (follows : machine.Follows events) :
    VariantPath S (StateMachine.variantName machine.state)
      (StateMachine.variantName (machine.applyAll events).state) := by
  induction events generalizing machine with
  | nil => exact .refl
  | cons event events ih =>
    obtain ⟨first, later⟩ := follows
    rcases apply_cases machine event with ⟨next, _, _, answer⟩ | ⟨e, _, _, answer⟩
    · rw [answer] at first
      exact .head (first next rfl) (by simpa [applyAll, answer, restore] using ih later)
    · simpa [applyAll, answer] using ih later

theorem applyAll_concat {machine : Machine S} {events : List (Event S)} {event : Event S}
    {next : S} (moved : ((machine.applyAll events).apply event).1 = .ok next) :
    (machine.applyAll (events ++ [event])).state = next := by
  rw [applyAll_append]
  exact congrArg Machine.state (apply_next moved)

theorem Realises.entered {machine : Machine S} (realises : machine.Realises) {v : String}
    (path : VariantPath S (StateMachine.variantName machine.state) v) :
    ∃ events, StateMachine.variantName (machine.applyAll events).state = v := by
  rcases Relation.ReflTransGen.cases_tail path with same | ⟨u, before, edge⟩
  · exact ⟨[], same.symm⟩
  · obtain ⟨events, event, next, _, moved, name⟩ := realises u v before edge
    exact ⟨events ++ [event], applyAll_concat moved ▸ name⟩

end Machine

/-! ## What a line is about -/

/-- Some run from the initial state enters the state. -/
def Entered (state : S) : Prop := ∃ events, ((Machine.new S).applyAll events).state = state

/-- Some sequence of accepted events leads from the state to a terminal one. -/
def Finishes (state : S) : Prop :=
  ∃ events, (Machine.restore state).AcceptsAll events ∧
    isTerminal ((Machine.restore state).applyAll events).state = true

/-- Some event is accepted in the state. -/
def Leaves (state : S) : Prop :=
  ∃ event next, ((Machine.restore state).apply event).1 = .ok next

/-- The transition function defines the move, and `apply` rejects the event as terminal or by
kind. -/
def NeverFires (step : S × Event S × S) : Prop :=
  transition step.1 step.2.1 = some step.2.2 ∧
    ∃ e, ((Machine.restore step.1).apply step.2.1).1 = .error e ∧ e.Structural

/-- A state that is not terminal and can finish has a way out. -/
theorem Finishes.leaves {state : S} (finishes : Finishes state) (running : isTerminal state = false) :
    Leaves state := by
  obtain ⟨events, accepted, last⟩ := finishes
  cases events with
  | nil => exact absurd (last.symm.trans running) (by decide)
  | cons event events =>
    obtain ⟨⟨next, first⟩, _⟩ := accepted
    exact ⟨event, next, first⟩

/-! ## Machines without payloads -/

namespace StateMachine.PayloadFree

variable (free : PayloadFree S)

include free

theorem variantName_inj {s t : S} (same : variantName s = variantName t) : s = t := by
  obtain ⟨i, here⟩ := List.mem_iff_getElem?.mp (free.states s)
  obtain ⟨j, there⟩ := List.mem_iff_getElem?.mp (free.states t)
  have bound : i < ((stateVariants (S := S)).map variantName).length := by
    simpa using (List.getElem?_eq_some_iff.mp here).1
  have index : i = j := by
    apply (List.getElem?_inj bound free.distinct).mp
    rw [List.getElem?_map, List.getElem?_map, here, there, Option.map_some, Option.map_some, same]
  exact Option.some.inj (here.symm.trans (index ▸ there))

theorem derived : Derived S where
  distinct := free.distinct
  listed state := List.mem_map_of_mem (free.states state)
  terminal _ _ same := congrArg isTerminal (free.variantName_inj same)

/-- The edges are the accepted events. -/
theorem edge_iff (state : S) (v : String) :
    VariantEdge S (variantName state) v ↔
      ∃ event next, ((Machine.restore state).apply event).1 = .ok next ∧ variantName next = v := by
  constructor
  · rintro ⟨other, _, same, event, _, allowed, target, defined, name⟩
    obtain rfl := free.variantName_inj same
    exact ⟨event, target, (Machine.apply_ok_iff _ _ _).mpr ⟨allowed, defined⟩, name⟩
  · rintro ⟨event, next, accepted, name⟩
    obtain ⟨allowed, defined⟩ := (Machine.apply_ok_iff _ _ _).mp accepted
    exact ⟨state, free.states state, rfl, event, free.events event, allowed, next, defined, name⟩

/-- A path is the path of a run: each of its states has only one value. -/
theorem run {machine : Machine S} {v : String}
    (path : VariantPath S (variantName machine.state) v) :
    ∃ events, machine.AcceptsAll events ∧ variantName (machine.applyAll events).state = v := by
  induction path with
  | refl => exact ⟨[], trivial, rfl⟩
  | tail _ edge ih =>
    obtain ⟨events, accepted, rfl⟩ := ih
    obtain ⟨event, next, moved, rfl⟩ := (free.edge_iff (machine.applyAll events).state _).mp edge
    refine ⟨events ++ [event], ?_, congrArg variantName (Machine.applyAll_concat moved)⟩
    exact (Machine.acceptsAll_append machine events [event]).mpr ⟨accepted, ⟨next, moved⟩, trivial⟩

theorem follows (machine : Machine S) (events : List (Event S)) : machine.Follows events := by
  induction events generalizing machine with
  | nil => exact trivial
  | cons event events ih =>
    exact ⟨fun next accepted => (free.edge_iff machine.state _).mpr ⟨event, next, accepted, rfl⟩,
      ih _⟩

theorem unreached_iff (state : S) : Unreached state ↔ ¬Entered state := by
  refine not_congr ⟨?_, ?_⟩
  · intro path
    obtain ⟨events, _, name⟩ := @run S _ free (Machine.new S) _ path
    exact ⟨events, free.variantName_inj name⟩
  · rintro ⟨events, rfl⟩
    exact (free.follows (Machine.new S) events).path

theorem finishes_iff (state : S) :
    Finishes state ↔ ∃ t ∈ stateVariants (S := S), isTerminal t = true ∧
      VariantPath S (variantName state) (variantName t) := by
  constructor
  · rintro ⟨events, _, last⟩
    exact ⟨_, free.states _, last, (free.follows (Machine.restore state) events).path⟩
  · rintro ⟨t, _, last, path⟩
    obtain ⟨events, accepted, name⟩ := @run S _ free (Machine.restore state) _ path
    exact ⟨events, accepted, free.variantName_inj name ▸ last⟩

theorem leaves_iff (state : S) : Leaves state ↔ ∃ v, VariantEdge S (variantName state) v := by
  constructor
  · rintro ⟨event, next, accepted⟩
    exact ⟨_, (free.edge_iff state _).mpr ⟨event, next, accepted, rfl⟩⟩
  · rintro ⟨v, edge⟩
    obtain ⟨event, next, accepted, _⟩ := (free.edge_iff state v).mp edge
    exact ⟨event, next, accepted⟩

theorem stuck_iff (state : S) : Stuck state ↔ isTerminal state = false ∧ ¬Leaves state := by
  unfold Stuck
  rw [free.leaves_iff, not_exists]

theorem trapped_iff (state : S) :
    Trapped state ↔ isTerminal state = false ∧ Leaves state ∧ ¬Finishes state := by
  unfold Trapped
  rw [free.leaves_iff, free.finishes_iff]
  simp only [not_exists, not_and]

theorem mem_dead_iff (step : S × Event S × S) :
    step ∈ (moves S).filter dead ↔ NeverFires step := by
  obtain ⟨state, event, target⟩ := step
  unfold NeverFires
  rw [Machine.apply_structural_iff, List.mem_filter, mem_moves]
  simp [dead, free.states, free.events, Machine.restore]

end StateMachine.PayloadFree

/-- The report of a machine without payloads is exact: it has an error if and only if a state
is never entered, or some state cannot finish, or a move can never fire; and its lines name
the states and the moves of which that is true. -/
theorem analyze_exact (free : StateMachine.PayloadFree S) (typeName : String) :
    ((analyze S typeName).hasErrors = true ↔
      (∃ state : S, ¬Entered state) ∨
        (∃ state : S, isTerminal state = false ∧ ¬Finishes state) ∨
        ∃ step : S × Event S × S, NeverFires step) ∧
    ∃ (blocked : List (S × Event S × S)) (rest : List Claim),
      (∀ step, step ∈ blocked ↔ NeverFires step) ∧
      (∀ claim ∈ rest, claim.isError = false) ∧
      (analyze S typeName).claims =
        reachabilityClaims (variantCount S) (StateMachine.variantName (initial (S := S)))
            (namesWith fun state : S => ¬Entered state) ++
          (namesWith fun state : S => isTerminal state = false ∧ ¬Leaves state).map
            deadlockClaim ++
          (namesWith fun state : S =>
            isTerminal state = false ∧ Leaves state ∧ ¬Finishes state).map inescapableClaim ++
          deadClaims (blocked.map fun step => deadLine step.1 step.2.1 step.2.2) ++ rest := by
  obtain ⟨unused, producing, pairs, lines⟩ := analyze_claims free.derived typeName
  rw [namesWith_congr free.unreached_iff, namesWith_congr free.stuck_iff,
    namesWith_congr free.trapped_iff, List.append_assoc _ (unusedClaims unused)] at lines
  have quiet : ∀ claim ∈ unusedClaims unused ++ [coverageClaim producing pairs],
      claim.isError = false := by
    intro claim listed
    rcases List.mem_append.mp listed with unused | coverage
    · exact unusedClaims_isError unused
    · obtain rfl := List.mem_singleton.mp coverage
      rfl
  refine ⟨?_, _, _, free.mem_dead_iff, quiet, lines⟩
  have silent : (unusedClaims unused ++ [coverageClaim producing pairs]).any Claim.isError =
      false := List.any_eq_false.mpr fun claim listed => by simp [quiet claim listed]
  have moved : deadLines (moves S) ≠ [] ↔ ∃ step : S × Event S × S, NeverFires step := by
    unfold deadLines
    rw [ne_eq, List.map_eq_nil_iff, ← ne_eq, ne_nil_iff]
    exact exists_congr free.mem_dead_iff
  have deadlocks := any_errorClaims fun name => (rfl : (deadlockClaim name).isError = true)
  have inescapable := any_errorClaims fun name => (rfl : (inescapableClaim name).isError = true)
  unfold Report.hasErrors
  rw [lines]
  simp only [List.any_append, Bool.or_eq_true, silent, any_reachabilityClaims, any_deadClaims,
    deadlocks, inescapable, namesWith_ne_nil, moved, free.states, true_and]
  constructor
  · rintro ((((unentered | ⟨state, last, closed⟩) | ⟨state, last, _, caught⟩) | blocked) | never)
    · exact .inl unentered
    · exact .inr (.inl ⟨state, last, fun finishes => closed (finishes.leaves last)⟩)
    · exact .inr (.inl ⟨state, last, caught⟩)
    · exact .inr (.inr blocked)
    · cases never
  · rintro (unentered | ⟨state, last, caught⟩ | blocked)
    · exact .inl (.inl (.inl (.inl unentered)))
    · by_cases leaves : Leaves state
      · exact .inl (.inl (.inr ⟨state, last, leaves, caught⟩))
      · exact .inl (.inl (.inl (.inr ⟨state, last, leaves⟩)))
    · exact .inl (.inr blocked)

/-! ## The machine of `tests/core.rs` with a restricted state -/

namespace Fixture

/-- `enum Deploy`. -/
inductive Deploy where
  | pending
  | deploying
  | done
  deriving DecidableEq

/-- `enum Sig`. -/
inductive Sig where
  | start
  | complete
  | cancel
  deriving DecidableEq

instance : EventKind Sig where
  kinds
    | .complete => some [⟨"external"⟩]
    | _ => none
  variantName
    | .start => "Start"
    | .complete => "Complete"
    | .cancel => "Cancel"
  eventVariants := [.start, .complete, .cancel]

instance : StateMachine Deploy where
  Event := Sig
  transition
    | .pending, .start => some .deploying
    | .deploying, .complete => some .done
    | .pending, .cancel => some .done
    | _, _ => none
  initial := .pending
  isTerminal state := state == .done
  restriction
    | .deploying => some [⟨"external"⟩]
    | _ => none
  stateVariants := [.pending, .deploying, .done]
  variantName
    | .pending => "Pending"
    | .deploying => "Deploying"
    | .done => "Done"

theorem Sig.listed (sig : Sig) : sig ∈ EventKind.eventVariants := by
  cases sig <;> decide

theorem Deploy.payloadFree : StateMachine.PayloadFree Deploy where
  distinct := by decide
  states state := by cases state <;> decide
  events := Sig.listed

end Fixture

open Fixture in
/-- `analyze!(Deploy)` passes. -/
theorem analyze_exact_deploy : (analyze Deploy "Deploy").hasErrors = false := by
  rw [Bool.eq_false_iff, ne_eq, (analyze_exact Deploy.payloadFree "Deploy").1]
  rintro (⟨state, unentered⟩ | ⟨state, running, caught⟩ | ⟨⟨state, event, target⟩, defined, blocked⟩)
  · apply unentered
    cases state with
    | pending => exact ⟨[], rfl⟩
    | deploying => exact ⟨[Sig.start], rfl⟩
    | done => exact ⟨[Sig.start, Sig.complete], rfl⟩
  · apply caught
    cases state with
    | pending => exact ⟨[Sig.cancel], ⟨⟨_, rfl⟩, trivial⟩, rfl⟩
    | deploying => exact ⟨[Sig.complete], ⟨⟨_, rfl⟩, trivial⟩, rfl⟩
    | done => cases running
  · rw [Machine.apply_structural_iff] at blocked
    cases state <;> cases event <;> cases defined <;> exact absurd blocked (by decide)

end Ironstate
