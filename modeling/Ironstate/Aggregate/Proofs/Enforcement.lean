import Ironstate.Aggregate.Rules
import Ironstate.Core.Metadata
import Ironstate.Core.Proofs.Graph

/-!
# One enforcement

The terminal and kind rules are written out in `apply`, in its three probes, in the metadata, in
`analyze` and in `structural_check` of an aggregate. Each copy is related to `apply` once
(`Machine.couldApply_eq`, `Machine.whyNot_eq`, `Machine.peekTransition_eq`,
`Metadata.transitions_eq`, `Analysis.rowOf_eq`, `Aggregate.structuralCheck_eq`), and
`enforcement_agrees` puts them together.
-/

namespace Ironstate

open StateMachine (stateVariants isTerminal restriction initial)
open EventKind (eventVariants)

variable {S : Type} [StateMachine S]

/-! ## The probes -/

namespace Machine

variable (machine : Machine S) (event : Event S)

theorem couldApply_eq :
    machine.couldApply event =
      (structurallyAllowed machine.state event && (transition machine.state event).isSome) := by
  unfold couldApply structurallyAllowed
  cases isTerminal machine.state with
  | true => rfl
  | false =>
    cases restriction machine.state with
    | none => simp
    | some expected => cases kindAccepted expected (EventKind.kinds event) <;> simp

/-- `could_apply` foretells whether the event is accepted. -/
theorem couldApply_iff :
    machine.couldApply event = true ↔ ∃ next, (machine.apply event).1 = .ok next := by
  simp only [couldApply_eq, apply_ok_iff, Bool.and_eq_true, Option.isSome_iff_exists,
    exists_and_left]

/-- `why_not` is the error of `apply`. -/
theorem whyNot_eq :
    machine.whyNot event =
      match (machine.apply event).1 with
      | .ok _ => none
      | .error e => some e := by
  unfold whyNot apply fire
  cases isTerminal machine.state with
  | true => rfl
  | false =>
    cases restriction machine.state with
    | none => cases transition machine.state event <;> rfl
    | some expected =>
      cases accepted : kindAccepted expected (EventKind.kinds event) with
      | true => cases transition machine.state event <;> simp [accepted]
      | false => simp [accepted]

/-- A rejection names the state and the event it is about. -/
theorem apply_error {machine : Machine S} {event : Event S} {e : TransitionError S (Event S)}
    (rejected : (machine.apply event).1 = .error e) :
    e = .terminalState machine.state event ∨
      (∃ expected,
        e = .eventKindRejected machine.state event expected (EventKind.kinds event)) ∨
      e = .noTransition machine.state event := by
  unfold apply fire at rejected
  cases terminal : isTerminal machine.state with
  | true => exact .inl (by simpa [terminal] using rejected.symm)
  | false =>
    cases restricted : restriction machine.state with
    | none =>
      cases defined : transition machine.state event with
      | none => exact .inr (.inr (by simpa [terminal, restricted, defined] using rejected.symm))
      | some next => simp [terminal, restricted, defined] at rejected
    | some expected =>
      cases accepted : kindAccepted expected (EventKind.kinds event) with
      | true =>
        cases defined : transition machine.state event with
        | none =>
          exact .inr (.inr (by simpa [terminal, restricted, accepted, defined] using rejected.symm))
        | some next => simp [terminal, restricted, accepted, defined] at rejected
      | false =>
        exact .inr (.inl ⟨expected, by simpa [terminal, restricted, accepted] using rejected.symm⟩)

/-- `peek_transition` is the answer of `apply`. -/
theorem peekTransition_eq : machine.peekTransition event = (machine.apply event).1.toOption := by
  unfold peekTransition
  rw [couldApply_eq]
  rcases apply_cases machine event with ⟨next, allowed, defined, answer⟩ | ⟨e, runs, _, answer⟩
  · simp [allowed, defined, answer, Except.toOption]
  · rw [answer]
    cases allowed : structurallyAllowed machine.state event with
    | true => simp [(runs allowed).2, Except.toOption]
    | false => simp [Except.toOption]

/-- A terminal state never changes. -/
theorem applyAll_terminal {machine : Machine S} (terminal : isTerminal machine.state = true)
    (events : List (Event S)) : machine.applyAll events = machine := by
  induction events with
  | nil => rfl
  | cons event events ih =>
    have stays : (machine.apply event).2 = machine := by simp [apply, terminal]
    rw [applyAll, stays, ih]

end Machine

/-! ## The metadata -/

namespace Metadata

open Analysis (move moves dead)

theorem buildEvent_eq {state : S} (running : isTerminal state = false) (event : Event S)
    (transitions : List (S × Event S × S)) :
    buildEvent state (restriction state) transitions event =
      transitions ++ (move state event).toList.filter fun step => !dead step := by
  unfold buildEvent
  cases defined : transition state event with
  | none => cases restriction state <;> simp [move, defined]
  | some target =>
    cases restricted : restriction state with
    | none => simp [move, dead, structurallyAllowed, defined, running, restricted]
    | some expected =>
      cases accepted : kindAccepted expected (EventKind.kinds event) <;>
        simp [move, dead, structurallyAllowed, defined, running, restricted, accepted]

theorem foldl_buildEvent {state : S} (running : isTerminal state = false)
    (events : List (Event S)) (transitions : List (S × Event S × S)) :
    events.foldl (buildEvent state (restriction state)) transitions =
      transitions ++ (events.filterMap (move state)).filter fun step => !dead step := by
  induction events generalizing transitions with
  | nil => simp
  | cons event events ih =>
    rw [List.foldl_cons, ih, buildEvent_eq running, List.append_assoc, ← List.filter_append]
    cases made : move state event <;> simp [made]

/-- The transitions listed are the moves that can fire. -/
theorem transitions_eq :
    (Machine.metadata S).transitions = (moves S).filter fun step => !dead step := by
  have walked (states : List S) (transitions : List (S × Event S × S)) :
      states.foldl buildState transitions = transitions ++
        (states.flatMap fun state => eventVariants.filterMap (move state)).filter
          fun step => !dead step := by
    induction states generalizing transitions with
    | nil => simp
    | cons state states ih =>
      rw [List.foldl_cons, ih, List.flatMap_cons, List.filter_append, ← List.append_assoc]
      congr 1
      unfold buildState
      cases running : isTerminal state with
      | false => simp [foldl_buildEvent running]
      | true =>
        have blocked : ((eventVariants (E := Event S)).filterMap (move state)).filter
            (fun step => !dead step) = [] := by
          rw [List.filter_eq_nil_iff]
          intro step listed
          obtain ⟨event, -, made⟩ := List.mem_filterMap.mp listed
          obtain ⟨target, -, rfl⟩ := Option.map_eq_some_iff.mp made
          simp [dead, structurallyAllowed, running]
        simp [blocked]
  exact (walked stateVariants []).trans (List.nil_append _)

end Metadata

/-! ## The walk of `analyze` -/

namespace Analysis

/-- The edges of a state are the targets of its moves that can fire. -/
theorem rowOf_eq (state : S) :
    rowOf state = ((eventVariants.filterMap (move state)).filter fun step => !dead step).filterMap
      fun step => indexOf S (StateMachine.variantName step.2.2) := by
  unfold rowOf
  induction eventVariants (E := Event S) with
  | nil => rfl
  | cons event events ih =>
    cases defined : transition state event with
    | none => simp [rowTarget, move, defined, ih]
    | some target =>
      cases allowed : structurallyAllowed state event with
      | false => simp [rowTarget, move, dead, defined, allowed, ih]
      | true =>
        cases found : indexOf S (StateMachine.variantName target) <;>
          simp [rowTarget, move, dead, defined, allowed, found, ih]

theorem indexOf_isSome {name : String} (listed : name ∈ names S) :
    (indexOf S name).isSome = true := by
  unfold indexOf
  rw [List.findIdx?_isSome, List.any_eq_true]
  exact ⟨name, listed, beq_self_eq_true name⟩

/-- The edge for an event leads to the state that `apply` answers with. -/
theorem rowTarget_eq (state : S) (event : Event S) :
    rowTarget state event = ((Machine.restore state).apply event).1.toOption.bind fun target =>
      indexOf S (StateMachine.variantName target) := by
  unfold rowTarget
  rcases Machine.apply_cases (Machine.restore state) event with
    ⟨next, allowed, defined, answer⟩ | ⟨e, runs, _, answer⟩
  · have allowed : structurallyAllowed state event = true := allowed
    have defined : transition state event = some next := defined
    simp [allowed, defined, answer, Except.toOption]
  · have runs (allowed : structurallyAllowed state event = true) : transition state event = none :=
      (runs allowed).2
    rw [answer]
    cases allowed : structurallyAllowed state event with
    | true => simp [runs allowed, Except.toOption]
    | false => simp [Except.toOption]

/-- What the report says of the moves: which never fire, and how many edges there are. -/
theorem analyze_moves (typeName : String) :
    ∃ (unreachable deadlocks inescapable unused : List String) (pairs : Nat),
    (analyze S typeName).claims =
      reachabilityClaims (variantCount S) (StateMachine.variantName (initial (S := S)))
          unreachable ++ deadlocks.map deadlockClaim ++ inescapable.map inescapableClaim ++
        deadClaims (deadLines (moves S)) ++ unusedClaims unused ++
        [coverageClaim (((stateVariants.map (rowOf (S := S))).map List.length).foldl (· + ·) 0)
          pairs] := by
  obtain ⟨rows, blocked⟩ := foldl_walkState (stateVariants (S := S)) [] ⟨[], [], []⟩ rfl
  rw [List.nil_append] at rows blocked
  unfold analyze
  simp only [rows, blocked]
  exact ⟨_, _, _, _, _, rfl⟩

/-- There is one edge for each transition of the metadata whose target is a listed variant. -/
theorem edges_count :
    ((stateVariants.map (rowOf (S := S))).map List.length).foldl (· + ·) 0 =
      (Machine.metadata S).transitions.countP fun step =>
        (indexOf S (StateMachine.variantName step.2.2)).isSome := by
  have count (states : List S) (before : Nat) :
      ((states.map rowOf).map List.length).foldl (· + ·) before =
        before + ((states.flatMap fun state => eventVariants.filterMap (move state)).filter
          fun step => !dead step).countP fun step =>
            (indexOf S (StateMachine.variantName step.2.2)).isSome := by
    induction states generalizing before with
    | nil => rfl
    | cons state states ih =>
      rw [List.map_cons, List.map_cons, List.foldl_cons, ih, List.flatMap_cons,
        List.filter_append, List.countP_append, rowOf_eq, List.length_filterMap_eq_countP,
        Nat.add_assoc]
  rw [Metadata.transitions_eq, count, Nat.zero_add]
  rfl

end Analysis

/-! ## The check of an aggregate -/

/-- `structural_check` rejects a command where the phase machine rejects an event of its kinds
before its transition function runs. -/
theorem Aggregate.structuralCheck_eq {A : AggregateRules} (aggregate : Aggregate A)
    (cmd : A.Command) (event : Event A.Phase) (same : EventKind.kinds event = EventKind.kinds cmd) :
    aggregate.structuralCheck cmd =
      match ((Machine.restore aggregate.phase).apply event).1 with
      | .error (.terminalState phase _) => some (.terminalPhase phase)
      | .error (.eventKindRejected phase _ expected _) => some (.commandKindRejected phase expected)
      | _ => none := by
  unfold structuralCheck Aggregate.phase Machine.apply Machine.fire Machine.restore
  simp only [same]
  generalize A.phase aggregate.state = phase
  cases isTerminal phase with
  | true => rfl
  | false =>
    cases restriction phase with
    | none => cases transition phase event <;> rfl
    | some expected =>
      cases EventKind.kinds cmd with
      | none => rfl
      | some kinds =>
        -- `kinds_intersect` is `kind::intersects`, written again
        have copied : kindsIntersect expected kinds = intersects expected kinds := rfl
        cases accepted : intersects expected kinds with
        | true => cases transition phase event <;> simp [kindAccepted, copied, accepted]
        | false => simp [kindAccepted, copied, accepted]

/-! ## All copies agree -/

/-- The probes of a machine answer as `apply` does. -/
structure Machine.Foretells (machine : Machine S) (event : Event S) : Prop where
  peek : ∀ next, (machine.apply event).1 = .ok next ↔ machine.peekTransition event = some next
  could : (∃ next, (machine.apply event).1 = .ok next) ↔ machine.couldApply event = true
  accepted : (∃ next, (machine.apply event).1 = .ok next) ↔ machine.whyNot event = none
  rejected : ∀ e, (machine.apply event).1 = .error e ↔ machine.whyNot event = some e
  moves : ∀ next, (machine.apply event).1 = .ok next → (machine.apply event).2 = restore next
  stays : ∀ e, (machine.apply event).1 = .error e → (machine.apply event).2 = machine

theorem Machine.foretells (machine : Machine S) (event : Event S) : machine.Foretells event where
  peek next := by
    rw [peekTransition_eq]
    cases (machine.apply event).1 <;> simp [Except.toOption]
  could := (couldApply_iff machine event).symm
  accepted := by
    rw [whyNot_eq]
    cases (machine.apply event).1 <;> simp
  rejected e := by
    rw [whyNot_eq]
    cases (machine.apply event).1 <;> simp
  moves next := apply_next
  stays e rejected := by
    rcases apply_cases machine event with ⟨next, _, _, answer⟩ | ⟨_, _, _, answer⟩
    · rw [answer] at rejected
      cases rejected
    · rw [answer]

/-- The walks over the representatives keep the moves that `apply` makes. -/
structure Analysis.Walked (S : Type) [StateMachine S] (typeName : String) : Prop where
  metadata : ∀ (state : S) (event : Event S) (target : S),
    (state, event, target) ∈ (Machine.metadata S).transitions ↔
      state ∈ stateVariants ∧ event ∈ eventVariants ∧
        ((Machine.restore state).apply event).1 = .ok target
  edges : ((stateVariants (S := S)).foldl walkState ([], ⟨[], [], []⟩)).1 =
    stateVariants.map fun state : S => eventVariants.filterMap fun event =>
      ((Machine.restore state).apply event).1.toOption.bind fun target =>
        indexOf S (StateMachine.variantName target)
  report : ∃ (blocked : List (S × Event S × S))
      (unreachable deadlocks inescapable unused : List String) (pairs : Nat),
    (∀ state event target, (state, event, target) ∈ blocked ↔
      state ∈ stateVariants ∧ event ∈ eventVariants ∧ transition state event = some target ∧
        ∃ e, ((Machine.restore state).apply event).1 = .error e) ∧
    (analyze S typeName).claims =
      reachabilityClaims (variantCount S) (StateMachine.variantName (initial (S := S)))
          unreachable ++ deadlocks.map deadlockClaim ++ inescapable.map inescapableClaim ++
        deadClaims (blocked.map fun step => deadLine step.1 step.2.1 step.2.2) ++
        unusedClaims unused ++ [coverageClaim ((Machine.metadata S).transitions.countP fun step =>
          (indexOf S (StateMachine.variantName step.2.2)).isSome) pairs]
  /-- Every transition is counted where the representatives cover all variants. -/
  counted : (∀ state : S, StateMachine.variantName state ∈ names S) →
    ((Machine.metadata S).transitions.countP fun step =>
      (indexOf S (StateMachine.variantName step.2.2)).isSome) =
        (Machine.metadata S).transitions.length

theorem Analysis.walked (typeName : String) : Walked S typeName where
  metadata state event target := by
    rw [Metadata.transitions_eq, List.mem_filter, mem_moves, Machine.apply_ok_iff, and_assoc,
      and_assoc, and_comm (a := transition state event = some target)]
    simp [dead, Machine.restore]
  edges := by
    rw [(foldl_walkState (stateVariants (S := S)) [] ⟨[], [], []⟩ rfl).1, List.nil_append]
    simp only [← rowTarget_eq]
    rfl
  report := by
    obtain ⟨unreachable, deadlocks, inescapable, unused, pairs, lines⟩ :=
      analyze_moves (S := S) typeName
    refine ⟨(moves S).filter dead, unreachable, deadlocks, inescapable, unused, pairs, ?_, ?_⟩
    · intro state event target
      rw [List.mem_filter, mem_moves, and_assoc, and_assoc]
      refine and_congr_right fun _ => and_congr_right fun _ => and_congr_right fun defined => ?_
      rcases Machine.apply_cases (Machine.restore state) event with
        ⟨next, allowed, _, answer⟩ | ⟨e, runs, _, answer⟩
      · have allowed : structurallyAllowed state event = true := allowed
        simp [dead, allowed, answer]
      · have blocked : structurallyAllowed state event = false :=
          Bool.eq_false_iff.mpr fun allowed => by
            have undefined : transition state event = none := (runs allowed).2
            simp [defined] at undefined
        simp [dead, blocked, answer]
    · rw [lines, edges_count, deadLines]
  counted listed := by
    rw [List.countP_eq_length]
    intro step _
    exact indexOf_isSome (listed step.2.2)

/-- The structural check of an aggregate answers as `apply` does on its phase. -/
structure Aggregate.Mirrors {A : AggregateRules} (aggregate : Aggregate A) (cmd : A.Command)
    (event : Event A.Phase) : Prop where
  terminal : ∀ phase, aggregate.structuralCheck cmd = some (.terminalPhase phase) ↔
    ((Machine.restore aggregate.phase).apply event).1 = .error (.terminalState phase event)
  restricted : ∀ phase expected,
    aggregate.structuralCheck cmd = some (.commandKindRejected phase expected) ↔
      ((Machine.restore aggregate.phase).apply event).1 =
        .error (.eventKindRejected phase event expected (EventKind.kinds event))
  passes : aggregate.structuralCheck cmd = none ↔
    ∀ e, ((Machine.restore aggregate.phase).apply event).1 = .error e → ¬e.Structural

theorem Aggregate.mirrors {A : AggregateRules} (aggregate : Aggregate A) (cmd : A.Command)
    (event : Event A.Phase) (same : EventKind.kinds event = EventKind.kinds cmd) :
    aggregate.Mirrors cmd event := by
  have check := aggregate.structuralCheck_eq cmd event same
  cases answer : ((Machine.restore aggregate.phase).apply event).1 with
  | ok next => constructor <;> simp [check, answer]
  | error e =>
    rcases Machine.apply_error answer with rfl | ⟨expected, rfl⟩ | rfl <;>
      constructor <;> simp [check, answer, TransitionError.Structural]

/-- Every copy of structural enforcement agrees with `apply`, and so no event moves a machine out
of a terminal state. -/
theorem enforcement_agrees :
    (∀ (machine : Machine S) (event : Event S), machine.Foretells event) ∧
    (∀ typeName, Analysis.Walked S typeName) ∧
    (∀ (A : AggregateRules) (aggregate : Aggregate A) (cmd : A.Command) (event : Event A.Phase),
      EventKind.kinds event = EventKind.kinds cmd → aggregate.Mirrors cmd event) ∧
    ∀ (machine : Machine S) (before after : List (Event S)),
      isTerminal (machine.applyAll before).state = true →
        (machine.applyAll (before ++ after)).state = (machine.applyAll before).state := by
  refine ⟨Machine.foretells, Analysis.walked, fun A => Aggregate.mirrors, ?_⟩
  intro machine before after terminal
  rw [Machine.applyAll_append, Machine.applyAll_terminal terminal]

end Ironstate
