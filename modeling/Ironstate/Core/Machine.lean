import Ironstate.Core.StateMachine

/-!
# The runtime machine

`Machine` of `machine.rs`. `apply` takes `&mut self`, so that it answers with the machine it
leaves behind. The listeners and the clock see each outcome after it is decided; they are
left out.
-/

namespace Ironstate

export TransitionRules (Event transition)

/-- `enum TransitionError`. -/
inductive TransitionError (S E : Type) where
  | terminalState (state : S) (event : E)
  | eventKindRejected (state : S) (event : E) (expectedKinds : List Kind)
      (eventKind : Option (List Kind))
  | noTransition (state : S) (event : E)

/-- The rejection comes from the declared structure, not from the transition function. -/
def TransitionError.Structural {S E : Type} : TransitionError S E → Prop
  | .terminalState _ _ => True
  | .eventKindRejected _ _ _ _ => True
  | .noTransition _ _ => False

/-- `matches!(event_kind, Some(ek) if kind::intersects(expected, ek))`: an event of the default
kind is accepted by no restricted state. -/
def kindAccepted (expected : List Kind) : Option (List Kind) → Bool
  | some ek => intersects expected ek
  | none => false

variable {S : Type} [StateMachine S]

variable (S) in
/-- `struct Machine`. -/
structure Machine where
  state : S

namespace Machine

variable (S) in
/-- `Machine::new`. -/
def new : Machine S := ⟨StateMachine.initial⟩

/-- `Machine::restore`. -/
def restore (state : S) : Machine S := ⟨state⟩

/-- The end of `apply`: the transition function runs. -/
def fire (machine : Machine S) (event : Event S) :
    Except (TransitionError S (Event S)) S × Machine S :=
  match transition machine.state event with
  | some next => (.ok next, ⟨next⟩)
  | none => (.error (.noTransition machine.state event), machine)

/-- `Machine::apply`. -/
def apply (machine : Machine S) (event : Event S) :
    Except (TransitionError S (Event S)) S × Machine S :=
  if StateMachine.isTerminal machine.state then
    (.error (.terminalState machine.state event), machine)
  else
    match StateMachine.restriction machine.state with
    | none => machine.fire event
    | some expected =>
      let eventKind := EventKind.kinds event
      if kindAccepted expected eventKind then machine.fire event
      else (.error (.eventKindRejected machine.state event expected eventKind), machine)

/-- `Machine::could_apply`. -/
def couldApply (machine : Machine S) (event : Event S) : Bool :=
  if StateMachine.isTerminal machine.state then false
  else
    let rejected :=
      match StateMachine.restriction machine.state with
      | some expected => !kindAccepted expected (EventKind.kinds event)
      | none => false
    if rejected then false else (transition machine.state event).isSome

/-- `Machine::why_not`. -/
def whyNot (machine : Machine S) (event : Event S) : Option (TransitionError S (Event S)) :=
  if StateMachine.isTerminal machine.state then some (.terminalState machine.state event)
  else
    let undefined :=
      if (transition machine.state event).isNone then some (.noTransition machine.state event)
      else none
    match StateMachine.restriction machine.state with
    | some expected =>
      let eventKind := EventKind.kinds event
      if !kindAccepted expected eventKind then
        some (.eventKindRejected machine.state event expected eventKind)
      else undefined
    | none => undefined

/-- `Machine::peek_transition`. -/
def peekTransition (machine : Machine S) (event : Event S) : Option S :=
  if !machine.couldApply event then none else transition machine.state event

/-- A run: every event is applied, whether or not the one before it was accepted. -/
def applyAll (machine : Machine S) : List (Event S) → Machine S
  | [] => machine
  | event :: events => (machine.apply event).2.applyAll events

/-- Every event of a run is accepted. -/
def AcceptsAll (machine : Machine S) : List (Event S) → Prop
  | [] => True
  | event :: events =>
    (∃ next, (machine.apply event).1 = .ok next) ∧ (machine.apply event).2.AcceptsAll events

end Machine

/-- `structurally_allowed` of `analyze`: what the declared structure allows, whatever the
transition function says. -/
def structurallyAllowed (state : S) (event : Event S) : Bool :=
  !StateMachine.isTerminal state &&
    match StateMachine.restriction state with
    | none => true
    | some expected => kindAccepted expected (EventKind.kinds event)

namespace Machine

/-- The transition function runs when the structure allows the event. -/
theorem apply_allowed {machine : Machine S} {event : Event S}
    (allowed : structurallyAllowed machine.state event) :
    machine.apply event = machine.fire event := by
  unfold structurallyAllowed at allowed
  unfold apply
  cases terminal : StateMachine.isTerminal machine.state with
  | true => simp [terminal] at allowed
  | false =>
    cases restriction : StateMachine.restriction machine.state with
    | none => simp
    | some expected =>
      have accepted : kindAccepted expected (EventKind.kinds event) := by
        simpa [terminal, restriction] using allowed
      simp [accepted]

/-- Otherwise the event is rejected, whatever the transition function says. -/
theorem apply_blocked {machine : Machine S} {event : Event S}
    (blocked : structurallyAllowed machine.state event = false) :
    ∃ e, e.Structural ∧ machine.apply event = (.error e, machine) := by
  unfold structurallyAllowed at blocked
  unfold apply
  cases terminal : StateMachine.isTerminal machine.state with
  | true => exact ⟨.terminalState machine.state event, trivial, by simp⟩
  | false =>
    cases restriction : StateMachine.restriction machine.state with
    | none => simp [terminal, restriction] at blocked
    | some expected =>
      have refused : kindAccepted expected (EventKind.kinds event) = false := by
        simpa [terminal, restriction] using blocked
      exact ⟨.eventKindRejected machine.state event expected (EventKind.kinds event), trivial,
        by simp [refused]⟩

theorem fire_some {machine : Machine S} {event : Event S} {next : S}
    (defined : transition machine.state event = some next) :
    machine.fire event = (.ok next, ⟨next⟩) := by
  simp [fire, defined]

theorem fire_none {machine : Machine S} {event : Event S}
    (undefined : transition machine.state event = none) :
    machine.fire event = (.error (.noTransition machine.state event), machine) := by
  simp [fire, undefined]

/-- What one `apply` can do: it moves to the state it answers with, or answers with an error
and stays. -/
theorem apply_cases (machine : Machine S) (event : Event S) :
    (∃ next, structurallyAllowed machine.state event ∧
        transition machine.state event = some next ∧
        machine.apply event = (.ok next, restore next)) ∨
      ∃ e, (structurallyAllowed machine.state event → ¬e.Structural ∧
          transition machine.state event = none) ∧
        (structurallyAllowed machine.state event = false → e.Structural) ∧
        machine.apply event = (.error e, machine) := by
  cases allowed : structurallyAllowed machine.state event with
  | true =>
    cases defined : transition machine.state event with
    | some next => exact .inl ⟨next, rfl, rfl, (apply_allowed allowed).trans (fire_some defined)⟩
    | none =>
      exact .inr ⟨.noTransition machine.state event, fun _ => ⟨id, rfl⟩, nofun,
        (apply_allowed allowed).trans (fire_none defined)⟩
  | false =>
    obtain ⟨e, structural, answer⟩ := apply_blocked allowed
    exact .inr ⟨e, nofun, fun _ => structural, answer⟩

/-- An event is accepted when the structure allows it and the transition function has a next
state. -/
theorem apply_ok_iff (machine : Machine S) (event : Event S) (next : S) :
    (machine.apply event).1 = .ok next ↔
      structurallyAllowed machine.state event ∧ transition machine.state event = some next := by
  rcases apply_cases machine event with ⟨target, allowed, defined, answer⟩ | ⟨e, some, none, answer⟩
  · simp [answer, allowed, defined]
  · rw [answer]
    constructor
    · nofun
    · rintro ⟨allowed, defined⟩
      simp [(some allowed).2] at defined

theorem apply_structural_iff (machine : Machine S) (event : Event S) :
    (∃ e, (machine.apply event).1 = .error e ∧ e.Structural) ↔
      structurallyAllowed machine.state event = false := by
  rcases apply_cases machine event with ⟨next, allowed, _, answer⟩ | ⟨e, some, none, answer⟩
  · simp [answer, allowed]
  · rw [answer]
    constructor
    · rintro ⟨_, ⟨rfl⟩, structural⟩
      exact Bool.eq_false_iff.mpr fun allowed => (some allowed).1 structural
    · intro blocked
      exact ⟨e, rfl, none blocked⟩

theorem applyAll_append (machine : Machine S) (events later : List (Event S)) :
    machine.applyAll (events ++ later) = (machine.applyAll events).applyAll later := by
  induction events generalizing machine with
  | nil => rfl
  | cons event events ih => exact ih (machine.apply event).2

theorem acceptsAll_append (machine : Machine S) (events later : List (Event S)) :
    machine.AcceptsAll (events ++ later) ↔
      machine.AcceptsAll events ∧ (machine.applyAll events).AcceptsAll later := by
  induction events generalizing machine with
  | nil => simp [AcceptsAll, applyAll]
  | cons event events ih => simp [AcceptsAll, applyAll, ih, and_assoc]

/-- The machine after an accepted event. -/
theorem apply_next {machine : Machine S} {event : Event S} {next : S}
    (accepted : (machine.apply event).1 = .ok next) : (machine.apply event).2 = restore next := by
  rcases apply_cases machine event with ⟨target, _, _, answer⟩ | ⟨e, _, _, answer⟩
  · rw [answer] at accepted ⊢
    cases accepted
    rfl
  · rw [answer] at accepted
    cases accepted

end Machine

end Ironstate
