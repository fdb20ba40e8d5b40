import Ironstate.Aggregate.Rules

/-!
# Runs of an aggregate

What a list of commands leaves of an aggregate, each with the context it is handed, and the events
it emits on the way. A rejected command emits nothing and changes nothing.
-/

namespace Ironstate.Aggregate

variable {A : AggregateRules}

/-- An aggregate that `new` accepts holds the state it was given. -/
theorem new_ok {state : A.State} {aggregate : Aggregate A}
    (accepted : Aggregate.new state = .ok aggregate) :
    (A.phase state == StateMachine.initial) = true ∧ aggregate = ⟨state⟩ := by
  unfold Aggregate.new at accepted
  dsimp only at accepted
  split at accepted
  · exact ⟨‹_›, (Except.ok.inj accepted).symm⟩
  · cases accepted

/-- `decide_only` accepts a command that the phase lets through and `decide` accepts. -/
theorem decideOnly_ok_iff {aggregate : Aggregate A} {cmd : A.Command} {ctx drawn : A.Ctx}
    {events : List A.Event} :
    aggregate.decideOnly cmd ctx = (.ok events, drawn) ↔ aggregate.structuralCheck cmd = none ∧
      A.decide aggregate.state cmd ctx = (.ok events, drawn) := by
  unfold decideOnly
  cases aggregate.structuralCheck cmd with
  | some rejection => simp
  | none => rcases A.decide aggregate.state cmd ctx with ⟨error | answered, left⟩ <;> simp

/-- What `handle` leaves of an aggregate. -/
def handled (aggregate : Aggregate A) (input : A.Command × A.Ctx) : Aggregate A :=
  (aggregate.handle input.1 input.2).2.1

/-- The events that `handle` answers. -/
def emitted (aggregate : Aggregate A) (input : A.Command × A.Ctx) : List A.Event :=
  match (aggregate.handle input.1 input.2).1 with
  | .ok events => events
  | .error _ => []

/-- The events of a run, in order. -/
def history (aggregate : Aggregate A) : List (A.Command × A.Ctx) → List A.Event
  | [] => []
  | input :: inputs => aggregate.emitted input ++ (aggregate.handled input).history inputs

theorem handled_eq (aggregate : Aggregate A) (input : A.Command × A.Ctx) :
    aggregate.handled input = ⟨(aggregate.emitted input).foldl A.evolve aggregate.state⟩ := by
  unfold handled emitted handle
  cases aggregate.structuralCheck input.1 with
  | some rejection => rfl
  | none => rcases A.decide aggregate.state input.1 input.2 with ⟨error | events, drawn⟩ <;> rfl

/-- Events are emitted by `decide`, for a command that the phase lets through. -/
theorem emitted_cases (aggregate : Aggregate A) (input : A.Command × A.Ctx) :
    aggregate.emitted input = [] ∨
      aggregate.structuralCheck input.1 = none ∧
        (A.decide aggregate.state input.1 input.2).1 = .ok (aggregate.emitted input) := by
  unfold emitted handle
  cases aggregate.structuralCheck input.1 with
  | some rejection => exact .inl rfl
  | none =>
    rcases A.decide aggregate.state input.1 input.2 with ⟨error | events, drawn⟩
    · exact .inl rfl
    · exact .inr ⟨rfl, rfl⟩

/-- Two aggregates emit the same where the phase and `decide` answer the same. -/
theorem emitted_congr {aggregate other : Aggregate A} {input : A.Command × A.Ctx}
    (phase : aggregate.phase = other.phase)
    (decided : (A.decide aggregate.state input.1 input.2).1 =
      (A.decide other.state input.1 input.2).1) :
    aggregate.emitted input = other.emitted input := by
  have checked : aggregate.structuralCheck input.1 = other.structuralCheck input.1 := by
    unfold structuralCheck
    rw [show A.phase aggregate.state = A.phase other.state from phase]
  unfold emitted handle
  rw [checked]
  cases other.structuralCheck input.1 with
  | some rejection => rfl
  | none =>
    dsimp only
    generalize A.decide aggregate.state input.1 input.2 = first at decided
    generalize A.decide other.state input.1 input.2 = second at decided
    obtain ⟨_, _⟩ := first
    obtain ⟨error | events, _⟩ := second <;> cases decided <;> rfl

/-- What each command keeps of a run, with the events emitted so far, a whole run keeps. -/
theorem history_induction (Inv : List A.Event → Aggregate A → Prop)
    (step : ∀ past aggregate input, Inv past aggregate →
      Inv (past ++ aggregate.emitted input) (aggregate.handled input))
    {aggregate : Aggregate A} (start : Inv [] aggregate) (inputs : List (A.Command × A.Ctx)) :
    Inv (aggregate.history inputs) (inputs.foldl handled aggregate) := by
  have further : ∀ (inputs : List (A.Command × A.Ctx)) past aggregate, Inv past aggregate →
      Inv (past ++ aggregate.history inputs) (inputs.foldl handled aggregate) := by
    intro inputs
    induction inputs with
    | nil =>
      intro past aggregate inv
      rwa [history, List.append_nil]
    | cons input inputs ih =>
      intro past aggregate inv
      rw [history, ← List.append_assoc]
      exact ih _ _ (step past aggregate input inv)
  exact further inputs [] aggregate start

end Ironstate.Aggregate
