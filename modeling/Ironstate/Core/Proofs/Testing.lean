import Ironstate.Core.Testing
import Ironstate.Core.Proofs.Report
import Ironstate.Lib.Shortcut

/-!
# What `test!` can find

A case fails at the first step of a real run that breaks an invariant (`testCase_error`). The other
way round, the strategy is deep enough as soon as it is as deep as the machine has variants: where
any run breaks an invariant, one of the lists it can generate does (`run_exact`).
-/

namespace Ironstate.Testing

open EventKind (eventVariants)
open StateMachine (PayloadFree stateVariants)
open Analysis (variantCount)

/-- A runner that reports a failure reports a list it may generate, on which the test fails so. -/
def TestRunner.Honest {ε : Type} (runner : TestRunner ε) : Prop :=
  ∀ params below atMost test reason case,
    runner.run params below atMost test = .error (.fail reason case) →
      case.length ≤ atMost ∧ (∀ idx ∈ case, idx < below) ∧ test case = .error reason

variable {S : Type} [StateMachine S]

variable (S) in
/-- A list that the strategy generates. -/
def Generated (maxSteps : Nat) (case : List Nat) : Prop :=
  case.length ≤ maxSteps ∧ ∀ idx ∈ case, idx < (eventVariants (E := Event S)).length

/-- The step that an event takes from where a run has come breaks an invariant. -/
def Breaks (invariants : List (Invariant S)) (machine : Machine S) (events : List (Event S))
    (violation : Violation S) : Prop :=
  ∃ before event later invariant, events = before ++ event :: later ∧ invariant ∈ invariants ∧
    invariant.holds (machine.applyAll before).state event
      ((machine.applyAll before).apply event).1.toOption = false ∧
    violation = ⟨invariant.description, (machine.applyAll before).state, event,
      ((machine.applyAll before).apply event).1.toOption⟩

/-! ## One case -/

section Case

variable {invariants : List (Invariant S)}

theorem Breaks.cons {machine : Machine S} {events : List (Event S)} {violation : Violation S}
    (event : Event S) (breaks : Breaks invariants (machine.apply event).2 events violation) :
    Breaks invariants machine (event :: events) violation := by
  obtain ⟨before, last, later, invariant, rfl, rest⟩ := breaks
  exact ⟨event :: before, last, later, invariant, rfl, rest⟩

variable (invariants) in
/-- A case over listed events either passes or fails at a step of the run. -/
theorem testCase_cases (events : List (Event S)) {case : List Nat}
    (inside : ∀ idx ∈ case, idx < events.length) (machine : Machine S) :
    ∃ chosen : List (Event S), case.map (fun idx => events[idx]?) = chosen.map some ∧
      ((testCase events invariants machine case = .ok () ∧
          ∀ violation, ¬Breaks invariants machine chosen violation) ∨
        ∃ violation, testCase events invariants machine case =
            .error (.invariantViolated violation) ∧
          Breaks invariants machine chosen violation) := by
  induction case generalizing machine with
  | nil =>
    refine ⟨[], rfl, .inl ⟨rfl, ?_⟩⟩
    rintro violation ⟨before, event, later, invariant, split, _⟩
    simp at split
  | cons idx case ih =>
    have here := inside idx (List.mem_cons_self ..)
    obtain ⟨chosen, named, outcome⟩ :=
      ih (fun later member => inside later (List.mem_cons_of_mem _ member))
        (machine.apply events[idx]).2
    refine ⟨events[idx] :: chosen, ?_, ?_⟩
    · rw [List.map_cons, List.map_cons, named, List.getElem?_eq_getElem here]
    · have event : Lib.Checked.get events idx = .ok events[idx] :=
        Lib.Checked.get_ok (List.getElem?_eq_getElem here)
      rw [testCase, event]
      dsimp only
      cases found : invariants.find? fun invariant => !invariant.holds machine.state events[idx]
          (machine.apply events[idx]).1.toOption with
      | some invariant =>
        have violated : invariant.holds machine.state events[idx]
            (machine.apply events[idx]).1.toOption = false := by
          simpa using List.find?_some found
        exact .inr ⟨_, rfl, [], events[idx], chosen, invariant, rfl,
          List.mem_of_find?_eq_some found, violated, rfl⟩
      | none =>
        rcases outcome with ⟨passes, unbroken⟩ | ⟨violation, fails, breaks⟩
        · refine .inl ⟨passes, ?_⟩
          rintro violation ⟨before, event, later, invariant, split, member, violated, reported⟩
          cases before with
          | nil =>
            obtain ⟨rfl, rfl⟩ := List.cons.inj split
            have held := List.find?_eq_none.mp found invariant member
            simp [Machine.applyAll] at held violated
            simp [held] at violated
          | cons first before =>
            obtain ⟨rfl, rfl⟩ := List.cons.inj split
            exact unbroken violation
              ⟨before, event, later, invariant, rfl, member, violated, reported⟩
        · exact .inr ⟨violation, fails, breaks.cons _⟩

/-- Listed events are named by a list of indices. -/
theorem exists_case (listed : ∀ event : Event S, event ∈ eventVariants)
    (events : List (Event S)) :
    ∃ case : List Nat, case.length = events.length ∧
      (∀ idx ∈ case, idx < (eventVariants (E := Event S)).length) ∧
      case.map (fun idx => (eventVariants (E := Event S))[idx]?) = events.map some := by
  induction events with
  | nil => exact ⟨[], rfl, by simp, rfl⟩
  | cons event events ih =>
    obtain ⟨case, length, inside, named⟩ := ih
    obtain ⟨idx, here, at_idx⟩ := List.mem_iff_getElem.mp (listed event)
    refine ⟨idx :: case, congrArg Nat.succ length, List.forall_mem_cons.mpr ⟨here, inside⟩, ?_⟩
    rw [List.map_cons, List.map_cons, named, List.getElem?_eq_getElem here, at_idx]

theorem applyAll_eq_foldl (machine : Machine S) (events : List (Event S)) :
    machine.applyAll events = events.foldl (fun machine event => (machine.apply event).2) machine := by
  induction events generalizing machine with
  | nil => rfl
  | cons event events ih => exact ih _

/-- A state is entered in fewer events than there are variants, or not at all. -/
theorem exists_short_entry (free : PayloadFree S) (machine : Machine S) (events : List (Event S)) :
    ∃ short : List (Event S), short.length < variantCount S ∧
      machine.applyAll short = machine.applyAll events := by
  classical
  let variants : Fintype (Machine S) :=
    ⟨(stateVariants.map Machine.restore).toFinset, fun machine =>
      List.mem_toFinset.mpr (List.mem_map.mpr ⟨machine.state, free.states machine.state, rfl⟩)⟩
  have few : Fintype.card (Machine S) ≤ variantCount S := by
    refine Nat.le_trans (List.toFinset_card_le _) ?_
    rw [List.length_map]
  obtain ⟨short, below, same⟩ :=
    Lib.exists_short_run (fun machine event => (machine.apply event).2) machine events
  refine ⟨short, Nat.lt_of_lt_of_le below few, ?_⟩
  rw [applyAll_eq_foldl, applyAll_eq_foldl, same]

/-- Where a run breaks an invariant, a list that the strategy generates does. -/
theorem exists_failing_case (free : PayloadFree S) {maxSteps : Nat}
    (deep : variantCount S ≤ maxSteps) {events : List (Event S)} {violation : Violation S}
    (breaks : Breaks invariants (Machine.new S) events violation) :
    ∃ case, Generated S maxSteps case ∧
      testCase eventVariants invariants (Machine.new S) case ≠ .ok () := by
  obtain ⟨before, event, later, invariant, _, member, violated, reported⟩ := breaks
  obtain ⟨short, below, same⟩ := exists_short_entry free (Machine.new S) before
  obtain ⟨case, length, inside, named⟩ := exists_case free.events (short ++ [event])
  refine ⟨case, ⟨?_, inside⟩, ?_⟩
  · rw [length, List.length_append, List.length_singleton]
    omega
  · intro passes
    obtain ⟨chosen, named', outcome⟩ := testCase_cases invariants _ inside
      (Machine.new S)
    obtain rfl : short ++ [event] = chosen :=
      List.map_injective_iff.mpr (fun _ _ => Option.some.inj) (named.symm.trans named')
    rcases outcome with ⟨_, unbroken⟩ | ⟨_, fails, _⟩
    · refine unbroken violation ⟨short, event, [], invariant, rfl, member, ?_⟩
      rw [same]
      exact ⟨violated, reported⟩
    · rw [passes] at fails
      cases fails

end Case

/-- `test!` reports nothing but a step of a real run that breaks an invariant. -/
theorem run_failed {runner : TestRunner (CaseError S)} (honest : runner.Honest)
    {invariants : List (Invariant S)} {params : TestParams} {reason : CaseError S}
    {case : List Nat} (reported : run runner params invariants = .error (.failed reason case)) :
    Generated S params.maxSteps case ∧ ∃ events violation,
      case.map (fun idx => (eventVariants (E := Event S))[idx]?) = events.map some ∧
      reason = .invariantViolated violation ∧
      Breaks invariants (Machine.new S) events violation := by
  unfold run at reported
  dsimp only at reported
  by_cases none : (eventVariants (E := Event S)).isEmpty
  · rw [if_pos none] at reported
    cases reported
  rw [if_neg none] at reported
  cases answered : runner.run params (eventVariants (E := Event S)).length params.maxSteps
      (testCase eventVariants invariants (Machine.new S)) with
  | ok passed =>
    rw [answered] at reported
    cases reported
  | error error =>
    rw [answered] at reported
    cases error with
    | abort reason => cases reported
    | fail reason' case' =>
      cases reported
      obtain ⟨length, inside, fails⟩ := honest _ _ _ _ _ _ answered
      obtain ⟨chosen, named, ⟨passes, _⟩ | ⟨violation, fails', breaks⟩⟩ :=
        testCase_cases invariants _ inside (Machine.new S)
      · rw [passes] at fails
        cases fails
      · rw [fails] at fails'
        cases fails'
        exact ⟨⟨length, inside⟩, chosen, violation, named, rfl, breaks⟩

/-- What `test!` reports is real; and if its cases are as long as the machine has variants, then
some case it may generate fails as soon as any run of any length breaks an invariant. -/
theorem run_exact {runner : TestRunner (CaseError S)} (honest : runner.Honest)
    (invariants : List (Invariant S)) :
    (∀ params reason case, run runner params invariants = .error (.failed reason case) →
      Generated S params.maxSteps case ∧ ∃ events violation,
        case.map (fun idx => (eventVariants (E := Event S))[idx]?) = events.map some ∧
        reason = .invariantViolated violation ∧
        Breaks invariants (Machine.new S) events violation) ∧
      (PayloadFree S → ∀ maxSteps, variantCount S ≤ maxSteps →
        ((∀ case, Generated S maxSteps case →
            testCase eventVariants invariants (Machine.new S) case = .ok ()) ↔
          ∀ events violation, ¬Breaks invariants (Machine.new S) events violation)) := by
  refine ⟨fun _ _ _ reported => run_failed honest reported, ?_⟩
  intro free maxSteps deep
  constructor
  · intro passes events violation breaks
    obtain ⟨case, generated, fails⟩ := exists_failing_case free deep breaks
    exact fails (passes case generated)
  · rintro unbroken case ⟨_, inside⟩
    obtain ⟨chosen, _, ⟨passes, _⟩ | ⟨violation, _, breaks⟩⟩ :=
      testCase_cases invariants _ inside (Machine.new S)
    · exact passes
    · exact absurd breaks (unbroken chosen violation)

/-- A runner that tries one list, if the strategy generates it. -/
def oneCase {ε : Type} (case : List Nat) : TestRunner ε where
  run _ below atMost test :=
    if case.length ≤ atMost ∧ ∀ idx ∈ case, idx < below then
      (test case).mapError fun reason => .fail reason case
    else .error (.abort "no case")

theorem oneCase_honest {ε : Type} (case : List Nat) : (oneCase (ε := ε) case).Honest := by
  intro params below atMost test reason case' reported
  unfold oneCase at reported
  dsimp only at reported
  by_cases generated : case.length ≤ atMost ∧ ∀ idx ∈ case, idx < below
  · rw [if_pos generated] at reported
    cases answered : test case with
    | ok passed =>
      rw [answered] at reported
      cases reported
    | error reason' =>
      rw [answered] at reported
      cases reported
      exact ⟨generated.1, generated.2, answered⟩
  · rw [if_neg generated] at reported
    cases reported

open Fixture in
/-- That a deployment is never done is refuted by starting and completing it. -/
theorem run_exact_deploy :
    ∃ events violation, Breaks [⟨"never done", fun _ _ after => after != some Deploy.done⟩]
      (Machine.new Deploy) events violation := by
  obtain ⟨_, events, violation, _, _, breaks⟩ :=
    (run_exact (oneCase_honest [0, 1]) [⟨"never done", fun _ _ after => after != some Deploy.done⟩]).1
      TestParams.new _ _ rfl
  exact ⟨events, violation, breaks⟩

end Ironstate.Testing
