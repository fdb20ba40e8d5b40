import Ironstate.Core.Listener
import Ironstate.Core.Proofs.Report

/-!
# Listeners only listen

Whatever listeners and clocks do to the world, a machine answers and moves as one without them
(`apply_cases`). A pair of listeners that writes a log nobody else writes (`Keeps`) leaves there
what the machine went through since they were registered (`Audited`, `run_audited`).
-/

namespace Ironstate

namespace Machine

variable {S : Type} [StateMachine S]

/-- What the events of a run are answered. -/
def answers (machine : Machine S) : List (Event S) → List (Except (TransitionError S (Event S)) S)
  | [] => []
  | event :: events => (machine.apply event).1 :: (machine.apply event).2.answers events

theorem answers_append (machine : Machine S) (events later : List (Event S)) :
    machine.answers (events ++ later) =
      machine.answers events ++ (machine.applyAll events).answers later := by
  induction events generalizing machine with
  | nil => rfl
  | cons event events ih =>
    rw [List.cons_append, answers, answers, applyAll, ih, List.cons_append]

end Machine

/-- What a listener is told, apart from the time. -/
inductive Told (S : Type) [StateMachine S] where
  | moved (fromState : S) (event : Event S) (toState : S)
  | refused (error : TransitionError S (Event S))

namespace Told

variable {S : Type} [StateMachine S]

/-- An answer, as the listeners are told it. -/
def ofAnswer (state : S) (event : Event S) : Except (TransitionError S (Event S)) S → Told S
  | .ok next => .moved state event next
  | .error error => .refused error

/-- What there is to tell of a run. -/
def trail (machine : Machine S) : List (Event S) → List (Told S)
  | [] => []
  | event :: events =>
    ofAnswer machine.state event (machine.apply event).1 :: trail (machine.apply event).2 events

theorem trail_append (machine : Machine S) (events later : List (Event S)) :
    trail machine (events ++ later) =
      trail machine events ++ trail (machine.applyAll events) later := by
  induction events generalizing machine with
  | nil => rfl
  | cons event events ih =>
    rw [List.cons_append, trail, trail, Machine.applyAll, ih, List.cons_append]

/-- The state after what is told, from the state before. -/
def follow (state : S) : Told S → S
  | .moved _ _ toState => toState
  | .refused _ => state

/-- What is told of a run leads from where it started to where it ends. -/
theorem foldl_follow_trail (machine : Machine S) (events : List (Event S)) :
    (trail machine events).foldl follow machine.state = (machine.applyAll events).state := by
  induction events generalizing machine with
  | nil => rfl
  | cons event events ih =>
    rw [trail, List.foldl_cons, Machine.applyAll, ← ih]
    rcases Machine.apply_cases machine event with ⟨next, _, _, answer⟩ | ⟨e, _, _, answer⟩
    · rw [answer]
      rfl
    · rw [answer]
      rfl

end Told

namespace Watched

variable {S W Instant : Type} [StateMachine S]

/-! ## The outcome -/

/-- What one `apply` can do: what it does without listeners, and then tell them. -/
theorem apply_cases (machine : Watched S W Instant) (event : Event S) (world : W) :
    (∃ next, (Machine.restore machine.state).apply event = (.ok next, .restore next) ∧
        machine.apply event world =
          (.ok next, { machine with state := next }, machine.fireTransition
            ⟨machine.state, event, next, (machine.clock world).1⟩ (machine.clock world).2)) ∨
      ∃ e, (Machine.restore machine.state).apply event = (.error e, .restore machine.state) ∧
        machine.apply event world = (.error e, machine, machine.fireRejection e world) := by
  have fires : (∃ next, (Machine.restore machine.state).fire event = (.ok next, .restore next) ∧
        machine.fire event world =
          (.ok next, { machine with state := next }, machine.fireTransition
            ⟨machine.state, event, next, (machine.clock world).1⟩ (machine.clock world).2)) ∨
      ∃ e, (Machine.restore machine.state).fire event = (.error e, .restore machine.state) ∧
        machine.fire event world = (.error e, machine, machine.fireRejection e world) := by
    cases defined : transition machine.state event with
    | some next =>
      refine .inl ⟨next, Machine.fire_some defined, ?_⟩
      simp [fire, defined, fireTransition]
    | none =>
      refine .inr ⟨.noTransition machine.state event, Machine.fire_none defined, ?_⟩
      simp [fire, defined]
  unfold apply Machine.apply
  cases terminal : StateMachine.isTerminal machine.state with
  | true =>
    refine .inr ⟨.terminalState machine.state event, ?_, ?_⟩
    · simp [Machine.restore, terminal]
    · simp
  | false =>
    cases restriction : StateMachine.restriction machine.state with
    | none => simpa [Machine.restore, terminal, restriction] using fires
    | some expected =>
      cases accepted : kindAccepted expected (EventKind.kinds event) with
      | true => simpa [Machine.restore, terminal, restriction, accepted] using fires
      | false =>
        refine .inr ⟨.eventKindRejected machine.state event expected (EventKind.kinds event), ?_, ?_⟩
        · simp [Machine.restore, terminal, restriction, accepted]
        · simp [accepted]

/-- What one call answers and where it moves, whatever is registered. -/
theorem perform_bare (machine : Watched S W Instant) (op : Op S W Instant) (world : W) :
    (machine.perform op world).1.toList =
        (Machine.restore machine.state).answers (applied [op]) ∧
      (machine.perform op world).2.1.state =
        ((Machine.restore machine.state).applyAll (applied [op])).state := by
  cases op with
  | apply event =>
    rcases apply_cases machine event world with ⟨next, bare, told⟩ | ⟨e, bare, told⟩
    · simp only [perform, told, applied, Machine.answers, Machine.applyAll, bare]
      exact ⟨rfl, rfl⟩
    · simp only [perform, told, applied, Machine.answers, Machine.applyAll, bare]
      exact ⟨rfl, rfl⟩
  | onTransition listener => exact ⟨rfl, rfl⟩
  | onRejection listener => exact ⟨rfl, rfl⟩
  | setClock clock => exact ⟨rfl, rfl⟩

theorem applied_cons (op : Op S W Instant) (ops : List (Op S W Instant)) :
    applied (op :: ops) = applied [op] ++ applied ops := by
  cases op <;> rfl

theorem run_bare (machine : Watched S W Instant) (ops : List (Op S W Instant)) (world : W) :
    (machine.run ops world).1 = (Machine.restore machine.state).answers (applied ops) ∧
      (machine.run ops world).2.1.state =
        ((Machine.restore machine.state).applyAll (applied ops)).state := by
  induction ops generalizing machine world with
  | nil => exact ⟨rfl, rfl⟩
  | cons op ops ih =>
    obtain ⟨answer, moved⟩ := perform_bare machine op world
    obtain ⟨answers, state⟩ := ih (machine.perform op world).2.1 (machine.perform op world).2.2
    rw [moved] at answers state
    constructor
    · rw [applied_cons, Machine.answers_append, ← answer]
      exact congrArg _ answers
    · rw [applied_cons, Machine.applyAll_append]
      exact state

/-! ## The log -/

section Log

variable {log : W → List (Told S)}

/-- A call that registers nothing that writes the log. -/
def Op.Keeps (log : W → List (Told S)) : Op S W Instant → Prop
  | .apply _ => True
  | .onTransition listener => ∀ record world, log (listener record world) = log world
  | .onRejection listener => ∀ error world, log (listener error world) = log world
  | .setClock clock => ∀ world, log (clock world).2 = log world

/-- A machine none of whose closures writes the log. -/
structure Keeps (log : W → List (Told S)) (machine : Watched S W Instant) : Prop where
  onTransition : ∀ listener ∈ machine.onTransition, ∀ record world,
    log (listener record world) = log world
  onRejection : ∀ listener ∈ machine.onRejection, ∀ error world,
    log (listener error world) = log world
  clock : ∀ world, log (machine.clock world).2 = log world

/-- The machine with two more listeners, which write what they are told. -/
def audit (write : Told S → W → W) (machine : Watched S W Instant) : Watched S W Instant :=
  { machine with
    onTransition := machine.onTransition ++
      [fun record => write (.moved record.fromState record.event record.toState)]
    onRejection := machine.onRejection ++ [fun error => write (.refused error)] }

/-- A machine whose closures write the log once for each outcome. -/
structure Audited (log : W → List (Told S)) (machine : Watched S W Instant) : Prop where
  moved : ∀ record world, log (machine.fireTransition record world) =
    log world ++ [.moved record.fromState record.event record.toState]
  refused : ∀ error world, log (machine.fireRejection error world) = log world ++ [.refused error]
  clock : ∀ world, log (machine.clock world).2 = log world

theorem foldl_keeps {α : Type} {listeners : List (α → W → W)}
    (keeps : ∀ listener ∈ listeners, ∀ a world, log (listener a world) = log world) (a : α)
    (world : W) :
    log (listeners.foldl (fun world listener => listener a world) world) = log world := by
  induction listeners generalizing world with
  | nil => rfl
  | cons listener listeners ih =>
    rw [List.foldl_cons, ih fun later member => keeps later (List.mem_cons_of_mem _ member)]
    exact keeps listener (List.mem_cons_self ..) a world

theorem audit_audited {machine : Watched S W Instant} (keeps : machine.Keeps log)
    {write : Told S → W → W} (writes : ∀ told world, log (write told world) = log world ++ [told]) :
    (machine.audit write).Audited log := by
  refine ⟨?_, ?_, keeps.clock⟩
  · intro record world
    rw [fireTransition, audit, List.foldl_append, List.foldl_cons, List.foldl_nil, writes,
      foldl_keeps keeps.onTransition]
  · intro error world
    rw [fireRejection, audit, List.foldl_append, List.foldl_cons, List.foldl_nil, writes,
      foldl_keeps keeps.onRejection]

/-- What one call tells of an audited machine. -/
theorem perform_audited {machine : Watched S W Instant} (audited : machine.Audited log)
    {op : Op S W Instant} (quiet : op.Keeps log) (world : W) :
    (machine.perform op world).2.1.Audited log ∧
      log (machine.perform op world).2.2 =
        log world ++ Told.trail (Machine.restore machine.state) (applied [op]) := by
  cases op with
  | apply event =>
    rcases apply_cases machine event world with ⟨next, bare, told⟩ | ⟨e, bare, told⟩
    · simp only [perform, told, applied, Told.trail, bare]
      refine ⟨⟨audited.moved, audited.refused, audited.clock⟩, ?_⟩
      rw [audited.moved, audited.clock]
      rfl
    · simp only [perform, told, applied, Told.trail, bare]
      exact ⟨audited, audited.refused e world⟩
  | onTransition listener =>
    refine ⟨⟨?_, audited.refused, audited.clock⟩, (List.append_nil _).symm⟩
    intro record world
    rw [perform, fireTransition, List.foldl_append, List.foldl_cons, List.foldl_nil, quiet]
    exact audited.moved record world
  | onRejection listener =>
    refine ⟨⟨audited.moved, ?_, audited.clock⟩, (List.append_nil _).symm⟩
    intro error world
    rw [perform, fireRejection, List.foldl_append, List.foldl_cons, List.foldl_nil, quiet]
    exact audited.refused error world
  | setClock clock => exact ⟨⟨audited.moved, audited.refused, quiet⟩, (List.append_nil _).symm⟩

/-- What a run of calls tells of an audited machine. -/
theorem run_of_audited {machine : Watched S W Instant} (audited : machine.Audited log)
    {ops : List (Op S W Instant)} (quiet : ∀ op ∈ ops, op.Keeps log) (world : W) :
    log (machine.run ops world).2.2 =
      log world ++ Told.trail (Machine.restore machine.state) (applied ops) := by
  induction ops generalizing machine world with
  | nil => exact (List.append_nil _).symm
  | cons op ops ih =>
    obtain ⟨audited', logged⟩ :=
      perform_audited audited (quiet op (List.mem_cons_self ..)) world
    have later := ih audited' (fun later member => quiet later (List.mem_cons_of_mem _ member))
      (machine.perform op world).2.2
    rw [(perform_bare machine op world).2, logged] at later
    rw [applied_cons, Told.trail_append, ← List.append_assoc]
    exact later

end Log

/-- Over any run of calls, whatever is registered and whatever it does to the world, a machine
answers and moves as one without listeners; and two listeners that write a log nobody else writes
are told each outcome once, in order, which leads from the state they were registered in to the
state the run ends in. -/
theorem run_audited (machine : Watched S W Instant) (ops : List (Op S W Instant)) (world : W) :
    (machine.run ops world).1 = (Machine.restore machine.state).answers (applied ops) ∧
      (machine.run ops world).2.1.state =
        ((Machine.restore machine.state).applyAll (applied ops)).state ∧
      ∀ (log : W → List (Told S)) (write : Told S → W → W),
        (∀ told world, log (write told world) = log world ++ [told]) → machine.Keeps log →
          (∀ op ∈ ops, op.Keeps log) →
            ∃ told, log ((machine.audit write).run ops world).2.2 = log world ++ told ∧
              told = Told.trail (Machine.restore machine.state) (applied ops) ∧
              told.foldl Told.follow machine.state = (machine.run ops world).2.1.state := by
  obtain ⟨answers, state⟩ := run_bare machine ops world
  refine ⟨answers, state, ?_⟩
  intro log write writes keeps quiet
  refine ⟨_, run_of_audited (audit_audited keeps writes) quiet world, rfl, ?_⟩
  rw [state]
  exact Told.foldl_follow_trail (Machine.restore machine.state) _

open Fixture in
/-- A deployment that is started twice, under a clock that counts. -/
theorem run_audited_deploy :
    let clock := fun world : List (Told Deploy) × Nat => (world.2, world.1, world.2 + 1)
    let write := fun told (world : List (Told Deploy) × Nat) => (world.1 ++ [told], world.2)
    let ops := [.apply Sig.start, .onTransition fun _ world => (world.1, 0), .apply Sig.start]
    (((Watched.new Deploy clock).audit write).run ops ([], 0)).2.2.1 =
      [.moved .pending Sig.start .deploying,
        .refused (.eventKindRejected .deploying Sig.start [⟨"external"⟩] none)] := by
  intro clock write ops
  obtain ⟨told, logged, rfl, _⟩ := (run_audited (Watched.new Deploy clock) ops ([], 0)).2.2
    Prod.fst write (fun _ _ => rfl) ⟨by simp [Watched.new], by simp [Watched.new], fun _ => rfl⟩
    (by simp [ops, Op.Keeps])
  exact logged

end Watched

end Ironstate
