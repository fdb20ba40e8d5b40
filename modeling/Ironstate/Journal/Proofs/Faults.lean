import Ironstate.Journal.Proofs.Fork
import Ironstate.Journal.Proofs.Lockstep

/-!
# Faults are invisible to outcomes

One round of `run_faulted` leaves the journal and the aggregate one fault-free `exec_step`
leaves, whatever the fault (`faultedStep_eq`): a failed append is retried from the same
position, a crash resumes to the live aggregate, a fork at the head reproduces it. The two
drivers therefore end alike, and no `expect` of either fails.
-/

namespace Ironstate

variable {A : AggregateRules} {E : Type} {genesis : A.State} {history : List (Record A)}

/-- What holds between two rounds of either driver: the aggregate is where the scenario's
stream ends, and nothing of the stream has been discarded. -/
def AtRest (genesis : A.State) (j : MemoryJournal A) (aggregate : Aggregate A) : Prop :=
  ∃ history, Tracks genesis history j scenarioStream aggregate ∧
    (j.streamMut scenarioStream).truncated = 0

theorem AtRest.new (genesis : A.State) : AtRest genesis (.new genesis) (.fromState genesis) := by
  refine ⟨[], Tracks.new genesis scenarioStream, ?_⟩
  rw [MemoryJournal.streamMut_new]
  rfl

/-- The head of a tracked stream with nothing discarded can be forked, and the branch is
tracked by the same aggregate. -/
theorem Tracks.fork_head {j : MemoryJournal A} {stream : StreamId} {aggregate : Aggregate A}
    (tracks : Tracks genesis history j stream aggregate)
    (whole : (j.streamMut stream).truncated = 0) :
    ∃ branch, j.fork stream (j.streamMut stream).headNat = .ok branch ∧
      Tracks genesis history branch stream aggregate := by
  have based := tracks.based
  obtain ⟨base, member, above, bound⟩ := tracks.based
  have forked := (Stream.fork_ok (j.streamMut stream) _ (j.streamMut stream).headNat).mpr
    ⟨Nat.le_refl _, .inl whole, ⟨base, member, bound⟩, rfl⟩
  obtain ⟨branch, granted, result⟩ := MemoryJournal.fork_granted forked
  have sound := tracks.sound.fork forked
  have length := Stream.headNat_eq tracks.sound.retains
  rw [length, List.take_length] at sound
  refine ⟨branch, granted, ?_, ?_, tracks.state⟩
  · rw [result, length]
    exact sound
  · rw [result]
    exact (Stream.based_fork_iff forked).mpr ⟨base, member, above, bound⟩

section Drivers

variable [EntropySource E] [CtxEntropy A.Ctx E] {chacha12 : Seed → UInt64 → UInt32}
variable {R D : Type} [DecidableEq D]
variable (testCtx : SeededEntropy chacha12 → Nat → A.Ctx) (seed : Seed)

/-- A command leaves the stream at rest, rejected or appended. -/
theorem AtRest.execute {j : MemoryJournal A} {aggregate : Aggregate A}
    (rest : AtRest genesis j aggregate) (cmd : A.Command) (ctx : A.Ctx) :
    AtRest genesis (execute j scenarioStream aggregate cmd ctx).journal
      (execute j scenarioStream aggregate cmd ctx).aggregate := by
  obtain ⟨history, tracks, whole⟩ := rest
  rcases execute_memory tracks.headPos aggregate cmd ctx with
    ⟨rejection, drawn, -, outcome⟩ | ⟨events, drawn, -, outcome⟩
  · rw [outcome]
    exact ⟨history, tracks, whole⟩
  · rw [outcome]
    refine ⟨_, tracks.append events _, ?_⟩
    rw [MemoryJournal.streamMut_appendIn]
    exact whole

/-- At rest `exec_step` does not panic. -/
theorem AtRest.execStep {j : MemoryJournal A} {aggregate : Aggregate A}
    (rest : AtRest genesis j aggregate) (cmd : A.Command) :
    ∃ executed, execStep testCtx seed j scenarioStream aggregate cmd = some executed ∧
      AtRest genesis executed.journal executed.aggregate := by
  obtain ⟨history, tracks, whole⟩ := rest
  exact ⟨_, execStep_of_headPos testCtx seed tracks.headPos aggregate cmd,
    AtRest.execute ⟨history, tracks, whole⟩ cmd _⟩

/-- A round without a fault, or with one the driver does not know, is one `exec_step`. -/
theorem faultedStep_none (digest128 : A.State → D) {j : MemoryJournal A} {aggregate : Aggregate A}
    {cmd : A.Command} {executed : Executed A (MemoryJournal A)}
    (stepped : execStep testCtx seed j scenarioStream aggregate cmd = some executed) :
    faultedStep testCtx seed digest128 none cmd (.new j) aggregate =
      some (.new executed.journal, executed.aggregate) := by
  show (execStep testCtx seed (FaultInjector.mk j false) scenarioStream aggregate cmd).bind _ = _
  rw [execStep_unarmed, stepped]
  rfl

/-- A failed append is retried from the position it was rewound to; an injector the command
did not reach is disarmed. -/
theorem faultedStep_appendFailure (digest128 : A.State → D) {j : MemoryJournal A}
    {aggregate : Aggregate A} {cmd : A.Command} {executed : Executed A (MemoryJournal A)}
    (rest : AtRest genesis j aggregate)
    (stepped : execStep testCtx seed j scenarioStream aggregate cmd = some executed) :
    faultedStep testCtx seed digest128 (some .appendFailure) cmd (.new j) aggregate =
      some (.new executed.journal, executed.aggregate) := by
  obtain ⟨history, tracks, -⟩ := rest
  have head : headPos (FaultInjector.mk j true) scenarioStream =
      .ok (posAt history history.length) := tracks.headPos
  have armed := execStep_of_headPos testCtx seed head aggregate cmd
  have plain := stepped
  rw [execStep_of_headPos testCtx seed tracks.headPos] at plain
  have retried := execStep_unarmed testCtx seed j scenarioStream aggregate cmd
  rw [stepped] at retried
  show (execStep testCtx seed (FaultInjector.mk j true) scenarioStream aggregate cmd).bind _ = _
  rcases execute_armed tracks.headPos aggregate cmd
      (testCtx (.at seed (posAt history history.length)) 0) with
    ⟨rejection, drawn, decided, outcome⟩ | ⟨events, drawn, decided, outcome⟩
  · -- the command is rejected in both runs
    rcases execute_memory tracks.headPos aggregate cmd
        (testCtx (.at seed (posAt history history.length)) 0) with
      ⟨rejection', drawn', -, same⟩ | ⟨events, drawn', decided', -⟩
    · rw [same] at plain
      obtain rfl := Option.some.inj plain
      rw [armed, outcome]
      rfl
    · rw [decided] at decided'
      cases decided'
  · rw [armed, outcome, Option.bind_some]
    simp only [retried]
    rfl

/-- A crash resumes to the aggregate it dropped. -/
theorem faultedStep_crashResume (digest128 : A.State → D) (atSeq : Nat) {j : MemoryJournal A}
    {aggregate : Aggregate A} {cmd : A.Command} {executed : Executed A (MemoryJournal A)}
    (stepped : execStep testCtx seed j scenarioStream aggregate cmd = some executed)
    (rest : AtRest genesis executed.journal executed.aggregate) :
    faultedStep testCtx seed digest128 (some (.crashResume atSeq)) cmd (.new j) aggregate =
      some (.new executed.journal, executed.aggregate) := by
  obtain ⟨history, tracks, -⟩ := rest
  have resumed : (resume executed.journal scenarioStream seed : Resumed A chacha12) = _ :=
    tracks.resume seed
  show (execStep testCtx seed (FaultInjector.mk j false) scenarioStream aggregate cmd).bind _ = _
  rw [execStep_unarmed, stepped, Option.map_some, Option.bind_some]
  simp only [FaultInjector.resume_eq, resumed]
  rfl

/-- A fork at the head, where there is one, reproduces the live state. -/
theorem faultedStep_forkContinue (digest128 : A.State → D) (atSeq : Nat) {j : MemoryJournal A}
    {aggregate : Aggregate A} {cmd : A.Command} {executed : Executed A (MemoryJournal A)}
    (stepped : execStep testCtx seed j scenarioStream aggregate cmd = some executed)
    (rest : AtRest genesis executed.journal executed.aggregate) :
    faultedStep testCtx seed digest128 (some (.forkContinue atSeq)) cmd (.new j) aggregate =
      some (.new executed.journal, executed.aggregate) := by
  obtain ⟨history, tracks, whole⟩ := rest
  show (execStep testCtx seed (FaultInjector.mk j false) scenarioStream aggregate cmd).bind _ = _
  rw [execStep_unarmed, stepped, Option.map_some, Option.bind_some]
  simp only [FaultInjector.head_eq, MemoryJournal.head_eq]
  cases headed : (executed.journal.streamMut scenarioStream).head with
  | none =>
    rfl
  | some seq =>
    obtain ⟨rfl, -⟩ := Stream.head_eq_some headed
    obtain ⟨branch, granted, branched⟩ := tracks.fork_head whole
    have forked : ForkableJournal.fork (FaultInjector.mk executed.journal false) scenarioStream
        (executed.journal.streamMut scenarioStream).headNat = .ok (.new branch) := by
      show (executed.journal.fork _ _).map FaultInjector.new = _
      rw [granted]
      rfl
    have resumed : (resume (FaultInjector.new branch) scenarioStream seed : Resumed A chacha12) =
        .ok (executed.aggregate, _) := branched.resume seed
    simp only [forked, resumed, if_true]
    rfl

/-- One round of `run_faulted` is one fault-free `exec_step`, whatever the fault. -/
theorem faultedStep_eq (digest128 : A.State → D) {j : MemoryJournal A} {aggregate : Aggregate A}
    (rest : AtRest genesis j aggregate) (fault : Option Fault) (cmd : A.Command) :
    ∃ executed, execStep testCtx seed j scenarioStream aggregate cmd = some executed ∧
      AtRest genesis executed.journal executed.aggregate ∧
      faultedStep testCtx seed digest128 fault cmd (.new j) aggregate =
        some (.new executed.journal, executed.aggregate) := by
  obtain ⟨executed, stepped, rest'⟩ := rest.execStep testCtx seed cmd
  refine ⟨executed, stepped, rest', ?_⟩
  have undisturbed := faultedStep_none testCtx seed digest128 stepped
  rcases fault with _ | fault
  · exact undisturbed
  · cases fault with
    | appendFailure => exact faultedStep_appendFailure testCtx seed digest128 rest stepped
    | duplicateDelivery ofSeq => exact undisturbed
    | reorderDelivery window => exact undisturbed
    | crashResume atSeq => exact faultedStep_crashResume testCtx seed digest128 atSeq stepped rest'
    | forkContinue atSeq => exact faultedStep_forkContinue testCtx seed digest128 atSeq stepped rest'
    | plantOldVersion version => exact undisturbed

/-- The two loops end alike, without a panic. -/
theorem faultedLoop_eq (digest128 : A.State → D) (schedule : FaultSchedule)
    (commands : List A.Command) (step : Nat) {j : MemoryJournal A} {aggregate : Aggregate A}
    (rest : AtRest genesis j aggregate) :
    ∃ final, faultFree testCtx seed commands j aggregate = some final ∧
      faultedLoop testCtx seed digest128 schedule step commands (.new j) aggregate =
        some final := by
  induction commands generalizing step j aggregate with
  | nil => exact ⟨aggregate, rfl, rfl⟩
  | cons cmd commands ih =>
    unfold faultFree faultedLoop
    by_cases terminal : StateMachine.isTerminal aggregate.phase = true
    · exact ⟨aggregate, if_pos terminal, if_pos terminal⟩
    · obtain ⟨executed, stepped, rest', faulted⟩ :=
        faultedStep_eq testCtx seed digest128 rest (schedule.at step) cmd
      obtain ⟨final, free, looped⟩ := ih (step + 1) rest'
      refine ⟨final, ?_, ?_⟩
      · rw [if_neg terminal, stepped]
        exact free
      · rw [if_neg terminal, faulted]
        exact looped

/-- At rest the loop of `record` does not panic. -/
theorem recordLoop_total (sample : A.State → R → A.Command × R) (maxSteps : Nat)
    {j : MemoryJournal A} {aggregate : Aggregate A} (runner : R)
    (rest : AtRest genesis j aggregate) :
    ∃ recorded, recordLoop testCtx seed sample maxSteps j aggregate runner = some recorded := by
  induction maxSteps generalizing j aggregate runner with
  | zero => exact ⟨_, rfl⟩
  | succ maxSteps ih =>
    unfold recordLoop
    by_cases terminal : StateMachine.isTerminal aggregate.phase = true
    · exact ⟨_, if_pos terminal⟩
    · obtain ⟨executed, stepped, rest'⟩ :=
        rest.execStep testCtx seed (sample aggregate.state runner).1
      obtain ⟨recorded, later⟩ := ih (sample aggregate.state runner).2 rest'
      refine ⟨((sample aggregate.state runner).1 :: recorded.1, recorded.2), ?_⟩
      rw [if_neg terminal]
      simp only [stepped, Option.bind_eq_bind, Option.bind_some, later]

/-- From a genesis state `Aggregate::new` accepts, `run_faulted` ends under every schedule
where the fault-free loop over the same commands ends, and neither panics; a reference run
recorded with any sampling of commands is one such loop. -/
theorem runFaulted_eq_record (digest128 : A.State → D) (genesis : A.State)
    (aggregate : Aggregate A) (accepted : Aggregate.new genesis = .ok aggregate)
    (schedule : FaultSchedule) :
    (∀ commands, ∃ final,
      faultFree testCtx seed commands (.new genesis) aggregate = some final ∧
      faultedLoop testCtx seed digest128 schedule 0 commands (.new (.new genesis)) aggregate =
        some final ∧
      runFaulted testCtx seed digest128 genesis commands schedule =
        some (digest128 final.state)) ∧
    ∀ (sample : A.State → R → A.Command × R) (runner : R) (maxSteps : Nat),
      ∃ reference, ReferenceRun.record testCtx seed digest128 sample genesis runner maxSteps =
          some reference ∧
        runFaulted testCtx seed digest128 genesis reference.commands schedule =
          some reference.finalDigest := by
  obtain rfl : aggregate = .fromState genesis := by
    unfold Aggregate.new at accepted
    simp only at accepted
    split at accepted
    · exact (Except.ok.inj accepted).symm
    · cases accepted
  have rest := AtRest.new genesis
  have alike : ∀ commands, ∃ final,
      faultFree testCtx seed commands (.new genesis) (.fromState genesis) = some final ∧
      faultedLoop testCtx seed digest128 schedule 0 commands (.new (.new genesis))
        (.fromState genesis) = some final ∧
      runFaulted testCtx seed digest128 genesis commands schedule =
        some (digest128 final.state) := by
    intro commands
    obtain ⟨final, free, looped⟩ :=
      faultedLoop_eq testCtx seed digest128 schedule commands 0 rest
    refine ⟨final, free, looped, ?_⟩
    unfold runFaulted
    simp only [accepted, looped, Option.bind_eq_bind, Option.bind_some]
  refine ⟨alike, ?_⟩
  intro sample runner maxSteps
  obtain ⟨⟨commands, final⟩, recorded⟩ :=
    recordLoop_total testCtx seed sample maxSteps runner rest
  obtain ⟨final', free, -, faulted⟩ := alike commands
  have same := recordLoop_faultFree testCtx seed sample maxSteps _ _ runner recorded
  obtain rfl : final' = final := Option.some.inj (free.symm.trans same)
  refine ⟨⟨commands, digest128 final'.state⟩, ?_, faulted⟩
  unfold ReferenceRun.record
  simp only [accepted, recorded, Option.bind_eq_bind, Option.bind_some]

end Drivers

section Scheduled

open Fixture

/-- The context a scenario of the tests runs each step in. -/
def tallyCtx (e : Rng) (_ : Nat) : (Tally Rng).Ctx := (⟨e, 0, 0⟩ : OwnedDeterministicCtx Rng UInt32)

/-- The digest of a state that is its own. -/
def tallyDigest (tally : (Tally Rng).State) : TallyState := tally

/-- A failed append, a fork and a crash. -/
def faulty : FaultSchedule := ⟨[some .appendFailure, some (.forkContinue 0), some (.crashResume 0)]⟩

theorem runFaulted_eq_record_scheduled : ∃ final,
    faultFree tallyCtx seed [TallyCommand.bump, TallyCommand.bump, TallyCommand.bump]
        (.new Fixture.genesis) ⟨Fixture.genesis⟩ = some final ∧
      runFaulted tallyCtx seed tallyDigest Fixture.genesis
        [TallyCommand.bump, TallyCommand.bump, TallyCommand.bump] faulty =
        some (tallyDigest final.state) := by
  have accepted : Aggregate.new Fixture.genesis = .ok ⟨Fixture.genesis⟩ := rfl
  obtain ⟨final, free, -, faulted⟩ :=
    (@runFaulted_eq_record _ _ _ _ _ Unit TallyState _ tallyCtx seed tallyDigest Fixture.genesis _
      accepted faulty).1 [TallyCommand.bump, TallyCommand.bump, TallyCommand.bump]
  exact ⟨final, free, faulted⟩

end Scheduled

end Ironstate
