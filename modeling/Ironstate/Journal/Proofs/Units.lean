import Ironstate.Journal.Fixture
import Ironstate.Journal.Staged

/-!
# Units of work are atomic

A unit of work over a staging journal either commits its one command or leaves no trace: the
log, the aggregate and the context are as it found them (`runUnit_cases`). A sequence of
units therefore does what its committed units do alone (`runUnits_atomic`).
-/

namespace Ironstate

variable {A : AggregateRules} {J Tx E : Type} [EntropySource E] [CtxEntropy A.Ctx E]
  [StagingJournal J A Tx] {genesis : A.State} {stream : StreamId}

/-- The committed log of the stream. -/
def committedLog (stream : StreamId) (live : Live A (FaultInjector J)) : List (Record A) :=
  committed live.journal.inner stream

/-- The aggregate is the fold over the committed log, and the context stands at the position
of the committed head. -/
structure Aligned (genesis : A.State) (stream : StreamId) (live : Live A (FaultInjector J)) :
    Prop where
  state : live.aggregate = ⟨stateAfter genesis (committedLog stream live) (committedLog stream live).length⟩
  position : ctxDraws live.ctx = some (posAt (committedLog stream live) (committedLog stream live).length)

/-- The same committed logs, the same aggregate and the same context. -/
structure SameOutcome (live live' : Live A (FaultInjector J)) : Prop where
  log : ∀ id, committedLog id live' = committedLog id live
  aggregate : live'.aggregate = live.aggregate
  ctx : live'.ctx = live.ctx

namespace SameOutcome

variable {live live' live'' : Live A (FaultInjector J)}

omit [EntropySource E] [CtxEntropy A.Ctx E] in
theorem refl (live : Live A (FaultInjector J)) : SameOutcome live live :=
  ⟨fun _ => rfl, rfl, rfl⟩

omit [EntropySource E] [CtxEntropy A.Ctx E] in
theorem trans (first : SameOutcome live live') (second : SameOutcome live' live'') :
    SameOutcome live live'' := by
  refine ⟨?_, ?_, ?_⟩
  · intro id
    rw [second.log, first.log]
  · rw [second.aggregate, first.aggregate]
  · rw [second.ctx, first.ctx]

omit [EntropySource E] [CtxEntropy A.Ctx E] in
theorem symm (same : SameOutcome live live') : SameOutcome live' live :=
  ⟨fun id => (same.log id).symm, same.aggregate.symm, same.ctx.symm⟩

theorem aligned (same : SameOutcome live live') (before : Aligned genesis stream live) :
    Aligned genesis stream live' := by
  refine ⟨?_, ?_⟩
  · rw [same.aggregate, same.log]
    exact before.state
  · rw [same.ctx, same.log]
    exact before.position

end SameOutcome

/-- The rewind target of a unit is the position of the committed head. -/
theorem headPos_arm (stream : StreamId) (live : Live A (FaultInjector J)) (fails : Bool) :
    headPos (live.journal.arm fails) stream =
      .ok (posAt (committedLog stream live) (committedLog stream live).length) := by
  cases fails with
  | true => exact StagingJournal.headPos_eq live.journal.inner stream
  | false => exact StagingJournal.headPos_eq live.journal.inner stream

omit [EntropySource E] [CtxEntropy A.Ctx E] in
/-- An append through the injector, made or failed, leaves every committed log as it was. -/
theorem committed_appendIn {journal journal' : FaultInjector J} {tx tx' : Tx}
    {events : List A.Event} {pos : DrawPos} {result : Except JournalError Nat}
    (appended : Journal.appendIn journal tx stream events pos = (result, journal', tx'))
    (id : StreamId) : committed journal'.inner id = committed journal.inner id := by
  obtain ⟨inner, armed⟩ := journal
  cases armed with
  | true =>
    rw [FaultInjector.appendIn_armed] at appended
    obtain ⟨-, written⟩ := Prod.mk.inj appended
    obtain ⟨rfl, -⟩ := Prod.mk.inj written
    rfl
  | false =>
    rw [FaultInjector.appendIn_unarmed] at appended
    obtain ⟨-, written⟩ := Prod.mk.inj appended
    obtain ⟨rfl, -⟩ := Prod.mk.inj written
    exact StagingJournal.appendIn_committed inner tx stream events pos id

/-- A unit that appends one record to a stream and commits it. -/
theorem runUnit_commit (stream : StreamId) {live : Live A (FaultInjector J)} {cmd : A.Command}
    {events : List A.Event} {drawn : A.Ctx} {pos : DrawPos}
    (decided : live.aggregate.decideOnly cmd live.ctx = (.ok events, drawn))
    (reached : ctxDraws drawn = some pos) :
    (runUnit stream live ⟨some cmd, false, .commit⟩).committedAt =
        some ((committedLog stream live).length + 1) ∧
      (∀ id, committedLog id (runUnit stream live ⟨some cmd, false, .commit⟩).live =
        committedLog id live ++ if id = stream then [⟨events, pos⟩] else []) ∧
      (runUnit stream live ⟨some cmd, false, .commit⟩).live.aggregate =
        ⟨events.foldl A.evolve live.aggregate.state⟩ ∧
      (runUnit stream live ⟨some cmd, false, .commit⟩).live.ctx = drawn := by
  have spec := executeIn_spec (live.journal.arm false) (beginTx J) stream live.aggregate cmd live.ctx
  unfold runUnit
  simp only
  generalize executeIn (live.journal.arm false) (beginTx J) stream live.aggregate cmd live.ctx =
    outcome at spec ⊢
  have made := StagingJournal.appendIn_result live.journal.inner (beginTx J) stream events pos
  have kept := StagingJournal.appendIn_committed live.journal.inner (beginTx J) stream events pos
  have held := StagingJournal.appendIn_staged live.journal.inner (beginTx J) stream events pos
  cases spec with
  | headFailed head =>
    rw [headPos_arm] at head
    cases head
  | rejected head decided' =>
    rw [decided] at decided'
    cases decided'
  | appendFailed head decided' failed =>
    rw [decided] at decided'
    obtain ⟨same, rfl⟩ := Prod.mk.inj decided'
    obtain rfl := Except.ok.inj same
    rw [reached, Option.getD_some, FaultInjector.arm_false, FaultInjector.appendIn_unarmed] at failed
    rw [(Prod.mk.inj failed).1] at made
    cases made
  | appended head decided' appended =>
    rw [decided] at decided'
    obtain ⟨same, rfl⟩ := Prod.mk.inj decided'
    obtain rfl := Except.ok.inj same
    rw [reached, Option.getD_some, FaultInjector.arm_false, FaultInjector.appendIn_unarmed] at appended
    obtain ⟨landed, written⟩ := Prod.mk.inj appended
    obtain ⟨rfl, rfl⟩ := Prod.mk.inj written
    rw [landed] at made
    have nothing := StagingJournal.staged_beginTx (J := J) stream
    have evolved := foldl_evolve events live.aggregate
    refine ⟨?_, ?_, ?_, rfl⟩
    · have seq := Except.ok.inj made
      rw [nothing, List.length_nil, Nat.add_zero] at seq
      exact congrArg some seq
    · intro id
      have empty := StagingJournal.staged_beginTx (J := J) id
      show committed (commitTx _ _) id = _
      rw [StagingJournal.committed_commitTx, kept, held, empty, List.nil_append]
      rfl
    · exact evolved

/-- A unit either leaves everything as it found it, or is a command accepted and committed. -/
theorem runUnit_cases [LawfulEntropySource E] (forward : DrawsForward A)
    {live : Live A (FaultInjector J)} (aligned : Aligned genesis stream live)
    (unit : UnitOfWork A) :
    ((runUnit stream live unit).committedAt = none ∧
      SameOutcome live (runUnit stream live unit).live) ∨
    ∃ cmd events drawn pos, unit = ⟨some cmd, false, .commit⟩ ∧
      live.aggregate.decideOnly cmd live.ctx = (.ok events, drawn) ∧ ctxDraws drawn = some pos := by
  obtain ⟨command, fails, resolution⟩ := unit
  cases command with
  | none =>
    left
    cases resolution with
    | commit =>
      refine ⟨rfl, ?_, rfl, rfl⟩
      intro id
      show committed (commitTx (live.journal.arm fails).inner (beginTx J)) id = _
      rw [StagingJournal.committed_commitTx, StagingJournal.staged_beginTx, List.append_nil,
        FaultInjector.inner_arm]
      rfl
    | rollback =>
      refine ⟨rfl, ?_, rfl, rfl⟩
      intro id
      show committed (live.journal.arm fails).inner id = _
      rw [FaultInjector.inner_arm]
      rfl
  | some cmd =>
    -- a rewind to the committed head gives the context back, however far `decide` drew
    have restored : ∀ {result drawn}, live.aggregate.decideOnly cmd live.ctx = (result, drawn) →
        rewind drawn (posAt (committedLog stream live) (committedLog stream live).length) =
          live.ctx := by
      intro result drawn decided
      obtain ⟨n, rfl⟩ := forward.decideOnly decided
      exact rewind_drawnCtx aligned.position n
    have spec := executeIn_spec (live.journal.arm fails) (beginTx J) stream live.aggregate cmd
      live.ctx
    have head := headPos_arm stream live fails
    unfold runUnit
    simp only
    generalize executeIn (live.journal.arm fails) (beginTx J) stream live.aggregate cmd live.ctx =
      outcome at spec ⊢
    cases spec with
    | headFailed failed =>
      rw [head] at failed
      cases failed
    | rejected head' decided =>
      obtain rfl := Except.ok.inj (head.symm.trans head')
      refine .inl ⟨rfl, ?_, rfl, restored decided⟩
      intro id
      exact congrArg (fun inner => committed inner id) (live.journal.inner_arm fails)
    | appendFailed head' decided failed =>
      obtain rfl := Except.ok.inj (head.symm.trans head')
      refine .inl ⟨rfl, ?_, rfl, restored decided⟩
      intro id
      have kept := committed_appendIn failed id
      rw [FaultInjector.inner_arm] at kept
      exact kept
    | appended head' decided made =>
      obtain rfl := Except.ok.inj (head.symm.trans head')
      cases fails with
      | true =>
        rw [FaultInjector.arm_true, FaultInjector.appendIn_armed] at made
        cases made
      | false =>
        cases resolution with
        | commit =>
          obtain ⟨n, drew⟩ := forward.decideOnly decided
          obtain ⟨e, present, -⟩ := Option.map_eq_some_iff.mp aligned.position
          refine .inr ⟨cmd, _, _, draws (drawWords n e), rfl, decided, ?_⟩
          unfold ctxDraws
          rw [drew, entropy_drawnCtx, present]
          rfl
        | rollback =>
          refine .inl ⟨rfl, ?_, rfl, restored decided⟩
          intro id
          exact committed_appendIn made id

/-- A committed unit keeps the aggregate and the context aligned with the log. -/
theorem Aligned.commit {live : Live A (FaultInjector J)} (aligned : Aligned genesis stream live)
    {cmd : A.Command} {events : List A.Event} {drawn : A.Ctx} {pos : DrawPos}
    (decided : live.aggregate.decideOnly cmd live.ctx = (.ok events, drawn))
    (reached : ctxDraws drawn = some pos) :
    Aligned genesis stream (runUnit stream live ⟨some cmd, false, .commit⟩).live := by
  obtain ⟨-, logged, evolved, moved⟩ := runUnit_commit stream decided reached
  have pushed := logged stream
  rw [if_pos rfl] at pushed
  refine ⟨?_, ?_⟩
  · rw [evolved, pushed, List.length_append, List.length_singleton, stateAfter_push,
      aligned.state]
  · rw [moved, pushed, List.length_append, List.length_singleton, posAt_push]
    exact reached

/-- A unit that commits does the same to two states that differ in nothing but the journal's
own bookkeeping. -/
theorem SameOutcome.commit [LawfulEntropySource E] (forward : DrawsForward A)
    {live live' : Live A (FaultInjector J)} (aligned : Aligned genesis stream live)
    (same : SameOutcome live live') {unit : UnitOfWork A} {seq : Nat}
    (commits : (runUnit stream live unit).committedAt = some seq) :
    Aligned genesis stream (afterUnit stream live unit) ∧
      SameOutcome (afterUnit stream live unit) (afterUnit stream live' unit) ∧
      seq = (committedLog stream (afterUnit stream live unit)).length := by
  rcases runUnit_cases forward aligned unit with
    ⟨silent, -⟩ | ⟨cmd, events, drawn, pos, rfl, decided, reached⟩
  · rw [silent] at commits
    cases commits
  · have decided' : live'.aggregate.decideOnly cmd live'.ctx = (.ok events, drawn) := by
      rw [same.aggregate, same.ctx]
      exact decided
    obtain ⟨landed, logged, evolved, moved⟩ := runUnit_commit stream decided reached
    obtain ⟨-, logged', evolved', moved'⟩ := runUnit_commit stream decided' reached
    refine ⟨aligned.commit decided reached, ⟨?_, ?_, ?_⟩, ?_⟩
    · intro id
      exact (logged' id).trans ((congrArg (· ++ _) (same.log id)).trans (logged id).symm)
    · exact evolved'.trans ((congrArg (fun a => Aggregate.mk (events.foldl A.evolve a.state))
        same.aggregate).trans evolved.symm)
    · exact moved'.trans moved.symm
    · rw [landed] at commits
      have pushed := congrArg List.length (logged stream)
      rw [if_pos rfl, List.length_append, List.length_singleton] at pushed
      exact (Option.some.inj commits).symm.trans pushed.symm

/-- A sequence of units keeps the state aligned, and reaches what its committed units reach. -/
theorem runUnits_simulation [LawfulEntropySource E] (forward : DrawsForward A)
    {start : Live A (FaultInjector J)} (aligned : Aligned genesis stream start)
    (units : List (UnitOfWork A)) :
    Aligned genesis stream (runUnits stream start units) ∧
      SameOutcome (runUnits stream start units)
        (runUnits stream start (committedUnits stream start units)) := by
  apply Lib.foldl_stuttering (R := fun live live' =>
    Aligned genesis stream live ∧ SameOutcome live live')
  · rintro live live' unit ⟨aligned, same⟩ silent
    rcases runUnit_cases forward aligned unit with
      ⟨-, unchanged⟩ | ⟨cmd, events, drawn, pos, rfl, decided, reached⟩
    · exact ⟨unchanged.aligned aligned, unchanged.symm.trans same⟩
    · have landed := (runUnit_commit stream decided reached).1
      unfold committing at silent
      rw [landed] at silent
      cases silent
  · rintro live live' unit emitted ⟨aligned, same⟩ commits
    unfold committing at commits
    split at commits
    · rename_i landed
      obtain rfl := Option.some.inj commits
      obtain ⟨seq, landed⟩ := Option.isSome_iff_exists.mp landed
      obtain ⟨aligned', same', -⟩ := same.commit forward aligned landed
      exact ⟨aligned', same'⟩
    · cases commits
  · exact ⟨aligned, SameOutcome.refl start⟩

/-- After any units the aggregate is the fold over the committed events and the context
stands at the committed head, every commit returns the new head, and the committed units
alone reach the same log, aggregate and context. -/
theorem runUnits_atomic [LawfulEntropySource E] (forward : DrawsForward A) (genesis : A.State)
    (stream : StreamId) (start : Live A (FaultInjector J))
    (aligned : Aligned genesis stream start) (units : List (UnitOfWork A)) :
    Journal.eventsSince (runUnits stream start units).journal stream none =
        .ok (eventsAfter (committedLog stream (runUnits stream start units)) 0) ∧
      (runUnits stream start units).aggregate =
        (eventsAfter (committedLog stream (runUnits stream start units)) 0).foldl
          (fun aggregate stored => aggregate.evolve stored.event) (.fromState genesis) ∧
      (∃ pos, headPos (runUnits stream start units).journal stream = .ok pos ∧
        ctxDraws (runUnits stream start units).ctx = some pos) ∧
      (∀ unit seq, (runUnit stream (runUnits stream start units) unit).committedAt = some seq →
        Journal.head (runUnit stream (runUnits stream start units) unit).live.journal stream =
          some seq) ∧
      SameOutcome (runUnits stream start units)
        (runUnits stream start (committedUnits stream start units)) := by
  obtain ⟨aligned', same⟩ := runUnits_simulation forward aligned units
  generalize runUnits stream start units = live at aligned' same ⊢
  refine ⟨?_, ?_, ?_, ?_, same⟩
  · exact StagingJournal.eventsSince_eq live.journal.inner stream
  · have replayed : replay (⟨genesis, 0, 0, 0⟩ : Snapshot A)
        (eventsAfter (committedLog stream live) 0) = .ok _ := replay_eventsAfter genesis _ rfl
    rw [aligned'.state]
    exact (Except.ok.inj replayed).symm
  · exact ⟨_, StagingJournal.headPos_eq live.journal.inner stream, aligned'.position⟩
  · intro unit seq landed
    obtain ⟨-, -, rfl⟩ := (SameOutcome.refl live).commit forward aligned' landed
    show Journal.head (afterUnit stream live unit).journal.inner stream = _
    rw [StagingJournal.head_eq]
    apply if_pos
    -- a commit leaves a log that is not empty
    rcases runUnit_cases forward aligned' unit with
      ⟨silent, -⟩ | ⟨cmd, events, drawn, pos, rfl, decided, reached⟩
    · rw [silent] at landed
      cases landed
    · obtain ⟨first, -⟩ := runUnit_commit stream decided reached
      rw [first] at landed
      have grown := Option.some.inj landed
      show 0 < (committedLog stream _).length
      omega

section Mixed

open Fixture

/-- The tally of the tests over a staging journal, with nothing committed. -/
def unstaged : Live (Tally Rng) (FaultInjector (StagedJournal (Tally Rng))) :=
  ⟨.new (.new Fixture.genesis), ⟨Fixture.genesis⟩, ctx 0⟩

/-- A commit, an append that fails, a rollback, and a transaction with no command. -/
def mixedUnits : List (UnitOfWork (Tally Rng)) :=
  [⟨some TallyCommand.bump, false, .commit⟩, ⟨some TallyCommand.bump, true, .commit⟩,
    ⟨some TallyCommand.bump, false, .rollback⟩, ⟨none, false, .commit⟩]

theorem runUnits_atomic_mixed :
    (runUnits "tally" unstaged mixedUnits).aggregate = ⟨counted 1⟩ ∧
      SameOutcome (runUnits "tally" unstaged mixedUnits)
        (runUnits "tally" unstaged (committedUnits "tally" unstaged mixedUnits)) := by
  have forward : DrawsForward (Tally Rng) := fun _ _ _ => ⟨0, (drawnCtx_zero _).symm⟩
  have aligned : Aligned Fixture.genesis "tally" unstaged := ⟨rfl, rfl⟩
  exact ⟨rfl, (runUnits_atomic forward Fixture.genesis "tally" unstaged aligned mixedUnits).2.2.2.2⟩

end Mixed

end Ironstate
