import Ironstate.Journal.Proofs.Fork
import Ironstate.Journal.Proofs.Lockstep
import Ironstate.Journal.Proofs.Prefix

/-!
# Re-executing on a branch

A live run over one stream records, beside every record, the command that produced it. When
`decide` is determined by the state, the command and the entropy, those commands replay:
handed to `execute` one after another from any point of the history, they make the later
records again (`Replays`). A branch resumes at the fork point, so executing on it the commands
that follow brings it to where its source is (`branch_reexecutes`).
-/

namespace Ironstate

variable {A : AggregateRules} {genesis : A.State}

/-- Commands executed one after another on a live aggregate, with what each was answered. -/
def executeEach {J E : Type} [EntropySource E] [CtxEntropy A.Ctx E] [Journal J A Unit]
    (stream : StreamId) :
    List A.Command → Live A J → List (Except (ExecuteError A) Nat) × Live A J
  | [], live => ([], live)
  | cmd :: commands, live =>
    let executed := execute live.journal stream live.aggregate cmd live.ctx
    let (answers, live) :=
      executeEach stream commands ⟨executed.journal, executed.aggregate, executed.ctx⟩
    (executed.result :: answers, live)

/-- What happens to a stream whose commands are kept. -/
inductive RecordedOp (A : AggregateRules) where
  | execute (cmd : A.Command)
  | snapshot (schemaVersion : Nat)
  | truncate (seq : Nat)

/-- The live journal, aggregate and context, every record appended, and the command that
produced each. -/
structure RecordedRun (A : AggregateRules) where
  live : Live A (MemoryJournal A)
  history : List (Record A)
  commands : List A.Command

section Branch

variable {chacha12 : Seed → UInt64 → UInt32} [CtxEntropy A.Ctx (SeededEntropy chacha12)]

namespace RecordedRun

/-- A fresh journal and the genesis aggregate. -/
def fresh (genesis : A.State) (ctx : A.Ctx) : RecordedRun A :=
  ⟨⟨.new genesis, .fromState genesis, ctx⟩, [], []⟩

/-- One operation on the stream. A snapshot is of the live state, at the head and the position
of the moment. -/
def step (stream : StreamId) (run : RecordedRun A) : RecordedOp A → RecordedRun A
  | .execute cmd =>
    let executed := execute run.live.journal stream run.live.aggregate cmd run.live.ctx
    let live := ⟨executed.journal, executed.aggregate, executed.ctx⟩
    match executed.result with
    | .ok _ =>
      ⟨live, run.history ++ (executed.journal.streamMut stream).records.getLast?.toList,
        run.commands ++ [cmd]⟩
    | .error _ => { run with live := live }
  | .snapshot schemaVersion =>
    let snap : Snapshot A :=
      ⟨run.live.aggregate.state, schemaVersion,
        (Journal.head run.live.journal stream).getD 0, (ctxDraws run.live.ctx).getD 0⟩
    let (_, journal, _) := Journal.snapshotIn run.live.journal () stream snap
    { run with live := { run.live with journal := journal } }
  | .truncate seq =>
    let (_, journal) := RetainableJournal.truncateBefore run.live.journal stream seq
    { run with live := { run.live with journal := journal } }

end RecordedRun

/-! ## Commands that make the records again -/

variable (chacha12) in
/-- The command makes the record at the end of the history, in any context whose entropy
stands there. -/
def Produces (genesis : A.State) (seed : Seed) (history : List (Record A)) (cmd : A.Command)
    (record : Record A) : Prop :=
  ∀ ctx : A.Ctx, entropy ctx =
      some (.at seed (posAt history history.length) : SeededEntropy chacha12) →
    ∃ drawn, Aggregate.decideOnly ⟨stateAfter genesis history history.length⟩ cmd ctx =
        (.ok record.events, drawn) ∧
      entropy drawn = some (.at seed record.entropyPos : SeededEntropy chacha12)

variable (chacha12) in
/-- The commands make the records, one each, after the history before them. -/
inductive Replays (genesis : A.State) (seed : Seed) :
    List (Record A) → List A.Command → List (Record A) → Prop where
  | done {before : List (Record A)} : Replays genesis seed before [] []
  | next {before records : List (Record A)} {commands : List A.Command} {cmd : A.Command}
      {record : Record A} (made : Produces chacha12 genesis seed before cmd record)
      (later : Replays genesis seed (before ++ [record]) commands records) :
      Replays genesis seed before (cmd :: commands) (record :: records)

namespace Replays

variable {seed : Seed} {before records : List (Record A)} {commands : List A.Command}

theorem length_eq (replays : Replays chacha12 genesis seed before commands records) :
    commands.length = records.length := by
  induction replays with
  | done => rfl
  | next _ _ ih => simp [ih]

/-- One more command and the record it makes. -/
theorem push (replays : Replays chacha12 genesis seed before commands records) {cmd : A.Command}
    {record : Record A} (made : Produces chacha12 genesis seed (before ++ records) cmd record) :
    Replays chacha12 genesis seed before (commands ++ [cmd]) (records ++ [record]) := by
  induction replays with
  | done =>
    rw [List.append_nil] at made
    exact .next made .done
  | next first later ih =>
    apply Replays.next first
    apply ih
    simpa using made

/-- The later commands make the later records, after the earlier ones. -/
theorem drop (replays : Replays chacha12 genesis seed before commands records) (seq : Nat) :
    Replays chacha12 genesis seed (before ++ records.take seq) (commands.drop seq)
      (records.drop seq) := by
  induction replays generalizing seq with
  | done => simpa using Replays.done
  | next first later ih =>
    cases seq with
    | zero => simpa using Replays.next first later
    | succ seq => simpa using ih seq

/-- Executed on a journal that tracks the history before them, the commands append the
records, and leave the context where the last of them does. -/
theorem executeEach {stream : StreamId}
    (replays : Replays chacha12 genesis seed before commands records)
    (live : Live A (MemoryJournal A))
    (tracks : Tracks genesis before live.journal stream live.aggregate)
    (start : entropy live.ctx =
      some (.at seed (posAt before before.length) : SeededEntropy chacha12)) :
    ∃ after : Live A (MemoryJournal A), executeEach stream commands live =
        ((List.range' (before.length + 1) commands.length).map .ok, after) ∧
      Tracks genesis (before ++ records) after.journal stream after.aggregate ∧
      entropy after.ctx = some (.at seed (posAt (before ++ records) (before ++ records).length) :
        SeededEntropy chacha12) ∧
      (after.journal.streamMut stream).truncated = (live.journal.streamMut stream).truncated ∧
      (after.journal.streamMut stream).snapshots = (live.journal.streamMut stream).snapshots := by
  induction replays generalizing live with
  | done =>
    refine ⟨live, rfl, ?_, ?_, rfl, rfl⟩
    · simpa using tracks
    · simpa using start
  | @next before records commands cmd record made later ih =>
    have head := tracks.headPos
    have state := tracks.state
    obtain ⟨drawn, decided, moved⟩ := made live.ctx start
    have position : ctxDraws drawn = some record.entropyPos := by
      simp [ctxDraws, moved]
    rw [← state] at decided
    rcases execute_memory head live.aggregate cmd live.ctx with
      ⟨rejection, drawn', rejected, -⟩ | ⟨events, drawn', accepted, outcome⟩
    · rw [decided] at rejected
      cases rejected
    · rw [decided] at accepted
      obtain ⟨same, rfl⟩ := Prod.mk.inj accepted
      obtain rfl := Except.ok.inj same
      rw [position, Option.getD_some, Stream.headNat_eq tracks.sound.retains] at outcome
      have appended := tracks.append record.events record.entropyPos
      obtain ⟨after, executed, tracked, stands, horizon, snapshots⟩ :=
        ih ⟨(live.journal.appendIn stream record.events record.entropyPos).2,
          ⟨record.events.foldl A.evolve live.aggregate.state⟩, drawn⟩ appended (by simpa using moved)
      refine ⟨after, ?_, ?_, ?_, ?_, ?_⟩
      · have numbered : (before ++ [record]).length = before.length + 1 := by simp
        simp only [Ironstate.executeEach, outcome, executed, numbered, List.length_cons,
          List.range'_succ, List.map_cons]
      · simpa using tracked
      · simpa using stands
      · rw [horizon, MemoryJournal.streamMut_appendIn]
        rfl
      · rw [snapshots, MemoryJournal.streamMut_appendIn]
        rfl

end Replays

/-! ## The source -/

variable (chacha12) in
/-- The journal tracks the live aggregate and keeps no snapshot below the horizon, the context
stands at the recorded head, and the commands make the history. -/
structure RecordedRun.InStep (genesis : A.State) (stream : StreamId) (seed : Seed)
    (run : RecordedRun A) : Prop where
  tracks : Tracks genesis run.history run.live.journal stream run.live.aggregate
  timely : ∀ snap ∈ (run.live.journal.streamMut stream).snapshots,
    (run.live.journal.streamMut stream).truncated ≤ snap.atSeq
  entropy : entropy run.live.ctx = some (.at seed (posAt run.history run.history.length) :
    SeededEntropy chacha12)
  replays : Replays chacha12 genesis seed [] run.commands run.history

namespace RecordedRun.InStep

variable {stream : StreamId} {seed : Seed} {run : RecordedRun A}

theorem fresh (genesis : A.State) (stream : StreamId) (seed : Seed) {ctx : A.Ctx}
    (start : Ironstate.entropy ctx = some (.at seed 0 : SeededEntropy chacha12)) :
    InStep chacha12 genesis stream seed (.fresh genesis ctx) := by
  refine ⟨Tracks.new genesis stream, ?_, start, .done⟩
  intro snap _
  show ((MemoryJournal.new genesis).streamMut stream).truncated ≤ snap.atSeq
  rw [MemoryJournal.streamMut_new]
  exact Nat.zero_le _

theorem execute (inStep : InStep chacha12 genesis stream seed run)
    (determined : DecidesOnEntropy A) (cmd : A.Command) :
    InStep chacha12 genesis stream seed (run.step stream (.execute cmd)) := by
  have tracks := inStep.tracks
  have state := tracks.state
  obtain ⟨result, reached, decided⟩ := determined.decideOnly run.live.aggregate cmd
    (.at seed (posAt run.history run.history.length) : SeededEntropy chacha12)
  obtain ⟨drawn, answered, moved⟩ := decided run.live.ctx inStep.entropy
  rw [SeededEntropy.seek_at] at moved
  rcases execute_memory tracks.headPos run.live.aggregate cmd run.live.ctx with
    ⟨rejection, drawn', rejected, outcome⟩ | ⟨events, drawn', accepted, outcome⟩
  · obtain ⟨-, rfl⟩ := Prod.mk.inj (answered.symm.trans rejected)
    unfold RecordedRun.step
    simp only [outcome]
    refine ⟨tracks, inStep.timely, ?_, inStep.replays⟩
    simp [entropy_rewind, moved]
  · obtain ⟨rfl, rfl⟩ := Prod.mk.inj (answered.symm.trans accepted)
    have position : ctxDraws drawn = some reached := by
      simp [ctxDraws, moved]
    unfold RecordedRun.step
    simp only [outcome, position, Option.getD_some, MemoryJournal.getLast?_appendIn,
      Option.toList_some]
    refine ⟨tracks.append events reached, ?_, ?_, ?_⟩
    · intro snap member
      simp only [MemoryJournal.streamMut_appendIn] at member ⊢
      exact inStep.timely snap member
    · simpa using moved
    · apply inStep.replays.push
      intro ctx stands
      obtain ⟨drawn', made, moved'⟩ := decided ctx stands
      refine ⟨drawn', ?_, moved'⟩
      rw [List.nil_append, ← state]
      exact made

theorem snapshot (inStep : InStep chacha12 genesis stream seed run) (schemaVersion : Nat) :
    InStep chacha12 genesis stream seed (run.step stream (.snapshot schemaVersion)) := by
  have tracks := inStep.tracks
  have length := Stream.headNat_eq tracks.sound.retains
  have honest : Honest genesis run.history
      ⟨run.live.aggregate.state, schemaVersion, (Journal.head run.live.journal stream).getD 0,
        (ctxDraws run.live.ctx).getD 0⟩ := by
    rw [MemoryJournal.head_eq, Stream.head_getD, length, tracks.state]
    refine ⟨Nat.le_refl _, rfl, ?_⟩
    simp [ctxDraws, inStep.entropy]
  refine ⟨tracks.put (tracks.sound.snapshot honest) (tracks.based.snapshot _), ?_,
    inStep.entropy, inStep.replays⟩
  intro snap member
  simp only [RecordedRun.step, Journal.snapshotIn, MemoryJournal.streamMut_snapshotIn] at member ⊢
  rcases List.mem_append.mp member with stored | added
  · exact inStep.timely snap stored
  · obtain rfl := List.mem_singleton.mp added
    rw [MemoryJournal.head_eq, Stream.head_getD]
    exact Nat.le_add_right _ _

theorem truncate (inStep : InStep chacha12 genesis stream seed run) (seq : Nat) :
    InStep chacha12 genesis stream seed (run.step stream (.truncate seq)) := by
  have tracks := inStep.tracks
  cases outcome : (run.live.journal.truncateBefore stream seq).1 with
  | error error =>
    have unchanged : run.step stream (.truncate seq) = run := by
      simp only [RecordedRun.step, RetainableJournal.truncateBefore,
        MemoryJournal.truncateBefore_error outcome]
    rw [unchanged]
    exact inStep
  | ok _ =>
    obtain ⟨s, s', touched, cut, written⟩ := MemoryJournal.truncateBefore_ok outcome
    have sound := tracks.sound
    rw [MemoryJournal.streamMut_touched touched] at sound
    have kept : run.step stream (.truncate seq) =
        { run with live := { run.live with journal := run.live.journal.put stream s' } } := by
      simp only [RecordedRun.step, RetainableJournal.truncateBefore, written]
    rw [kept]
    refine ⟨tracks.put (sound.truncate cut) (Stream.based_truncateBefore cut), ?_,
      inStep.entropy, inStep.replays⟩
    intro snap member
    simp only [MemoryJournal.streamMut_put_self] at member ⊢
    obtain ⟨-, -, -, rfl⟩ := (Stream.truncateBefore_ok s s' seq).mp cut
    rw [List.mem_filter, decide_eq_true_eq] at member
    exact member.2

end RecordedRun.InStep

/-! ## The branch -/

/-- A stream forked and grown back to the history of its source answers as the source does. -/
theorem Stream.regrown {history : List (Record A)} {s s' after : Stream A} {seq : Nat}
    (sound : Sound genesis history s) (granted : s.fork seq = .ok s')
    (grown : Sound genesis history after) (horizon : after.truncated = s'.truncated)
    (snapshots : after.snapshots = s'.snapshots) :
    after = { s with snapshots := s'.snapshots } ∧
      ∀ read, after.entropyPos read = s.entropyPos read := by
  have same : after.truncated = s.truncated := horizon.trans (truncated_fork granted)
  have regrown : after = { s with snapshots := s'.snapshots } := by
    have records : after.records = s.records := by
      rw [grown.retains.kept_eq, sound.retains.kept_eq, same]
    rw [← records, ← same, ← snapshots]
  have records : ∀ read, after.recordAt read = s.recordAt read := by
    intro read
    rw [regrown]
    rfl
  refine ⟨regrown, ?_⟩
  intro read
  by_cases below : read ≤ seq
  · unfold entropyPos
    simp only [snapshots, find?_fork granted below, records, same]
  · obtain ⟨bound, above, -, result⟩ := (fork_ok s s' seq).mp granted
    -- the branch keeps no snapshot past the fork point, so its records answer
    have unstored : (after.snapshots.find? fun snap => snap.atSeq == read) = none := by
      rw [List.find?_eq_none, snapshots, result]
      intro snap member here
      rw [List.mem_filter, decide_eq_true_eq] at member
      have landed : snap.atSeq = read := beq_iff_eq.mp here
      omega
    cases stored : s.snapshots.find? fun snap => snap.atSeq == read with
    | none =>
      unfold entropyPos
      simp only [stored, unstored, records, same]
    | some snap =>
      obtain ⟨member, landed⟩ := stored_mem stored
      have honest := sound.honest snap member
      have length := headNat_eq grown.retains
      rw [entropyPos_of_snapshot stored, honest.pos, landed]
      apply grown.entropyPos
      · have reached := honest.bound
        omega
      · left
        omega

/-- Every fork of a live run resumes to the fork point, and the commands that produced the
later records reproduce them there. -/
theorem branch_reexecutes (determined : DecidesOnEntropy A) (genesis : A.State) (seed : Seed)
    (stream : StreamId) (ctx : A.Ctx)
    (start : entropy ctx = some (.at seed 0 : SeededEntropy chacha12)) (run : RecordedRun A)
    (reached : Lib.Reaches (RecordedRun.step stream) (fun _ _ => True) (.fresh genesis ctx) run)
    (seq : Nat) (branch : MemoryJournal A)
    (granted : ForkableJournal.fork run.live.journal stream seq = .ok branch) :
    Journal.entropyPos run.live.journal stream seq = .ok (posAt run.history seq) ∧
    (resume branch stream seed : Resumed A chacha12) =
      .ok (⟨stateAfter genesis run.history seq⟩, .at seed (posAt run.history seq)) ∧
    ∀ resumed : A.Ctx, entropy resumed =
        some (.at seed (posAt run.history seq) : SeededEntropy chacha12) →
      ∃ after : Live A (MemoryJournal A),
        executeEach stream (run.commands.drop seq)
            ⟨branch, ⟨stateAfter genesis run.history seq⟩, resumed⟩ =
          ((List.range' (seq + 1) ((Journal.head run.live.journal stream).getD 0 - seq)).map .ok,
            after) ∧
        (∀ read, (after.journal.streamMut stream).recordAt read =
          (run.live.journal.streamMut stream).recordAt read) ∧
        (∀ read, Journal.entropyPos after.journal stream read =
          Journal.entropyPos run.live.journal stream read) ∧
        (∀ since, Journal.eventsSince after.journal stream since =
          Journal.eventsSince run.live.journal stream since) ∧
        Journal.head after.journal stream = Journal.head run.live.journal stream ∧
        after.aggregate = run.live.aggregate ∧ entropy after.ctx = entropy run.live.ctx := by
  have inStep : run.InStep chacha12 genesis stream seed := by
    refine reached.invariant (RecordedRun.InStep.fresh genesis stream seed start) ?_
    intro run op inStep _
    cases op with
    | execute cmd => exact inStep.execute determined cmd
    | snapshot schemaVersion => exact inStep.snapshot schemaVersion
    | truncate seq => exact inStep.truncate seq
  obtain ⟨-, forked, -⟩ := MemoryJournal.fork_ok granted
  obtain ⟨bound, above, -, -⟩ := (Stream.fork_ok _ _ _).mp forked
  obtain ⟨base, member, below⟩ := Stream.exists_base_of_fork forked
  have sound := inStep.tracks.sound
  have timely := inStep.timely base member
  have length := Stream.headNat_eq sound.retains
  rw [length] at bound
  have cut : (run.history.take seq).length = seq := by
    rw [List.length_take, Nat.min_eq_left bound]
  have tracks : Tracks genesis (run.history.take seq) branch stream
      ⟨stateAfter genesis run.history seq⟩ := by
    refine ⟨sound.fork forked, ?_, ?_⟩
    · exact (Stream.based_fork_iff forked).mpr ⟨base, member, timely, below⟩
    · rw [cut, stateAfter_take genesis _ (Nat.le_refl seq)]
  have stands : posAt (run.history.take seq) (run.history.take seq).length =
      posAt run.history seq := by
    rw [cut, posAt_take _ (Nat.le_refl seq)]
  refine ⟨?_, ?_, ?_⟩
  · rw [MemoryJournal.entropyPos_eq]
    apply sound.entropyPos (by omega)
    by_cases retained : (run.live.journal.streamMut stream).truncated < seq
    · exact .inl retained
    · exact .inr ⟨base, member, by omega⟩
  · rw [tracks.resume seed, stands]
  · intro resumed present
    have later := inStep.replays.drop seq
    rw [List.nil_append] at later
    obtain ⟨after, executed, tracked, moved, horizon, snapshots⟩ :=
      later.executeEach ⟨branch, _, resumed⟩ tracks (stands ▸ present)
    rw [List.take_append_drop] at tracked moved
    obtain ⟨regrown, positions⟩ :=
      Stream.regrown sound forked tracked.sound horizon snapshots
    refine ⟨after, ?_, ?_, ?_, ?_, ?_, ?_, ?_⟩
    · rw [executed, cut, MemoryJournal.head_eq, Stream.head_getD, length, later.length_eq,
        List.length_drop]
    · intro read
      rw [regrown]
      rfl
    · intro read
      rw [MemoryJournal.entropyPos_eq, MemoryJournal.entropyPos_eq, positions]
    · intro since
      rw [MemoryJournal.eventsSince_eq, MemoryJournal.eventsSince_eq, regrown]
      rfl
    · rw [MemoryJournal.head_eq, MemoryJournal.head_eq, regrown]
      rfl
    · rw [tracked.state, inStep.tracks.state]
    · rw [moved, inStep.entropy]

section Recorded

open Fixture

/-- Two bumps, a snapshot of them, the first record discarded, and two more bumps. -/
def recordedRun : RecordedRun (Tally Rng) :=
  ((((((RecordedRun.fresh Fixture.genesis (ctx 0)).step "tally"
    (.execute TallyCommand.bump)).step "tally" (.execute TallyCommand.bump)).step "tally"
      (.snapshot 1)).step "tally" (.truncate 2)).step "tally"
        (.execute TallyCommand.bump)).step "tally" (.execute TallyCommand.bump)

theorem branch_reexecutes_recorded : ∃ branch,
    ForkableJournal.fork recordedRun.live.journal "tally" 3 = .ok branch ∧
      (resume branch "tally" seed : Resumed (Tally Rng) fun _ _ => 0) =
        .ok (⟨counted 3⟩, .at seed 0) := by
  have determined : DecidesOnEntropy (Tally Rng) := by
    intro state cmd e
    refine ⟨.ok [TallyEvent.bumped], draws e, ?_⟩
    intro ctx present
    exact ⟨rfl, present⟩
  have reached : Lib.Reaches (RecordedRun.step "tally") (fun _ _ => True)
      (RecordedRun.fresh Fixture.genesis (ctx 0)) recordedRun :=
    .next (.next (.next (.next (.next (.next .start trivial) trivial) trivial) trivial) trivial)
      trivial
  refine ⟨_, rfl, ?_⟩
  exact (branch_reexecutes determined Fixture.genesis seed "tally" (ctx 0) rfl recordedRun reached
    3 _ rfl).2.1

end Recorded

end Branch

end Ironstate
