import Ironstate.Journal.Fixture
import Ironstate.Journal.Proofs.Resume

/-!
# The live run and the journal in lockstep

A live run over one stream of a `MemoryJournal` whose appends may be made to fail:
commands, late honest snapshots, truncations and crashes, in any order. At every point the
journal resumes to the live aggregate and to the live entropy stream
(`live_run_lockstep`). What `execute` does over a `MemoryJournal` is said first (`execute_memory`).
-/

namespace Ironstate

variable {A : AggregateRules} {J Tx E : Type} {genesis : A.State} {history : List (Record A)}

/-! ## `execute` over a `MemoryJournal` -/

section Execute

variable [EntropySource E] [CtxEntropy A.Ctx E] {stream : StreamId} {pos : DrawPos}

/-- Over a `MemoryJournal` a command is rejected, or its events are appended. -/
theorem execute_memory {j : MemoryJournal A} (head : headPos j stream = .ok pos)
    (aggregate : Aggregate A) (cmd : A.Command) (ctx : A.Ctx) :
    (∃ rejection drawn, aggregate.decideOnly cmd ctx = (.error rejection, drawn) ∧
      execute j stream aggregate cmd ctx =
        ⟨.error (.rejected rejection), j, aggregate, rewind drawn pos⟩) ∨
    ∃ events drawn, aggregate.decideOnly cmd ctx = (.ok events, drawn) ∧
      execute j stream aggregate cmd ctx =
        ⟨.ok ((j.streamMut stream).headNat + 1),
          (j.appendIn stream events ((ctxDraws drawn).getD pos)).2,
          ⟨events.foldl A.evolve aggregate.state⟩, drawn⟩ := by
  have spec := execute_spec j stream aggregate cmd ctx
  generalize execute j stream aggregate cmd ctx = outcome at spec ⊢
  cases spec with
  | headFailed failed =>
    rw [head] at failed
    cases failed
  | rejected head' decided =>
    obtain rfl := Except.ok.inj (head.symm.trans head')
    exact .inl ⟨_, _, decided, rfl⟩
  | appendFailed head' decided failed => cases failed
  | appended head' decided made =>
    obtain rfl := Except.ok.inj (head.symm.trans head')
    right
    refine ⟨_, _, decided, ?_⟩
    obtain ⟨made, written⟩ := Prod.mk.inj made
    obtain ⟨written, -⟩ := Prod.mk.inj written
    have landed := Except.ok.inj made
    rw [← landed, ← written]
    exact congrArg (fun seq => Executed.mk (.ok seq) _ _ _)
      (Stream.headNat_append (j.streamMut stream) _ _)

end Execute

/-! ## What a journal and a live aggregate share -/

/-- The stream holds the history, can be resumed, and the aggregate is where it ends. -/
structure Tracks (genesis : A.State) (history : List (Record A)) (j : MemoryJournal A)
    (stream : StreamId) (aggregate : Aggregate A) : Prop where
  sound : Sound genesis history (j.streamMut stream)
  based : (j.streamMut stream).Based
  state : aggregate = ⟨stateAfter genesis history history.length⟩

namespace Tracks

variable {j : MemoryJournal A} {stream : StreamId} {aggregate : Aggregate A}

theorem new (genesis : A.State) (stream : StreamId) :
    Tracks genesis [] (.new genesis) stream (.fromState genesis) := by
  refine ⟨?_, ?_, rfl⟩
  · rw [MemoryJournal.streamMut_new]
    exact Sound.new genesis
  · rw [MemoryJournal.streamMut_new]
    exact Stream.based_new _ rfl

theorem headPos (tracks : Tracks genesis history j stream aggregate) :
    headPos j stream = .ok (posAt history history.length) :=
  headPos_sound tracks.sound tracks.based

theorem resume {chacha12 : Seed → UInt64 → UInt32}
    (tracks : Tracks genesis history j stream aggregate) (seed : Seed) :
    (resume j stream seed : Resumed A chacha12) =
      .ok (aggregate, .at seed (posAt history history.length)) := by
  rw [tracks.state]
  exact resume_sound tracks.sound tracks.based seed

/-- A stream written back sound and based is tracked by the same aggregate. -/
theorem put (tracks : Tracks genesis history j stream aggregate) {s : Stream A}
    (sound : Sound genesis history s) (based : s.Based) :
    Tracks genesis history (j.put stream s) stream aggregate := by
  refine ⟨?_, ?_, tracks.state⟩
  · rw [MemoryJournal.streamMut_put_self]
    exact sound
  · rw [MemoryJournal.streamMut_put_self]
    exact based

theorem append (tracks : Tracks genesis history j stream aggregate) (events : List A.Event)
    (pos : DrawPos) :
    Tracks genesis (history ++ [⟨events, pos⟩]) (j.appendIn stream events pos).2 stream
      ⟨events.foldl A.evolve aggregate.state⟩ := by
  refine ⟨?_, ?_, ?_⟩
  · rw [MemoryJournal.streamMut_appendIn]
    exact tracks.sound.append events pos
  · rw [MemoryJournal.streamMut_appendIn]
    exact tracks.based.append events pos
  · rw [tracks.state, List.length_append, List.length_singleton, stateAfter_push]

end Tracks

/-! ## Live runs -/

/-- What happens to one stream while it is live. -/
inductive RunOp (A : AggregateRules) where
  | execute (cmd : A.Command) (fails : Bool)
  | snapshot (snap : Snapshot A)
  | truncate (seq : Nat)
  | crash

/-- The live journal, aggregate and context, and beside them every record appended. -/
structure Run (A : AggregateRules) where
  live : Live A (FaultInjector (MemoryJournal A))
  history : List (Record A)

section Run

variable {chacha12 : Seed → UInt64 → UInt32} [CtxEntropy A.Ctx (SeededEntropy chacha12)]

namespace Run

/-- A fresh journal and the genesis aggregate. -/
def fresh (genesis : A.State) (ctx : A.Ctx) : Run A :=
  ⟨⟨.new (.new genesis), .fromState genesis, ctx⟩, []⟩

/-- One operation on the stream. A crash drops the aggregate and the entropy stream for what
`resume` returns. -/
def step (stream : StreamId) (seed : Seed) (run : Run A) : RunOp A → Run A
  | .execute cmd fails =>
    let executed :=
      execute (run.live.journal.arm fails) stream run.live.aggregate cmd run.live.ctx
    let appended :=
      match executed.result with
      | .ok _ => (executed.journal.inner.streamMut stream).records.getLast?.toList
      | .error _ => []
    ⟨⟨executed.journal, executed.aggregate, executed.ctx⟩, run.history ++ appended⟩
  | .snapshot snap =>
    let (_, journal, _) := Journal.snapshotIn run.live.journal () stream snap
    { run with live := { run.live with journal := journal } }
  | .truncate seq =>
    let (_, inner) := RetainableJournal.truncateBefore run.live.journal.inner stream seq
    { run with live := { run.live with journal := { run.live.journal with inner := inner } } }
  | .crash =>
    match (resume run.live.journal stream seed : Resumed A chacha12) with
    | .error _ => run
    | .ok (aggregate, e) =>
      { run with live := ⟨run.live.journal, aggregate, setEntropy run.live.ctx e⟩ }

/-- Any command, truncation and crash, and any snapshot of the true state and position. -/
def admits (genesis : A.State) (run : Run A) : RunOp A → Prop
  | .snapshot snap => Honest genesis run.history snap
  | _ => True

/-- The journal tracks the live aggregate, and the context stands at the recorded head. -/
structure InStep (genesis : A.State) (stream : StreamId) (seed : Seed) (run : Run A) : Prop where
  tracks : Tracks genesis run.history run.live.journal.inner stream run.live.aggregate
  entropy : entropy run.live.ctx = some (.at seed (posAt run.history run.history.length))

namespace InStep

variable {stream : StreamId} {seed : Seed} {run : Run A}

/-- However far `decide` drew, the stream stays on its seed, and a rewind brings it back. -/
theorem drawn (inStep : InStep genesis stream seed run) (forward : DrawsForward A)
    (cmd : A.Command) :
    ∃ reached, Ironstate.entropy (run.live.aggregate.decideOnly cmd run.live.ctx).2 =
      some (.at seed reached) := by
  obtain ⟨n, drew⟩ := forward.decideOnly (Prod.eta (run.live.aggregate.decideOnly cmd run.live.ctx)).symm
  obtain ⟨reached, moved⟩ : ∃ reached, drawWords n (SeededEntropy.at seed
      (posAt run.history run.history.length) : SeededEntropy chacha12) = .at seed reached :=
    SeededEntropy.drawWords_at n seed _
  refine ⟨reached, ?_⟩
  rw [drew, entropy_drawnCtx, inStep.entropy, Option.map_some, moved]

theorem execute (inStep : InStep genesis stream seed run) (forward : DrawsForward A)
    (cmd : A.Command) (fails : Bool) :
    InStep genesis stream seed (run.step stream seed (.execute cmd fails)) := by
  obtain ⟨reached, moved⟩ := inStep.drawn forward cmd
  have tracks := inStep.tracks
  -- both failures end in a rewind to the head, on the seed the stream was drawn from
  have rewound : ∀ result ctx, run.live.aggregate.decideOnly cmd run.live.ctx = (result, ctx) →
      Ironstate.entropy (rewind ctx (posAt run.history run.history.length)) =
        some (SeededEntropy.at seed (posAt run.history run.history.length)) := by
    intro result ctx decided
    rw [decided] at moved
    rw [entropy_rewind, moved, Option.map_some, SeededEntropy.seek_at]
  cases fails with
  | true =>
    rcases execute_armed tracks.headPos run.live.aggregate cmd run.live.ctx with
      ⟨rejection, ctx, decided, outcome⟩ | ⟨events, ctx, decided, outcome⟩
    · unfold Run.step
      simp only [FaultInjector.arm_true, outcome, List.append_nil]
      exact ⟨tracks, rewound _ _ decided⟩
    · unfold Run.step
      simp only [FaultInjector.arm_true, outcome, List.append_nil]
      exact ⟨tracks, rewound _ _ decided⟩
  | false =>
    rcases execute_memory tracks.headPos run.live.aggregate cmd run.live.ctx with
      ⟨rejection, ctx, decided, outcome⟩ | ⟨events, ctx, decided, outcome⟩
    · unfold Run.step
      simp only [FaultInjector.arm_false, execute_unarmed, outcome, List.append_nil]
      exact ⟨tracks, rewound _ _ decided⟩
    · rw [decided] at moved
      have position : ctxDraws ctx = some reached := by
        unfold ctxDraws
        rw [moved]
        rfl
      unfold Run.step
      simp only [FaultInjector.arm_false, execute_unarmed, outcome, position, Option.getD_some,
        MemoryJournal.getLast?_appendIn, Option.toList_some]
      refine ⟨tracks.append events reached, ?_⟩
      simp only [List.length_append, List.length_singleton, posAt_push]
      exact moved

theorem snapshot (inStep : InStep genesis stream seed run) {snap : Snapshot A}
    (honest : Honest genesis run.history snap) :
    InStep genesis stream seed (run.step stream seed (.snapshot snap)) := by
  have tracks := inStep.tracks
  refine ⟨?_, inStep.entropy⟩
  exact tracks.put (tracks.sound.snapshot honest) (tracks.based.snapshot snap)

theorem truncate (inStep : InStep genesis stream seed run) (seq : Nat) :
    InStep genesis stream seed (run.step stream seed (.truncate seq)) := by
  have tracks := inStep.tracks
  refine ⟨?_, inStep.entropy⟩
  show Tracks genesis run.history (run.live.journal.inner.truncateBefore stream seq).2 stream _
  cases outcome : (run.live.journal.inner.truncateBefore stream seq).1 with
  | error error =>
    rw [MemoryJournal.truncateBefore_error outcome]
    exact tracks
  | ok _ =>
    obtain ⟨s, s', touched, cut, written⟩ := MemoryJournal.truncateBefore_ok outcome
    have before := MemoryJournal.streamMut_touched touched
    have sound := tracks.sound
    rw [before] at sound
    rw [written]
    exact tracks.put (sound.truncate cut) (Stream.based_truncateBefore cut)

theorem crash (inStep : InStep genesis stream seed run) :
    InStep genesis stream seed (run.step stream seed .crash) := by
  have tracks := inStep.tracks
  have resumed : (resume run.live.journal.inner stream seed : Resumed A chacha12) = _ :=
    tracks.resume seed
  unfold Run.step
  rw [FaultInjector.resume_eq, resumed]
  refine ⟨tracks, ?_⟩
  exact CtxEntropy.entropy_setEntropy _ _ _ inStep.entropy

end InStep

end Run

/-- Every point of a live run resumes to the live aggregate and the live entropy stream, and
the latter stands where the head was recorded. -/
theorem live_run_lockstep (forward : DrawsForward A) (genesis : A.State) (seed : Seed)
    (stream : StreamId) (ctx : A.Ctx) (start : entropy ctx = some (.at seed 0)) (run : Run A)
    (reached : Lib.Reaches (Run.step stream seed) (Run.admits genesis) (Run.fresh genesis ctx) run) :
    ∃ pos, (resume run.live.journal stream seed : Resumed A chacha12) =
        .ok (run.live.aggregate, .at seed pos) ∧
      entropy run.live.ctx = some (.at seed pos) ∧
      headPos run.live.journal stream = .ok pos ∧
      Journal.head run.live.journal stream =
        (if run.history.length > 0 then some run.history.length else none) ∧
      posAt run.history run.history.length = pos ∧
      run.live.aggregate.state = stateAfter genesis run.history run.history.length := by
  have inStep : Run.InStep genesis stream seed run := by
    refine reached.invariant ⟨Tracks.new genesis stream, start⟩ ?_
    intro run op inStep admitted
    cases op with
    | execute cmd fails => exact inStep.execute forward cmd fails
    | snapshot snap => exact inStep.snapshot admitted
    | truncate seq => exact inStep.truncate seq
    | crash => exact inStep.crash
  have tracks := inStep.tracks
  refine ⟨_, tracks.resume seed, inStep.entropy, tracks.headPos, ?_, rfl, ?_⟩
  · rw [FaultInjector.head_eq, MemoryJournal.head_eq]
    unfold Stream.head
    rw [Stream.headNat_eq tracks.sound.retains]
  · rw [tracks.state]

section Lived

open Fixture

/-- One bump, a failed one, a late snapshot of the genesis, a truncation refused, a crash. -/
def livedRun : Run (Tally Rng) :=
  (((((Run.fresh Fixture.genesis (ctx 0)).step "tally" seed
    (.execute TallyCommand.bump false)).step "tally" seed
    (.execute TallyCommand.bump true)).step "tally" seed
    (.snapshot ⟨Fixture.genesis, 0, 0, 0⟩)).step "tally" seed (.truncate 2)).step "tally" seed .crash

theorem live_run_lockstep_lived :
    ∃ pos, (resume livedRun.live.journal "tally" seed : Resumed (Tally Rng) fun _ _ => 0) =
      .ok (⟨counted 1⟩, .at seed pos) := by
  have forward : DrawsForward (Tally Rng) := fun _ _ _ => ⟨0, (drawnCtx_zero _).symm⟩
  have reached : Lib.Reaches (Run.step "tally" seed) (Run.admits Fixture.genesis)
      (Run.fresh Fixture.genesis (ctx 0)) livedRun := by
    refine .next (.next (.next (.next (.next .start trivial) trivial) ?_) trivial) trivial
    exact ⟨by decide, rfl, rfl⟩
  obtain ⟨pos, resumed, -⟩ :=
    live_run_lockstep forward Fixture.genesis seed "tally" (ctx 0) rfl livedRun reached
  exact ⟨pos, resumed⟩

end Lived

end Run

end Ironstate
