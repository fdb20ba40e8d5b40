import Ironstate.Core.Error
import Ironstate.Journal.Journal

/-!
# Replay, resume and the persistent execute loop

`replay.rs`. The functions come first, as the source has them; after them stands what one
call of `execute_in` or `execute` can do, once and for every journal
(`ExecuteInSpec`, `ExecuteSpec`), so that no later proof unfolds the loop again.
-/

namespace Ironstate

variable {A : AggregateRules} {J Tx E : Type}

/-- `enum ResumeError`. -/
inductive ResumeError where
  | journal (error : JournalError)
  | restore (error : RestoreError)
  | noBase
  deriving DecidableEq

/-- What `resume` answers: the aggregate and its entropy stream, or why there is none. -/
abbrev Resumed (A : AggregateRules) (chacha12 : Seed → UInt64 → UInt32) :=
  Except ResumeError (Aggregate A × SeededEntropy chacha12)

/-- `replay`: the events are stored at the current schema, so no upcast can fail. -/
def replay (snapshot : Snapshot A) (events : List (VersionedEvent A)) :
    Except RestoreError (Aggregate A) :=
  .ok (events.foldl (fun aggregate stored => aggregate.evolve stored.event)
    (.fromState snapshot.state))

/-- `resume`: from the latest snapshot, with the entropy stream at the position recorded at
the head. -/
def resume [Journal J A Tx] {chacha12 : Seed → UInt64 → UInt32} (journal : J)
    (stream : StreamId) (seed : Seed) : Resumed A chacha12 :=
  match Journal.latestSnapshot journal stream with
  | .error error => .error (.journal error)
  | .ok none => .error .noBase
  | .ok (some snapshot) =>
    match Journal.eventsSince journal stream (some snapshot.atSeq) with
    | .error error => .error (.journal error)
    | .ok events =>
      match replay snapshot events with
      | .error error => .error (.restore error)
      | .ok aggregate =>
        match Journal.head journal stream with
        | none => .ok (aggregate, .at seed snapshot.entropyPos)
        | some head =>
          match Journal.entropyPos journal stream head with
          | .error error => .error (.journal error)
          | .ok pos => .ok (aggregate, .at seed pos)

/-- `head_pos`: the entropy position recorded at the head, or 0 for an empty stream. -/
def headPos [Journal J A Tx] (journal : J) (stream : StreamId) : Except JournalError DrawPos :=
  match Journal.head journal stream with
  | some head => Journal.entropyPos journal stream head
  | none => .ok 0

/-- `struct Prepared`. -/
structure Prepared (A : AggregateRules) where
  events : List A.Event
  draws : DrawPos
  headPos : DrawPos

/-- `struct Pending`. -/
structure Pending (A : AggregateRules) where
  seq : Nat
  prepared : Prepared A

section Loop

variable [EntropySource E] [CtxEntropy A.Ctx E]

/-- `rewind`. -/
def rewind (ctx : A.Ctx) (pos : DrawPos) : A.Ctx :=
  match entropy ctx with
  | some e => setEntropy ctx (seek e pos)
  | none => ctx

/-- `prepare`: structural checks and `decide`, with the position the draws reached. -/
def prepare (aggregate : Aggregate A) (cmd : A.Command) (ctx : A.Ctx) (head : DrawPos) :
    Except (Rejection A) (Prepared A) × A.Ctx :=
  match aggregate.decideOnly cmd ctx with
  | (.error rejection, ctx) => (.error rejection, rewind ctx head)
  | (.ok events, ctx) => (.ok ⟨events, (ctxDraws ctx).getD head, head⟩, ctx)

/-- `Prepared::commit`. -/
def Prepared.commit (prepared : Prepared A) (aggregate : Aggregate A) : Aggregate A :=
  prepared.events.foldl Aggregate.evolve aggregate

/-- `Prepared::abort`. -/
def Prepared.abort (prepared : Prepared A) (ctx : A.Ctx) : A.Ctx := rewind ctx prepared.headPos

/-- `Pending::commit`. -/
def Pending.commit (pending : Pending A) (aggregate : Aggregate A) : Nat × Aggregate A :=
  (pending.seq, pending.prepared.commit aggregate)

/-- `Pending::abort`. -/
def Pending.abort (pending : Pending A) (ctx : A.Ctx) : A.Ctx := pending.prepared.abort ctx

/-- What a call of `execute_in` leaves behind. -/
structure ExecutedIn (A : AggregateRules) (J Tx : Type) where
  result : Except (ExecuteError A) (Pending A)
  journal : J
  tx : Tx
  ctx : A.Ctx

/-- `execute_in`: the append joins the caller's unit of work, the aggregate is not evolved. -/
def executeIn [Journal J A Tx] (journal : J) (tx : Tx) (stream : StreamId)
    (aggregate : Aggregate A) (cmd : A.Command) (ctx : A.Ctx) : ExecutedIn A J Tx :=
  match headPos journal stream with
  | .error error => ⟨.error (.journal error), journal, tx, ctx⟩
  | .ok head =>
    match prepare aggregate cmd ctx head with
    | (.error rejection, ctx) => ⟨.error (.rejected rejection), journal, tx, ctx⟩
    | (.ok prepared, ctx) =>
      match Journal.appendIn journal tx stream prepared.events prepared.draws with
      | (.ok seq, journal, tx) => ⟨.ok ⟨seq, prepared⟩, journal, tx, ctx⟩
      | (.error error, journal, tx) => ⟨.error (.journal error), journal, tx, prepared.abort ctx⟩

/-- What a driver holds between two commands: the journal, the live aggregate and the context
it hands to both. -/
structure Live (A : AggregateRules) (J : Type) where
  journal : J
  aggregate : Aggregate A
  ctx : A.Ctx

/-- What a call of `execute` leaves behind. -/
structure Executed (A : AggregateRules) (J : Type) where
  result : Except (ExecuteError A) Nat
  journal : J
  aggregate : Aggregate A
  ctx : A.Ctx

/-- `execute`: `execute_in` in the unit of work `()`, committed at once. -/
def execute [Journal J A Unit] (journal : J) (stream : StreamId) (aggregate : Aggregate A)
    (cmd : A.Command) (ctx : A.Ctx) : Executed A J :=
  match executeIn journal () stream aggregate cmd ctx with
  | ⟨.error error, journal, _, ctx⟩ => ⟨.error error, journal, aggregate, ctx⟩
  | ⟨.ok pending, journal, _, ctx⟩ =>
    let (seq, aggregate) := pending.commit aggregate
    ⟨.ok seq, journal, aggregate, ctx⟩

/-! ## What one call can do -/

/-- The four ways through `execute_in`: the head cannot be read, the command is rejected,
the append fails, the append is made. -/
inductive ExecuteInSpec [Journal J A Tx] (journal : J) (tx : Tx) (stream : StreamId)
    (aggregate : Aggregate A) (cmd : A.Command) (ctx : A.Ctx) : ExecutedIn A J Tx → Prop where
  | headFailed {error : JournalError} (head : headPos journal stream = .error error) :
      ExecuteInSpec journal tx stream aggregate cmd ctx
        ⟨.error (.journal error), journal, tx, ctx⟩
  | rejected {pos : DrawPos} {rejection : Rejection A} {drawn : A.Ctx}
      (head : headPos journal stream = .ok pos)
      (decided : aggregate.decideOnly cmd ctx = (.error rejection, drawn)) :
      ExecuteInSpec journal tx stream aggregate cmd ctx
        ⟨.error (.rejected rejection), journal, tx, rewind drawn pos⟩
  | appendFailed {pos : DrawPos} {events : List A.Event} {drawn : A.Ctx} {error : JournalError}
      {journal' : J} {tx' : Tx} (head : headPos journal stream = .ok pos)
      (decided : aggregate.decideOnly cmd ctx = (.ok events, drawn))
      (failed : Journal.appendIn journal tx stream events ((ctxDraws drawn).getD pos) =
        (.error error, journal', tx')) :
      ExecuteInSpec journal tx stream aggregate cmd ctx
        ⟨.error (.journal error), journal', tx', rewind drawn pos⟩
  | appended {pos : DrawPos} {events : List A.Event} {drawn : A.Ctx} {seq : Nat}
      {journal' : J} {tx' : Tx} (head : headPos journal stream = .ok pos)
      (decided : aggregate.decideOnly cmd ctx = (.ok events, drawn))
      (made : Journal.appendIn journal tx stream events ((ctxDraws drawn).getD pos) =
        (.ok seq, journal', tx')) :
      ExecuteInSpec journal tx stream aggregate cmd ctx
        ⟨.ok ⟨seq, events, (ctxDraws drawn).getD pos, pos⟩, journal', tx', drawn⟩

theorem executeIn_spec [Journal J A Tx] (journal : J) (tx : Tx) (stream : StreamId)
    (aggregate : Aggregate A) (cmd : A.Command) (ctx : A.Ctx) :
    ExecuteInSpec journal tx stream aggregate cmd ctx
      (executeIn journal tx stream aggregate cmd ctx) := by
  unfold executeIn
  cases head : headPos journal stream with
  | error error => exact .headFailed head
  | ok pos =>
    simp only [prepare]
    rcases decided : aggregate.decideOnly cmd ctx with ⟨rejection | events, drawn⟩
    · exact .rejected head decided
    · simp only
      rcases appended :
        Journal.appendIn journal tx stream events ((ctxDraws drawn).getD pos) with
        ⟨error | seq, journal', tx'⟩
      · exact .appendFailed head decided appended
      · exact .appended head decided appended

theorem foldl_evolve (events : List A.Event) (aggregate : Aggregate A) :
    events.foldl Aggregate.evolve aggregate = ⟨events.foldl A.evolve aggregate.state⟩ := by
  induction events generalizing aggregate with
  | nil => rfl
  | cons event events ih => exact ih _

/-- The ways through `execute`: an error leaves the aggregate as it was, an append evolves
it by the events appended. -/
inductive ExecuteSpec [Journal J A Unit] (journal : J) (stream : StreamId)
    (aggregate : Aggregate A) (cmd : A.Command) (ctx : A.Ctx) : Executed A J → Prop where
  | headFailed {error : JournalError} (head : headPos journal stream = .error error) :
      ExecuteSpec journal stream aggregate cmd ctx
        ⟨.error (.journal error), journal, aggregate, ctx⟩
  | rejected {pos : DrawPos} {rejection : Rejection A} {drawn : A.Ctx}
      (head : headPos journal stream = .ok pos)
      (decided : aggregate.decideOnly cmd ctx = (.error rejection, drawn)) :
      ExecuteSpec journal stream aggregate cmd ctx
        ⟨.error (.rejected rejection), journal, aggregate, rewind drawn pos⟩
  | appendFailed {pos : DrawPos} {events : List A.Event} {drawn : A.Ctx} {error : JournalError}
      {journal' : J} (head : headPos journal stream = .ok pos)
      (decided : aggregate.decideOnly cmd ctx = (.ok events, drawn))
      (failed : Journal.appendIn journal () stream events ((ctxDraws drawn).getD pos) =
        (.error error, journal', ())) :
      ExecuteSpec journal stream aggregate cmd ctx
        ⟨.error (.journal error), journal', aggregate, rewind drawn pos⟩
  | appended {pos : DrawPos} {events : List A.Event} {drawn : A.Ctx} {seq : Nat}
      {journal' : J} (head : headPos journal stream = .ok pos)
      (decided : aggregate.decideOnly cmd ctx = (.ok events, drawn))
      (made : Journal.appendIn journal () stream events ((ctxDraws drawn).getD pos) =
        (.ok seq, journal', ())) :
      ExecuteSpec journal stream aggregate cmd ctx
        ⟨.ok seq, journal', ⟨events.foldl A.evolve aggregate.state⟩, drawn⟩

theorem execute_spec [Journal J A Unit] (journal : J) (stream : StreamId)
    (aggregate : Aggregate A) (cmd : A.Command) (ctx : A.Ctx) :
    ExecuteSpec journal stream aggregate cmd ctx
      (execute journal stream aggregate cmd ctx) := by
  unfold execute
  have spec := executeIn_spec journal () stream aggregate cmd ctx
  generalize executeIn journal () stream aggregate cmd ctx = outcome at spec ⊢
  cases spec with
  | headFailed head => exact .headFailed head
  | rejected head decided => exact .rejected head decided
  | appendFailed head decided failed => exact .appendFailed head decided failed
  | appended head decided made =>
    have evolved := @foldl_evolve A
    simp only [Pending.commit, Prepared.commit, evolved]
    exact .appended head decided made

/-- What `decide_only` can answer: the structural check stops it before anything is drawn,
or `decide` has run. -/
theorem decideOnly_cases (aggregate : Aggregate A) (cmd : A.Command) (ctx : A.Ctx) :
    (aggregate.decideOnly cmd ctx).2 = ctx ∨
      (aggregate.decideOnly cmd ctx).2 = (A.decide aggregate.state cmd ctx).2 := by
  unfold Aggregate.decideOnly
  cases aggregate.structuralCheck cmd with
  | some rejection => exact .inl rfl
  | none =>
    right
    rcases A.decide aggregate.state cmd ctx with ⟨error | events, drawn⟩ <;> rfl

/-- The structural checks draw nothing, so `decide_only` draws forward when `decide` does. -/
theorem DrawsForward.decideOnly (forward : DrawsForward A) {aggregate : Aggregate A}
    {cmd : A.Command} {ctx drawn : A.Ctx} {result : Except (Rejection A) (List A.Event)}
    (decided : aggregate.decideOnly cmd ctx = (result, drawn)) : ∃ n, drawn = drawnCtx n ctx := by
  have reached : (aggregate.decideOnly cmd ctx).2 = drawn := congrArg Prod.snd decided
  rcases decideOnly_cases aggregate cmd ctx with unchanged | made
  · refine ⟨0, ?_⟩
    rw [← reached, unchanged, drawnCtx_zero]
  · obtain ⟨n, drew⟩ := forward aggregate.state cmd ctx
    refine ⟨n, ?_⟩
    rw [← reached, made, drew]

/-- The structural checks read the state and the command alone, and draw nothing. -/
theorem DecidesOnEntropy.decideOnly [LawfulEntropySource E] (determined : DecidesOnEntropy A)
    (aggregate : Aggregate A) (cmd : A.Command) (e : E) :
    ∃ result pos, ∀ ctx : A.Ctx, entropy ctx = some e →
      ∃ drawn, aggregate.decideOnly cmd ctx = (result, drawn) ∧
        entropy drawn = some (seek e pos) := by
  unfold Aggregate.decideOnly
  cases aggregate.structuralCheck cmd with
  | some rejection =>
    refine ⟨.error rejection, draws e, ?_⟩
    intro ctx present
    refine ⟨ctx, rfl, ?_⟩
    rw [present, LawfulEntropySource.seek_draws]
  | none =>
    obtain ⟨result, pos, decided⟩ := determined aggregate.state cmd e
    refine ⟨result.mapError .domain, pos, ?_⟩
    intro ctx present
    obtain ⟨same, moved⟩ := decided ctx present
    rcases outcome : A.decide aggregate.state cmd ctx with ⟨error | events, drawn⟩
    · rw [outcome] at same moved
      subst same
      exact ⟨drawn, rfl, moved⟩
    · rw [outcome] at same moved
      subst same
      exact ⟨drawn, rfl, moved⟩

theorem entropy_rewind (ctx : A.Ctx) (pos : DrawPos) :
    entropy (rewind ctx pos) = (entropy ctx).map fun e => seek e pos := by
  unfold rewind
  cases present : entropy ctx with
  | none => simpa using present
  | some e => exact CtxEntropy.entropy_setEntropy ctx e _ present

/-- After a rewind the stream, where there is one, stands at the target. -/
theorem ctxDraws_rewind [LawfulEntropySource E] (ctx : A.Ctx) (pos : DrawPos) :
    ctxDraws (rewind ctx pos) = (ctxDraws ctx).map fun _ => pos := by
  unfold ctxDraws
  rw [entropy_rewind]
  cases entropy ctx with
  | none => rfl
  | some e => exact congrArg some (LawfulEntropySource.draws_seek e pos)

/-- However far a context was drawn from, a rewind to where it stood gives it back. -/
theorem rewind_drawnCtx [LawfulEntropySource E] {ctx : A.Ctx} {pos : DrawPos}
    (stood : ctxDraws ctx = some pos) (n : Nat) : rewind (drawnCtx n ctx) pos = ctx := by
  unfold ctxDraws at stood
  obtain ⟨e, present, rfl⟩ := Option.map_eq_some_iff.mp stood
  have moved : entropy (setEntropy ctx (drawWords n e)) = some (drawWords n e) :=
    CtxEntropy.entropy_setEntropy ctx e _ present
  unfold rewind drawnCtx
  simp only [present, moved]
  rw [CtxEntropy.setEntropy_setEntropy ctx e _ _ present, seek_drawWords,
    LawfulEntropySource.seek_draws, CtxEntropy.setEntropy_entropy ctx e present]

end Loop

/-- Journals that agree on the reads `resume` makes are resumed alike. -/
theorem resume_congr {J' Tx' : Type} [Journal J A Tx] [Journal J' A Tx']
    {chacha12 : Seed → UInt64 → UInt32} {j : J} {j' : J'} {stream : StreamId}
    (latest : Journal.latestSnapshot j' stream = Journal.latestSnapshot j stream)
    (events : ∀ snapshot, Journal.latestSnapshot j stream = .ok (some snapshot) →
      Journal.eventsSince j' stream (some snapshot.atSeq) =
        Journal.eventsSince j stream (some snapshot.atSeq))
    (head : Journal.head j' stream = Journal.head j stream)
    (pos : ∀ seq, Journal.head j stream = some seq →
      Journal.entropyPos j' stream seq = Journal.entropyPos j stream seq) (seed : Seed) :
    (resume j' stream seed : Resumed A chacha12) = resume j stream seed := by
  unfold resume
  rw [latest]
  cases found : Journal.latestSnapshot j stream with
  | error error => rfl
  | ok latest =>
    cases latest with
    | none => rfl
    | some snapshot =>
      simp only [events snapshot found, head]
      cases headed : Journal.head j stream with
      | none => rfl
      | some seq => simp only [pos seq headed]

end Ironstate
