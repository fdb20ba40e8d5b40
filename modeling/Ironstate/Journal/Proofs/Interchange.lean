import Ironstate.Journal.Kept

/-!
# Adapters are interchangeable

Two journals of any kind that keep their history and their snapshots give a caller the same
answers: over every sequence of commands, checkpoints and branches, on any of their streams,
they reply alike, leave the same live aggregates and contexts, and are read and resumed alike
(`serveAll_agree`). The relation behind it is that both hold one past.
-/

namespace Ironstate

variable {A : AggregateRules} {J J' E : Type}

/-- What a caller asks of a journal. -/
inductive Request (A : AggregateRules) where
  /-- A command to the live aggregate of a stream. -/
  | command (stream : StreamId) (cmd : A.Command) (ctx : A.Ctx)
  /-- A snapshot of the live aggregate of a stream, at its head. -/
  | checkpoint (stream : StreamId)
  /-- To go on from a fork of a stream, with its aggregates resumed. -/
  | branch (stream : StreamId) (seq : Nat)

/-- What the caller sees of the answer. -/
inductive Reply (A : AggregateRules) where
  | executed (result : Except (ExecuteError A) Nat) (ctx : A.Ctx)
  | stored (result : Except JournalError Unit)
  | branched (result : Except JournalError Unit)

/-- A journal and the live aggregates of its streams. -/
structure Served (A : AggregateRules) (J : Type) where
  journal : J
  live : StreamId → Aggregate A

/-- The live aggregates with one of them replaced. -/
def putLive (live : StreamId → Aggregate A) (stream : StreamId) (aggregate : Aggregate A) :
    StreamId → Aggregate A :=
  fun id => if id = stream then aggregate else live id

section Serve

variable [ForkableJournal J A Unit] [EntropySource E] [CtxEntropy A.Ctx E]

/-- One request to a journal whose resumed streams draw from `seed`. -/
def serve (chacha12 : Seed → UInt64 → UInt32) (seed : Seed) (served : Served A J) :
    Request A → Reply A × Served A J
  | .command stream cmd ctx =>
    let executed := execute served.journal stream (served.live stream) cmd ctx
    (.executed executed.result executed.ctx,
      ⟨executed.journal, putLive served.live stream executed.aggregate⟩)
  | .checkpoint stream =>
    match headPos served.journal stream with
    | .error error => (.stored (.error error), served)
    | .ok pos =>
      let snap : Snapshot A :=
        ⟨(served.live stream).state, 0, (Journal.head served.journal stream).getD 0, pos⟩
      let (result, journal, _) := Journal.snapshotIn served.journal () stream snap
      (.stored result, { served with journal := journal })
  | .branch stream seq =>
    match ForkableJournal.fork served.journal stream seq with
    | .error error => (.branched (.error error), served)
    | .ok journal =>
      (.branched (.ok ()), ⟨journal, fun id =>
        match (resume journal id seed : Resumed A chacha12) with
        | .ok (aggregate, _) => aggregate
        | .error _ => served.live id⟩)

/-- The replies to a list of requests, and what is left. -/
def serveAll (chacha12 : Seed → UInt64 → UInt32) (seed : Seed) :
    List (Request A) → Served A J → List (Reply A) × Served A J
  | [], served => ([], served)
  | request :: requests, served =>
    let (reply, served) := serve chacha12 seed served request
    let (replies, served) := serveAll chacha12 seed requests served
    (reply :: replies, served)

end Serve

/-! ## The answers of a past -/

/-- What a journal has been given: the records of each stream and its snapshots. -/
structure Past (A : AggregateRules) where
  records : StreamId → List (Record A)
  snapshots : StreamId → List (Snapshot A)

namespace Past

/-- The past of a fresh journal. -/
def fresh (genesis : A.State) : Past A := ⟨fun _ => [], fun _ => [Contract.genesisSnapshot genesis]⟩

variable (genesis : A.State) (past : Past A) (stream : StreamId)

/-- The snapshot of a stream at its head. -/
def headSnapshot : Snapshot A :=
  let seq := (past.records stream).length
  ⟨stateAfter genesis (past.records stream) seq, 0, seq, posAt (past.records stream) seq⟩

/-- The past of a branch: the one stream, up to the fork point. -/
def branch (seq : Nat) : Past A where
  records id := if id = stream then (past.records stream).take seq else []
  snapshots id :=
    if id = stream then (past.snapshots stream).filter fun snap => snap.atSeq ≤ seq
    else [Contract.genesisSnapshot genesis]

/-- What a request is answered with, and what has been given afterwards. -/
def answer [EntropySource E] [CtxEntropy A.Ctx E] : Request A → Reply A × Past A
  | .command stream cmd ctx =>
    let seq := (past.records stream).length
    let live : Aggregate A := ⟨stateAfter genesis (past.records stream) seq⟩
    match live.decideOnly cmd ctx with
    | (.error rejection, ctx) =>
      (.executed (.error (.rejected rejection))
        (rewind ctx (posAt (past.records stream) seq)), past)
    | (.ok events, ctx) =>
      let record : Record A :=
        ⟨events, (ctxDraws ctx).getD (posAt (past.records stream) seq)⟩
      (.executed (.ok (seq + 1)) ctx,
        { past with records := pushTo past.records stream record })
  | .checkpoint stream =>
    (.stored (.ok ()),
      { past with snapshots := pushTo past.snapshots stream (past.headSnapshot genesis stream) })
  | .branch stream seq =>
    if seq ≤ (past.records stream).length then
      (.branched (.ok ()), past.branch genesis stream seq)
    else (.branched (.error (.unknownSeq seq)), past)

/-- The answers to a list of requests. -/
def answerAll [EntropySource E] [CtxEntropy A.Ctx E] :
    List (Request A) → Past A → List (Reply A) × Past A
  | [], past => ([], past)
  | request :: requests, past =>
    let (reply, past) := past.answer genesis request
    let (replies, past) := answerAll requests past
    (reply :: replies, past)

end Past

/-! ## Every journal that keeps its past gives these answers -/

section Refine

variable [ForkableJournal J A Unit] [ContractJournal J A] [KeepsHistory J A]
variable [KeepsSnapshots J A]

/-- The journal holds the past, and the live aggregates are the ends of its streams. -/
structure Serving (genesis : A.State) (past : Past A) (served : Served A J) : Prop where
  holds : KeepsHistory.Holds genesis past.records served.journal
  stores : KeepsSnapshots.Stores past.snapshots served.journal
  live : ∀ id, served.live id =
    ⟨stateAfter genesis (past.records id) (past.records id).length⟩

variable {genesis : A.State} {past : Past A} {served : Served A J}

theorem Serving.fresh (genesis : A.State) :
    Serving genesis (.fresh genesis)
      (⟨ContractJournal.fresh genesis, fun _ => ⟨genesis⟩⟩ : Served A J) :=
  ⟨KeepsHistory.fresh genesis, KeepsSnapshots.fresh genesis, fun _ => rfl⟩

variable [EntropySource E] [CtxEntropy A.Ctx E]

theorem Serving.command (serving : Serving genesis past served)
    (chacha12 : Seed → UInt64 → UInt32) (seed : Seed) (stream : StreamId) (cmd : A.Command)
    (ctx : A.Ctx) :
    (serve chacha12 seed served (.command stream cmd ctx)).1 =
        (past.answer genesis (.command stream cmd ctx)).1 ∧
      Serving genesis (past.answer genesis (.command stream cmd ctx)).2
        (serve chacha12 seed served (.command stream cmd ctx)).2 := by
  have stores : ∀ events pos, KeepsSnapshots.Stores past.snapshots
      (Journal.appendIn served.journal () stream events pos).2.1 :=
    fun events pos => KeepsSnapshots.append stream events pos serving.stores
  unfold serve Past.answer
  simp only [serving.live stream]
  rcases KeepsHistory.execute serving.holds stream
      ⟨stateAfter genesis (past.records stream) (past.records stream).length⟩ cmd ctx with
    ⟨rejection, drawn, decided, outcome⟩ | ⟨events, drawn, pos, j', decided, rfl, outcome, kept⟩
  · simp only [decided, outcome]
    refine ⟨trivial, serving.holds, serving.stores, fun id => ?_⟩
    by_cases here : id = stream
    · subst here
      exact if_pos rfl
    · exact (if_neg here).trans (serving.live id)
  · -- the journal that was written is the one that its append leaves
    have written := execute_journal served.journal stream
      ⟨stateAfter genesis (past.records stream) (past.records stream).length⟩ cmd ctx
    rw [outcome] at written
    have stored : KeepsSnapshots.Stores past.snapshots j' := by
      rcases written with rfl | ⟨events, pos, rfl⟩
      · exact serving.stores
      · exact stores events pos
    simp only [decided, outcome]
    refine ⟨trivial, kept, stored, fun id => ?_⟩
    by_cases here : id = stream
    · subst here
      simp only [pushTo_self, List.length_append, List.length_singleton, stateAfter_push]
      exact if_pos rfl
    · simp only [pushTo_ne _ _ here]
      exact (if_neg here).trans (serving.live id)

theorem Serving.checkpoint (serving : Serving genesis past served)
    (chacha12 : Seed → UInt64 → UInt32) (seed : Seed) (stream : StreamId) :
    (serve chacha12 seed served (.checkpoint stream)).1 =
        (past.answer (E := E) genesis (.checkpoint stream)).1 ∧
      Serving genesis (past.answer (E := E) genesis (.checkpoint stream)).2
        (serve chacha12 seed served (.checkpoint stream)).2 := by
  have head : (Journal.head served.journal stream).getD 0 = (past.records stream).length := by
    rw [KeepsHistory.head stream serving.holds]
    split <;> simp_all
  have honest : Honest genesis (past.records stream) (past.headSnapshot genesis stream) :=
    ⟨Nat.le_refl _, rfl, rfl⟩
  have stores := KeepsSnapshots.snapshot stream (past.headSnapshot genesis stream) serving.stores
  obtain ⟨j', stored, kept⟩ := KeepsHistory.snapshot stream _ serving.holds honest
  rw [stored] at stores
  unfold Past.headSnapshot at stored
  unfold serve Past.answer
  simp only [KeepsHistory.headPos serving.holds stream, head, serving.live stream, stored]
  exact ⟨trivial, kept, stores, serving.live⟩

theorem Serving.branch [BranchesHistory J A] (serving : Serving genesis past served)
    (chacha12 : Seed → UInt64 → UInt32) (seed : Seed) (stream : StreamId) (seq : Nat) :
    (serve chacha12 seed served (.branch stream seq)).1 =
        (past.answer (E := E) genesis (.branch stream seq)).1 ∧
      Serving genesis (past.answer (E := E) genesis (.branch stream seq)).2
        (serve chacha12 seed served (.branch stream seq)).2 := by
  unfold serve Past.answer
  by_cases bound : seq ≤ (past.records stream).length
  · obtain ⟨branch, forked, kept⟩ := BranchesHistory.fork stream seq serving.holds bound
    have stores := KeepsSnapshots.fork stream seq serving.holds serving.stores forked
    simp only [forked, if_pos bound]
    refine ⟨trivial, kept, stores, fun id => ?_⟩
    have resumed : (resume branch id seed : Resumed A chacha12) = _ :=
      KeepsHistory.resume kept id seed
    simp only [resumed]
    rfl
  · have refused := BranchesHistory.fork_past stream seq serving.holds (Nat.lt_of_not_le bound)
    simp only [refused, if_neg bound]
    exact ⟨trivial, serving⟩

/-- The simulation: one request. -/
theorem Serving.serve [BranchesHistory J A] (serving : Serving genesis past served)
    (chacha12 : Seed → UInt64 → UInt32) (seed : Seed) (request : Request A) :
    (serve chacha12 seed served request).1 = (past.answer genesis request).1 ∧
      Serving genesis (past.answer genesis request).2
        (serve chacha12 seed served request).2 := by
  cases request with
  | command stream cmd ctx => exact serving.command chacha12 seed stream cmd ctx
  | checkpoint stream => exact serving.checkpoint chacha12 seed stream
  | branch stream seq => exact serving.branch chacha12 seed stream seq

/-- The simulation: a run. -/
theorem Serving.serveAll [BranchesHistory J A] (serving : Serving genesis past served)
    (chacha12 : Seed → UInt64 → UInt32) (seed : Seed) (requests : List (Request A)) :
    (serveAll chacha12 seed requests served).1 = (Past.answerAll genesis requests past).1 ∧
      Serving genesis (Past.answerAll genesis requests past).2
        (serveAll chacha12 seed requests served).2 := by
  induction requests generalizing served past with
  | nil => exact ⟨rfl, serving⟩
  | cons request requests ih =>
    obtain ⟨reply, serving⟩ := serving.serve chacha12 seed request
    obtain ⟨replies, serving⟩ := ih serving
    exact ⟨congrArg₂ List.cons reply replies, serving⟩

end Refine

/-! ## No two of them can be told apart -/

/-- Two journals of possibly different kinds that no read tells apart, and that resume every
stream alike. -/
structure SameAnswers [Journal J A Unit] [Journal J' A Unit] (chacha12 : Seed → UInt64 → UInt32)
    (j : J) (j' : J') : Prop where
  head : ∀ stream, Journal.head j' stream = Journal.head j stream
  entropyPos : ∀ stream seq, Journal.entropyPos j' stream seq = Journal.entropyPos j stream seq
  eventsSince : ∀ stream after,
    Journal.eventsSince j' stream after = Journal.eventsSince j stream after
  latestSnapshot : ∀ stream, Journal.latestSnapshot j' stream = Journal.latestSnapshot j stream
  resume : ∀ stream seed,
    (resume j' stream seed : Resumed A chacha12) = resume j stream seed

theorem Serving.sameAnswers [ForkableJournal J A Unit] [ContractJournal J A] [KeepsHistory J A]
    [KeepsSnapshots J A] [ForkableJournal J' A Unit] [ContractJournal J' A] [KeepsHistory J' A]
    [KeepsSnapshots J' A] {genesis : A.State} {past : Past A} {served : Served A J}
    {served' : Served A J'} (serving : Serving genesis past served)
    (serving' : Serving genesis past served') (chacha12 : Seed → UInt64 → UInt32) :
    SameAnswers chacha12 served.journal served'.journal := by
  have holds := serving.holds
  have holds' := serving'.holds
  refine ⟨?_, ?_, ?_, ?_, ?_⟩
  · intro stream
    rw [KeepsHistory.head stream holds, KeepsHistory.head stream holds']
  · intro stream seq
    by_cases bound : seq ≤ (past.records stream).length
    · rw [KeepsHistory.entropyPos stream seq holds bound,
        KeepsHistory.entropyPos stream seq holds' bound]
    · rw [KeepsHistory.entropyPos_past stream seq holds (by omega),
        KeepsHistory.entropyPos_past stream seq holds' (by omega)]
  · intro stream after
    rw [KeepsHistory.eventsSince stream after holds, KeepsHistory.eventsSince stream after holds']
  · intro stream
    rw [KeepsSnapshots.latestSnapshot stream holds serving.stores,
      KeepsSnapshots.latestSnapshot stream holds' serving'.stores]
  · intro stream seed
    rw [KeepsHistory.resume holds, KeepsHistory.resume holds']

/-- A caller of a fresh journal: the replies, the live aggregates and what is read afterwards do
not depend on which journal it is. -/
theorem serveAll_agree [ForkableJournal J A Unit] [ContractJournal J A] [KeepsHistory J A]
    [KeepsSnapshots J A] [BranchesHistory J A] [ForkableJournal J' A Unit] [ContractJournal J' A]
    [KeepsHistory J' A] [KeepsSnapshots J' A] [BranchesHistory J' A] [EntropySource E]
    [CtxEntropy A.Ctx E]
    (chacha12 : Seed → UInt64 → UInt32) (seed : Seed) (genesis : A.State)
    (requests : List (Request A)) :
    let ran : List (Reply A) × Served A J :=
      serveAll chacha12 seed requests ⟨ContractJournal.fresh genesis, fun _ => ⟨genesis⟩⟩
    let ran' : List (Reply A) × Served A J' :=
      serveAll chacha12 seed requests ⟨ContractJournal.fresh genesis, fun _ => ⟨genesis⟩⟩
    ran'.1 = ran.1 ∧ ran'.2.live = ran.2.live ∧
      SameAnswers chacha12 ran.2.journal ran'.2.journal := by
  intro ran ran'
  obtain ⟨replies, serving⟩ := (Serving.fresh (J := J) genesis).serveAll chacha12 seed requests
  obtain ⟨replies', serving'⟩ := (Serving.fresh (J := J') genesis).serveAll chacha12 seed requests
  refine ⟨replies'.trans replies.symm, ?_, serving.sameAnswers serving' _⟩
  funext id
  exact (serving'.live id).trans (serving.live id).symm

end Ironstate
