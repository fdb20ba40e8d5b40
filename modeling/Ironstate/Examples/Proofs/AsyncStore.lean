import Ironstate.Examples.AsyncStore
import Ironstate.Journal.Proofs.Interchange

/-!
# The asynchronous loop

The log keeps the history of every stream, so its synchronous twin is a journal like the
in-memory one. Blocking on `execute_async` is `execute` on the twin, behind the append that
fails when armed; a call that is dropped before it ended has written nothing. So over every
run of calls, driven to their end or dropped at any await, the store holds the history that
the live aggregate is the end of, and `resume_async` finds it.
-/

namespace Ironstate.Examples

open Lib (Async Poll)

variable {A : AggregateRules} {E : Type}

/-! ## The log keeps its history -/

namespace Log

/-- The log holds the records of a history and honest snapshots, the genesis among them. -/
structure Kept (genesis : A.State) (history : StreamId → List (Record A)) (log : Log A) :
    Prop where
  seeded : log.genesis = genesis
  records : ∀ id, log.records id = history id
  base : ∀ (id : StreamId) (snapshots : List (Snapshot A)), log.snapshots[id]? = some snapshots →
    ∃ snap ∈ snapshots, snap.atSeq = 0
  honest : ∀ (id : StreamId) (snapshots : List (Snapshot A)),
    log.snapshots[id]? = some snapshots → ∀ snap ∈ snapshots, Honest genesis (history id) snap

variable {genesis : A.State} {history : StreamId → List (Record A)} {log : Log A}

theorem Kept.new (genesis : A.State) : Kept genesis (fun _ => []) (.new genesis) := by
  have none : ∀ id : StreamId, (Log.new genesis : Log A).snapshots[id]? = none := by
    intro id
    exact Std.ExtTreeMap.getElem?_empty
  refine ⟨rfl, ?_, ?_, ?_⟩
  · intro id
    have untouched : (Log.new genesis : Log A).streams[id]? = Option.none :=
      Std.ExtTreeMap.getElem?_empty
    show (Log.new genesis : Log A).streams[id]?.getD [] = []
    rw [untouched, Option.getD_none]
  · intro id snapshots stored
    exact absurd stored (by rw [none id]; exact nofun)
  · intro id snapshots stored
    exact absurd stored (by rw [none id]; exact nofun)

/-- A log whose one stream is written to holds the other ones as before. -/
theorem records_append (log : Log A) (stream id : StreamId) (events : List A.Event)
    (pos : DrawPos) : (log.append stream events pos).2.records id =
      pushTo log.records stream ⟨events, pos⟩ id := by
  unfold records append
  by_cases here : id = stream
  · subst here
    rw [BTreeMap.getElem?_insert_self, pushTo_self]
    rfl
  · rw [BTreeMap.getElem?_insert_ne _ _ here, pushTo_ne _ _ here]

theorem Kept.append (kept : Kept genesis history log) (stream : StreamId)
    (events : List A.Event) (pos : DrawPos) :
    Kept genesis (pushTo history stream ⟨events, pos⟩) (log.append stream events pos).2 := by
  have same : log.records = history := funext kept.records
  refine ⟨kept.seeded, ?_, kept.base, ?_⟩
  · intro id
    rw [records_append, same]
  · intro id snapshots stored snap member
    have honest := kept.honest id snapshots stored snap member
    by_cases here : id = stream
    · subst here
      rw [pushTo_self]
      exact honest.push _
    · rw [pushTo_ne _ _ here]
      exact honest

/-- What the records of a stream answer is what an untruncated stream of them answers. -/
theorem recordAt_eq (log : Log A) (stream : StreamId) {seq : Nat} (positive : 0 < seq) :
    log.recordAt stream seq = (⟨log.records stream, [], 0⟩ : Stream A).recordAt seq := by
  unfold recordAt Stream.recordAt
  have zero : seq = 0 ↔ seq ≤ 0 := by omega
  simp only [zero, Nat.zero_add, Nat.sub_zero]

theorem eventsSince_eq (log : Log A) (stream : StreamId) (after : Option Nat) :
    log.eventsSince stream after =
      (⟨log.records stream, [], 0⟩ : Stream A).eventsSince after := by
  unfold eventsSince Stream.eventsSince
  simp only [Nat.not_lt_zero, if_false, Nat.sub_zero, Nat.zero_add]

/-- The snapshots of a stream after one more of one stream: the list that is written, or the
one that was there. -/
theorem stored_snapshot {stream id : StreamId} {snap : Snapshot A} {snapshots : List (Snapshot A)}
    (stored : (log.snapshot stream snap).2.snapshots[id]? = some snapshots) :
    (id = stream ∧ snapshots = log.snapshots[stream]?.getD [log.genesisSnapshot] ++ [snap]) ∨
      log.snapshots[id]? = some snapshots := by
  unfold Log.snapshot at stored
  by_cases here : id = stream
  · subst here
    simp only [BTreeMap.getElem?_insert_self, Option.some.injEq] at stored
    exact .inl ⟨rfl, stored.symm⟩
  · simp only [BTreeMap.getElem?_insert_ne _ _ here] at stored
    exact .inr stored

theorem Kept.snapshot (kept : Kept genesis history log) (stream : StreamId) {snap : Snapshot A}
    (honest : Honest genesis (history stream) snap) :
    Kept genesis history (log.snapshot stream snap).2 := by
  -- the list that is written: the one that was there, or the genesis, and the snapshot
  have listed : ∀ member ∈ log.snapshots[stream]?.getD [log.genesisSnapshot],
      Honest genesis (history stream) member := by
    intro member listed
    cases stored : log.snapshots[stream]? with
    | none =>
      rw [stored] at listed
      obtain rfl := List.mem_singleton.mp listed
      exact ⟨Nat.zero_le _, kept.seeded, rfl⟩
    | some snapshots =>
      rw [stored] at listed
      exact kept.honest stream snapshots stored member listed
  have based : ∃ member ∈ log.snapshots[stream]?.getD [log.genesisSnapshot], member.atSeq = 0 := by
    cases stored : log.snapshots[stream]? with
    | none => exact ⟨log.genesisSnapshot, List.mem_singleton.mpr rfl, rfl⟩
    | some snapshots => exact kept.base stream snapshots stored
  refine ⟨kept.seeded, kept.records, ?_, ?_⟩
  · intro id snapshots stored
    rcases stored_snapshot stored with ⟨rfl, rfl⟩ | before
    · obtain ⟨member, there, first⟩ := based
      exact ⟨member, List.mem_append_left _ there, first⟩
    · exact kept.base id snapshots before
  · intro id snapshots stored member there
    rcases stored_snapshot stored with ⟨rfl, rfl⟩ | before
    · rcases List.mem_append.mp there with old | added
      · exact listed member old
      · obtain rfl := List.mem_singleton.mp added
        exact honest
    · exact kept.honest id snapshots before member there

/-! ## What such a log answers -/

theorem Kept.retains (kept : Kept genesis history log) (stream : StreamId) :
    Lib.Retains (history stream) (⟨log.records stream, [], 0⟩ : Stream A).records 0 := by
  rw [kept.records]
  exact ⟨Nat.zero_le _, rfl⟩

theorem Kept.head (kept : Kept genesis history log) (stream : StreamId) :
    log.head stream = if 0 < (history stream).length then some (history stream).length else none := by
  unfold Log.head
  simp only [kept.records]
  cases history stream with
  | nil => rfl
  | cons record later => simp

theorem Kept.entropyPos (kept : Kept genesis history log) (stream : StreamId) {seq : Nat}
    (bound : seq ≤ (history stream).length) :
    log.entropyPos stream seq = .ok (posAt (history stream) seq) := by
  unfold Log.entropyPos
  by_cases zero : seq = 0
  · subst zero
    rw [if_pos rfl, posAt_zero]
    cases stored : log.snapshots[stream]? with
    | none => rfl
    | some snapshots =>
      cases found : snapshots.find? fun snap => snap.atSeq == 0 with
      | none => simp [found]
      | some snap =>
        obtain ⟨member, first⟩ := Stream.stored_mem found
        have pos := (kept.honest stream snapshots stored snap member).pos
        rw [first, posAt_zero] at pos
        simp [found, pos]
  · have head : (⟨log.records stream, [], 0⟩ : Stream A).headNat = (history stream).length :=
      Stream.headNat_eq (kept.retains stream)
    obtain ⟨record, found, same⟩ := Stream.recordAt_eq (kept.retains stream)
      (Nat.pos_of_ne_zero zero) (head.symm ▸ bound)
    rw [if_neg zero, recordAt_eq log stream (Nat.pos_of_ne_zero zero), found]
    exact congrArg Except.ok same

theorem Kept.entropyPos_past (kept : Kept genesis history log) (stream : StreamId) {seq : Nat}
    (past : (history stream).length < seq) :
    log.entropyPos stream seq = .error (.unknownSeq seq) := by
  have positive : 0 < seq := Nat.lt_of_le_of_lt (Nat.zero_le _) past
  have head : (⟨log.records stream, [], 0⟩ : Stream A).headNat = (history stream).length :=
    Stream.headNat_eq (kept.retains stream)
  unfold Log.entropyPos
  rw [if_neg (Nat.ne_of_gt positive), recordAt_eq log stream positive,
    Stream.recordAt_unknown (.inl (head.symm ▸ past))]

theorem Kept.eventsSince (kept : Kept genesis history log) (stream : StreamId)
    (after : Option Nat) :
    log.eventsSince stream after = .ok (eventsAfter (history stream) (after.getD 0)) := by
  rw [eventsSince_eq]
  exact Stream.eventsSince_eq (kept.retains stream) (Nat.zero_le _)

theorem Kept.latestSnapshot (kept : Kept genesis history log) (stream : StreamId) :
    ∃ snap, log.latestSnapshot stream = .ok (some snap) ∧
      Honest genesis (history stream) snap := by
  unfold Log.latestSnapshot
  cases stored : log.snapshots[stream]? with
  | none => exact ⟨log.genesisSnapshot, rfl, Nat.zero_le _, kept.seeded, rfl⟩
  | some snapshots =>
    obtain ⟨base, member, -⟩ := kept.base stream snapshots stored
    obtain ⟨latest, newest, -⟩ := @Lib.newest_isSome _ Snapshot.atSeq _ _ member
    exact ⟨latest, congrArg Except.ok newest,
      kept.honest stream snapshots stored latest (Lib.newest_mem newest)⟩

/-- A fork writes the prefix of the one stream over a fresh log. -/
theorem records_forked (genesis : A.State) (stream id : StreamId) (records : List (Record A))
    (snapshots : BTreeMap StreamId (List (Snapshot A))) :
    (⟨genesis, (∅ : BTreeMap StreamId (List (Record A))).insert stream records, snapshots⟩ :
      Log A).records id = if id = stream then records else [] := by
  unfold Log.records
  by_cases here : id = stream
  · subst here
    rw [BTreeMap.getElem?_insert_self, if_pos rfl]
    rfl
  · rw [BTreeMap.getElem?_insert_ne _ _ here, if_neg here, Std.ExtTreeMap.getElem?_empty]
    rfl

theorem Kept.fork (kept : Kept genesis history log) (stream : StreamId) {seq : Nat}
    (bound : seq ≤ (history stream).length) :
    ∃ branch, log.fork stream seq = .ok branch ∧
      Kept genesis (fun id => if id = stream then (history stream).take seq else []) branch := by
  have granted : ¬seq > (history stream).length := by omega
  unfold Log.fork
  simp only [kept.records, if_neg granted]
  cases stored : log.snapshots[stream]? with
  | none =>
    refine ⟨_, rfl, kept.seeded, fun id => records_forked _ stream id _ _, ?_, ?_⟩
    · intro id snapshots stored
      exact absurd stored (by
        rw [show (Log.new log.genesis).snapshots[id]? = none from Std.ExtTreeMap.getElem?_empty]
        exact nofun)
    · intro id snapshots stored
      exact absurd stored (by
        rw [show (Log.new log.genesis).snapshots[id]? = none from Std.ExtTreeMap.getElem?_empty]
        exact nofun)
  | some snapshots =>
    -- only the forked stream has snapshots in the branch
    have only : ∀ (id : StreamId) (kept' : List (Snapshot A)),
        ((∅ : BTreeMap StreamId (List (Snapshot A))).insert stream
          (snapshots.filter fun snap => snap.atSeq ≤ seq))[id]? = some kept' →
        id = stream ∧ kept' = snapshots.filter fun snap => snap.atSeq ≤ seq := by
      intro id kept' there
      by_cases here : id = stream
      · subst here
        rw [BTreeMap.getElem?_insert_self] at there
        exact ⟨rfl, (Option.some.inj there).symm⟩
      · rw [BTreeMap.getElem?_insert_ne _ _ here, Std.ExtTreeMap.getElem?_empty] at there
        cases there
    refine ⟨_, rfl, kept.seeded, fun id => records_forked _ stream id _ _, ?_, ?_⟩
    · intro id kept' there
      obtain ⟨rfl, rfl⟩ := only id kept' there
      obtain ⟨base, member, first⟩ := kept.base id snapshots stored
      refine ⟨base, List.mem_filter.mpr ⟨member, ?_⟩, first⟩
      rw [first]
      exact decide_eq_true (Nat.zero_le seq)
    · intro id kept' there snap member
      obtain ⟨rfl, rfl⟩ := only id kept' there
      obtain ⟨member, below⟩ := List.mem_filter.mp member
      rw [if_pos rfl]
      exact (kept.honest id snapshots stored snap member).take (of_decide_eq_true below)

end Log

instance : KeepsHistory (SyncStore A) A where
  Holds genesis history store := store.log.Kept genesis history
  fresh genesis := Log.Kept.new genesis
  append := by
    intro genesis history store stream events pos kept
    refine ⟨⟨(store.log.append stream events pos).2⟩, ?_, kept.append stream events pos⟩
    have length : ((store.log.append stream events pos).1 : Except JournalError Nat) =
        .ok ((history stream).length + 1) := by
      show Except.ok (List.length (store.log.records stream ++ _)) = _
      rw [kept.records, List.length_append, List.length_singleton]
    rw [← length]
    rfl
  snapshot := by
    intro genesis history store stream snap kept honest
    exact ⟨_, rfl, kept.snapshot stream honest⟩
  head stream kept := kept.head stream
  entropyPos stream seq kept bound := kept.entropyPos stream bound
  entropyPos_past stream seq kept past := kept.entropyPos_past stream past
  eventsSince stream after kept := kept.eventsSince stream after
  latestSnapshot stream kept := kept.latestSnapshot stream

instance : BranchesHistory (SyncStore A) A where
  fork := by
    intro genesis history store stream seq kept bound
    obtain ⟨branch, forked, kept⟩ := Log.Kept.fork kept stream bound
    refine ⟨⟨branch⟩, ?_, kept⟩
    show (store.log.fork stream seq).map SyncStore.mk = _
    rw [forked]
    rfl
  fork_past := by
    intro genesis history store stream seq kept past
    show (store.log.fork stream seq).map SyncStore.mk = _
    unfold Log.fork
    simp only [kept.records, if_pos past]
    rfl

/-- The snapshots of a stream: a list is written at its first snapshot, and starts with the
genesis. -/
def Log.stored (log : Log A) (stream : StreamId) : List (Snapshot A) :=
  log.snapshots[stream]?.getD [log.genesisSnapshot]

theorem Log.stored_snapshotIn (log : Log A) (stream : StreamId) (snap : Snapshot A) :
    (log.snapshot stream snap).2.stored = pushTo log.stored stream snap := by
  funext id
  unfold Log.stored Log.snapshot pushTo
  by_cases here : id = stream
  · subst here
    simp only [BTreeMap.getElem?_insert_self, if_pos, Option.getD_some]
  · simp only [BTreeMap.getElem?_insert_ne _ _ here, if_neg here]
    rfl

theorem Log.stored_fork {log branch : Log A} {stream : StreamId} {seq : Nat}
    (granted : log.fork stream seq = .ok branch) (id : StreamId) :
    branch.stored id =
      if id = stream then (log.stored stream).filter fun snap => snap.atSeq ≤ seq
      else [log.genesisSnapshot] := by
  unfold Log.fork at granted
  by_cases past : seq > (log.records stream).length
  · simp only [if_pos past] at granted
    cases granted
  · simp only [if_neg past] at granted
    unfold Log.stored
    have untouched : ∀ id, (Log.new log.genesis).snapshots[id]? = none :=
      fun _ => Std.ExtTreeMap.getElem?_empty
    cases listed : log.snapshots[stream]? with
    | none =>
      rw [listed] at granted
      cases granted
      have bare : [log.genesisSnapshot].filter (fun snap => snap.atSeq ≤ seq) =
          [log.genesisSnapshot] :=
        List.filter_eq_self.mpr fun snap member => by
          obtain rfl := List.mem_singleton.mp member
          exact decide_eq_true (Nat.zero_le seq)
      simp only [untouched, Option.getD_none, bare, ite_self]
      rfl
    | some snapshots =>
      rw [listed] at granted
      cases granted
      by_cases here : id = stream
      · subst here
        simp only [BTreeMap.getElem?_insert_self, if_pos, Option.getD_some]
      · simp only [BTreeMap.getElem?_insert_ne _ _ here, if_neg here, untouched, Option.getD_none]
        rfl

instance : KeepsSnapshots (SyncStore A) A where
  Stores snapshots store := ∀ id, store.log.stored id = snapshots id
  fresh genesis id := by
    show ((Log.new genesis).snapshots[id]?).getD _ = _
    rw [show (Log.new genesis : Log A).snapshots[id]? = none from Std.ExtTreeMap.getElem?_empty]
    rfl
  append stream events pos stored := stored
  snapshot := by
    intro snapshots store stream snap stored id
    show (store.log.snapshot stream snap).2.stored id = _
    rw [Log.stored_snapshotIn, funext stored]
  fork := by
    intro genesis history snapshots store branch stream seq kept stored granted id
    have forked : (store.log.fork stream seq).map SyncStore.mk = .ok branch := granted
    cases made : store.log.fork stream seq with
    | error error =>
      rw [made] at forked
      cases forked
    | ok log =>
      rw [made] at forked
      cases forked
      have seeded : store.log.genesisSnapshot = Contract.genesisSnapshot genesis :=
        congrArg Contract.genesisSnapshot kept.seeded
      rw [Log.stored_fork made, stored stream, seeded]
  latestSnapshot := by
    intro genesis history snapshots store stream kept stored
    rw [← stored stream]
    show store.log.latestSnapshot stream = _
    unfold Log.latestSnapshot Log.stored
    cases store.log.snapshots[stream]? with
    | none => rfl
    | some snapshots => rfl

/-- The in-memory journal and the log cannot be told apart by any sequence of commands,
checkpoints and branches. -/
theorem memoryJournal_syncStore_agree [EntropySource E] [CtxEntropy A.Ctx E]
    (chacha12 : Seed → UInt64 → UInt32) (seed : Seed) (genesis : A.State)
    (requests : List (Request A)) :
    let memory : List (Reply A) × Served A (MemoryJournal A) :=
      serveAll chacha12 seed requests ⟨ContractJournal.fresh genesis, fun _ => ⟨genesis⟩⟩
    let log : List (Reply A) × Served A (SyncStore A) :=
      serveAll chacha12 seed requests ⟨ContractJournal.fresh genesis, fun _ => ⟨genesis⟩⟩
    log.1 = memory.1 ∧ log.2.live = memory.2.live ∧
      SameAnswers chacha12 memory.2.journal log.2.journal :=
  serveAll_agree chacha12 seed genesis requests

/-! ## Blocking on the store -/

/-- The synchronous twin of a store, behind the append that fails while the store is armed. -/
def AsyncStore.twin (store : AsyncStore A) : FailNextAppend (SyncStore A) :=
  ⟨⟨store.log⟩, store.failNextAppend⟩

/-- The store whose twin this is. -/
def AsyncStore.untwin (stream : StreamId) (twin : FailNextAppend (SyncStore A)) : AsyncStore A :=
  ⟨twin.inner.log, stream, twin.armed⟩

/-- The failure that the store simulates, in place of the one that the suite injects. -/
def simulated : JournalError → JournalError
  | .storage _ => .storage "simulated write failure (the row was not committed)"
  | error => error

/-- The same of an outcome of the loop. -/
def simulatedError : ExecuteError A → ExecuteError A
  | .rejected rejection => .rejected rejection
  | .journal error => .journal (simulated error)

theorem blockOn_onStore {α : Type} (operation : Async (AsyncStore A) α) (call : Call A) :
    (onStore operation).blockOn call =
      ((operation.blockOn call.store).1, call.putStore (operation.blockOn call.store).2) :=
  Async.blockOn_zoom Call.store Call.putStore (fun _ => rfl) (fun _ _ => rfl) (fun _ _ _ => rfl)
    operation call

theorem blockOn_headPos (store : AsyncStore A) :
    AsyncStore.headPos.blockOn store = (headPos store.twin store.stream, store) := by
  have head : AsyncStore.head.blockOn store = (store.log.head store.stream, store) := rfl
  have twin : Journal.head store.twin store.stream = store.log.head store.stream := rfl
  unfold AsyncStore.headPos headPos
  rw [Async.blockOn_bind, head, twin]
  cases store.log.head store.stream with
  | none => rfl
  | some seq => rfl

theorem blockOn_append (store : AsyncStore A) (events : List A.Event) (pos : DrawPos) :
    let appended := Journal.appendIn store.twin () store.stream events pos
    (AsyncStore.append events pos).blockOn store =
      (appended.1.mapError simulated, .untwin store.stream appended.2.1) := by
  obtain ⟨log, stream, armed⟩ := store
  cases armed with
  | false => rfl
  | true => rfl

/-- The two ends of an append: failed, with the store disarmed, or one more row. -/
theorem appendIn_twin (store : AsyncStore A) (events : List A.Event) (pos : DrawPos) :
    (∃ error, Journal.appendIn store.twin () store.stream events pos =
      (.error error, ⟨⟨store.log⟩, false⟩, ())) ∨
    Journal.appendIn store.twin () store.stream events pos =
      (.ok ((store.log.records store.stream).length + 1),
        ⟨⟨(store.log.append store.stream events pos).2⟩, false⟩, ()) := by
  obtain ⟨log, stream, armed⟩ := store
  cases armed with
  | true => exact .inl ⟨_, rfl⟩
  | false =>
    refine .inr (Prod.ext (congrArg Except.ok ?_) rfl)
    show (log.records stream ++ _).length = _
    rw [List.length_append, List.length_singleton]

/-- The position at the head of a log can always be read. -/
theorem headPos_twin (store : AsyncStore A) :
    ∃ pos, headPos store.twin store.stream = .ok pos := by
  have head : Journal.head store.twin store.stream = store.log.head store.stream := rfl
  have pos : ∀ seq, Journal.entropyPos store.twin store.stream seq =
    store.log.entropyPos store.stream seq := fun _ => rfl
  unfold headPos
  rw [head, Log.head]
  cases listed : store.log.records store.stream with
  | nil => exact ⟨0, rfl⟩
  | cons record later =>
    have positive : (record :: later).length ≠ 0 := Nat.succ_ne_zero _
    have known : ¬((record :: later).length = 0 ∨
        (record :: later).length > (store.log.records store.stream).length) := by
      rw [listed]
      omega
    simp only [List.isEmpty_cons, Bool.false_eq_true, if_false, pos, Log.entropyPos,
      if_neg positive, Log.recordAt, dif_neg known]
    exact ⟨_, rfl⟩

/-- `execute_async`, driven to its end, is `execute` on the twin. -/
theorem blockOn_executeAsync [EntropySource E] [CtxEntropy A.Ctx E] (cmd : A.Command)
    (call : Call A) :
    let executed := execute call.store.twin call.store.stream call.aggregate cmd call.ctx
    (executeAsync cmd).blockOn call =
      (executed.result.mapError simulatedError,
        ⟨.untwin call.store.stream executed.journal, executed.aggregate, executed.ctx⟩) := by
  obtain ⟨head, headed⟩ := headPos_twin call.store
  unfold executeAsync execute executeIn
  rw [Async.blockOn_bind, blockOn_onStore, blockOn_headPos, headed]
  simp only [Async.blockOn_bind, Async.blockOn_access]
  rcases decided : prepare call.aggregate cmd call.ctx head with ⟨rejection | prepared, ctx⟩
  · have same : prepare (call.putStore call.store).aggregate cmd (call.putStore call.store).ctx head =
        (.error rejection, ctx) := decided
    simp only [same]
    rfl
  · have same : prepare (call.putStore call.store).aggregate cmd (call.putStore call.store).ctx head =
        (.ok prepared, ctx) := decided
    have here : ((call.putStore call.store).putCtx ctx).store = call.store := rfl
    simp only [same, Async.blockOn_bind, blockOn_onStore, here, blockOn_append]
    rcases Journal.appendIn call.store.twin () call.store.stream prepared.events prepared.draws
      with ⟨error | seq, journal, tx⟩
    · rfl
    · rfl

/-! ## A call that is dropped -/

/-- What a suspended call has done so far: nothing to the store and the aggregate, and to the
context no more than the draws of `decide`. -/
structure Suspended [EntropySource E] [CtxEntropy A.Ctx E] (cmd : A.Command) (call call' : Call A) :
    Prop where
  store : call'.store = call.store
  aggregate : call'.aggregate = call.aggregate
  ctx : call'.ctx = call.ctx ∨ call'.ctx = (call.aggregate.decideOnly cmd call.ctx).2

theorem always_headPos (store : AsyncStore A) :
    AsyncStore.headPos.Always (· = store) (fun _ s => s = store) store := by
  unfold AsyncStore.headPos AsyncStore.head
  refine Async.always_bind (fun _ s => s = store) ⟨rfl, rfl⟩ ?_
  rintro headed s rfl
  cases headed with
  | none => exact rfl
  | some seq => exact ⟨rfl, rfl⟩

theorem always_onStore {α : Type} {operation : Async (AsyncStore A) α} {K : Call A → Prop}
    {after : α → Call A → Prop} {call : Call A}
    (always : operation.Always (fun store => K (call.putStore store))
      (fun a store => after a (call.putStore store)) call.store) :
    (onStore operation).Always K after call :=
  Async.always_zoom Call.store Call.putStore (fun _ _ => rfl) (fun _ _ _ => rfl) rfl always

variable [EntropySource E] [CtxEntropy A.Ctx E]

theorem prepare_drawn {aggregate : Aggregate A} {cmd : A.Command} {ctx drawn : A.Ctx}
    {head : DrawPos} {prepared : Prepared A}
    (decided : prepare aggregate cmd ctx head = (.ok prepared, drawn)) :
    drawn = (aggregate.decideOnly cmd ctx).2 := by
  unfold prepare at decided
  split at decided
  · cases decided
  · rename_i reached outcome
    rw [outcome]
    exact (Prod.mk.inj decided).2.symm

theorem always_executeAsync (cmd : A.Command) (call : Call A) :
    (executeAsync cmd).Always (Suspended cmd call) (fun _ _ => True) call := by
  unfold executeAsync
  refine Async.always_bind (fun _ call' => call' = call) ?_ ?_
  · refine always_onStore ((always_headPos call.store).mono ?_ ?_)
    · rintro _ rfl
      exact ⟨rfl, rfl, .inl rfl⟩
    · rintro _ _ rfl
      rfl
  · rintro (error | head) call rfl
    · trivial
    · apply Async.always_access_bind
      rcases decided : prepare call.aggregate cmd call.ctx head with ⟨rejection | prepared, drawn⟩
      · trivial
      · simp only
        refine Async.always_bind (fun _ _ => True) ?_ ?_
        · exact always_onStore ⟨⟨rfl, rfl, .inr (prepare_drawn decided)⟩, trivial⟩
        · rintro (error | seq) _ -
          · trivial
          · trivial

/-- The head, its position and the append are awaited, each once. -/
theorem suspensions_executeAsync (cmd : A.Command) (call : Call A) :
    (executeAsync cmd).suspensions call ≤ 3 := by
  have onStore : ∀ {α : Type} (operation : Async (AsyncStore A) α) (call : Call A),
      (onStore operation).suspensions call = operation.suspensions call.store :=
    fun operation call => Async.suspensions_zoom _ _ (fun _ _ => rfl) operation call
  have headPos : ∀ store : AsyncStore A, AsyncStore.headPos.suspensions store ≤ 2 := by
    intro store
    have head : AsyncStore.head.blockOn store = (store.log.head store.stream, store) := rfl
    unfold AsyncStore.headPos
    rw [Async.suspensions_bind, head]
    cases store.log.head store.stream with
    | none => exact Nat.le_succ 1
    | some seq => exact Nat.le_refl 2
  have awaited := headPos call.store
  unfold executeAsync
  rw [Async.suspensions_bind, onStore]
  rcases ((Examples.onStore AsyncStore.headPos).blockOn call) with ⟨error | head, call'⟩
  · exact Nat.le_succ_of_le awaited
  · simp only
    rw [Async.suspensions_bind, Async.blockOn_access]
    rcases prepare call'.aggregate cmd call'.ctx head with ⟨rejection | prepared, drawn⟩
    · exact Nat.le_succ_of_le awaited
    · simp only
      rw [Async.suspensions_bind, onStore]
      rcases ((Examples.onStore (AsyncStore.append prepared.events prepared.draws)).blockOn
        (call'.putCtx drawn)) with ⟨error | seq, written⟩
      · exact Nat.succ_le_succ awaited
      · exact Nat.succ_le_succ awaited

/-- However often a call was polled: it has ended, as if it had been blocked on, or it is
suspended, with nothing written; four polls end it. -/
theorem polls_executeAsync (cmd : A.Command) (call : Call A) (n : Nat) :
    (∃ result, ((executeAsync cmd).polls n call).1 = .ready result ∧
      (executeAsync cmd).blockOn call = (result, ((executeAsync cmd).polls n call).2)) ∨
    ∃ rest, n ≤ 3 ∧ ((executeAsync cmd).polls n call).1 = .pending rest ∧
      Suspended cmd call ((executeAsync cmd).polls n call).2 := by
  have before : Suspended cmd call call := ⟨rfl, rfl, .inl rfl⟩
  rcases (always_executeAsync cmd call).polls before n with
    ⟨result, answer, -⟩ | ⟨rest, answer, suspended⟩
  · exact .inl ⟨result, answer, Async.blockOn_of_polls (Prod.ext answer rfl)⟩
  · refine .inr ⟨rest, ?_, answer, suspended⟩
    by_cases few : n ≤ 3
    · exact few
    · have most := suspensions_executeAsync cmd call
      rw [Async.polls_end (Nat.lt_of_le_of_lt most (Nat.lt_of_not_le few))] at answer
      cases answer

/-- A caller who polls a call `n` times and then drops it is left with what `execute` on the
twin leaves, or, after three polls at most, with nothing written. -/
theorem executeAsync_dropped (cmd : A.Command) (call : Call A) (n : Nat) :
    let executed := execute call.store.twin call.store.stream call.aggregate cmd call.ctx
    (executeAsync cmd).polls n call = (.ready (executed.result.mapError simulatedError),
        ⟨.untwin call.store.stream executed.journal, executed.aggregate, executed.ctx⟩) ∨
      ∃ rest, n ≤ 3 ∧ ((executeAsync cmd).polls n call).1 = .pending rest ∧
        Suspended cmd call ((executeAsync cmd).polls n call).2 := by
  intro executed
  rcases polls_executeAsync cmd call n with ⟨result, answer, blocked⟩ | suspended
  · left
    rw [blockOn_executeAsync] at blocked
    obtain ⟨rfl, reached⟩ := Prod.mk.inj blocked
    exact Prod.ext answer reached.symm
  · exact .inr suspended

/-! ## Runs of calls -/

/-- A server: the store and the live aggregate. -/
structure Server (A : AggregateRules) where
  store : AsyncStore A
  aggregate : Aggregate A

/-- What happens to a server. -/
inductive Act (A : AggregateRules) where
  /-- The next append is made to fail. -/
  | arm
  /-- A call that is dropped after so many polls, if it has not ended before. -/
  | call (cmd : A.Command) (ctx : A.Ctx) (polls : Nat)

/-- The answer of an act, if it is a call that ended, and the server after it. -/
def Server.act (server : Server A) : Act A → Option (Except (ExecuteError A) Nat) × Server A
  | .arm => (none, { server with store := server.store.armAppendFailure })
  | .call cmd ctx polls =>
    let polled := (executeAsync cmd).polls polls ⟨server.store, server.aggregate, ctx⟩
    (match polled.1 with
      | .ready result => some result
      | .pending _ => none, ⟨polled.2.store, polled.2.aggregate⟩)

/-- Rows with their numbers. -/
def numbered (rows : List (Record A)) : List (Nat × Option (Record A)) :=
  rows.zipIdx.map fun (row, i) => (i + 1, some row)

/-- The position of the last of the numbered rows. -/
def lastPos (rows : List (Nat × Option (Record A))) : DrawPos :=
  ((rows.getLast?.bind Prod.snd).map (·.entropyPos)).getD 0

/-- The write that an answer acknowledges: the number it names, and the row that the command is
worth to the live aggregate, at the position that its draws reach. -/
def acknowledged (before : List (Nat × Option (Record A))) (aggregate : Aggregate A)
    (cmd : A.Command) (ctx : A.Ctx) :
    Option (Except (ExecuteError A) Nat) → List (Nat × Option (Record A))
  | some (.ok seq) =>
    [(seq, match aggregate.decideOnly cmd ctx with
      | (.ok events, drawn) => some ⟨events, (ctxDraws drawn).getD (lastPos before)⟩
      | (.error _, _) => none)]
  | _ => []

/-- The writes that an act acknowledges. -/
def Act.acknowledged (act : Act A) (before : List (Nat × Option (Record A))) (server : Server A) :
    List (Nat × Option (Record A)) :=
  match act with
  | .arm => []
  | .call cmd ctx _ => Examples.acknowledged before server.aggregate cmd ctx (server.act act).1

/-- A server that has been connected, after some acts, with the writes that were acknowledged. -/
def Server.run (genesis : A.State) (acts : List (Act A)) :
    List (Nat × Option (Record A)) × Server A :=
  acts.foldl (fun before act =>
    (before.1 ++ act.acknowledged before.1 before.2, (before.2.act act).2))
    ([], ⟨.connect genesis, ⟨genesis⟩⟩)

theorem numbered_push (rows : List (Record A)) (row : Record A) :
    numbered (rows ++ [row]) = numbered rows ++ [(rows.length + 1, some row)] := by
  simp [numbered, List.zipIdx_append]

theorem lastPos_numbered (rows : List (Record A)) :
    lastPos (numbered rows) = posAt rows rows.length := by
  induction rows using List.reverseRecOn with
  | nil => rfl
  | append_singleton rows row _ =>
    rw [numbered_push, List.length_append, List.length_singleton, posAt_push, lastPos,
      List.getLast?_concat]
    rfl

/-- The store holds a history of the one stream, and the live aggregate is the end of it. -/
structure InLockstep (genesis : A.State) (history : StreamId → List (Record A))
    (server : Server A) : Prop where
  kept : server.store.log.Kept genesis history
  live : server.aggregate = ⟨stateAfter genesis (history server.store.stream)
    (history server.store.stream).length⟩

variable {genesis : A.State} {history : StreamId → List (Record A)} {server : Server A}

theorem InLockstep.connect (genesis : A.State) :
    InLockstep genesis (fun _ => []) ⟨.connect genesis, ⟨genesis⟩⟩ :=
  ⟨Log.Kept.new genesis, rfl⟩

theorem InLockstep.append (lockstep : InLockstep genesis history server) (events : List A.Event)
    (pos : DrawPos) :
    InLockstep genesis (pushTo history server.store.stream ⟨events, pos⟩)
      ⟨⟨(server.store.log.append server.store.stream events pos).2, server.store.stream, false⟩,
        ⟨events.foldl A.evolve server.aggregate.state⟩⟩ := by
  refine ⟨lockstep.kept.append server.store.stream events pos, ?_⟩
  simp only [pushTo_self, List.length_append, List.length_singleton, stateAfter_push,
    lockstep.live]

/-- A call driven to its end writes the row it acknowledges, if it acknowledges one, and the
aggregate moves with it. -/
theorem InLockstep.blockOn (lockstep : InLockstep genesis history server) (cmd : A.Command)
    (ctx : A.Ctx) :
    let ended := (executeAsync cmd).blockOn ⟨server.store, server.aggregate, ctx⟩
    ended.2.store.stream = server.store.stream ∧
      ∃ history', InLockstep genesis history' ⟨ended.2.store, ended.2.aggregate⟩ ∧
        numbered (history' server.store.stream) = numbered (history server.store.stream) ++
          acknowledged (numbered (history server.store.stream)) server.aggregate cmd ctx
            (some ended.1) := by
  intro ended
  have blocked : ended = _ := blockOn_executeAsync cmd ⟨server.store, server.aggregate, ctx⟩
  have headed : headPos server.store.twin server.store.stream =
      .ok (posAt (history server.store.stream) (history server.store.stream).length) := by
    have holds : KeepsHistory.Holds genesis history (⟨server.store.log⟩ : SyncStore A) :=
      lockstep.kept
    exact KeepsHistory.headPos holds server.store.stream
  have spec := execute_spec server.store.twin server.store.stream server.aggregate cmd ctx
  simp only at blocked
  generalize execute server.store.twin server.store.stream server.aggregate cmd ctx = executed
    at spec blocked
  rw [blocked]
  refine ⟨rfl, ?_⟩
  cases spec with
  | headFailed failed =>
    rw [headed] at failed
    cases failed
  | rejected head decided => exact ⟨history, lockstep, (List.append_nil _).symm⟩
  | appendFailed head decided failed =>
    rcases appendIn_twin server.store _ _ with ⟨error, refused⟩ | made
    · rw [refused] at failed
      obtain ⟨-, written⟩ := Prod.mk.inj failed
      obtain ⟨rfl, -⟩ := Prod.mk.inj written
      exact ⟨history, ⟨lockstep.kept, lockstep.live⟩, (List.append_nil _).symm⟩
    · rw [made] at failed
      cases failed
  | appended head decided made =>
    obtain rfl := Except.ok.inj (headed.symm.trans head)
    rcases appendIn_twin server.store _ _ with ⟨error, refused⟩ | made'
    · rw [refused] at made
      cases made
    · rw [made', lockstep.kept.records] at made
      obtain ⟨landed, written⟩ := Prod.mk.inj made
      obtain rfl := Except.ok.inj landed
      obtain ⟨rfl, -⟩ := Prod.mk.inj written
      refine ⟨_, lockstep.append _ _, ?_⟩
      rw [pushTo_self, numbered_push]
      simp only [acknowledged, Except.mapError, decided, lastPos_numbered]

theorem InLockstep.act (lockstep : InLockstep genesis history server) (act : Act A) :
    (server.act act).2.store.stream = server.store.stream ∧
      ∃ history', InLockstep genesis history' (server.act act).2 ∧
        numbered (history' server.store.stream) = numbered (history server.store.stream) ++
          act.acknowledged (numbered (history server.store.stream)) server := by
  cases act with
  | arm => exact ⟨rfl, history, ⟨lockstep.kept, lockstep.live⟩, (List.append_nil _).symm⟩
  | call cmd ctx polls =>
    unfold Act.acknowledged Server.act
    have polled := polls_executeAsync cmd ⟨server.store, server.aggregate, ctx⟩ polls
    simp only
    generalize (executeAsync cmd).polls polls ⟨server.store, server.aggregate, ctx⟩ = ended
      at polled ⊢
    obtain ⟨answer, call⟩ := ended
    rcases polled with ⟨result, rfl, blocked⟩ | ⟨rest, -, rfl, suspended⟩
    · have driven := lockstep.blockOn cmd ctx
      rw [blocked] at driven
      exact driven
    · obtain ⟨store, aggregate, reached⟩ := call
      obtain ⟨rfl, rfl, -⟩ := suspended
      exact ⟨rfl, history, lockstep, (List.append_nil _).symm⟩

theorem InLockstep.run (genesis : A.State) (acts : List (Act A)) :
    (Server.run genesis acts).2.store.stream = (AsyncStore.connect genesis).stream ∧
      ∃ history, InLockstep genesis history (Server.run genesis acts).2 ∧
        numbered (history (AsyncStore.connect genesis).stream) = (Server.run genesis acts).1 := by
  induction acts using List.reverseRecOn with
  | nil => exact ⟨rfl, _, InLockstep.connect genesis, rfl⟩
  | append_singleton acts act ih =>
    obtain ⟨stream, history, lockstep, listed⟩ := ih
    obtain ⟨stream', history', lockstep', grown⟩ := lockstep.act act
    unfold Server.run at stream lockstep listed stream' lockstep' grown ⊢
    rw [List.foldl_append, List.foldl_cons, List.foldl_nil]
    refine ⟨stream'.trans stream, history', lockstep', ?_⟩
    rw [← stream, grown, stream, listed]

/-- Awaiting the reads one by one is `resume` on the log. -/
theorem blockOn_resumeAsync (chacha12 : Seed → UInt64 → UInt32) (seed : Seed)
    (store : AsyncStore A) :
    (resumeAsync chacha12 seed).blockOn store =
      (resume (⟨store.log⟩ : SyncStore A) store.stream seed, store) := by
  have latest : AsyncStore.latestSnapshot.blockOn store =
      (Journal.latestSnapshot (⟨store.log⟩ : SyncStore A) store.stream, store) := rfl
  have events : ∀ after, (AsyncStore.eventsSince after).blockOn store =
      (Journal.eventsSince (⟨store.log⟩ : SyncStore A) store.stream after, store) := fun _ => rfl
  have head : AsyncStore.head.blockOn store =
      (Journal.head (⟨store.log⟩ : SyncStore A) store.stream, store) := rfl
  have pos : ∀ seq, (AsyncStore.entropyPos seq).blockOn store =
      (Journal.entropyPos (⟨store.log⟩ : SyncStore A) store.stream seq, store) := fun _ => rfl
  unfold resumeAsync resume
  rw [Async.blockOn_bind, latest]
  rcases Journal.latestSnapshot (⟨store.log⟩ : SyncStore A) store.stream with error | (none | snap)
  · rfl
  · rfl
  · simp only [Async.blockOn_bind, events]
    rcases Journal.eventsSince (⟨store.log⟩ : SyncStore A) store.stream (some snap.atSeq) with
      error | listed
    · rfl
    · simp only
      rcases replay snap listed with error | aggregate
      · rfl
      · simp only [Async.blockOn_bind, head]
        rcases Journal.head (⟨store.log⟩ : SyncStore A) store.stream with none | seq
        · rfl
        · simp only [Async.blockOn_bind, pos]
          rcases Journal.entropyPos (⟨store.log⟩ : SyncStore A) store.stream seq with error | pos
          · rfl
          · rfl

/-- Whatever calls a server has seen, failed, dropped at any await or driven to their end: the
rows of the store are the acknowledged writes, by number, events and position, and no other;
and a process that resumes from it has the live aggregate, and draws on, in the context it
makes, from the position at the head. -/
theorem resumeAsync_run (genesis : A.State) (acts : List (Act A))
    (chacha12 : Seed → UInt64 → UInt32) (seed : Seed) :
    let acknowledged := (Server.run genesis acts).1
    let server := (Server.run genesis acts).2
    numbered (server.store.log.records server.store.stream) = acknowledged ∧
      ∃ pos, AsyncStore.headPos.blockOn server.store = (.ok pos, server.store) ∧
        (resumeAsync chacha12 seed).blockOn server.store =
          (.ok (server.aggregate, .at seed pos), server.store) ∧
        ∀ make : SeededEntropy chacha12 → A.Ctx,
          (ctxAtHead make seed).blockOn server.store =
            (.ok (make (.at seed pos)), server.store) := by
  intro acknowledged server
  obtain ⟨stream, history, lockstep, listed⟩ := InLockstep.run genesis acts
  have here : server.store.stream = (AsyncStore.connect genesis).stream := stream
  have holds : KeepsHistory.Holds genesis history (⟨server.store.log⟩ : SyncStore A) :=
    lockstep.kept
  have headed : AsyncStore.headPos.blockOn server.store =
      (.ok (posAt (history server.store.stream) (history server.store.stream).length),
        server.store) := by
    rw [blockOn_headPos]
    exact congrArg (fun read => (read, server.store)) (KeepsHistory.headPos holds _)
  refine ⟨?_, _, headed, ?_, ?_⟩
  · rw [lockstep.kept.records, here]
    exact listed
  · rw [blockOn_resumeAsync, KeepsHistory.resume holds, lockstep.live]
  · intro make
    unfold ctxAtHead
    rw [Async.blockOn_bind, headed]
    rfl

end Ironstate.Examples
