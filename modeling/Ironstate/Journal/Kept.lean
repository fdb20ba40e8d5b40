import Ironstate.Journal.Contract
import Ironstate.Journal.Proofs.Resume

/-!
# Journals that keep their history

What a journal without a unit of work is for: `Holds` relates it to the list of all records
ever appended to each of its streams, and every read is a function of that list. The laws
are what `execute`, `resume` and the conformance suite rely on, so that what follows from
them holds of every storage adapter that has them. A `MemoryJournal` of which nothing has
been truncated, with honest snapshots only, has them.
-/

namespace Ironstate

variable {A : AggregateRules} {J E : Type}

/-- One more record, or snapshot, of one stream. -/
def pushTo {α : Type} (history : StreamId → List α) (stream : StreamId) (item : α) :
    StreamId → List α :=
  fun id => if id = stream then history id ++ [item] else history id

@[simp] theorem pushTo_self {α : Type} (history : StreamId → List α) (stream : StreamId)
    (item : α) : pushTo history stream item stream = history stream ++ [item] :=
  if_pos rfl

theorem pushTo_ne {α : Type} (history : StreamId → List α) {stream other : StreamId}
    (item : α) (distinct : other ≠ stream) : pushTo history stream item other = history other :=
  if_neg distinct

/-- An `execute` leaves the journal as it was or as its append left it. -/
theorem execute_journal [Journal J A Unit] [EntropySource E] [CtxEntropy A.Ctx E]
    (j : J) (stream : StreamId) (aggregate : Aggregate A) (cmd : A.Command) (ctx : A.Ctx) :
    (execute j stream aggregate cmd ctx).journal = j ∨ ∃ events pos,
      (execute j stream aggregate cmd ctx).journal =
        (Journal.appendIn j () stream events pos).2.1 := by
  have spec := execute_spec j stream aggregate cmd ctx
  generalize execute j stream aggregate cmd ctx = outcome at spec ⊢
  cases spec with
  | headFailed failed => exact .inl rfl
  | rejected head decided => exact .inl rfl
  | appendFailed head decided failed => exact .inr ⟨_, _, by rw [failed]⟩
  | appended head decided made => exact .inr ⟨_, _, by rw [made]⟩

/-- The journal stands for the histories of its streams from a genesis state. -/
class KeepsHistory (J : Type) (A : outParam AggregateRules) [Journal J A Unit]
    [ContractJournal J A] where
  Holds : A.State → (StreamId → List (Record A)) → J → Prop
  fresh : ∀ genesis : A.State, Holds genesis (fun _ => []) (ContractJournal.fresh genesis)
  append : ∀ {genesis history j} (stream : StreamId) (events : List A.Event) (pos : DrawPos),
    Holds genesis history j → ∃ j', Journal.appendIn j () stream events pos =
        (.ok ((history stream).length + 1), j', ()) ∧
      Holds genesis (pushTo history stream ⟨events, pos⟩) j'
  snapshot : ∀ {genesis history j} (stream : StreamId) (snap : Snapshot A),
    Holds genesis history j → Honest genesis (history stream) snap →
      ∃ j', Journal.snapshotIn j () stream snap = (.ok (), j', ()) ∧ Holds genesis history j'
  head : ∀ {genesis history j} (stream : StreamId), Holds genesis history j →
    Journal.head j stream =
      if 0 < (history stream).length then some (history stream).length else none
  entropyPos : ∀ {genesis history j} (stream : StreamId) (seq : Nat), Holds genesis history j →
    seq ≤ (history stream).length →
    Journal.entropyPos j stream seq = .ok (posAt (history stream) seq)
  entropyPos_past : ∀ {genesis history j} (stream : StreamId) (seq : Nat),
    Holds genesis history j → (history stream).length < seq →
    Journal.entropyPos j stream seq = .error (.unknownSeq seq)
  eventsSince : ∀ {genesis history j} (stream : StreamId) (after : Option Nat),
    Holds genesis history j →
    Journal.eventsSince j stream after = .ok (eventsAfter (history stream) (after.getD 0))
  latestSnapshot : ∀ {genesis history j} (stream : StreamId), Holds genesis history j →
    ∃ snap, Journal.latestSnapshot j stream = .ok (some snap) ∧
      Honest genesis (history stream) snap

/-- A fork of such a journal holds the prefix of the one stream. -/
class BranchesHistory (J : Type) (A : outParam AggregateRules) [ForkableJournal J A Unit]
    [ContractJournal J A] [KeepsHistory J A] : Prop where
  fork : ∀ {genesis history} {j : J} (stream : StreamId) (seq : Nat),
    KeepsHistory.Holds genesis history j → seq ≤ (history stream).length →
    ∃ branch : J, ForkableJournal.fork j stream seq = .ok branch ∧
      KeepsHistory.Holds genesis
        (fun id => if id = stream then (history stream).take seq else []) branch
  fork_past : ∀ {genesis history} {j : J} (stream : StreamId) (seq : Nat),
    KeepsHistory.Holds genesis history j → (history stream).length < seq →
    ForkableJournal.fork j stream seq = .error (.unknownSeq seq)

/-- The snapshots of such a journal: those stored for a stream, in order and after its genesis,
of which the newest is answered; a fork keeps those up to the fork point. -/
class KeepsSnapshots (J : Type) (A : outParam AggregateRules) [ForkableJournal J A Unit]
    [ContractJournal J A] [KeepsHistory J A] where
  Stores : (StreamId → List (Snapshot A)) → J → Prop
  fresh : ∀ genesis : A.State,
    Stores (fun _ => [Contract.genesisSnapshot genesis]) (ContractJournal.fresh genesis)
  append : ∀ {snapshots j} (stream : StreamId) (events : List A.Event) (pos : DrawPos),
    Stores snapshots j → Stores snapshots (Journal.appendIn j () stream events pos).2.1
  snapshot : ∀ {snapshots j} (stream : StreamId) (snap : Snapshot A), Stores snapshots j →
    Stores (pushTo snapshots stream snap) (Journal.snapshotIn j () stream snap).2.1
  fork : ∀ {genesis history snapshots} {j branch : J} (stream : StreamId) (seq : Nat),
    KeepsHistory.Holds genesis history j → Stores snapshots j →
    ForkableJournal.fork j stream seq = .ok branch →
    Stores (fun id => if id = stream then (snapshots stream).filter fun snap => snap.atSeq ≤ seq
      else [Contract.genesisSnapshot genesis]) branch
  latestSnapshot : ∀ {genesis history snapshots} {j : J} (stream : StreamId),
    KeepsHistory.Holds genesis history j → Stores snapshots j →
    Journal.latestSnapshot j stream = .ok (Lib.newest (·.atSeq) (snapshots stream))

namespace KeepsHistory

variable [Journal J A Unit] [ContractJournal J A] [KeepsHistory J A] {genesis : A.State}
variable {history : StreamId → List (Record A)} {j : J}

theorem head_none (holds : Holds genesis history j) {stream : StreamId}
    (unheaded : Journal.head j stream = none) : (history stream).length = 0 := by
  rw [head stream holds] at unheaded
  split at unheaded
  · cases unheaded
  · omega

theorem head_some (holds : Holds genesis history j) {stream : StreamId} {seq : Nat}
    (headed : Journal.head j stream = some seq) :
    seq = (history stream).length ∧ 0 < (history stream).length := by
  rw [head stream holds] at headed
  split at headed
  · rename_i positive
    exact ⟨(Option.some.inj headed).symm, positive⟩
  · cases headed

theorem headPos (holds : Holds genesis history j) (stream : StreamId) :
    headPos j stream = .ok (posAt (history stream) (history stream).length) := by
  unfold Ironstate.headPos
  cases headed : Journal.head j stream with
  | none => rw [head_none holds headed, posAt_zero]
  | some seq =>
    obtain ⟨rfl, -⟩ := head_some holds headed
    exact entropyPos stream _ holds (Nat.le_refl _)

/-- A command is rejected, or its events are appended to the history. -/
theorem execute [EntropySource E] [CtxEntropy A.Ctx E] (holds : Holds genesis history j)
    (stream : StreamId) (aggregate : Aggregate A) (cmd : A.Command) (ctx : A.Ctx) :
    (∃ rejection drawn, aggregate.decideOnly cmd ctx = (.error rejection, drawn) ∧
      execute j stream aggregate cmd ctx =
        ⟨.error (.rejected rejection), j, aggregate,
          rewind drawn (posAt (history stream) (history stream).length)⟩) ∨
    ∃ events drawn pos j', aggregate.decideOnly cmd ctx = (.ok events, drawn) ∧
      pos = (ctxDraws drawn).getD (posAt (history stream) (history stream).length) ∧
      execute j stream aggregate cmd ctx =
        ⟨.ok ((history stream).length + 1), j', ⟨events.foldl A.evolve aggregate.state⟩, drawn⟩ ∧
      Holds genesis (pushTo history stream ⟨events, pos⟩) j' := by
  have spec := execute_spec j stream aggregate cmd ctx
  generalize Ironstate.execute j stream aggregate cmd ctx = outcome at spec ⊢
  have position := headPos holds stream
  cases spec with
  | headFailed failed =>
    rw [position] at failed
    cases failed
  | rejected head' decided =>
    obtain rfl := Except.ok.inj (position.symm.trans head')
    exact .inl ⟨_, _, decided, rfl⟩
  | appendFailed head' decided failed =>
    obtain ⟨j', made, -⟩ := append stream _ _ holds
    rw [made] at failed
    cases failed
  | appended head' decided made =>
    obtain rfl := Except.ok.inj (position.symm.trans head')
    obtain ⟨j', made', kept⟩ := append stream _ _ holds
    rw [made'] at made
    obtain ⟨landed, written⟩ := Prod.mk.inj made
    obtain ⟨rfl, -⟩ := Prod.mk.inj written
    obtain rfl := Except.ok.inj landed
    exact .inr ⟨_, _, _, _, decided, rfl, rfl, kept⟩

/-- Replaying the whole log ends in the state of the history. -/
theorem replay_all (genesis : A.State) (history : List (Record A)) :
    replay (Contract.genesisSnapshot genesis) (eventsAfter history 0) =
      .ok ⟨stateAfter genesis history history.length⟩ :=
  replay_eventsAfter genesis history rfl

/-- A stream resumes to the state and the position its history ends in. -/
theorem resume {chacha12 : Seed → UInt64 → UInt32} (holds : Holds genesis history j)
    (stream : StreamId) (seed : Seed) :
    (resume j stream seed : Resumed A chacha12) =
      .ok (⟨stateAfter genesis (history stream) (history stream).length⟩,
        .at seed (posAt (history stream) (history stream).length)) := by
  obtain ⟨snap, latest, honest⟩ := latestSnapshot stream holds
  have listed := eventsSince stream (some snap.atSeq) holds
  have replayed := replay_eventsAfter genesis (history stream) honest.state
  unfold Ironstate.resume
  simp only [latest, listed, Option.getD_some, replayed]
  cases headed : Journal.head j stream with
  | none =>
    have empty := head_none holds headed
    have first : snap.atSeq = 0 := by
      have := honest.bound
      omega
    simp only [honest.pos, first, empty]
  | some seq =>
    obtain ⟨rfl, -⟩ := head_some holds headed
    simp only [entropyPos stream _ holds (Nat.le_refl _)]

end KeepsHistory

/-! ## The reference journal -/

/-- A stream that holds the whole history, its genesis snapshot and honest snapshots only. -/
structure Whole (genesis : A.State) (history : List (Record A)) (s : Stream A) : Prop where
  sound : Sound genesis history s
  whole : s.truncated = 0
  base : ∃ snap ∈ s.snapshots, snap.atSeq = 0

namespace Whole

variable {genesis : A.State} {history : List (Record A)} {s : Stream A}

theorem new (genesis : A.State) : Whole genesis [] (.new ⟨genesis, 0, 0, 0⟩) :=
  ⟨Sound.new genesis, rfl, ⟨genesis, 0, 0, 0⟩, List.mem_singleton.mpr rfl, rfl⟩

theorem append (whole : Whole genesis history s) (events : List A.Event) (pos : DrawPos) :
    Whole genesis (history ++ [⟨events, pos⟩]) (s.append events pos) :=
  ⟨whole.sound.append events pos, whole.whole, whole.base⟩

theorem snapshot (whole : Whole genesis history s) {snap : Snapshot A}
    (honest : Honest genesis history snap) : Whole genesis history (s.snapshot snap) := by
  refine ⟨whole.sound.snapshot honest, whole.whole, ?_⟩
  obtain ⟨base, member, first⟩ := whole.base
  exact ⟨base, List.mem_append_left _ member, first⟩

theorem length_eq (whole : Whole genesis history s) : s.headNat = history.length :=
  Stream.headNat_eq whole.sound.retains

/-- No fork past the head is granted. -/
theorem fork_past (whole : Whole genesis history s) {seq : Nat} (past : history.length < seq) :
    s.fork seq = .error (.unknownSeq seq) := by
  unfold Stream.fork
  rw [whole.length_eq, if_pos (.inl past)]

/-- Every fork up to the head is granted. -/
theorem fork (whole : Whole genesis history s) {seq : Nat} (bound : seq ≤ history.length) :
    ∃ s', s.fork seq = .ok s' ∧ Whole genesis (history.take seq) s' := by
  obtain ⟨base, member, first⟩ := whole.base
  have covered : base.atSeq ≤ seq := by omega
  have forked := (Stream.fork_ok s _ seq).mpr
    ⟨whole.length_eq ▸ bound, .inl whole.whole, ⟨base, member, covered⟩, rfl⟩
  refine ⟨_, forked, whole.sound.fork forked, whole.whole, base, ?_, first⟩
  exact List.mem_filter.mpr ⟨member, decide_eq_true covered⟩

theorem entropyPos (whole : Whole genesis history s) {seq : Nat} (bound : seq ≤ history.length) :
    s.entropyPos seq = .ok (posAt history seq) := by
  refine whole.sound.entropyPos (whole.length_eq ▸ bound) ?_
  obtain ⟨base, member, first⟩ := whole.base
  have kept := whole.whole
  by_cases zero : seq = 0
  · exact .inr ⟨base, member, first.trans zero.symm⟩
  · exact .inl (by omega)

theorem entropyPos_past (whole : Whole genesis history s) {seq : Nat}
    (past : history.length < seq) : s.entropyPos seq = .error (.unknownSeq seq) := by
  refine Stream.entropyPos_refused (.inl (whole.length_eq ▸ past)) ?_
  rw [List.find?_eq_none]
  intro snap member same
  have bound := (whole.sound.honest snap member).bound
  have same := beq_iff_eq.mp same
  omega

theorem based (whole : Whole genesis history s) : s.Based := by
  obtain ⟨base, member, first⟩ := whole.base
  have kept := whole.whole
  exact ⟨base, member, by omega, by omega⟩

end Whole

/-- A journal all of whose streams are whole. -/
def MemoryJournal.Whole (genesis : A.State) (history : StreamId → List (Record A))
    (j : MemoryJournal A) : Prop :=
  j.genesis = genesis ∧ ∀ id, Ironstate.Whole genesis (history id) (j.streamMut id)

instance : ContractJournal (MemoryJournal A) A := ⟨MemoryJournal.new⟩

instance : KeepsHistory (MemoryJournal A) A where
  Holds genesis history j := j.Whole genesis history
  fresh genesis := by
    refine ⟨rfl, fun id => ?_⟩
    show Ironstate.Whole genesis [] ((MemoryJournal.new genesis).streamMut id)
    rw [MemoryJournal.streamMut_new]
    exact Whole.new genesis
  append := by
    intro genesis history j stream events pos whole
    have landed := Stream.headNat_append (j.streamMut stream) events pos
    rw [(whole.2 stream).length_eq] at landed
    refine ⟨(j.appendIn stream events pos).2, ?_, whole.1, fun id => ?_⟩
    · show (Except.ok _, _, _) = _
      exact congrArg (fun seq => (Except.ok seq, _, ())) landed
    · by_cases here : id = stream
      · subst here
        rw [pushTo_self, MemoryJournal.streamMut_appendIn]
        exact (whole.2 id).append events pos
      · have other := MemoryJournal.streamMut_put_ne j ((j.streamMut stream).append events pos) here
        rw [pushTo_ne _ _ here, MemoryJournal.appendIn, other]
        exact whole.2 id
  snapshot := by
    intro genesis history j stream snap whole honest
    refine ⟨(j.snapshotIn stream snap).2, rfl, whole.1, fun id => ?_⟩
    by_cases here : id = stream
    · subst here
      rw [MemoryJournal.streamMut_snapshotIn]
      exact (whole.2 id).snapshot honest
    · have other := MemoryJournal.streamMut_put_ne j ((j.streamMut stream).snapshot snap) here
      rw [MemoryJournal.snapshotIn, other]
      exact whole.2 id
  head := by
    intro genesis history j stream whole
    rw [MemoryJournal.head_eq, Stream.head, (whole.2 stream).length_eq]
  entropyPos := by
    intro genesis history j stream seq whole bound
    rw [MemoryJournal.entropyPos_eq]
    exact (whole.2 stream).entropyPos bound
  entropyPos_past := by
    intro genesis history j stream seq whole past
    rw [MemoryJournal.entropyPos_eq]
    exact (whole.2 stream).entropyPos_past past
  eventsSince := by
    intro genesis history j stream after whole
    rw [MemoryJournal.eventsSince_eq]
    apply Stream.eventsSince_eq (whole.2 stream).sound.retains
    rw [(whole.2 stream).whole]
    exact Nat.zero_le _
  latestSnapshot := by
    intro genesis history j stream whole
    obtain ⟨snap, latest, -⟩ := (whole.2 stream).based.latestSnapshot
    refine ⟨snap, ?_, (whole.2 stream).sound.honest snap (Stream.latestSnapshot_mem latest).1⟩
    rw [MemoryJournal.latestSnapshot_eq, latest]

instance : BranchesHistory (MemoryJournal A) A where
  fork := by
    intro genesis history j stream seq whole bound
    obtain ⟨s', forked, kept⟩ := (whole.2 stream).fork bound
    obtain ⟨branch, granted, same⟩ := MemoryJournal.fork_granted forked
    obtain ⟨genesis_eq, -, others⟩ := MemoryJournal.fork_ok granted
    refine ⟨branch, granted, genesis_eq.trans whole.1, fun id => ?_⟩
    by_cases here : id = stream
    · subst here
      simp only [if_pos, same]
      exact kept
    · simp only [if_neg here, others id here, MemoryJournal.genesisSnapshot, whole.1]
      exact Whole.new genesis
  fork_past := by
    intro genesis history j stream seq whole past
    have refused := (whole.2 stream).fork_past past
    show j.fork stream seq = _
    unfold MemoryJournal.fork
    cases touched : j.streams[stream]? with
    | none =>
      have positive : seq ≠ 0 := by omega
      simp only [if_neg positive]
    | some source =>
      rw [MemoryJournal.streamMut_touched touched] at refused
      simp only [refused]

instance : KeepsSnapshots (MemoryJournal A) A where
  Stores snapshots j := ∀ id, (j.streamMut id).snapshots = snapshots id
  fresh genesis id := by
    show ((MemoryJournal.new genesis).streamMut id).snapshots = _
    rw [MemoryJournal.streamMut_new]
    rfl
  append := by
    intro snapshots j stream events pos stored id
    show ((j.put stream _).streamMut id).snapshots = _
    by_cases here : id = stream
    · subst here
      rw [MemoryJournal.streamMut_put_self]
      exact stored id
    · rw [MemoryJournal.streamMut_put_ne _ _ here]
      exact stored id
  snapshot := by
    intro snapshots j stream snap stored id
    show ((j.put stream _).streamMut id).snapshots = _
    by_cases here : id = stream
    · subst here
      rw [MemoryJournal.streamMut_put_self, pushTo_self, ← stored id]
      rfl
    · rw [MemoryJournal.streamMut_put_ne _ _ here, pushTo_ne _ _ here]
      exact stored id
  fork := by
    intro genesis history snapshots j branch stream seq whole stored granted id
    obtain ⟨-, forked, others⟩ := MemoryJournal.fork_ok granted
    by_cases here : id = stream
    · subst here
      obtain ⟨-, -, -, same⟩ := (Stream.fork_ok _ _ _).mp forked
      simp only [if_pos, same, stored]
    · simp only [if_neg here, others id here, MemoryJournal.genesisSnapshot, whole.1]
      rfl
  latestSnapshot := by
    intro genesis history snapshots j stream whole stored
    -- none of them lies past the head
    have usable : (j.streamMut stream).snapshots.filter (fun snap =>
        snap.atSeq ≤ (j.streamMut stream).headNat) = (j.streamMut stream).snapshots := by
      refine List.filter_eq_self.mpr fun snap member => decide_eq_true ?_
      rw [(whole.2 stream).length_eq]
      exact ((whole.2 stream).sound.honest snap member).bound
    rw [MemoryJournal.latestSnapshot_eq, Stream.latestSnapshot, usable, stored stream]

end Ironstate
