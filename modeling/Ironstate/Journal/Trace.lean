import Ironstate.Journal.History
import Ironstate.Lib.Reach

/-!
# Runs of journal operations

A `MemoryJournal` reached by appends, snapshots, truncations and forks, with the history of
each stream recorded beside it (`Traced`). What an operation does to a stream is said once,
in `Stream.fork_ok` and `Stream.truncateBefore_ok`; what a run preserves follows from
`Reached.stream`, which lifts a fact about one stream that every operation keeps
(`StreamInv`) to every stream of every journal reached.
-/

namespace Ironstate

variable {A : AggregateRules}

/-! ## What the operations of one stream do -/

namespace Stream

variable {s s' : Stream A} {seq : Nat}

@[simp] theorem headNat_new (snap : Snapshot A) : (Stream.new snap).headNat = 0 := rfl

@[simp] theorem headNat_append (s : Stream A) (events : List A.Event) (pos : DrawPos) :
    (s.append events pos).headNat = s.headNat + 1 := by
  simp [append, headNat, Nat.add_assoc]

@[simp] theorem headNat_snapshot (s : Stream A) (snap : Snapshot A) :
    (s.snapshot snap).headNat = s.headNat := rfl

@[simp] theorem head_snapshot (s : Stream A) (snap : Snapshot A) :
    (s.snapshot snap).head = s.head := rfl

@[simp] theorem retainedFrom_snapshot (s : Stream A) (snap : Snapshot A) :
    (s.snapshot snap).retainedFrom = s.retainedFrom := rfl

@[simp] theorem eventsSince_snapshot (s : Stream A) (snap : Snapshot A) (after : Option Nat) :
    (s.snapshot snap).eventsSince after = s.eventsSince after := rfl

theorem fork_ok (s s' : Stream A) (seq : Nat) :
    s.fork seq = .ok s' ↔
      seq ≤ s.headNat ∧ (s.truncated = 0 ∨ s.truncated < seq) ∧
        (∃ snap ∈ s.snapshots, snap.atSeq ≤ seq) ∧
        s' = ⟨s.records.take (seq - s.truncated), s.snapshots.filter fun snap => snap.atSeq ≤ seq,
          s.truncated⟩ := by
  unfold fork
  by_cases unknown : seq > s.headNat ∨ (s.truncated > 0 ∧ seq ≤ s.truncated)
  · simp only [if_pos unknown, reduceCtorEq, false_iff]
    intro granted
    obtain ⟨bound, above, -, -⟩ := granted
    omega
  · have known : seq ≤ s.headNat ∧ (s.truncated = 0 ∨ s.truncated < seq) := by omega
    simp only [if_neg unknown]
    by_cases covered : ∃ snap ∈ s.snapshots, snap.atSeq ≤ seq
    · have nonempty : ¬(s.snapshots.filter fun snap => snap.atSeq ≤ seq).isEmpty = true := by
        obtain ⟨snap, member, below⟩ := covered
        rw [List.isEmpty_iff]
        exact List.ne_nil_of_mem (List.mem_filter.mpr ⟨member, by simpa using below⟩)
      rw [if_neg nonempty]
      constructor
      · intro granted
        exact ⟨known.1, known.2, covered, (Except.ok.inj granted).symm⟩
      · intro granted
        obtain ⟨-, -, -, rfl⟩ := granted
        rfl
    · have empty : (s.snapshots.filter fun snap => snap.atSeq ≤ seq).isEmpty = true := by
        rw [List.isEmpty_iff, List.filter_eq_nil_iff]
        intro snap member below
        exact covered ⟨snap, member, by simpa using below⟩
      rw [if_pos empty]
      constructor
      · intro granted
        cases granted
      · intro granted
        obtain ⟨-, -, base, -⟩ := granted
        exact absurd base covered

/-- A fork point of a stream is the head of the branch. -/
theorem headNat_fork (granted : s.fork seq = .ok s') : s'.headNat = seq := by
  obtain ⟨bound, above, -, rfl⟩ := (fork_ok s s' seq).mp granted
  unfold headNat at bound ⊢
  simp only [List.length_take]
  omega

theorem latestSnapshotAt_covers (s : Stream A) (needed : Nat) :
    s.latestSnapshotAt.all (· < needed) = false ↔
      ∃ snap ∈ s.snapshots, needed ≤ snap.atSeq ∧ snap.atSeq ≤ s.headNat := by
  unfold latestSnapshotAt
  have member : ∀ seq, seq ∈ (s.snapshots.map (·.atSeq)).filter (fun seq => seq ≤ s.headNat) ↔
      ∃ snap ∈ s.snapshots, snap.atSeq = seq ∧ snap.atSeq ≤ s.headNat := by
    intro seq
    rw [List.mem_filter, List.mem_map, decide_eq_true_eq]
    constructor
    · intro listed
      obtain ⟨⟨snap, stored, rfl⟩, bound⟩ := listed
      exact ⟨snap, stored, rfl, bound⟩
    · intro covered
      obtain ⟨snap, stored, rfl, bound⟩ := covered
      exact ⟨⟨snap, stored, rfl⟩, bound⟩
  cases latest : ((s.snapshots.map (·.atSeq)).filter fun seq => seq ≤ s.headNat).max? with
  | none =>
    rw [List.max?_eq_none_iff] at latest
    simp only [Option.all_none, Bool.true_eq_false, false_iff]
    intro covered
    obtain ⟨snap, stored, -, bound⟩ := covered
    have present := (member snap.atSeq).mpr ⟨snap, stored, rfl, bound⟩
    rw [latest] at present
    cases present
  | some highest =>
    obtain ⟨inside, upper⟩ := List.max?_eq_some_iff.mp latest
    simp only [Option.all_some, decide_eq_false_iff_not, Nat.not_lt]
    constructor
    · intro high
      obtain ⟨snap, stored, rfl, bound⟩ := (member highest).mp inside
      exact ⟨snap, stored, high, bound⟩
    · intro covered
      obtain ⟨snap, stored, high, bound⟩ := covered
      exact Nat.le_trans high (upper _ ((member _).mpr ⟨snap, stored, rfl, bound⟩))

theorem truncateBefore_ok (s s' : Stream A) (seq : Nat) :
    s.truncateBefore seq = .ok s' ↔
      s.truncated < seq ∧ seq ≤ s.headNat + 1 ∧
        (∃ snap ∈ s.snapshots, seq - 1 ≤ snap.atSeq ∧ snap.atSeq ≤ s.headNat) ∧
        s' = ⟨s.records.drop (seq - 1 - s.truncated),
          s.snapshots.filter fun snap => seq - 1 ≤ snap.atSeq, seq - 1⟩ := by
  unfold truncateBefore
  by_cases unknown : seq ≤ s.truncated ∨ seq > s.headNat + 1
  · simp only [if_pos unknown, reduceCtorEq, false_iff]
    intro accepted
    obtain ⟨above, bound, -, -⟩ := accepted
    omega
  · have known : s.truncated < seq ∧ seq ≤ s.headNat + 1 := by omega
    have dropped : min (seq - 1 - s.truncated) s.records.length = seq - 1 - s.truncated := by
      unfold headNat at known
      omega
    have horizon : s.truncated + (seq - 1 - s.truncated) = seq - 1 := by omega
    simp only [if_neg unknown, dropped, horizon]
    cases refused : s.latestSnapshotAt.all (· < seq - 1) with
    | true =>
      have uncovered := (not_congr (latestSnapshotAt_covers s (seq - 1))).mp (by simp [refused])
      simp only [if_true, reduceCtorEq, false_iff]
      intro accepted
      obtain ⟨-, -, covered, -⟩ := accepted
      exact uncovered covered
    | false =>
      have covered := (latestSnapshotAt_covers s (seq - 1)).mp refused
      simp only [Bool.false_eq_true, if_false, Except.ok.injEq]
      constructor
      · rintro rfl
        exact ⟨known.1, known.2, covered, rfl⟩
      · intro accepted
        obtain ⟨-, -, -, rfl⟩ := accepted
        rfl

/-- Truncation keeps the head. -/
theorem headNat_truncateBefore (accepted : s.truncateBefore seq = .ok s') :
    s'.headNat = s.headNat := by
  obtain ⟨above, bound, -, rfl⟩ := (truncateBefore_ok s s' seq).mp accepted
  unfold headNat at bound ⊢
  simp only [List.length_drop]
  omega

/-- The first snapshot stored at a `Seq` survives a filter that keeps that `Seq`. -/
theorem find?_filter {snapshots : List (Snapshot A)} {p : Snapshot A → Bool} {seq : Nat}
    (kept : ∀ snap, snap.atSeq = seq → p snap = true) :
    ((snapshots.filter p).find? fun snap => snap.atSeq == seq) =
      snapshots.find? fun snap => snap.atSeq == seq := by
  rw [List.find?_filter]
  congr 1
  funext snap
  by_cases here : snap.atSeq = seq
  · simp [here, kept snap here]
  · simp [here]

/-- A truncation keeps what is stored from one below its first kept record on. -/
theorem find?_truncateBefore (accepted : s.truncateBefore seq = .ok s') {kept : Nat}
    (reached : seq - 1 ≤ kept) :
    (s'.snapshots.find? fun snap => snap.atSeq == kept) =
      s.snapshots.find? fun snap => snap.atSeq == kept := by
  obtain ⟨-, -, -, rfl⟩ := (truncateBefore_ok s s' seq).mp accepted
  apply find?_filter
  intro snap here
  exact decide_eq_true (here ▸ reached)

/-- A fork keeps what is stored up to the fork point. -/
theorem find?_fork (granted : s.fork seq = .ok s') {kept : Nat} (below : kept ≤ seq) :
    (s'.snapshots.find? fun snap => snap.atSeq == kept) =
      s.snapshots.find? fun snap => snap.atSeq == kept := by
  obtain ⟨-, -, -, rfl⟩ := (fork_ok s s' seq).mp granted
  apply find?_filter
  intro snap here
  exact decide_eq_true (here ▸ below)

/-- Truncation discards the front of the history. -/
theorem retains_truncateBefore {history : List (Record A)}
    (retains : Lib.Retains history s.records s.truncated)
    (accepted : s.truncateBefore seq = .ok s') :
    Lib.Retains history s'.records s'.truncated := by
  obtain ⟨above, bound, -, rfl⟩ := (truncateBefore_ok s s' seq).mp accepted
  have room : seq - 1 - s.truncated ≤ s.records.length := by
    unfold headNat at bound
    omega
  have discarded := retains.discard room
  rwa [show s.truncated + (seq - 1 - s.truncated) = seq - 1 by omega] at discarded

/-- A branch retains the history up to the fork point. -/
theorem retains_fork {history : List (Record A)}
    (retains : Lib.Retains history s.records s.truncated) (granted : s.fork seq = .ok s') :
    Lib.Retains (history.take seq) s'.records s'.truncated := by
  obtain ⟨bound, above, -, rfl⟩ := (fork_ok s s' seq).mp granted
  rw [headNat_eq retains] at bound
  exact retains.cut (by omega) bound

end Stream

/-! ## Reads and operations of a journal, through its streams -/

namespace MemoryJournal

variable {j j' : MemoryJournal A} {id : StreamId} {seq : Nat}

@[simp] theorem streamMut_new (genesis : A.State) (id : StreamId) :
    (MemoryJournal.new genesis).streamMut id = .new ⟨genesis, 0, 0, 0⟩ := by
  simp [new, streamMut, genesisSnapshot]

@[simp] theorem streamMut_put_self (j : MemoryJournal A) (id : StreamId) (s : Stream A) :
    (j.put id s).streamMut id = s := by
  simp only [streamMut, put, BTreeMap.getElem?_insert_self]

@[simp] theorem getElem?_put_self (j : MemoryJournal A) (id : StreamId) (s : Stream A) :
    (j.put id s).streams[id]? = some s :=
  BTreeMap.getElem?_insert_self _ _ _

@[simp] theorem put_put (j : MemoryJournal A) (id : StreamId) (s s' : Stream A) :
    (j.put id s).put id s' = j.put id s' := by
  simp only [put, BTreeMap.insert_insert]

theorem streamMut_put_ne (j : MemoryJournal A) {id other : StreamId} (s : Stream A)
    (distinct : other ≠ id) : (j.put id s).streamMut other = j.streamMut other := by
  simp only [streamMut, put, BTreeMap.getElem?_insert_ne _ _ distinct, genesisSnapshot]

@[simp] theorem streamMut_appendIn (j : MemoryJournal A) (id : StreamId) (events : List A.Event)
    (pos : DrawPos) :
    (j.appendIn id events pos).2.streamMut id = (j.streamMut id).append events pos :=
  streamMut_put_self _ _ _

/-- The append leaves its record last in the stream. -/
theorem getLast?_appendIn (j : MemoryJournal A) (id : StreamId) (events : List A.Event)
    (pos : DrawPos) :
    ((j.appendIn id events pos).2.streamMut id).records.getLast? = some ⟨events, pos⟩ := by
  rw [streamMut_appendIn]
  exact List.getLast?_concat

@[simp] theorem streamMut_snapshotIn (j : MemoryJournal A) (id : StreamId) (snap : Snapshot A) :
    (j.snapshotIn id snap).2.streamMut id = (j.streamMut id).snapshot snap :=
  streamMut_put_self _ _ _

/-- What a snapshot leaves alone in its own stream, it leaves alone in every stream. -/
theorem snapshotIn_frame {β : Type} (read : Stream A → β) {snap : Snapshot A}
    (kept : ∀ s : Stream A, read (s.snapshot snap) = read s) (j : MemoryJournal A)
    (id other : StreamId) :
    read ((j.snapshotIn id snap).2.streamMut other) = read (j.streamMut other) := by
  by_cases here : other = id
  · subst here
    rw [streamMut_snapshotIn, kept]
  · exact congrArg read (streamMut_put_ne _ _ here)

/-- An untouched stream answers as a stream that holds its genesis snapshot only. -/
theorem streamMut_untouched (untouched : j.streams[id]? = none) :
    j.streamMut id = .new j.genesisSnapshot := by
  simp only [streamMut, untouched]

theorem streamMut_touched {s : Stream A} (touched : j.streams[id]? = some s) :
    j.streamMut id = s := by
  simp only [streamMut, touched]

@[simp] theorem entropyPos_eq (j : MemoryJournal A) (id : StreamId) (seq : Nat) :
    Journal.entropyPos j id seq = (j.streamMut id).entropyPos seq := by
  show j.entropyPos id seq = _
  unfold entropyPos
  cases touched : j.streams[id]? with
  | some s => rw [streamMut_touched touched]
  | none =>
    rw [streamMut_untouched touched]
    by_cases genesis : seq = 0
    · subst genesis
      rfl
    · have unstored : ([j.genesisSnapshot].find? fun snap => snap.atSeq == seq) = none := by
        rw [List.find?_eq_none]
        intro snap member same
        obtain rfl := List.mem_singleton.mp member
        exact genesis (beq_iff_eq.mp same).symm
      have past : (Stream.new j.genesisSnapshot).headNat < seq := by
        rw [Stream.headNat_new]
        omega
      rw [Stream.entropyPos_refused (.inl past) unstored]
      exact if_neg genesis

@[simp] theorem head_eq (j : MemoryJournal A) (id : StreamId) :
    Journal.head j id = (j.streamMut id).head := by
  show j.head id = _
  unfold head
  cases touched : j.streams[id]? with
  | some s => rw [streamMut_touched touched]
  | none => rw [streamMut_untouched touched]; rfl

@[simp] theorem eventsSince_eq (j : MemoryJournal A) (id : StreamId) (after : Option Nat) :
    Journal.eventsSince j id after = (j.streamMut id).eventsSince after := by
  show j.eventsSince id after = _
  unfold eventsSince
  cases touched : j.streams[id]? with
  | some s => rw [streamMut_touched touched]
  | none =>
    rw [streamMut_untouched touched]
    simp [Stream.eventsSince, Stream.new]

@[simp] theorem latestSnapshot_eq (j : MemoryJournal A) (id : StreamId) :
    Journal.latestSnapshot j id = .ok (j.streamMut id).latestSnapshot := by
  show j.latestSnapshot id = _
  unfold latestSnapshot
  cases touched : j.streams[id]? with
  | some s => rw [streamMut_touched touched]
  | none => rw [streamMut_untouched touched]; rfl

@[simp] theorem retainedFrom_eq (j : MemoryJournal A) (id : StreamId) :
    RetainableJournal.retainedFrom j id = (j.streamMut id).retainedFrom := by
  show j.retainedFrom id = _
  unfold retainedFrom
  cases touched : j.streams[id]? with
  | some s => rw [streamMut_touched touched]
  | none => rw [streamMut_untouched touched]; rfl

/-- An untouched stream has its genesis to branch from, and no other point. -/
theorem fork_untouched_iff {branch : MemoryJournal A} (untouched : j.streams[id]? = none) :
    j.fork id seq = .ok branch ↔ seq = 0 ∧ branch = .new j.genesis := by
  unfold fork
  simp only [untouched]
  split
  · rename_i genesis
    simp [genesis, eq_comm]
  · rename_i later
    simp [later]

theorem fork_touched_iff {branch : MemoryJournal A} {s : Stream A}
    (touched : j.streams[id]? = some s) :
    j.fork id seq = .ok branch ↔
      ∃ s', s.fork seq = .ok s' ∧ branch = (MemoryJournal.new j.genesis).put id s' := by
  unfold fork
  simp only [touched]
  cases s.fork seq with
  | error error => simp
  | ok s' => simp [eq_comm]

/-- A granted fork is the forked stream in an otherwise fresh journal. -/
theorem fork_ok {branch : MemoryJournal A} (granted : j.fork id seq = .ok branch) :
    branch.genesis = j.genesis ∧ (j.streamMut id).fork seq = .ok (branch.streamMut id) ∧
      ∀ other, other ≠ id → branch.streamMut other = .new j.genesisSnapshot := by
  cases touched : j.streams[id]? with
  | none =>
    rw [streamMut_untouched touched]
    obtain ⟨rfl, rfl⟩ := (fork_untouched_iff touched).mp granted
    refine ⟨rfl, ?_, fun other _ => streamMut_new _ _⟩
    rw [streamMut_new, Stream.fork_ok]
    exact ⟨Nat.le_refl 0, .inl rfl, ⟨j.genesisSnapshot, by simp [Stream.new], Nat.le_refl 0⟩, rfl⟩
  | some s =>
    rw [streamMut_touched touched]
    obtain ⟨s', forked, rfl⟩ := (fork_touched_iff touched).mp granted
    refine ⟨rfl, by rw [streamMut_put_self, forked], ?_⟩
    intro other distinct
    rw [streamMut_put_ne _ _ distinct]
    exact streamMut_new _ _

/-- The journal grants the forks its stream does. -/
theorem fork_granted {s' : Stream A} (forked : (j.streamMut id).fork seq = .ok s') :
    ∃ branch, j.fork id seq = .ok branch ∧ branch.streamMut id = s' := by
  obtain ⟨branch, granted⟩ : ∃ branch, j.fork id seq = .ok branch := by
    cases touched : j.streams[id]? with
    | none =>
      rw [streamMut_untouched touched] at forked
      have bound := ((Stream.fork_ok _ _ _).mp forked).1
      exact ⟨_, (fork_untouched_iff touched).mpr ⟨Nat.le_zero.mp bound, rfl⟩⟩
    | some s =>
      rw [streamMut_touched touched] at forked
      exact ⟨_, (fork_touched_iff touched).mpr ⟨s', forked, rfl⟩⟩
  refine ⟨branch, granted, ?_⟩
  have same := (fork_ok granted).2.1
  rw [forked] at same
  exact (Except.ok.inj same).symm

/-- An untouched stream has nothing to truncate. -/
theorem truncateBefore_untouched (untouched : j.streams[id]? = none) :
    j.truncateBefore id seq = (.error (.unknownSeq seq), j) := by
  unfold truncateBefore
  simp only [untouched]

theorem truncateBefore_touched_iff {s : Stream A} (touched : j.streams[id]? = some s) :
    j.truncateBefore id seq = (.ok (), j') ↔
      ∃ s', s.truncateBefore seq = .ok s' ∧ j' = j.put id s' := by
  unfold truncateBefore
  simp only [touched]
  cases s.truncateBefore seq with
  | error error => simp
  | ok s' => simp [eq_comm]

/-- Truncation needs a touched stream; it is then the stream's own truncation. -/
theorem truncateBefore_ok (accepted : (j.truncateBefore id seq).1 = .ok ()) :
    ∃ s s', j.streams[id]? = some s ∧ s.truncateBefore seq = .ok s' ∧
      (j.truncateBefore id seq).2 = j.put id s' := by
  have outcome : j.truncateBefore id seq = (.ok (), (j.truncateBefore id seq).2) :=
    Prod.ext accepted rfl
  cases touched : j.streams[id]? with
  | none =>
    rw [truncateBefore_untouched touched] at accepted
    cases accepted
  | some s =>
    obtain ⟨s', cut, written⟩ := (truncateBefore_touched_iff touched).mp outcome
    exact ⟨s, s', rfl, cut, written⟩

theorem truncateBefore_error {error : JournalError}
    (refused : (j.truncateBefore id seq).1 = .error error) : (j.truncateBefore id seq).2 = j := by
  unfold truncateBefore at refused ⊢
  cases touched : j.streams[id]? with
  | none => rfl
  | some s =>
    simp only [touched] at refused ⊢
    cases cut : s.truncateBefore seq with
    | error error => rfl
    | ok s' => simp only [cut, reduceCtorEq] at refused

end MemoryJournal

/-! ## Traced journals -/

/-- A journal, and beside it every record ever appended to each of its streams. -/
structure Traced (A : AggregateRules) where
  journal : MemoryJournal A
  history : StreamId → List (Record A)

/-- The operations that change a journal. A fork continues on the branch. -/
inductive JournalOp (A : AggregateRules) where
  | append (stream : StreamId) (events : List A.Event) (pos : DrawPos)
  | snapshot (stream : StreamId) (snap : Snapshot A)
  | truncate (stream : StreamId) (seq : Nat)
  | fork (stream : StreamId) (seq : Nat)

namespace Traced

/-- A fresh journal, with nothing appended. -/
def fresh (genesis : A.State) : Traced A := ⟨.new genesis, fun _ => []⟩

/-- One operation. A branch's history is the source's first `seq` records. -/
def step (t : Traced A) : JournalOp A → Traced A
  | .append stream events pos =>
    ⟨(t.journal.appendIn stream events pos).2,
      fun id => if id = stream then t.history id ++ [⟨events, pos⟩] else t.history id⟩
  | .snapshot stream snap => { t with journal := (t.journal.snapshotIn stream snap).2 }
  | .truncate stream seq => { t with journal := (t.journal.truncateBefore stream seq).2 }
  | .fork stream seq =>
    match t.journal.fork stream seq with
    | .error _ => t
    | .ok branch => ⟨branch, fun id => if id = stream then (t.history id).take seq else []⟩

end Traced

/-- Which positions may be appended to a stream, which snapshots of it may be stored, given
its history, and whether the run may continue on a branch. -/
structure Policy (A : AggregateRules) where
  append : Stream A → DrawPos → Prop
  snapshot : Stream A → List (Record A) → Snapshot A → Prop
  fork : Prop

/-- The operations of a traced journal the policy admits. -/
def Policy.admits (policy : Policy A) (t : Traced A) : JournalOp A → Prop
  | .append stream _ pos => policy.append (t.journal.streamMut stream) pos
  | .snapshot stream snap => policy.snapshot (t.journal.streamMut stream) (t.history stream) snap
  | .truncate _ _ => True
  | .fork _ _ => policy.fork

/-- Everything is admitted. -/
def Policy.any : Policy A := ⟨fun _ _ => True, fun _ _ _ => True, True⟩

/-- Any snapshot, but no fork. -/
def Policy.linear : Policy A := ⟨fun _ _ => True, fun _ _ _ => True, False⟩

/-- The traced journals reached from a fresh one by operations of the policy. -/
abbrev Reached (genesis : A.State) (policy : Policy A) (t : Traced A) : Prop :=
  Lib.Reaches Traced.step policy.admits (Traced.fresh genesis) t

/-- A fact about a stream and its history that a new stream has and every operation on the
stream keeps. -/
structure StreamInv (genesis : A.State) (policy : Policy A)
    (Inv : List (Record A) → Stream A → Prop) : Prop where
  new : Inv [] (.new ⟨genesis, 0, 0, 0⟩)
  append : ∀ {history s} (events : List A.Event) (pos : DrawPos), Inv history s →
    policy.append s pos → Inv (history ++ [⟨events, pos⟩]) (s.append events pos)
  snapshot : ∀ {history s snap}, Inv history s → policy.snapshot s history snap →
    Inv history (s.snapshot snap)
  truncate : ∀ {history s s' seq}, Inv history s → s.truncateBefore seq = .ok s' → Inv history s'
  fork : policy.fork → ∀ {history s s' seq}, Inv history s → s.fork seq = .ok s' →
    Inv (history.take seq) s'

/-- What every operation on one stream keeps holds of every stream of a journal reached. -/
theorem Reached.stream {genesis : A.State} {policy : Policy A}
    {Inv : List (Record A) → Stream A → Prop} (inv : StreamInv genesis policy Inv) {t : Traced A}
    (reached : Reached genesis policy t) :
    t.journal.genesis = genesis ∧ ∀ id, Inv (t.history id) (t.journal.streamMut id) := by
  refine @Lib.Reaches.invariant _ _ _ _ _ _ (fun t => t.journal.genesis = genesis ∧
    ∀ id, Inv (t.history id) (t.journal.streamMut id)) ⟨rfl, fun id => ?_⟩ ?_ reached
  · rw [Traced.fresh, MemoryJournal.streamMut_new]
    exact inv.new
  · rintro t op ⟨same, holds⟩ admitted
    -- one write to one stream leaves the others as they were
    have written : ∀ (stream : StreamId) (history : List (Record A)) (s : Stream A),
        Inv history s → ∀ id, Inv (if id = stream then history else t.history id)
          ((t.journal.put stream s).streamMut id) := by
      intro stream history s kept id
      by_cases touched : id = stream
      · subst touched
        rw [if_pos rfl, MemoryJournal.streamMut_put_self]
        exact kept
      · rw [if_neg touched, MemoryJournal.streamMut_put_ne _ _ touched]
        exact holds id
    have unchanged : ∀ stream id, (if id = stream then t.history stream else t.history id) =
        t.history id := by
      intro stream id
      split
      · rename_i touched
        rw [touched]
      · rfl
    cases op with
    | append stream events pos =>
      refine ⟨same, fun id => ?_⟩
      have kept := written stream _ _ (inv.append events pos (holds stream) admitted) id
      simp only [Traced.step, MemoryJournal.appendIn]
      by_cases touched : id = stream
      · subst touched
        simpa only [if_pos] using kept
      · simpa only [if_neg touched] using kept
    | snapshot stream snap =>
      refine ⟨same, fun id => ?_⟩
      have kept := written stream _ _ (inv.snapshot (holds stream) admitted) id
      rw [unchanged] at kept
      exact kept
    | truncate stream seq =>
      simp only [Traced.step]
      cases outcome : (t.journal.truncateBefore stream seq).1 with
      | error error =>
        rw [MemoryJournal.truncateBefore_error outcome]
        exact ⟨same, holds⟩
      | ok _ =>
        obtain ⟨s, s', touched, cut, result⟩ := MemoryJournal.truncateBefore_ok outcome
        have before := holds stream
        rw [MemoryJournal.streamMut_touched touched] at before
        rw [result]
        refine ⟨same, fun id => ?_⟩
        have kept := written stream _ _ (inv.truncate before cut) id
        rw [unchanged] at kept
        exact kept
    | fork stream seq =>
      simp only [Traced.step]
      cases outcome : t.journal.fork stream seq with
      | error error => exact ⟨same, holds⟩
      | ok branch =>
        obtain ⟨genesis_eq, forked, others⟩ := MemoryJournal.fork_ok outcome
        refine ⟨genesis_eq.trans same, fun id => ?_⟩
        by_cases touched : id = stream
        · subst touched
          simp only [if_pos]
          exact inv.fork admitted (holds id) forked
        · simp only [if_neg touched, others id touched, MemoryJournal.genesisSnapshot, same]
          exact inv.new

end Ironstate
