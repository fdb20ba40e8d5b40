import Ironstate.Journal.Fixture
import Ironstate.Journal.Trace
import Ironstate.Journal.Proofs.Delivery

/-!
# What a delivery leaves behind

A delivery executes the commands of `react` up to the first that fails. Whatever the outcome,
the commands before it are durable, each decided on the state the one before left (`Ran`), and
the aggregate is still the replay of its stream (`ReplayOf`). The journal is any one over a
`MemoryJournal` whose appends may fail (`OverMemory`), at whichever calls it likes.
-/

namespace Ironstate

/-! ## Journals whose appends may fail -/

/-- Reads are those of a `MemoryJournal`; an append fails and leaves it alone, or is its append. -/
class OverMemory (J : Type) {A : outParam AggregateRules} [Journal J A Unit] where
  inner : J → MemoryJournal A
  head_eq : ∀ (j : J) (stream : StreamId), Journal.head j stream = Journal.head (inner j) stream
  entropyPos_eq : ∀ (j : J) (stream : StreamId) (seq : Nat),
    Journal.entropyPos j stream seq = Journal.entropyPos (inner j) stream seq
  appendIn_cases : ∀ (j : J) (stream : StreamId) (events : List A.Event) (pos : DrawPos),
    (∃ error j', Journal.appendIn j () stream events pos = (.error error, j', ()) ∧
      inner j' = inner j) ∨
    ∃ seq j', Journal.appendIn j () stream events pos = (.ok seq, j', ()) ∧
      inner j' = ((inner j).appendIn stream events pos).2

export OverMemory (inner)

instance {A : AggregateRules} : OverMemory (MemoryJournal A) where
  inner j := j
  head_eq _ _ := rfl
  entropyPos_eq _ _ _ := rfl
  appendIn_cases _ _ _ _ := .inr ⟨_, _, rfl, rfl⟩

instance {J : Type} {A : AggregateRules} [Journal J A Unit] [OverMemory J] :
    OverMemory (FaultInjector J) where
  inner j := inner j.inner
  head_eq j stream := OverMemory.head_eq j.inner stream
  entropyPos_eq j stream seq := OverMemory.entropyPos_eq j.inner stream seq
  appendIn_cases := by
    rintro ⟨j, armed⟩ stream events pos
    cases armed with
    | true => exact .inl ⟨_, _, rfl, rfl⟩
    | false =>
      rcases OverMemory.appendIn_cases j stream events pos with
        ⟨error, j', failed, kept⟩ | ⟨seq, j', made, written⟩
      · exact .inl ⟨error, ⟨j', false⟩, by rw [FaultInjector.appendIn_unarmed, failed], kept⟩
      · exact .inr ⟨seq, ⟨j', false⟩, by rw [FaultInjector.appendIn_unarmed, made], written⟩

/-- A `FaultInjector` that is armed, or not, before each append, so that any append of a delivery
may be the one that fails. -/
structure Rearmed (J : Type) where
  journal : FaultInjector J
  schedule : List Bool

instance {J : Type} {A : AggregateRules} [Journal J A Unit] : Journal (Rearmed J) A Unit where
  appendIn j tx stream events pos :=
    let armed := j.journal.arm (j.schedule.headD false)
    let (result, journal, tx) := Journal.appendIn armed tx stream events pos
    (result, ⟨journal, j.schedule.tail⟩, tx)
  snapshotIn j tx stream snapshot :=
    let (result, journal, tx) := Journal.snapshotIn j.journal tx stream snapshot
    (result, { j with journal := journal }, tx)
  entropyPos j := Journal.entropyPos j.journal
  head j := Journal.head j.journal
  eventsSince j := Journal.eventsSince j.journal
  latestSnapshot j := Journal.latestSnapshot j.journal

instance {J : Type} {A : AggregateRules} [Journal J A Unit] [OverMemory J] :
    OverMemory (Rearmed J) where
  inner j := inner j.journal
  head_eq j stream := OverMemory.head_eq j.journal stream
  entropyPos_eq j stream seq := OverMemory.entropyPos_eq j.journal stream seq
  appendIn_cases := by
    intro j stream events pos
    have armed : inner (j.journal.arm (j.schedule.headD false)) = inner j.journal := by
      show inner (j.journal.arm _).inner = _
      rw [FaultInjector.inner_arm]
      rfl
    -- what the injector answers, with the rest of the schedule
    have answer {out : Except JournalError Nat × FaultInjector J × Unit}
        (appended : Journal.appendIn (j.journal.arm (j.schedule.headD false)) () stream events pos =
          out) :
        Journal.appendIn j () stream events pos = (out.1, ⟨out.2.1, j.schedule.tail⟩, out.2.2) :=
      congrArg (fun out => (out.1, Rearmed.mk out.2.1 j.schedule.tail, out.2.2)) appended
    rcases OverMemory.appendIn_cases (j.journal.arm (j.schedule.headD false)) stream events pos with
      ⟨error, journal, failed, kept⟩ | ⟨seq, journal, made, written⟩
    · exact .inl ⟨error, ⟨journal, j.schedule.tail⟩, answer failed, kept.trans armed⟩
    · exact .inr ⟨seq, ⟨journal, j.schedule.tail⟩, answer made, armed ▸ written⟩

/-! ## Replay of a stream that grows -/

section Replay

variable {A : AggregateRules}

/-- The aggregate is the replay of the stream, from a base that is not past its head. -/
structure ReplayOf (j : MemoryJournal A) (stream : StreamId) (base : Snapshot A)
    (aggregate : Aggregate A) : Prop where
  bound : base.atSeq ≤ (Journal.head j stream).getD 0
  replayed : ∃ events, Journal.eventsSince j stream (some base.atSeq) = .ok events ∧
    replay base events = .ok aggregate

/-- A history that a stream retains, with nothing known of what it discarded. -/
def Stream.padded (s : Stream A) : List (Record A) :=
  List.replicate s.truncated ⟨[], 0⟩ ++ s.records

theorem Stream.retains_padded (s : Stream A) :
    Lib.Retains s.padded s.records s.truncated := by
  refine ⟨?_, ?_⟩
  · simp [Stream.padded]
  · simp [Stream.padded]

theorem Stream.padded_append (s : Stream A) (events : List A.Event) (pos : DrawPos) :
    (s.append events pos).padded = s.padded ++ [⟨events, pos⟩] :=
  (List.append_assoc _ _ _).symm

/-- A read lists the new record last. -/
theorem Stream.eventsSince_append {s : Stream A} {after : Option Nat}
    {listed : List (VersionedEvent A)} (bound : after.getD 0 ≤ s.headNat)
    (read : s.eventsSince after = .ok listed) (events : List A.Event) (pos : DrawPos) :
    (s.append events pos).eventsSince after =
      .ok (listed ++ tagged (s.headNat + 1) ⟨events, pos⟩) := by
  have above : s.truncated ≤ after.getD 0 := by
    by_contra below
    rw [Stream.eventsSince_below (by omega)] at read
    cases read
  have length := Stream.headNat_eq s.retains_padded
  rw [Stream.eventsSince_eq s.retains_padded above] at read
  obtain rfl := Except.ok.inj read
  rw [Stream.eventsSince_eq (s.append events pos).retains_padded above, Stream.padded_append]
  unfold eventsAfter
  rw [List.drop_append_of_le_length (by omega), Lib.readings_append]
  simp only [Lib.readings_cons, Lib.readings_nil, List.append_nil, List.length_drop]
  congr 3
  omega

theorem replay_append (base : Snapshot A) (events later : List (VersionedEvent A))
    {aggregate : Aggregate A} (replayed : replay base events = .ok aggregate) :
    replay base (events ++ later) =
      .ok (later.foldl (fun aggregate stored => aggregate.evolve stored.event) aggregate) := by
  unfold replay at replayed ⊢
  rw [List.foldl_append, Except.ok.inj replayed]

/-- An append and the evolution by its events keep the aggregate the replay of the stream. -/
theorem ReplayOf.append {j : MemoryJournal A} {stream : StreamId} {base : Snapshot A}
    {aggregate : Aggregate A} (before : ReplayOf j stream base aggregate) (events : List A.Event)
    (pos : DrawPos) :
    ReplayOf (j.appendIn stream events pos).2 stream base
      ⟨events.foldl A.evolve aggregate.state⟩ := by
  obtain ⟨bound, listed, read, replayed⟩ := before
  rw [MemoryJournal.head_eq, Stream.head_getD] at bound
  rw [MemoryJournal.eventsSince_eq] at read
  refine ⟨?_, ?_⟩
  · rw [MemoryJournal.head_eq, Stream.head_getD, MemoryJournal.streamMut_appendIn,
      Stream.headNat_append]
    omega
  · rw [MemoryJournal.eventsSince_eq, MemoryJournal.streamMut_appendIn,
      Stream.eventsSince_append (by simpa using bound) read]
    refine ⟨_, rfl, ?_⟩
    rw [replay_append base listed _ replayed, foldl_tagged]

end Replay

/-! ## The commands of one delivery -/

section Delivery

variable {F T : AggregateRules} {J E : Type} [EntropySource E] [CtxEntropy T.Ctx E]
  [Journal J T Unit] {targetStream : StreamId}

/-- The commands executed one after the other, each decided on the state the one before left,
and the records they appended. -/
inductive Ran (targetStream : StreamId) :
    List T.Command → Live T J → List (Record T) → Live T J → Prop where
  | nil {target : Live T J} : Ran targetStream [] target [] target
  | cons {command : T.Command} {commands : List T.Command} {target final : Live T J}
      {pos : DrawPos} {events : List T.Event} {drawn : T.Ctx} {seq : Nat} {journal' : J}
      {records : List (Record T)}
      (head : headPos target.journal targetStream = .ok pos)
      (decided : target.aggregate.decideOnly command target.ctx = (.ok events, drawn))
      (made : Journal.appendIn target.journal () targetStream events ((ctxDraws drawn).getD pos) =
        (.ok seq, journal', ()))
      (rest : Ran targetStream commands
        ⟨journal', ⟨events.foldl T.evolve target.aggregate.state⟩, drawn⟩ records final) :
      Ran targetStream (command :: commands) target
        (⟨events, (ctxDraws drawn).getD pos⟩ :: records) final

variable (targetStream) in
/-- The loop runs all commands, or all up to the first that fails. -/
theorem executeAll_cases (commands : List T.Command) (target : Live T J) :
    (∃ records after, executeAll targetStream commands target = (.ok (), after) ∧
      Ran targetStream commands target records after) ∨
    ∃ error records mid done command rest after, commands = done ++ command :: rest ∧
      Ran targetStream done target records mid ∧
      execute mid.journal targetStream mid.aggregate command mid.ctx =
        ⟨.error error, after.journal, after.aggregate, after.ctx⟩ ∧
      executeAll targetStream commands target = (.error error, after) := by
  induction commands generalizing target with
  | nil => exact .inl ⟨[], target, rfl, .nil⟩
  | cons command commands ih =>
    have spec := execute_spec target.journal targetStream target.aggregate command target.ctx
    cases outcome : execute target.journal targetStream target.aggregate command target.ctx with
    | mk result journal aggregate ctx =>
      rw [outcome] at spec
      cases result with
      | error error =>
        right
        refine ⟨error, [], target, [], command, commands, ⟨journal, aggregate, ctx⟩, rfl, .nil,
          outcome, ?_⟩
        simp only [executeAll, outcome]
      | ok seq =>
        cases spec with
        | appended head decided made =>
          simp only [executeAll, outcome]
          rcases ih ⟨journal, _, ctx⟩ with
            ⟨records, after, looped, ran⟩ |
            ⟨error, records, mid, done, failing, rest, after, split, ran, failed, looped⟩
          · exact .inl ⟨_, after, looped, .cons head decided made ran⟩
          · right
            exact ⟨error, _, mid, command :: done, failing, rest, after, by rw [split]; rfl,
              .cons head decided made ran, failed, looped⟩

namespace Ran

variable {commands : List T.Command} {target final : Live T J} {records : List (Record T)}

variable [OverMemory J]

/-- An append that was made is one of the memory journal. -/
theorem written {j j' : J} {events : List T.Event} {pos : DrawPos} {seq : Nat}
    (made : Journal.appendIn j () targetStream events pos = (.ok seq, j', ())) :
    inner j' = ((inner j).appendIn targetStream events pos).2 := by
  rcases OverMemory.appendIn_cases j targetStream events pos with
    ⟨error, j'', failed, _⟩ | ⟨seq', j'', made', written⟩
  · cases made.symm.trans failed
  · cases made.symm.trans made'
    exact written

/-- The target stream gains the records, and its snapshots and horizon stay. -/
theorem gained (ran : Ran targetStream commands target records final) :
    (inner final.journal).streamMut targetStream =
      { (inner target.journal).streamMut targetStream with
        records := ((inner target.journal).streamMut targetStream).records ++ records } := by
  induction ran with
  | nil => simp
  | cons _ _ made _ ih =>
    rw [ih, written made, MemoryJournal.streamMut_appendIn]
    simp [Stream.append]

theorem replayOf (ran : Ran targetStream commands target records final) {base : Snapshot T}
    (before : ReplayOf (inner target.journal) targetStream base target.aggregate) :
    ReplayOf (inner final.journal) targetStream base final.aggregate := by
  induction ran with
  | nil => exact before
  | cons _ _ made _ ih =>
    apply ih
    rw [written made]
    exact before.append _ _

end Ran

/-- A command that fails leaves the memory journal and the aggregate alone. -/
theorem execute_failed [OverMemory J] {journal journal' : J} {aggregate aggregate' : Aggregate T}
    {command : T.Command} {ctx ctx' : T.Ctx} {error : ExecuteError T}
    (failed : execute journal targetStream aggregate command ctx =
      ⟨.error error, journal', aggregate', ctx'⟩) :
    inner journal' = inner journal ∧ aggregate' = aggregate := by
  have spec := execute_spec journal targetStream aggregate command ctx
  rw [failed] at spec
  cases spec with
  | headFailed => exact ⟨rfl, rfl⟩
  | rejected => exact ⟨rfl, rfl⟩
  | appendFailed head decided refused =>
    refine ⟨?_, rfl⟩
    rcases OverMemory.appendIn_cases journal targetStream _ _ with
      ⟨error', j', failed', kept⟩ | ⟨seq, j', made, _⟩
    · cases refused.symm.trans failed'
      exact kept
    · cases refused.symm.trans made

end Delivery

/-! ## The accounts of a delivery -/

section Accounts

variable {F T : AggregateRules} {J E : Type} [EntropySource E] [CtxEntropy T.Ctx E] [React F T]
  [Journal J T Unit] [OverMemory J]

/-- What one `deliver` answered, and left behind. -/
structure Accounted (sub : Subscription) (source : SourceEvent F) (targetStream : StreamId)
    (target : Live T J) (answer : Except (ExecuteError T) Delivered) (sub' : Subscription)
    (after : Live T J) : Prop where
  replay : ∀ base, ReplayOf (inner target.journal) targetStream base target.aggregate →
    ReplayOf (inner after.journal) targetStream base after.aggregate
  duplicate : answer = .ok .duplicate → sub' = sub ∧ after = target
  applied : answer = .ok .applied → sub'.mark source.stream = some source.atSeq ∧
    ∃ records, Ran targetStream (react target.aggregate.state source.event source.atSeq) target
        records after ∧
      (inner after.journal).streamMut targetStream =
        { (inner target.journal).streamMut targetStream with
          records := ((inner target.journal).streamMut targetStream).records ++ records }
  failed : ∀ error, answer = .error error → sub' = sub ∧
    ∃ done command rest records mid,
      react target.aggregate.state source.event source.atSeq = done ++ command :: rest ∧
      Ran targetStream done target records mid ∧
      execute mid.journal targetStream mid.aggregate command mid.ctx =
        ⟨.error error, after.journal, after.aggregate, after.ctx⟩ ∧
      after.aggregate = mid.aggregate ∧
      (inner after.journal).streamMut targetStream =
        { (inner target.journal).streamMut targetStream with
          records := ((inner target.journal).streamMut targetStream).records ++ records }
  others : ∀ other, other ≠ source.stream → sub'.mark other = sub.mark other

/-- Every outcome of a delivery is accounted for, and no run of deliveries takes a mark back. -/
theorem deliver_accounted (sub : Subscription) (source : SourceEvent F) (targetStream : StreamId)
    (target : Live T J) :
    Accounted sub source targetStream target
        (sub.deliver source targetStream target).1 (sub.deliver source targetStream target).2.1
        (sub.deliver source targetStream target).2.2 ∧
      ∀ (calls : List (Call F T J)) (stream : StreamId) (mark : Nat),
        sub.mark stream = some mark →
          ∃ mark', (sub.after calls).mark stream = some mark' ∧ mark ≤ mark' := by
  refine ⟨?_, ?_⟩
  · by_cases marked : sub.Marked source.stream source.atSeq
    · rw [Subscription.deliver_marked marked]
      exact ⟨fun _ before => before, fun _ => ⟨rfl, rfl⟩, nofun, nofun, fun _ _ => rfl⟩
    · rw [Subscription.deliver_unmarked marked]
      rcases executeAll_cases targetStream
          (react target.aggregate.state source.event source.atSeq) target with
        ⟨records, after, looped, ran⟩ |
        ⟨error, records, mid, done, command, rest, after, split, ran, failed, looped⟩
      · simp only [looped]
        refine ⟨fun _ before => ran.replayOf before, nofun, fun _ => ?_, nofun, ?_⟩
        · exact ⟨Subscription.mark_insert_self sub _ _, records, ran, ran.gained⟩
        · intro other distinct
          exact Subscription.mark_insert_ne sub _ distinct
      · obtain ⟨kept, same⟩ := execute_failed failed
        simp only [looped]
        refine ⟨?_, nofun, nofun, ?_, fun _ _ => rfl⟩
        · intro base before
          rw [kept, same]
          exact ran.replayOf before
        · rintro _ ⟨rfl⟩
          refine ⟨rfl, done, command, rest, records, mid, split, ran, failed, same, ?_⟩
          rw [kept]
          exact ran.gained
  · intro calls stream mark present
    obtain ⟨mark', kept, reached⟩ :=
      (Subscription.marked_after_iff calls).mpr (.inl ⟨mark, present, Nat.le_refl mark⟩)
    exact ⟨mark', kept, reached⟩

end Accounts

section Halfway

open Fixture

/-- A tally that answers every bump of another with two of its own. -/
instance : React (Tally Rng) (Tally Rng) := ⟨fun _ _ _ => [.bump, .bump]⟩

/-- The first append of the delivery is made, the second fails. -/
def halfwayTarget : Live (Tally Rng) (Rearmed (MemoryJournal (Tally Rng))) :=
  ⟨⟨.new (.new Fixture.genesis), [false, true]⟩, ⟨Fixture.genesis⟩, Fixture.ctx 0⟩

def halfway : Except (ExecuteError (Tally Rng)) Delivered × Subscription ×
    Live (Tally Rng) (Rearmed (MemoryJournal (Tally Rng))) :=
  Subscription.new.deliver (⟨"match-1", 1, TallyEvent.bumped⟩ : SourceEvent (Tally Rng)) "tally"
    halfwayTarget

/-- The first of the two commands is durable, the aggregate is its replay, and nothing is
marked. -/
theorem deliver_accounted_halfway :
    ReplayOf (inner halfway.2.2.journal) "tally" ⟨Fixture.genesis, 0, 0, 0⟩ ⟨counted 1⟩ ∧
      halfway.2.1.mark "match-1" = none := by
  have accounted := (deliver_accounted Subscription.new (⟨"match-1", 1, TallyEvent.bumped⟩ :
    SourceEvent (Tally Rng)) "tally" halfwayTarget).1
  refine ⟨accounted.replay _ ⟨Nat.zero_le _, [], rfl, rfl⟩, ?_⟩
  obtain ⟨unmarked, -⟩ := accounted.failed (.journal (.storage "injected append failure")) rfl
  exact (congrArg (Subscription.mark · "match-1") unmarked).trans (Subscription.mark_new _)

end Halfway

end Ironstate
