import Ironstate.Journal.Fixture
import Ironstate.Journal.Proofs.Resume

/-!
# What a subscription delivers

One high-water mark for each source stream decides every delivery. A stream delivered in
order is therefore applied completely exactly when its events have strictly increasing
positions, that is when no record holds two (`deliverAll_exactly_once_iff`); and a failed
delivery is attempted again exactly until the mark has passed it
(`redelivery_attempted_iff`).
-/

namespace Ironstate

variable {F T : AggregateRules} {J E : Type} [EntropySource E] [CtxEntropy T.Ctx E]
  [Journal J T Unit] [React F T]

/-! ## The mark -/

namespace Subscription

variable {sub : Subscription} {stream : StreamId} {seq : Nat}

theorem not_marked_new (stream : StreamId) (seq : Nat) : ¬Subscription.new.Marked stream seq := by
  intro marked
  obtain ⟨mark, present, -⟩ := marked
  rw [mark_new] at present
  cases present

/-- What lies at or below a marked position is marked. -/
theorem Marked.mono {lower : Nat} (below : lower ≤ seq) :
    sub.Marked stream seq → sub.Marked stream lower := by
  intro marked
  obtain ⟨mark, present, reached⟩ := marked
  exact ⟨mark, present, Nat.le_trans below reached⟩

theorem marked_insert_iff (sub : Subscription) (stream : StreamId) (mark seq : Nat) :
    Marked ⟨sub.marks.insert stream mark⟩ stream seq ↔ seq ≤ mark := by
  unfold Marked
  rw [mark_insert_self]
  constructor
  · intro marked
    obtain ⟨_, same, reached⟩ := marked
    obtain rfl := Option.some.inj same
    exact reached
  · intro reached
    exact ⟨mark, rfl, reached⟩

/-- One delivery marks what was marked, and what it applied. -/
theorem marked_deliver_iff (sub : Subscription) (source : SourceEvent F)
    (targetStream : StreamId) (target : Live T J) (stream : StreamId) (seq : Nat) :
    (sub.deliver source targetStream target).2.1.Marked stream seq ↔
      sub.Marked stream seq ∨ source.stream = stream ∧ seq ≤ source.atSeq ∧
        (sub.deliver source targetStream target).1 = .ok .applied := by
  by_cases marked : sub.Marked source.stream source.atSeq
  · rw [deliver_marked marked]
    constructor
    · intro already
      exact .inl already
    · intro marked
      rcases marked with already | ⟨-, -, applied⟩
      · exact already
      · cases applied
  · rw [deliver_unmarked marked]
    rcases executeAll targetStream (react target.aggregate.state source.event source.atSeq)
      target with ⟨error | _, after⟩
    · constructor
      · intro already
        exact .inl already
      · intro marked
        rcases marked with already | ⟨-, -, applied⟩
        · exact already
        · cases applied
    · by_cases here : source.stream = stream
      · subst here
        rw [marked_insert_iff]
        constructor
        · intro reached
          exact .inr ⟨rfl, reached, rfl⟩
        · intro marked
          rcases marked with already | ⟨-, reached, -⟩
          · -- the mark only ever advances
            by_cases reached : seq ≤ source.atSeq
            · exact reached
            · exact absurd (already.mono (by omega)) marked
          · exact reached
      · have kept : ∀ mark, Subscription.mark ⟨sub.marks.insert source.stream source.atSeq⟩ stream =
            some mark ↔ sub.mark stream = some mark := by
          intro mark
          rw [mark_insert_ne sub _ (fun same => here same.symm)]
        constructor
        · intro marked
          obtain ⟨mark, present, reached⟩ := marked
          exact .inl ⟨mark, (kept mark).mp present, reached⟩
        · intro marked
          rcases marked with ⟨mark, present, reached⟩ | ⟨same, -, -⟩
          · exact ⟨mark, (kept mark).mpr present, reached⟩
          · exact absurd same here

end Subscription

/-! ## A whole stream, in order -/

section Whole

variable {stream targetStream : StreamId}

/-- In a run of deliveries that all succeed, all are applied exactly when each position lies
above the ones before it. -/
theorem deliverAll_applied_iff (events : List (VersionedEvent F)) (sub : Subscription)
    (target : Live T J)
    (succeeded : ∀ answer ∈ (deliverAll stream targetStream events sub target).1,
      ∃ delivered, answer = .ok delivered) :
    (∀ answer ∈ (deliverAll stream targetStream events sub target).1, answer = .ok .applied) ↔
      (∀ stored ∈ events, ¬sub.Marked stream stored.seq) ∧
        events.Pairwise fun earlier later => earlier.seq < later.seq := by
  induction events generalizing sub target with
  | nil =>
    simp only [deliverAll, List.not_mem_nil, false_implies, implies_true, List.Pairwise.nil,
      and_self]
  | cons stored events ih =>
    have marks := Subscription.marked_deliver_iff sub (⟨stream, stored.seq, stored.event⟩ :
      SourceEvent F) targetStream target stream
    have duplicate : (sub.deliver (⟨stream, stored.seq, stored.event⟩ : SourceEvent F)
        targetStream target).1 = .ok .duplicate ↔ sub.Marked stream stored.seq :=
      Subscription.deliver_duplicate_iff
    simp only [deliverAll] at succeeded ⊢
    generalize sub.deliver (⟨stream, stored.seq, stored.event⟩ : SourceEvent F) targetStream
      target = first at succeeded marks duplicate ⊢
    obtain ⟨answer, sub', target'⟩ := first
    rw [List.forall_mem_cons] at succeeded
    obtain ⟨⟨delivered, answered⟩, rest⟩ := succeeded
    simp only [List.forall_mem_cons, List.pairwise_cons]
    simp only at marks duplicate answered rest
    cases delivered with
    | duplicate =>
      -- a position at or below the mark is not applied
      rw [answered]
      constructor
      · intro all
        obtain ⟨applied, -⟩ := all
        cases applied
      · intro ordered
        obtain ⟨⟨unmarked, -⟩, -⟩ := ordered
        exact absurd (duplicate.mp answered) unmarked
    | applied =>
      have unmarked : ¬sub.Marked stream stored.seq := by
        intro marked
        rw [duplicate.mpr marked] at answered
        cases answered
      have above : ∀ seq, ¬sub'.Marked stream seq ↔ stored.seq < seq := by
        intro seq
        rw [marks, answered]
        constructor
        · intro unseen
          by_cases reached : seq ≤ stored.seq
          · exact absurd (.inr ⟨trivial, reached, rfl⟩) unseen
          · omega
        · rintro later (already | ⟨-, reached, -⟩)
          · exact unmarked (already.mono (by omega))
          · omega
      rw [ih sub' target' rest]
      simp only [above]
      constructor
      · intro ordered
        obtain ⟨-, later, ordered⟩ := ordered
        refine ⟨⟨unmarked, ?_⟩, later, ordered⟩
        intro other member marked
        exact unmarked (marked.mono (Nat.le_of_lt (later other member)))
      · intro ordered
        obtain ⟨-, later, ordered⟩ := ordered
        exact ⟨answered, later, ordered⟩

/-- Deliveries that are all applied do what executing the commands directly does. -/
theorem deliverAll_reactAll (events : List (VersionedEvent F)) (sub : Subscription)
    (target : Live T J)
    (applied : ∀ answer ∈ (deliverAll stream targetStream events sub target).1,
      answer = .ok .applied) :
    reactAll targetStream events target =
      (.ok (), (deliverAll stream targetStream events sub target).2.2) := by
  induction events generalizing sub target with
  | nil => rfl
  | cons stored events ih =>
    simp only [deliverAll, List.forall_mem_cons] at applied ⊢
    obtain ⟨first, rest⟩ := applied
    have unmarked : ¬sub.Marked stream stored.seq := by
      intro marked
      have duplicate : sub.deliver (⟨stream, stored.seq, stored.event⟩ : SourceEvent F)
          targetStream target = (.ok .duplicate, sub, target) := Subscription.deliver_marked marked
      rw [duplicate] at first
      cases first
    rw [Subscription.deliver_unmarked unmarked] at first rest ⊢
    unfold reactAll
    rcases ran : executeAll targetStream
      (react target.aggregate.state stored.event stored.seq) target with ⟨error | _, after⟩
    · simp only [ran, reduceCtorEq] at first
    · simp only [ran] at rest ⊢
      exact ih _ _ rest

/-- Numbered readings of records are strictly increasing when no record holds two events. -/
theorem pairwise_readings_iff (first : Nat) (records : List (Record F)) :
    (Lib.readings tagged first records).Pairwise (fun earlier later => earlier.seq < later.seq) ↔
      ∀ record ∈ records, record.events.length ≤ 1 := by
  have numbered : ∀ (first : Nat) (records : List (Record F)),
      ∀ stored ∈ Lib.readings tagged first records, first ≤ stored.seq := by
    intro first records
    induction records generalizing first with
    | nil =>
      intro stored member
      cases member
    | cons record records ih =>
      intro stored member
      rw [Lib.readings_cons, List.mem_append] at member
      rcases member with here | later
      · obtain ⟨event, -, rfl⟩ := List.mem_map.mp here
        exact Nat.le_refl first
      · exact Nat.le_of_succ_le (ih (first + 1) stored later)
  have together : ∀ (first : Nat) (record : Record F),
      (tagged first record).Pairwise (fun earlier later => earlier.seq < later.seq) ↔
        record.events.length ≤ 1 := by
    intro first record
    unfold tagged
    rw [List.pairwise_map]
    rcases record.events with _ | ⟨event, _ | ⟨second, events⟩⟩
    · simp
    · simp
    · -- two events of one record have one position
      simp only [VersionedEvent.new, Nat.lt_irrefl, List.length_cons]
      constructor
      · intro ordered
        exact absurd (List.rel_of_pairwise_cons ordered (List.mem_cons_self ..)) id
      · intro short
        omega
  induction records generalizing first with
  | nil => simp only [Lib.readings_nil, List.Pairwise.nil, List.not_mem_nil, false_implies,
      implies_true]
  | cons record records ih =>
    rw [Lib.readings_cons, List.pairwise_append, together, List.forall_mem_cons]
    constructor
    · intro ordered
      obtain ⟨single, rest, -⟩ := ordered
      exact ⟨single, (ih (first + 1)).mp rest⟩
    · intro short
      obtain ⟨single, rest⟩ := short
      refine ⟨single, (ih (first + 1)).mpr rest, ?_⟩
      intro earlier member later member'
      obtain ⟨event, -, rfl⟩ := List.mem_map.mp member
      exact numbered (first + 1) records later member'

/-- The whole of a stream lists the events of its records, numbered from 1. -/
theorem eventsSince_none_ok {source : MemoryJournal F} {events : List (VersionedEvent F)}
    (listed : Journal.eventsSince source stream none = .ok events) :
    events = Lib.readings tagged 1 (source.streamMut stream).records := by
  rw [MemoryJournal.eventsSince_eq] at listed
  by_cases whole : (source.streamMut stream).truncated = 0
  · have retains : Lib.Retains (source.streamMut stream).records
        (source.streamMut stream).records (source.streamMut stream).truncated := by
      rw [whole]
      exact ⟨Nat.zero_le _, rfl⟩
    rw [Stream.eventsSince_eq retains (by simp [whole])] at listed
    exact (Except.ok.inj listed).symm
  · rw [Stream.eventsSince_below (by simp; omega)] at listed
    cases listed

/-- A source stream delivered in order, with no failing `execute`, is applied exactly once
throughout, and reaches what its events reach directly, if and only if none of its records
holds more than one event. -/
theorem deliverAll_exactly_once_iff (source : MemoryJournal F) (stream : StreamId)
    (events : List (VersionedEvent F))
    (listed : Journal.eventsSince source stream none = .ok events) (targetStream : StreamId)
    (target : Live T J)
    (succeeded : ∀ answer ∈ (deliverAll stream targetStream events .new target).1,
      ∃ delivered, answer = .ok delivered) :
    ((∀ answer ∈ (deliverAll stream targetStream events .new target).1, answer = .ok .applied) ∧
        reactAll targetStream events target =
          (.ok (), (deliverAll stream targetStream events .new target).2.2)) ↔
      ∀ record ∈ (source.streamMut stream).records, record.events.length ≤ 1 := by
  have applied_iff := deliverAll_applied_iff events .new target succeeded
  rw [← pairwise_readings_iff 1, ← eventsSince_none_ok listed]
  constructor
  · intro exact
    obtain ⟨applied, -⟩ := exact
    exact (applied_iff.mp applied).2
  · intro ordered
    have applied := applied_iff.mpr ⟨fun _ _ => Subscription.not_marked_new stream _, ordered⟩
    exact ⟨applied, deliverAll_reactAll events .new target applied⟩

end Whole

section Batched

open Fixture

/-- The source journal of the tests, after one record of the given events. -/
def pinged (events : List SrcEvent) : MemoryJournal (Source Rng) :=
  ((MemoryJournal.new (SrcPhase.live : (Source Rng).State)).appendIn "match-1" events 0).2

/-- What `events_since` lists for a record of one event, or of two. -/
def ping : VersionedEvent (Source Rng) := .new SrcEvent.pinged 1 "subscription::SrcEvent" 1

/-- The target of the tests, with nothing appended. -/
def untallied : Live (Tally Rng) (MemoryJournal (Tally Rng)) :=
  ⟨.new Fixture.genesis, ⟨Fixture.genesis⟩, ctx 0⟩

/-- The second event of a record is answered `Duplicate`, and its bump is lost. -/
theorem deliverAll_drops_batched :
    Journal.eventsSince (pinged [.pinged, .pinged]) "match-1" none = .ok [ping, ping] ∧
      (deliverAll "match-1" "tally" [ping, ping] .new untallied).1 =
        [.ok .applied, .ok .duplicate] ∧
      (deliverAll "match-1" "tally" [ping, ping] .new untallied).2.2.aggregate = ⟨counted 1⟩ ∧
      (reactAll "tally" [ping, ping] untallied).2.aggregate = ⟨counted 2⟩ :=
  ⟨rfl, rfl, rfl, rfl⟩

theorem deliverAll_exactly_once_iff_single :
    reactAll "tally" [ping] untallied =
      (.ok (), (deliverAll "match-1" "tally" [ping] .new untallied).2.2) := by
  have succeeded : ∀ answer ∈ (deliverAll "match-1" "tally" [ping] .new untallied).1,
      ∃ delivered, answer = .ok delivered := by
    intro answer member
    obtain rfl : answer = .ok .applied := List.mem_singleton.mp member
    exact ⟨_, rfl⟩
  refine ((deliverAll_exactly_once_iff (pinged [.pinged]) "match-1" [ping] rfl "tally" untallied
    succeeded).mpr ?_).2
  intro record member
  obtain rfl : record = ⟨[SrcEvent.pinged], 0⟩ := List.mem_singleton.mp member
  exact Nat.le_refl 1

end Batched

/-! ## Any order, with failures -/

/-- One call of `deliver`: the event, the stream it is delivered to, and the target as the
call finds it. Between two calls anyone may have changed the target, its journal included. -/
structure Call (F T : AggregateRules) (J : Type) where
  source : SourceEvent F
  targetStream : StreamId
  target : Live T J

namespace Subscription

/-- What `deliver` answers a call. -/
def answer (sub : Subscription) (call : Call F T J) : Except (ExecuteError T) Delivered :=
  (sub.deliver call.source call.targetStream call.target).1

/-- The subscription after a sequence of calls. -/
def after (sub : Subscription) (calls : List (Call F T J)) : Subscription :=
  calls.foldl (fun sub call => (sub.deliver call.source call.targetStream call.target).2.1) sub

/-- Some call of the sequence, at `seq` of the stream or later, was answered `Applied`. -/
def AppliedFrom (sub : Subscription) (calls : List (Call F T J)) (stream : StreamId)
    (seq : Nat) : Prop :=
  ∃ before call later, calls = before ++ call :: later ∧ call.source.stream = stream ∧
    seq ≤ call.source.atSeq ∧ (sub.after before).answer call = .ok .applied

variable {sub : Subscription} {stream : StreamId} {seq : Nat}

/-- A position is marked after a run when it was before, or the run applied it or a later
one. -/
theorem marked_after_iff (calls : List (Call F T J)) :
    (sub.after calls).Marked stream seq ↔
      sub.Marked stream seq ∨ sub.AppliedFrom calls stream seq := by
  induction calls generalizing sub with
  | nil =>
    constructor
    · intro marked
      exact .inl marked
    · intro marked
      rcases marked with marked | ⟨before, call, later, split, -⟩
      · exact marked
      · exact absurd split (by simp)
  | cons first calls ih =>
    have step := marked_deliver_iff sub first.source first.targetStream first.target stream seq
    show ((sub.deliver first.source first.targetStream first.target).2.1.after calls).Marked
      stream seq ↔ _
    rw [ih, step]
    constructor
    · intro marked
      rcases marked with (already | ⟨here, below, applied⟩) | ⟨before, call, later, split, here, below, applied⟩
      · exact .inl already
      · exact .inr ⟨[], first, calls, rfl, here, below, applied⟩
      · exact .inr ⟨first :: before, call, later, by rw [split, List.cons_append], here, below,
          applied⟩
    · intro marked
      rcases marked with already | ⟨before, call, later, split, here, below, applied⟩
      · exact .inl (.inl already)
      · cases before with
        | nil =>
          obtain ⟨rfl, rfl⟩ := List.cons.inj split
          exact .inl (.inr ⟨here, below, applied⟩)
        | cons _ before =>
          obtain ⟨rfl, rest⟩ := List.cons.inj split
          exact .inr ⟨before, call, later, rest, here, below, applied⟩

/-- A delivery fails above the mark only. -/
theorem not_marked_of_failed {call : Call F T J} {error : ExecuteError T} :
    sub.answer call = .error error → ¬sub.Marked call.source.stream call.source.atSeq := by
  intro failed marked
  unfold answer at failed
  rw [deliver_marked marked] at failed
  cases failed

end Subscription

/-- After a failed delivery the same position is attempted again, its commands executed, as
long as no call at it or at a later position of the stream has been applied since; once one
has, it is answered `Duplicate` and nothing runs. -/
theorem redelivery_attempted_iff (sub : Subscription) (failed : Call F T J)
    (error : ExecuteError T) (refused : sub.answer failed = .error error)
    (between : List (Call F T J)) (again : Call F T J)
    (sameStream : again.source.stream = failed.source.stream)
    (sameSeq : again.source.atSeq = failed.source.atSeq) :
    (¬sub.AppliedFrom (failed :: between) failed.source.stream failed.source.atSeq →
      (sub.after (failed :: between)).answer again ≠ .ok .duplicate ∧
      ((sub.after (failed :: between)).deliver again.source again.targetStream
          again.target).2.2 =
        (executeAll again.targetStream (react again.target.aggregate.state again.source.event
          again.source.atSeq) again.target).2) ∧
    (sub.AppliedFrom (failed :: between) failed.source.stream failed.source.atSeq →
      (sub.after (failed :: between)).deliver again.source again.targetStream again.target =
        (.ok .duplicate, sub.after (failed :: between), again.target)) := by
  have unmarked := Subscription.not_marked_of_failed refused
  rw [← sameStream, ← sameSeq] at unmarked ⊢
  have marked_iff : (sub.after (failed :: between)).Marked again.source.stream
        again.source.atSeq ↔
      sub.AppliedFrom (failed :: between) again.source.stream again.source.atSeq := by
    rw [Subscription.marked_after_iff, or_iff_right unmarked]
  constructor
  · intro unapplied
    have unseen := (not_congr marked_iff).mpr unapplied
    refine ⟨?_, ?_⟩
    · intro duplicate
      exact unseen (Subscription.deliver_duplicate_iff.mp duplicate)
    · rw [Subscription.deliver_unmarked unseen]
      rcases executeAll again.targetStream (react again.target.aggregate.state again.source.event
        again.source.atSeq) again.target with ⟨error | _, reached⟩
      · rfl
      · rfl
  · intro applied
    exact Subscription.deliver_marked (marked_iff.mpr applied)

section Overtaken

open Fixture

/-- The delivery of the ping at `seq`. -/
def pingAt (seq : Nat) (target : Live (Tally Rng) (FaultInjector (MemoryJournal (Tally Rng)))) :
    Call (Source Rng) (Tally Rng) (FaultInjector (MemoryJournal (Tally Rng))) :=
  ⟨⟨"match-1", seq, SrcEvent.pinged⟩, "tally", target⟩

/-- The target of the tests, over a journal whose next append fails. -/
def failing : Live (Tally Rng) (FaultInjector (MemoryJournal (Tally Rng))) :=
  ⟨(FaultInjector.new (.new Fixture.genesis)).armAppendFailure, ⟨Fixture.genesis⟩, ctx 0⟩

/-- What a call leaves on the target's side. -/
def left (sub : Subscription)
    (call : Call (Source Rng) (Tally Rng) (FaultInjector (MemoryJournal (Tally Rng)))) :
    Live (Tally Rng) (FaultInjector (MemoryJournal (Tally Rng))) :=
  (sub.deliver call.source call.targetStream call.target).2.2

/-- Position 1, whose append fails; then position 2; then position 1 again. -/
def firstPing := pingAt 1 failing
def nextPing := pingAt 2 (left .new firstPing)
def firstPingAgain := pingAt 1 (left (Subscription.new.after [firstPing]) nextPing)

/-- Position 1 fails, position 2 is applied, and position 1 is then dropped. -/
theorem failed_delivery_dropped :
    Subscription.new.answer firstPing =
        .error (.journal (.storage "injected append failure")) ∧
      (Subscription.new.after [firstPing]).answer nextPing = .ok .applied ∧
      (Subscription.new.after [firstPing, nextPing]).answer firstPingAgain = .ok .duplicate :=
  ⟨rfl, rfl, rfl⟩

/-- With nothing in between, position 1 is attempted again; after position 2, it is not. -/
theorem redelivery_attempted_iff_overtaken :
    (Subscription.new.after [firstPing, nextPing]).deliver firstPingAgain.source
        firstPingAgain.targetStream firstPingAgain.target =
      (.ok .duplicate, Subscription.new.after [firstPing, nextPing], firstPingAgain.target) ∧
    (Subscription.new.after [firstPing]).answer (pingAt 1 (left .new firstPing)) ≠
      .ok .duplicate := by
  refine ⟨?_, ?_⟩
  · apply (redelivery_attempted_iff .new firstPing _ rfl [nextPing] firstPingAgain rfl rfl).2
    exact ⟨[firstPing], nextPing, [], rfl, rfl, by decide, rfl⟩
  · refine ((redelivery_attempted_iff .new firstPing _ rfl [] (pingAt 1 (left .new firstPing)) rfl
      rfl).1 ?_).1
    intro applied
    obtain ⟨before, call, later, split, -, -, applied⟩ := applied
    cases before with
    | nil =>
      obtain ⟨rfl, -⟩ := List.cons.inj split
      cases applied
    | cons first before => exact absurd (List.cons.inj split).2 (by simp)

end Overtaken

end Ironstate
