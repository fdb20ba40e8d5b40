import Ironstate.Journal.Fixture
import Ironstate.Journal.Proofs.Resume

/-!
# The log is the exact history

A journal reached by any operations, with the `Seq` that each append was answered recorded
beside it (`Answered`). Sequence numbers are not stored but recomputed from the horizon and
an index; the record a number names is nevertheless the one that was given it
(`log_exact`), and reading on from where an earlier read ended misses and repeats nothing.
-/

namespace Ironstate

variable {A : AggregateRules} {genesis : A.State}

/-- A traced journal, and what each append of a stream's history was answered. -/
structure Answered (A : AggregateRules) where
  traced : Traced A
  answers : StreamId → List (Except JournalError Nat)

namespace Answered

/-- A fresh journal. -/
def fresh (genesis : A.State) : Answered A := ⟨.fresh genesis, fun _ => []⟩

/-- One operation. A branch takes over the answers of the records it takes over. -/
def step (run : Answered A) (op : JournalOp A) : Answered A :=
  ⟨run.traced.step op,
    match op with
    | .append stream events pos => fun id =>
      if id = stream then
        run.answers id ++ [(Journal.appendIn run.traced.journal () stream events pos).1]
      else run.answers id
    | .fork stream seq =>
      match ForkableJournal.fork run.traced.journal stream seq with
      | .error _ => run.answers
      | .ok _ => fun id => if id = stream then (run.answers id).take seq else []
    | _ => run.answers⟩

/-- The journal was reached by some operations. -/
abbrev ReachedBy (genesis : A.State) (run : Answered A) : Prop :=
  Lib.Reaches step (fun _ _ => True) (fresh genesis) run

theorem ReachedBy.traced {run : Answered A} (reached : ReachedBy genesis run) :
    Reached genesis .any run.traced := by
  induction reached with
  | start => exact .start
  | @next run op _ _ ih =>
    refine .next ih ?_
    cases op with
    | append stream events pos => trivial
    | snapshot stream snap => trivial
    | truncate stream seq => trivial
    | fork stream seq => trivial

/-- The answers a history of so many records is given. -/
def numbered (count : Nat) : List (Except JournalError Nat) :=
  (List.range count).map fun index => .ok (index + 1)

theorem numbered_succ (count : Nat) : numbered (count + 1) = numbered count ++ [.ok (count + 1)] := by
  unfold numbered
  rw [List.range_succ, List.map_append, List.map_singleton]

theorem numbered_take (count cut : Nat) : (numbered count).take cut = numbered (min cut count) := by
  unfold numbered
  rw [← List.map_take, List.take_range]

/-- An append is answered the number of its record in the history. -/
theorem appendIn_answer {history : List (Record A)} {j : MemoryJournal A} {stream : StreamId}
    (retains : Lib.Retains history (j.streamMut stream).records (j.streamMut stream).truncated)
    (events : List A.Event) (pos : DrawPos) :
    (Journal.appendIn j () stream events pos).1 = .ok (history.length + 1) := by
  have length := Stream.headNat_eq retains
  have landed := Stream.headNat_append (j.streamMut stream) events pos
  rw [length] at landed
  exact congrArg Except.ok landed

theorem ReachedBy.answers {run : Answered A} (reached : ReachedBy genesis run) (id : StreamId) :
    run.answers id = numbered (run.traced.history id).length := by
  induction reached generalizing id with
  | start => rfl
  | @next run op before _ ih =>
    have retains := ((ReachedBy.traced before).stream (retainsInv genesis .any)).2
    cases op with
    | append stream events pos =>
      have answer := appendIn_answer (retains stream) events pos
      simp only [step, Traced.step]
      by_cases here : id = stream
      · subst here
        rw [if_pos rfl, if_pos rfl, answer, ih, List.length_append, List.length_singleton,
          numbered_succ]
      · rw [if_neg here, if_neg here, ih]
    | snapshot stream snap => exact ih id
    | truncate stream seq => exact ih id
    | fork stream seq =>
      simp only [step, Traced.step]
      have same : ForkableJournal.fork run.traced.journal stream seq =
          run.traced.journal.fork stream seq := rfl
      rw [same]
      cases run.traced.journal.fork stream seq with
      | error error => exact ih id
      | ok branch =>
        simp only
        by_cases here : id = stream
        · rw [if_pos here, if_pos here, ih, numbered_take, List.length_take]
        · rw [if_neg here, if_neg here]
          rfl

end Answered

/-- Every record of the history was given its own number, the head is the last of them, a
read is refused exactly below the horizon, and otherwise lists the events of the later
records, each under its record's number, so that a read continues where an earlier one
ended. -/
theorem log_exact (genesis : A.State) (run : Answered A)
    (reached : Answered.ReachedBy genesis run) (stream : StreamId) :
    (∀ k batch, (run.traced.history stream)[k]? = some batch →
      (run.answers stream)[k]? = some (Except.ok (k + 1))) ∧
    Journal.head run.traced.journal stream =
      (if (run.traced.history stream).length > 0 then some (run.traced.history stream).length
        else none) ∧
    (∀ since : Option Nat,
      (Journal.eventsSince run.traced.journal stream since = .error (.unknownSeq (since.getD 0)) ↔
        since.getD 0 < RetainableJournal.retainedFrom run.traced.journal stream - 1) ∧
      (¬since.getD 0 < RetainableJournal.retainedFrom run.traced.journal stream - 1 →
        Journal.eventsSince run.traced.journal stream since =
          .ok (eventsAfter (run.traced.history stream) (since.getD 0)))) ∧
    ∀ (since later : Option Nat) (events : List (VersionedEvent A)),
      since.getD 0 ≤ later.getD 0 →
      later.getD 0 ≤ (Journal.head run.traced.journal stream).getD 0 →
      Journal.eventsSince run.traced.journal stream since = .ok events →
      ∃ rest, Journal.eventsSince run.traced.journal stream later = .ok rest ∧
        events.filter (fun stored => stored.seq ≤ later.getD 0) ++ rest = events := by
  have retains := (reached.traced.stream (retainsInv genesis .any)).2 stream
  have length := Stream.headNat_eq retains
  simp only [MemoryJournal.eventsSince_eq, MemoryJournal.retainedFrom_eq, MemoryJournal.head_eq,
    Stream.head_getD, Stream.retainedFrom, Nat.add_sub_cancel]
  -- a read is refused or made by where it starts
  have listed : ∀ since : Option Nat,
      ¬since.getD 0 < (run.traced.journal.streamMut stream).truncated →
      (run.traced.journal.streamMut stream).eventsSince since =
        .ok (eventsAfter (run.traced.history stream) (since.getD 0)) := by
    intro since kept
    exact Stream.eventsSince_eq retains (by omega)
  refine ⟨?_, ?_, ?_, ?_⟩
  · intro k batch present
    obtain ⟨bound, -⟩ := List.getElem?_eq_some_iff.mp present
    rw [reached.answers stream, Answered.numbered, List.getElem?_map, List.getElem?_range bound]
    rfl
  · unfold Stream.head
    rw [length]
  · intro since
    refine ⟨?_, listed since⟩
    constructor
    · intro refused
      by_cases below : since.getD 0 < (run.traced.journal.streamMut stream).truncated
      · exact below
      · rw [listed since below] at refused
        cases refused
    · intro below
      exact Stream.eventsSince_below below
  · intro since later events ordered bound read
    have kept : ¬since.getD 0 < (run.traced.journal.streamMut stream).truncated := by
      intro below
      rw [Stream.eventsSince_below below] at read
      cases read
    rw [listed since kept] at read
    obtain rfl := Except.ok.inj read
    refine ⟨_, listed later (by omega), ?_⟩
    rw [eventsAfter_filter]
    exact eventsAfter_split (run.traced.history stream) ordered (length ▸ bound)

section Counted

open Fixture

/-- Three appends, one of no event and one of two, then the first record discarded. -/
def batchedRun : Answered (Tally Rng) :=
  (((((Answered.fresh Fixture.genesis).step (.append "tally" [TallyEvent.bumped] 2)).step
    (.append "tally" [] 2)).step (.append "tally" [TallyEvent.bumped, TallyEvent.bumped] 4)).step
      (.snapshot "tally" ⟨counted 3, 0, 3, 4⟩)).step (.truncate "tally" 2)

/-- The read from the horizon is spliced from the read up to record 2 and the rest. -/
theorem log_exact_batched :
    (batchedRun.answers "tally")[2]? = some (Except.ok 3) ∧
      Journal.eventsSince batchedRun.traced.journal "tally" (some 1) =
        .ok [.new TallyEvent.bumped 3 "subscription::TallyEvent" 1,
          .new TallyEvent.bumped 3 "subscription::TallyEvent" 1] := by
  have reached : Answered.ReachedBy Fixture.genesis batchedRun :=
    .next (.next (.next (.next (.next .start trivial) trivial) trivial) trivial) trivial
  obtain ⟨given, -, read, -⟩ := log_exact Fixture.genesis batchedRun reached "tally"
  refine ⟨given 2 _ rfl, ?_⟩
  exact (read (some 1)).2 (by decide)

end Counted

end Ironstate
