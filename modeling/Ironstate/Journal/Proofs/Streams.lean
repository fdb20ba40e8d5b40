import Ironstate.Journal.Fixture
import Ironstate.Journal.Trace

/-!
# Streams of one journal are independent

Whatever is read of a stream, or done to it, is a function of the journal's genesis and of
what the journal stores under that stream's identifier (`SameStream`). An operation on one
stream changes neither for another (`streams_independent`), whether it creates the stream,
writes to it or is refused, and two operations on different streams reach the same journal
in either order.
-/

namespace Ironstate

variable {A : AggregateRules}

/-- The operations on one stream of a journal. -/
inductive StreamOp (A : AggregateRules) where
  | append (events : List A.Event) (pos : DrawPos)
  | snapshot (snap : Snapshot A)
  | truncate (seq : Nat)

/-- One operation: what it is answered, with the `Seq` of an append, and the journal after. -/
def StreamOp.apply (j : MemoryJournal A) (stream : StreamId) :
    StreamOp A → Except JournalError (Option Nat) × MemoryJournal A
  | .append events pos =>
    let (result, j, _) := Journal.appendIn j () stream events pos
    (result.map some, j)
  | .snapshot snap =>
    let (result, j, _) := Journal.snapshotIn j () stream snap
    (result.map fun _ => none, j)
  | .truncate seq =>
    let (result, j) := RetainableJournal.truncateBefore j stream seq
    (result.map fun _ => none, j)

/-- The two journals hold the same of a stream, and would create it alike. -/
structure SameStream (id : StreamId) (j j' : MemoryJournal A) : Prop where
  genesis : j'.genesis = j.genesis
  stored : j'.streams[id]? = j.streams[id]?

namespace SameStream

variable {id : StreamId} {j j' : MemoryJournal A}

theorem streamMut (same : SameStream id j j') : j'.streamMut id = j.streamMut id := by
  unfold MemoryJournal.streamMut MemoryJournal.genesisSnapshot
  rw [same.stored, same.genesis]

theorem fork (same : SameStream id j j') (seq : Nat) : j'.fork id seq = j.fork id seq := by
  unfold MemoryJournal.fork
  rw [same.stored, same.genesis]

theorem resume {chacha12 : Seed → UInt64 → UInt32} (same : SameStream id j j') (seed : Seed) :
    (resume j' id seed : Resumed A chacha12) = resume j id seed := by
  apply resume_congr
  · rw [MemoryJournal.latestSnapshot_eq, MemoryJournal.latestSnapshot_eq, same.streamMut]
  · intro snapshot _
    rw [MemoryJournal.eventsSince_eq, MemoryJournal.eventsSince_eq, same.streamMut]
  · rw [MemoryJournal.head_eq, MemoryJournal.head_eq, same.streamMut]
  · intro seq _
    rw [MemoryJournal.entropyPos_eq, MemoryJournal.entropyPos_eq, same.streamMut]

end SameStream

namespace MemoryJournal

/-- The journal with a stream written back, or as it was. -/
def write (j : MemoryJournal A) (id : StreamId) : Option (Stream A) → MemoryJournal A
  | none => j
  | some s => j.put id s

theorem sameStream_write (j : MemoryJournal A) {id other : StreamId} (distinct : other ≠ id)
    (written : Option (Stream A)) : SameStream other j (j.write id written) := by
  cases written with
  | none => exact ⟨rfl, rfl⟩
  | some s => exact ⟨rfl, BTreeMap.getElem?_insert_ne _ _ distinct⟩

theorem put_comm (j : MemoryJournal A) {id other : StreamId} (distinct : other ≠ id)
    (s s' : Stream A) : (j.put id s).put other s' = (j.put other s').put id s := by
  unfold put
  simp only [mk.injEq, true_and]
  apply Std.ExtTreeMap.ext_getElem?
  intro read
  by_cases first : read = id
  · subst first
    rw [BTreeMap.getElem?_insert_ne _ _ (Ne.symm distinct), BTreeMap.getElem?_insert_self,
      BTreeMap.getElem?_insert_self]
  · by_cases second : read = other
    · subst second
      rw [BTreeMap.getElem?_insert_self, BTreeMap.getElem?_insert_ne _ _ first,
        BTreeMap.getElem?_insert_self]
    · rw [BTreeMap.getElem?_insert_ne _ _ second, BTreeMap.getElem?_insert_ne _ _ first,
        BTreeMap.getElem?_insert_ne _ _ first, BTreeMap.getElem?_insert_ne _ _ second]

theorem write_comm (j : MemoryJournal A) {id other : StreamId} (distinct : other ≠ id)
    (written written' : Option (Stream A)) :
    (j.write id written).write other written' = (j.write other written').write id written := by
  cases written with
  | none => rfl
  | some s =>
    cases written' with
    | none => rfl
    | some s' => exact put_comm j distinct s s'

end MemoryJournal

namespace SameStream

variable {id : StreamId} {j j' : MemoryJournal A}

theorem write (same : SameStream id j j') (written : Option (Stream A)) :
    (j'.write id written).streams[id]? = (j.write id written).streams[id]? := by
  cases written with
  | none => exact same.stored
  | some s =>
    exact (j'.getElem?_put_self id s).trans (j.getElem?_put_self id s).symm

theorem truncateBefore (same : SameStream id j j') (seq : Nat) :
    ∃ written, (j.truncateBefore id seq).2 = j.write id written ∧
      (j'.truncateBefore id seq).2 = j'.write id written ∧
      (j'.truncateBefore id seq).1 = (j.truncateBefore id seq).1 := by
  unfold MemoryJournal.truncateBefore
  rw [same.stored]
  cases j.streams[id]? with
  | none => exact ⟨none, rfl, rfl, rfl⟩
  | some s =>
    simp only
    cases s.truncateBefore seq with
    | error error => exact ⟨none, rfl, rfl, rfl⟩
    | ok s' => exact ⟨some s', rfl, rfl, rfl⟩

end SameStream

/-- On journals that hold the same of a stream an operation answers alike, and writes the
same to it. -/
theorem StreamOp.apply_same {id : StreamId} {j j' : MemoryJournal A} (same : SameStream id j j')
    (op : StreamOp A) : ∃ written, (op.apply j id).2 = j.write id written ∧
      (op.apply j' id).2 = j'.write id written ∧ (op.apply j' id).1 = (op.apply j id).1 := by
  have stream := same.streamMut
  cases op with
  | append events pos =>
    refine ⟨some ((j.streamMut id).append events pos), rfl, ?_, ?_⟩
    · rw [← stream]
      rfl
    · show Except.ok (some ((j'.streamMut id).append events pos).headNat) =
        Except.ok (some ((j.streamMut id).append events pos).headNat)
      rw [stream]
  | snapshot snap =>
    refine ⟨some ((j.streamMut id).snapshot snap), rfl, ?_, rfl⟩
    rw [← stream]
    rfl
  | truncate seq =>
    obtain ⟨written, result, result', answer⟩ := same.truncateBefore seq
    exact ⟨written, result, result', congrArg (Except.map fun _ => none) answer⟩

/-- An operation on one stream leaves another as it was. -/
theorem StreamOp.sameStream (op : StreamOp A) (j : MemoryJournal A) {a b : StreamId}
    (distinct : b ≠ a) : SameStream b j (op.apply j a).2 := by
  obtain ⟨written, result, -, -⟩ := op.apply_same (⟨rfl, rfl⟩ : SameStream a j j)
  rw [result]
  exact j.sameStream_write distinct written

/-- An operation on a stream changes no read of another, nor what resuming, truncating or
forking that one does; two operations on different streams answer the same and reach the
same journal in either order. -/
theorem streams_independent (j : MemoryJournal A) (a b : StreamId) (distinct : b ≠ a) :
    (∀ (op : StreamOp A) (after : MemoryJournal A), after = (op.apply j a).2 →
      Journal.head after b = Journal.head j b ∧
      RetainableJournal.retainedFrom after b = RetainableJournal.retainedFrom j b ∧
      (∀ seq, Journal.entropyPos after b seq = Journal.entropyPos j b seq) ∧
      (∀ since, Journal.eventsSince after b since = Journal.eventsSince j b since) ∧
      Journal.latestSnapshot after b = Journal.latestSnapshot j b ∧
      (∀ (chacha12 : Seed → UInt64 → UInt32) (seed : Seed),
        (resume after b seed : Resumed A chacha12) = resume j b seed) ∧
      (∀ seq, (RetainableJournal.truncateBefore after b seq).1 =
          (RetainableJournal.truncateBefore j b seq).1 ∧
        (RetainableJournal.truncateBefore after b seq).2.streams[b]? =
          (RetainableJournal.truncateBefore j b seq).2.streams[b]?) ∧
      ∀ seq, ForkableJournal.fork after b seq = ForkableJournal.fork j b seq) ∧
    ∀ op op' : StreamOp A,
      (op'.apply (op.apply j a).2 b).2 = (op.apply (op'.apply j b).2 a).2 ∧
      (op.apply (op'.apply j b).2 a).1 = (op.apply j a).1 ∧
      (op'.apply (op.apply j a).2 b).1 = (op'.apply j b).1 := by
  refine ⟨?_, ?_⟩
  · intro op after result
    subst result
    have same := op.sameStream j distinct
    have stream := same.streamMut
    simp only [MemoryJournal.head_eq, MemoryJournal.retainedFrom_eq, MemoryJournal.entropyPos_eq,
      MemoryJournal.eventsSince_eq, MemoryJournal.latestSnapshot_eq, stream, true_and,
      implies_true]
    refine ⟨?_, ?_, ?_⟩
    · intro chacha12 seed
      exact same.resume seed
    · intro seq
      obtain ⟨written, cut, cut', answer⟩ := same.truncateBefore seq
      refine ⟨answer, ?_⟩
      show ((op.apply j a).2.truncateBefore b seq).2.streams[b]? =
        (j.truncateBefore b seq).2.streams[b]?
      rw [cut, cut']
      exact same.write written
    · intro seq
      exact same.fork seq
  · intro op op'
    -- each operation finds its own stream as it would have found it alone
    obtain ⟨written, alone, late, answered⟩ :=
      op.apply_same (op'.sameStream j (Ne.symm distinct))
    obtain ⟨written', alone', late', answered'⟩ := op'.apply_same (op.sameStream j distinct)
    refine ⟨?_, answered, answered'⟩
    rw [late, late', alone, alone']
    exact MemoryJournal.write_comm j distinct written written'

section TwoStreams

open Fixture

/-- An append to a stream that did not exist leaves an idle one without a head. -/
theorem streams_independent_created :
    Journal.head ((StreamOp.append [TallyEvent.bumped] 2).apply
      (.new Fixture.genesis : MemoryJournal (Tally Rng)) "tally").2 "idle" = none := by
  have independent := (streams_independent (.new Fixture.genesis : MemoryJournal (Tally Rng))
    "tally" "idle" (by decide)).1 (.append [TallyEvent.bumped] 2) _ rfl
  exact independent.1

end TwoStreams

end Ironstate
