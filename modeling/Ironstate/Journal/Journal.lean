import Ironstate.Aggregate.Rules
import Ironstate.Core.BTreeMap

/-!
# The journal trait and the records it stores

`journal.rs`. `Seq(pub u64)`, a 1-based position within one stream whose 0 is the genesis,
is the number it wraps, and `StreamId(pub String)` the string. A method that takes `&mut self`
or `&mut Tx` hands the new value back beside its result, whether it succeeded or not.
-/

namespace Ironstate

/-- `StreamId(pub String)`. -/
abbrev StreamId := String

/-- `struct Snapshot`; the field `at` is `atSeq`. -/
structure Snapshot (A : AggregateRules) where
  state : A.State
  schemaVersion : Nat
  atSeq : Nat
  entropyPos : DrawPos

/-- `struct VersionedEvent`. -/
structure VersionedEvent (A : AggregateRules) where
  event : A.Event
  seq : Nat
  typeName : String
  version : Nat

/-- `VersionedEvent::new`. -/
def VersionedEvent.new {A : AggregateRules} (event : A.Event) (seq : Nat) (typeName : String)
    (version : Nat) : VersionedEvent A :=
  ⟨event, seq, typeName, version⟩

/-- `enum JournalError`; a boxed storage error is its message. -/
inductive JournalError where
  | storage (message : String)
  | unknownSeq (seq : Nat)
  | noBaseForFork (seq : Nat)
  | noSnapshotForTruncation (seq : Nat) (latestSnapshot : Option Nat)
  deriving DecidableEq

/-- `enum ExecuteError`. -/
inductive ExecuteError (A : AggregateRules) where
  | rejected (rejection : Rejection A)
  | journal (error : JournalError)

/-- `trait Journal`. -/
class Journal (J : Type) (A : outParam AggregateRules) (Tx : outParam Type) where
  appendIn : J → Tx → StreamId → List A.Event → DrawPos → Except JournalError Nat × J × Tx
  snapshotIn : J → Tx → StreamId → Snapshot A → Except JournalError Unit × J × Tx
  entropyPos : J → StreamId → Nat → Except JournalError DrawPos
  head : J → StreamId → Option Nat
  eventsSince : J → StreamId → Option Nat → Except JournalError (List (VersionedEvent A))
  latestSnapshot : J → StreamId → Except JournalError (Option (Snapshot A))

/-- `trait ForkableJournal`. -/
class ForkableJournal (J : Type) (A : outParam AggregateRules) (Tx : outParam Type)
    extends Journal J A Tx where
  fork : J → StreamId → Nat → Except JournalError J

/-- `trait RetainableJournal`. -/
class RetainableJournal (J : Type) (A : outParam AggregateRules) (Tx : outParam Type)
    extends Journal J A Tx where
  truncateBefore : J → StreamId → Nat → Except JournalError Unit × J
  retainedFrom : J → StreamId → Nat
  streams : J → Except JournalError (List StreamId)

/-- Two journal values answer every read of every stream alike. -/
structure SameReads {J : Type} {A : AggregateRules} {Tx : Type} [Journal J A Tx] (j j' : J) :
    Prop where
  head : ∀ stream, Journal.head j' stream = Journal.head j stream
  entropyPos : ∀ stream seq, Journal.entropyPos j' stream seq = Journal.entropyPos j stream seq
  eventsSince : ∀ stream after,
    Journal.eventsSince j' stream after = Journal.eventsSince j stream after
  latestSnapshot : ∀ stream, Journal.latestSnapshot j' stream = Journal.latestSnapshot j stream

theorem SameReads.refl {J : Type} {A : AggregateRules} {Tx : Type} [Journal J A Tx] (j : J) :
    SameReads j j :=
  ⟨fun _ => rfl, fun _ _ => rfl, fun _ _ => rfl, fun _ => rfl⟩

/-- The atomicity `append_in` is documented to have: an append that fails is not seen. -/
class AtomicAppend (J : Type) {A : AggregateRules} {Tx : Type} [Journal J A Tx] : Prop where
  appendIn_error : ∀ (j : J) (tx : Tx) (stream : StreamId) (events : List A.Event)
    (pos : DrawPos) (error : JournalError),
    (Journal.appendIn j tx stream events pos).1 = .error error →
      SameReads j (Journal.appendIn j tx stream events pos).2.1

end Ironstate
