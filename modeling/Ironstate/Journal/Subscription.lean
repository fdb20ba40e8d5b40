import Ironstate.Journal.Replay

/-!
# Subscriptions

`subscription.rs`. What `deliver` mutates on the target's side, the journal, the aggregate
and the context, is one `Live` value. The loop over the commands of `react` is `executeAll`; what
subscribers do with a whole list of source events, one `deliver` after the other, is
`deliverAll`, and the same events executed without a subscription are `reactAll`.
-/

namespace Ironstate

/-- `struct SourceEvent`; the field `at` is `atSeq`. -/
structure SourceEvent (F : AggregateRules) where
  stream : StreamId
  atSeq : Nat
  event : F.Event

/-- `enum Delivered`. -/
inductive Delivered where
  | applied
  | duplicate
  deriving DecidableEq

/-- `trait React<F>`: the commands the target issues to itself in response to an event. -/
class React (F T : AggregateRules) where
  react : T.State → F.Event → Nat → List T.Command

export React (react)

/-- `struct Subscription`: the high-water mark of each source stream. -/
structure Subscription where
  marks : BTreeMap StreamId Nat

namespace Subscription

/-- `Subscription::new`. -/
def new : Subscription := ⟨∅⟩

/-- `Subscription::mark`. -/
def mark (sub : Subscription) (stream : StreamId) : Option Nat := sub.marks[stream]?

/-- The position lies at or below the recorded mark of the stream. -/
def Marked (sub : Subscription) (stream : StreamId) (seq : Nat) : Prop :=
  ∃ mark, sub.mark stream = some mark ∧ seq ≤ mark

end Subscription

section Deliver

variable {F T : AggregateRules} {J E : Type} [EntropySource E] [CtxEntropy T.Ctx E]
  [Journal J T Unit]

/-- Executes the commands one after the other, up to the first that fails. -/
def executeAll (targetStream : StreamId) :
    List T.Command → Live T J → Except (ExecuteError T) Unit × Live T J
  | [], target => (.ok (), target)
  | command :: commands, target =>
    match execute target.journal targetStream target.aggregate command target.ctx with
    | ⟨.error error, journal, aggregate, ctx⟩ => (.error error, ⟨journal, aggregate, ctx⟩)
    | ⟨.ok _, journal, aggregate, ctx⟩ => executeAll targetStream commands ⟨journal, aggregate, ctx⟩

/-- `Subscription::deliver`. -/
def Subscription.deliver [React F T] (sub : Subscription) (source : SourceEvent F)
    (targetStream : StreamId) (target : Live T J) :
    Except (ExecuteError T) Delivered × Subscription × Live T J :=
  if (sub.marks[source.stream]?).any (source.atSeq ≤ ·) then (.ok .duplicate, sub, target)
  else
    let commands := react target.aggregate.state source.event source.atSeq
    match executeAll targetStream commands target with
    | (.error error, target) => (.error error, sub, target)
    | (.ok (), target) =>
      (.ok .applied, ⟨sub.marks.insert source.stream source.atSeq⟩, target)

/-- The events of a source stream, delivered in order with their own `seq`, and what each
delivery answered. -/
def deliverAll [React F T] (source : StreamId) (targetStream : StreamId) :
    List (VersionedEvent F) → Subscription → Live T J →
      List (Except (ExecuteError T) Delivered) × Subscription × Live T J
  | [], sub, target => ([], sub, target)
  | stored :: events, sub, target =>
    let (answer, sub, target) := sub.deliver ⟨source, stored.seq, stored.event⟩ targetStream target
    let (answers, sub, target) := deliverAll source targetStream events sub target
    (answer :: answers, sub, target)

/-- The commands of `react` executed for each event in turn, with no subscription between. -/
def reactAll [React F T] (targetStream : StreamId) :
    List (VersionedEvent F) → Live T J → Except (ExecuteError T) Unit × Live T J
  | [], target => (.ok (), target)
  | stored :: events, target =>
    match executeAll targetStream (react target.aggregate.state stored.event stored.seq) target with
    | (.error error, target) => (.error error, target)
    | (.ok (), target) => reactAll targetStream events target

/-! ## What one delivery does -/

namespace Subscription

variable [React F T] {sub : Subscription} {source : SourceEvent F} {targetStream : StreamId}
  {target : Live T J}

theorem any_marks_iff (sub : Subscription) (stream : StreamId) (seq : Nat) :
    (sub.marks[stream]?).any (seq ≤ ·) = true ↔ sub.Marked stream seq := by
  rw [Option.any_eq_true]
  constructor
  · intro reached
    obtain ⟨mark, present, below⟩ := reached
    exact ⟨mark, present, of_decide_eq_true below⟩
  · intro marked
    obtain ⟨mark, present, below⟩ := marked
    exact ⟨mark, present, decide_eq_true below⟩

/-- At or below the mark nothing runs. -/
theorem deliver_marked (marked : sub.Marked source.stream source.atSeq) :
    sub.deliver source targetStream target = (.ok .duplicate, sub, target) := by
  unfold deliver
  rw [if_pos ((any_marks_iff sub _ _).mpr marked)]

/-- Above the mark the commands of `react` are executed, and the mark advances with the last
of them. -/
theorem deliver_unmarked (unmarked : ¬sub.Marked source.stream source.atSeq) :
    sub.deliver source targetStream target =
      match executeAll targetStream (react target.aggregate.state source.event source.atSeq)
        target with
      | (.error error, target) => (.error error, sub, target)
      | (.ok (), target) =>
        (.ok .applied, ⟨sub.marks.insert source.stream source.atSeq⟩, target) := by
  unfold deliver
  rw [if_neg fun present => unmarked ((any_marks_iff sub _ _).mp present)]

/-- The answer is `Duplicate` at or below the mark and nowhere else. -/
theorem deliver_duplicate_iff :
    (sub.deliver source targetStream target).1 = .ok .duplicate ↔
      sub.Marked source.stream source.atSeq := by
  by_cases marked : sub.Marked source.stream source.atSeq
  · rw [deliver_marked marked]
    exact iff_of_true rfl marked
  · rw [deliver_unmarked marked]
    rcases executeAll targetStream (react target.aggregate.state source.event source.atSeq)
      target with ⟨error | _, after⟩
    · exact iff_of_false (by rintro ⟨⟩) marked
    · exact iff_of_false (by rintro ⟨⟩) marked

@[simp] theorem mark_new (stream : StreamId) : Subscription.new.mark stream = none := by
  unfold mark new
  exact Std.ExtTreeMap.getElem?_empty

theorem mark_insert_self (sub : Subscription) (stream : StreamId) (seq : Nat) :
    Subscription.mark ⟨sub.marks.insert stream seq⟩ stream = some seq :=
  BTreeMap.getElem?_insert_self _ _ _

theorem mark_insert_ne (sub : Subscription) {stream other : StreamId} (seq : Nat)
    (distinct : other ≠ stream) :
    Subscription.mark ⟨sub.marks.insert stream seq⟩ other = sub.mark other :=
  BTreeMap.getElem?_insert_ne _ _ distinct

end Subscription

end Deliver

end Ironstate
