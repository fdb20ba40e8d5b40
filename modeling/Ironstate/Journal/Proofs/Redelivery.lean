import Ironstate.Journal.Proofs.Addressing
import Ironstate.Journal.Proofs.Delivery
import Ironstate.Journal.Proofs.Lockstep

/-!
# Redelivery converges

Source events delivered at least once, in any interleaving of several source streams, with
any attempt made to fail at its append. An attempt that does not return `Applied` changes
nothing (`Attempt.deliver_cases`), so a schedule does what its applied events do alone,
delivered once each (`redelivery_converges`). The rewind of a failed attempt goes to the
position the journal answers at the head: a snapshot stored ahead of the head that holds
another one leads it astray.
-/

namespace Ironstate

/-! ## Attempts -/

/-- One attempt at delivering a source event, and whether its append is made to fail. -/
structure Attempt (F : AggregateRules) where
  source : SourceEvent F
  fails : Bool

/-- The live target without the injector around its journal. -/
def Live.inner {A : AggregateRules} {J : Type} (live : Live A (FaultInjector J)) : Live A J :=
  ⟨live.journal.inner, live.aggregate, live.ctx⟩

section Attempts

variable {F T : AggregateRules} {J E : Type} [EntropySource E] [CtxEntropy T.Ctx E]
  [Journal J T Unit]

/-- The delivery, with the injector armed or not. -/
def Attempt.deliver [React F T] (attempt : Attempt F) (targetStream : StreamId) (sub : Subscription)
    (target : Live T (FaultInjector J)) :
    Except (ExecuteError T) Delivered × Subscription × Live T (FaultInjector J) :=
  sub.deliver attempt.source targetStream
    { target with journal := target.journal.arm attempt.fails }

/-- A schedule of attempts, one after the other, with what each returned. -/
def attemptEach [React F T] (targetStream : StreamId) :
    List (Attempt F) → Subscription → Live T (FaultInjector J) →
      List (SourceEvent F × Except (ExecuteError T) Delivered) × Subscription ×
        Live T (FaultInjector J)
  | [], sub, target => ([], sub, target)
  | attempt :: schedule, sub, target =>
    let (answer, sub, target) := attempt.deliver targetStream sub target
    let (outcomes, sub, target) := attemptEach targetStream schedule sub target
    ((attempt.source, answer) :: outcomes, sub, target)

/-- The same without failures: each source event delivered as it comes. -/
def deliverEach [React F T] (targetStream : StreamId) :
    List (SourceEvent F) → Subscription → Live T J →
      List (SourceEvent F × Except (ExecuteError T) Delivered) × Subscription × Live T J
  | [], sub, target => ([], sub, target)
  | source :: sources, sub, target =>
    let (answer, sub, target) := sub.deliver source targetStream target
    let (outcomes, sub, target) := deliverEach targetStream sources sub target
    ((source, answer) :: outcomes, sub, target)

/-- The source events of the attempts that returned `Applied`, in order. -/
def appliedOf : List (SourceEvent F × Except (ExecuteError T) Delivered) → List (SourceEvent F)
  | [] => []
  | (source, .ok .applied) :: outcomes => source :: appliedOf outcomes
  | _ :: outcomes => appliedOf outcomes

theorem mem_appliedOf {outcomes : List (SourceEvent F × Except (ExecuteError T) Delivered)}
    {source : SourceEvent F} :
    source ∈ appliedOf outcomes ↔ (source, .ok .applied) ∈ outcomes := by
  induction outcomes with
  | nil => simp [appliedOf]
  | cons outcome outcomes ih =>
    obtain ⟨first, error | _ | _⟩ := outcome
    · simp [appliedOf, ih]
    · simp [appliedOf, ih]
    · simp [appliedOf, ih]

/-! ## What one attempt does -/

/-- The context stands where the journal answers that the head was recorded. -/
def StandsAtHead (targetStream : StreamId) (target : Live T J) : Prop :=
  ∃ pos, headPos target.journal targetStream = .ok pos ∧ ctxDraws target.ctx = some pos

/-- The position a command's draws reach is the one held by a snapshot stored ahead where its
record will lie, if there is one. -/
def Foresees (targetStream : StreamId) (target : Live T (MemoryJournal T)) (cmd : T.Command) :
    Prop :=
  ∀ events drawn pos, target.aggregate.decideOnly cmd target.ctx = (.ok events, drawn) →
    ctxDraws drawn = some pos → Policy.faithful.append (target.journal.streamMut targetStream) pos

/-- If the attempt is going to append, no snapshot stored ahead contradicts its record. -/
def Attempt.Foreseen [React F T] (attempt : Attempt F) (targetStream : StreamId)
    (sub : Subscription) (target : Live T (MemoryJournal T)) : Prop :=
  ¬sub.Marked attempt.source.stream attempt.source.atSeq → attempt.fails = false →
    ∀ cmd ∈ react target.aggregate.state attempt.source.event attempt.source.atSeq,
      Foresees targetStream target cmd

end Attempts

/-! ## The head after an append -/

section Head

variable {A : AggregateRules}

/-- The record just appended is the one at the new head. -/
theorem Stream.recordAt_append (s : Stream A) (events : List A.Event) (pos : DrawPos) :
    (s.append events pos).recordAt (s.headNat + 1) = .ok ⟨events, pos⟩ := by
  have known : ¬(s.headNat + 1 ≤ (s.append events pos).truncated ∨
      s.headNat + 1 > (s.append events pos).truncated + (s.append events pos).records.length) := by
    simp only [append, headNat, List.length_append, List.length_singleton]
    omega
  have index : s.headNat + 1 - s.truncated - 1 = s.records.length := by
    unfold headNat
    omega
  unfold recordAt
  rw [dif_neg known]
  simp only [append, List.get_eq_getElem, index, List.getElem_concat_length]

/-- The head of a stream is where its last append said, if no snapshot was stored ahead of it
with another position. -/
theorem headPos_appendIn (j : MemoryJournal A) {stream : StreamId} (events : List A.Event)
    {pos : DrawPos} (foreseen : Policy.faithful.append (j.streamMut stream) pos) :
    headPos (j.appendIn stream events pos).2 stream = .ok pos := by
  have head : ((j.streamMut stream).append events pos).head =
      some ((j.streamMut stream).headNat + 1) := by
    rw [Stream.head_of_pos (by simp), Stream.headNat_append]
  unfold headPos
  simp only [MemoryJournal.head_eq, MemoryJournal.entropyPos_eq, MemoryJournal.streamMut_appendIn,
    head]
  cases stored : (j.streamMut stream).snapshots.find? fun snap =>
      snap.atSeq == (j.streamMut stream).headNat + 1 with
  | some snap =>
    rw [← foreseen snap stored]
    exact Stream.entropyPos_of_snapshot stored
  | none =>
    have unstored : (((j.streamMut stream).append events pos).snapshots.find? fun snap =>
      snap.atSeq == (j.streamMut stream).headNat + 1) = none := stored
    rw [Stream.entropyPos_of_recordAt unstored (Nat.succ_pos _), Stream.recordAt_append]
    rfl

end Head

/-! ## What one attempt does -/

section Converge

variable {F T : AggregateRules} {E : Type} [EntropySource E] [CtxEntropy T.Ctx E] [React F T]
  {targetStream : StreamId} {sub : Subscription} {target : Live T (FaultInjector (MemoryJournal T))}

/-- At most one command, with its append failing or not: an error leaves the target as it
was, and success is success without the injector, with the context at the new head. -/
theorem executeAll_short [LawfulEntropySource E] (forward : DrawsForward T)
    {commands : List T.Command} (short : commands.length ≤ 1)
    (atHead : StandsAtHead targetStream target.inner) (fails : Bool) :
    match executeAll targetStream commands
        { target with journal := target.journal.arm fails } with
    | (.error _, after) => after.inner = target.inner
    | (.ok (), after) => executeAll targetStream commands target.inner = (.ok (), after.inner) ∧
      ((fails = false → ∀ cmd ∈ commands, Foresees targetStream target.inner cmd) →
        StandsAtHead targetStream after.inner) := by
  obtain ⟨pos, recorded, stands⟩ := atHead
  have head : headPos target.journal.inner targetStream = .ok pos := recorded
  -- a call that fails has rewound to the head, where the context stood
  have rewound : ∀ cmd result drawn,
      target.aggregate.decideOnly cmd target.ctx = (result, drawn) →
        rewind drawn pos = target.ctx := by
    intro cmd result drawn decided
    obtain ⟨n, rfl⟩ := forward.decideOnly decided
    exact rewind_drawnCtx stands n
  match commands, short with
  | [], _ =>
    simp only [executeAll, Live.inner, FaultInjector.inner_arm, true_and]
    intro _
    exact ⟨pos, head, stands⟩
  | [cmd], _ =>
    cases fails with
    | true =>
      rcases execute_armed head target.aggregate cmd target.ctx with
        ⟨rejection, drawn, decided, outcome⟩ | ⟨events, drawn, decided, outcome⟩
      · simp only [executeAll, FaultInjector.arm_true, outcome, Live.inner,
          rewound cmd _ drawn decided]
      · simp only [executeAll, FaultInjector.arm_true, outcome, Live.inner,
          rewound cmd _ drawn decided]
    | false =>
      rcases execute_memory head target.aggregate cmd target.ctx with
        ⟨rejection, drawn, decided, outcome⟩ | ⟨events, drawn, decided, outcome⟩
      · simp only [executeAll, FaultInjector.arm_false, execute_unarmed, outcome, Live.inner,
          rewound cmd _ drawn decided]
      · simp only [executeAll, FaultInjector.arm_false, execute_unarmed, outcome, Live.inner,
          true_and, List.mem_singleton, forall_eq, forall_const]
        intro foresees
        obtain ⟨reached, moved⟩ : ∃ reached, ctxDraws drawn = some reached := by
          obtain ⟨n, rfl⟩ := forward.decideOnly decided
          obtain ⟨e, present, -⟩ := Option.map_eq_some_iff.mp stands
          refine ⟨draws (drawWords n e), ?_⟩
          unfold ctxDraws
          rw [entropy_drawnCtx]
          exact congrArg (fun e => (e.map (drawWords n)).map draws) present
        have foreseen := foresees events drawn reached decided moved
        refine ⟨reached, ?_, moved⟩
        rw [moved]
        exact headPos_appendIn _ _ foreseen

/-- An attempt either answers something else than `Applied`, and leaves the marks and the
target as they were, or it is the delivery without failures and brings the context to the new
head. -/
theorem Attempt.deliver_cases [LawfulEntropySource E] (forward : DrawsForward T)
    (single : ∀ state (event : F.Event) seq, (react state event seq : List T.Command).length ≤ 1)
    (atHead : StandsAtHead targetStream target.inner) (attempt : Attempt F) (sub : Subscription) :
    match attempt.deliver targetStream sub target with
    | (.ok .applied, sub', after) =>
      sub.deliver attempt.source targetStream target.inner = (.ok .applied, sub', after.inner) ∧
        (attempt.Foreseen targetStream sub target.inner → StandsAtHead targetStream after.inner)
    | (_, sub', after) => sub' = sub ∧ after.inner = target.inner := by
  unfold Attempt.deliver
  by_cases marked : sub.Marked attempt.source.stream attempt.source.atSeq
  · rw [Subscription.deliver_marked marked]
    simp [Live.inner]
  · rw [Subscription.deliver_unmarked marked, Subscription.deliver_unmarked marked]
    have spec := executeAll_short forward
      (single target.aggregate.state attempt.source.event attempt.source.atSeq) atHead attempt.fails
    simp only [Live.inner] at spec ⊢
    rcases ran : executeAll targetStream
      (react target.aggregate.state attempt.source.event attempt.source.atSeq)
      { target with journal := target.journal.arm attempt.fails } with ⟨error | _, after⟩
    · simp only [ran] at spec ⊢
      exact ⟨trivial, spec⟩
    · simp only [ran] at spec ⊢
      obtain ⟨clean, aligned⟩ := spec
      simp only [clean, true_and]
      intro foreseen
      exact aligned fun succeeds => foreseen marked succeeds

/-! ## Schedules -/

/-- Every attempt of the schedule is foreseen where it is made. -/
def EachForeseen (targetStream : StreamId) :
    List (Attempt F) → Subscription → Live T (FaultInjector (MemoryJournal T)) → Prop
  | [], _, _ => True
  | attempt :: schedule, sub, target =>
    attempt.Foreseen targetStream sub target.inner ∧
      let (_, sub, target) := attempt.deliver targetStream sub target
      EachForeseen targetStream schedule sub target

/-- The source stream holds the event in its record at that `Seq`. -/
def SourceEvent.StoredIn (source : SourceEvent F) (sources : StreamId → List (Record F)) : Prop :=
  ∃ record, 0 < source.atSeq ∧ (sources source.stream)[source.atSeq - 1]? = some record ∧
    source.event ∈ record.events

/-- Nothing is attempted before all earlier events of its source stream have been applied. -/
def InOrder (sources : StreamId → List (Record F))
    (outcomes : List (SourceEvent F × Except (ExecuteError T) Delivered)) : Prop :=
  ∀ before source answer later, outcomes = before ++ (source, answer) :: later →
    ∀ earlier : SourceEvent F, earlier.StoredIn sources → earlier.stream = source.stream →
      earlier.atSeq < source.atSeq → earlier ∈ appliedOf before

/-- A schedule does what delivering its applied events once each does, in the order they were
applied, and drops nothing it has not applied. -/
structure Converges (targetStream : StreamId) (schedule : List (Attempt F))
    (target : Live T (FaultInjector (MemoryJournal T))) : Prop where
  replayed : deliverEach targetStream
      (appliedOf (attemptEach targetStream schedule .new target).1) .new target.inner =
    ((appliedOf (attemptEach targetStream schedule .new target).1).map (·, .ok .applied),
      (attemptEach targetStream schedule .new target).2.1,
      (attemptEach targetStream schedule .new target).2.2.inner)
  once : ((appliedOf (attemptEach targetStream schedule .new target).1).map fun source =>
    (source.stream, source.atSeq)).Nodup
  dropped : ∀ before source later, (attemptEach targetStream schedule .new target).1 =
    before ++ (source, .ok .duplicate) :: later → source ∈ appliedOf before

/-- Attempts that were not applied can be left out. -/
theorem deliverEach_appliedOf [LawfulEntropySource E] (forward : DrawsForward T)
    (single : ∀ state (event : F.Event) seq, (react state event seq : List T.Command).length ≤ 1)
    (schedule : List (Attempt F)) (sub : Subscription)
    (target : Live T (FaultInjector (MemoryJournal T)))
    (atHead : StandsAtHead targetStream target.inner)
    (foreseen : EachForeseen targetStream schedule sub target) :
    deliverEach targetStream (appliedOf (attemptEach targetStream schedule sub target).1) sub
        target.inner =
      ((appliedOf (attemptEach targetStream schedule sub target).1).map (·, .ok .applied),
        (attemptEach targetStream schedule sub target).2.1,
        (attemptEach targetStream schedule sub target).2.2.inner) := by
  induction schedule generalizing sub target with
  | nil => rfl
  | cons attempt schedule ih =>
    have spec := attempt.deliver_cases forward single atHead sub
    obtain ⟨here, later⟩ := foreseen
    simp only [attemptEach]
    generalize attempt.deliver targetStream sub target = first at spec later ⊢
    obtain ⟨error | _ | _, sub', target'⟩ := first
    · obtain ⟨rfl, same⟩ := spec
      simp only [appliedOf, ← same]
      exact ih sub' target' (same ▸ atHead) later
    · obtain ⟨delivered, aligned⟩ := spec
      simp only [appliedOf, deliverEach, delivered, ih sub' target' (aligned here) later,
        List.map_cons]
    · obtain ⟨rfl, same⟩ := spec
      simp only [appliedOf, ← same]
      exact ih sub' target' (same ▸ atHead) later

variable (targetStream) in
/-- What is applied was unmarked, and lies past what was applied before it of its stream. -/
theorem appliedOf_increasing (schedule : List (Attempt F)) (sub : Subscription)
    (target : Live T (FaultInjector (MemoryJournal T))) :
    (∀ source ∈ appliedOf (attemptEach targetStream schedule sub target).1,
        ¬sub.Marked source.stream source.atSeq) ∧
      (appliedOf (attemptEach targetStream schedule sub target).1).Pairwise
        fun earlier later => earlier.stream = later.stream → earlier.atSeq < later.atSeq := by
  induction schedule generalizing sub target with
  | nil => simp [attemptEach, appliedOf]
  | cons attempt schedule ih =>
    have marks := fun stream seq => Subscription.marked_deliver_iff sub attempt.source targetStream
      { target with journal := target.journal.arm attempt.fails } stream seq
    have duplicate : (attempt.deliver targetStream sub target).1 = .ok .duplicate ↔
      sub.Marked attempt.source.stream attempt.source.atSeq := Subscription.deliver_duplicate_iff
    simp only [attemptEach]
    unfold Attempt.deliver at duplicate ⊢
    generalize sub.deliver attempt.source targetStream
      { target with journal := target.journal.arm attempt.fails } = first at marks duplicate ⊢
    obtain ⟨answer, sub', target'⟩ := first
    obtain ⟨unmarked, increasing⟩ := ih sub' target'
    -- what the rest applies was unmarked before this attempt as well
    have still : ∀ source ∈ appliedOf (attemptEach targetStream schedule sub' target').1,
        ¬sub.Marked source.stream source.atSeq := by
      intro source member marked
      exact unmarked source member ((marks _ _).mpr (.inl marked))
    rcases answer with error | _ | _
    · exact ⟨still, increasing⟩
    · simp only [appliedOf, List.forall_mem_cons, List.pairwise_cons]
      refine ⟨⟨?_, still⟩, ?_, increasing⟩
      · intro marked
        cases duplicate.mpr marked
      · intro later member same
        by_cases reached : later.atSeq ≤ attempt.source.atSeq
        · exact absurd ((marks _ _).mpr (.inr ⟨same, reached, rfl⟩)) (unmarked later member)
        · omega
    · exact ⟨still, increasing⟩

/-- A duplicate was marked at the start, or something at or past it has been applied. -/
theorem duplicate_seen (schedule : List (Attempt F)) (sub : Subscription)
    (target : Live T (FaultInjector (MemoryJournal T)))
    {before later : List (SourceEvent F × Except (ExecuteError T) Delivered)}
    {source : SourceEvent F}
    (split : (attemptEach targetStream schedule sub target).1 =
      before ++ (source, .ok .duplicate) :: later) :
    sub.Marked source.stream source.atSeq ∨ ∃ applied ∈ appliedOf before,
      applied.stream = source.stream ∧ source.atSeq ≤ applied.atSeq := by
  induction schedule generalizing sub target before with
  | nil => simp [attemptEach] at split
  | cons attempt schedule ih =>
    have marks := fun stream seq => Subscription.marked_deliver_iff sub attempt.source targetStream
      { target with journal := target.journal.arm attempt.fails } stream seq
    have duplicate : (attempt.deliver targetStream sub target).1 = .ok .duplicate ↔
      sub.Marked attempt.source.stream attempt.source.atSeq := Subscription.deliver_duplicate_iff
    simp only [attemptEach] at split
    unfold Attempt.deliver at duplicate split
    generalize sub.deliver attempt.source targetStream
      { target with journal := target.journal.arm attempt.fails } = first at marks duplicate split
    obtain ⟨answer, sub', target'⟩ := first
    cases before with
    | nil =>
      simp only [List.nil_append, List.cons.injEq, Prod.mk.injEq] at split
      obtain ⟨⟨rfl, rfl⟩, -⟩ := split
      exact .inl (duplicate.mp rfl)
    | cons outcome before =>
      simp only [List.cons_append, List.cons.injEq] at split
      obtain ⟨rfl, rest⟩ := split
      rcases ih sub' target' rest with marked | ⟨applied, member, same, reached⟩
      · rcases (marks _ _).mp marked with already | ⟨same, reached, rfl⟩
        · exact .inl already
        · exact .inr ⟨attempt.source, List.mem_cons_self, same, reached⟩
      · right
        refine ⟨applied, ?_, same, reached⟩
        rw [mem_appliedOf] at member ⊢
        exact List.mem_cons_of_mem _ member

/-- The attempts are answered one by one. -/
theorem attemptEach_sources (schedule : List (Attempt F)) (sub : Subscription)
    (target : Live T (FaultInjector (MemoryJournal T))) :
    (attemptEach targetStream schedule sub target).1.map Prod.fst = schedule.map (·.source) := by
  induction schedule generalizing sub target with
  | nil => rfl
  | cons attempt schedule ih => simp [attemptEach, ih]

/-! ## No snapshot past the head -/

/-- No snapshot is stored past the head. -/
def Stream.Headed {A : AggregateRules} (s : Stream A) : Prop :=
  ∀ snap ∈ s.snapshots, snap.atSeq ≤ s.headNat

omit [React F T] in
theorem foresees_of_headed {target : Live T (MemoryJournal T)}
    (headed : (target.journal.streamMut targetStream).Headed) (cmd : T.Command) :
    Foresees targetStream target cmd := by
  intro events drawn pos _ _ snap stored
  obtain ⟨member, ahead⟩ := Stream.stored_mem stored
  have bound := headed snap member
  omega

omit [React F T] in
theorem headed_executeAll (commands : List T.Command) {target : Live T (MemoryJournal T)}
    (headed : (target.journal.streamMut targetStream).Headed) :
    ((executeAll targetStream commands target).2.journal.streamMut targetStream).Headed := by
  induction commands generalizing target with
  | nil => exact headed
  | cons cmd commands ih =>
    have spec := execute_spec target.journal targetStream target.aggregate cmd target.ctx
    unfold executeAll
    generalize execute target.journal targetStream target.aggregate cmd target.ctx = outcome
      at spec ⊢
    cases spec with
    | headFailed head => exact headed
    | rejected head decided => exact headed
    | appendFailed head decided failed => cases failed
    | appended head decided made =>
      obtain ⟨-, written⟩ := Prod.mk.inj made
      obtain ⟨rfl, -⟩ := Prod.mk.inj written
      apply ih
      intro snap member
      simp only [MemoryJournal.streamMut_put_self, Stream.headNat_append] at member ⊢
      exact Nat.le_succ_of_le (headed snap member)

theorem eachForeseen_of_headed [LawfulEntropySource E] (forward : DrawsForward T)
    (single : ∀ state (event : F.Event) seq, (react state event seq : List T.Command).length ≤ 1)
    (schedule : List (Attempt F)) (sub : Subscription)
    (target : Live T (FaultInjector (MemoryJournal T)))
    (atHead : StandsAtHead targetStream target.inner)
    (headed : (target.inner.journal.streamMut targetStream).Headed) :
    EachForeseen targetStream schedule sub target := by
  induction schedule generalizing sub target with
  | nil => trivial
  | cons attempt schedule ih =>
    have spec := attempt.deliver_cases forward single atHead sub
    have foreseen : attempt.Foreseen targetStream sub target.inner :=
      fun _ _ cmd _ => foresees_of_headed headed cmd
    refine ⟨foreseen, ?_⟩
    generalize attempt.deliver targetStream sub target = first at spec ⊢
    obtain ⟨error | _ | _, sub', target'⟩ := first
    · obtain ⟨rfl, same⟩ := spec
      exact ih sub' target' (same ▸ atHead) (same ▸ headed)
    · obtain ⟨delivered, aligned⟩ := spec
      apply ih sub' target' (aligned foreseen)
      by_cases marked : sub.Marked attempt.source.stream attempt.source.atSeq
      · rw [Subscription.deliver_marked marked] at delivered
        cases delivered
      · have kept := headed_executeAll
          (react target.inner.aggregate.state attempt.source.event attempt.source.atSeq) headed
        rw [Subscription.deliver_unmarked marked] at delivered
        rcases ran : executeAll targetStream (react target.inner.aggregate.state
          attempt.source.event attempt.source.atSeq) target.inner with ⟨error | _, after⟩
        · simp only [ran] at delivered
          cases delivered
        · simp only [ran] at delivered kept
          obtain ⟨-, moved⟩ := Prod.mk.inj delivered
          obtain ⟨-, rfl⟩ := Prod.mk.inj moved
          exact kept
    · obtain ⟨rfl, same⟩ := spec
      exact ih sub' target' (same ▸ atHead) (same ▸ headed)

/-- Delivered at least once, in order and with any failures, source events converge to exactly
once, if no snapshot stored ahead of the target's head contradicts an append; in particular
if no snapshot lies past that head when the schedule begins. -/
theorem redelivery_converges [LawfulEntropySource E] (forward : DrawsForward T)
    (single : ∀ state (event : F.Event) seq, (react state event seq : List T.Command).length ≤ 1)
    (sources : StreamId → List (Record F))
    (short : ∀ stream, ∀ record ∈ sources stream, record.events.length ≤ 1)
    (targetStream : StreamId) (target : Live T (FaultInjector (MemoryJournal T)))
    (atHead : StandsAtHead targetStream target.inner) (schedule : List (Attempt F))
    (stored : ∀ attempt ∈ schedule, attempt.source.StoredIn sources)
    (ordered : InOrder sources (attemptEach targetStream schedule .new target).1) :
    (EachForeseen targetStream schedule .new target → Converges targetStream schedule target) ∧
      ((∀ snap ∈ (target.journal.inner.streamMut targetStream).snapshots,
          snap.atSeq ≤ (target.journal.inner.streamMut targetStream).headNat) →
        Converges targetStream schedule target) := by
  have converges : EachForeseen targetStream schedule .new target →
      Converges targetStream schedule target := by
    intro foreseen
    obtain ⟨-, increasing⟩ := appliedOf_increasing targetStream schedule .new target
    refine ⟨deliverEach_appliedOf forward single schedule .new target atHead foreseen, ?_, ?_⟩
    · rw [List.Nodup, List.pairwise_map]
      apply increasing.imp
      intro earlier later past same
      obtain ⟨stream, seq⟩ := Prod.mk.inj same
      have further := past stream
      omega
    · intro before source later split
      have sourced : ∀ outcome ∈ (attemptEach targetStream schedule .new target).1,
          outcome.1.StoredIn sources := by
        intro outcome member
        have listed := List.mem_map_of_mem (f := Prod.fst) member
        rw [attemptEach_sources, List.mem_map] at listed
        obtain ⟨attempt, scheduled, same⟩ := listed
        exact same ▸ stored attempt scheduled
      rw [split] at sourced ordered
      rcases duplicate_seen schedule .new target split with marked | ⟨applied, member, same, reached⟩
      · exact absurd marked (Subscription.not_marked_new _ _)
      · have here := sourced (source, .ok .duplicate) (by simp)
        by_cases past : source.atSeq < applied.atSeq
        · -- what was applied past the duplicate had waited for it
          obtain ⟨first, rest, rfl⟩ := List.append_of_mem (mem_appliedOf.mp member)
          have waited := ordered first applied _ _ (by rw [List.append_assoc]; rfl) source here
            same.symm past
          rw [mem_appliedOf] at waited ⊢
          exact List.mem_append_left _ waited
        · have there := sourced (applied, .ok .applied)
            (List.mem_append_left _ (mem_appliedOf.mp member))
          obtain ⟨record, positive, found, event⟩ := here
          obtain ⟨record', positive', found', event'⟩ := there
          have seq : applied.atSeq = source.atSeq := by omega
          simp only [same, seq] at found'
          obtain rfl := Option.some.inj (found.symm.trans found')
          have alone := short _ record (List.mem_of_getElem? found)
          have one : applied.event = source.event := by
            match record.events, alone, event, event' with
            | [only], _, here, there =>
              rw [List.mem_singleton.mp here, List.mem_singleton.mp there]
          have whole : applied = source := by
            cases applied
            cases source
            simp only [SourceEvent.mk.injEq]
            exact ⟨same, seq, one⟩
          exact whole ▸ member
  refine ⟨converges, ?_⟩
  intro headed
  exact converges (eachForeseen_of_headed forward single schedule .new target atHead headed)

section Retried

open Fixture

/-- The events of the tests: every record of the source holds one ping. -/
def pings (count : Nat) (stream : StreamId) : List (Record (Source Rng)) :=
  if stream = "match-1" then List.replicate count ⟨[SrcEvent.pinged], 0⟩ else []

/-- An attempt at a ping. -/
def attemptPing (seq : Nat) (fails : Bool) : Attempt (Source Rng) :=
  ⟨⟨"match-1", seq, SrcEvent.pinged⟩, fails⟩

/-- The first ping, and the second at the second attempt, delivered once more at the end. -/
def retried : List (Attempt (Source Rng)) :=
  [attemptPing 1 false, attemptPing 2 true, attemptPing 2 false, attemptPing 2 false]

/-- A fresh target, its context at the start of the stream. -/
def freshTarget : Live (Tally Rng) (FaultInjector (MemoryJournal (Tally Rng))) :=
  ⟨.new (.new Fixture.genesis), .fromState Fixture.genesis, ctx 0⟩

/-- A fresh target, but for a snapshot stored ahead of its first record. -/
def strayTarget : Live (Tally Rng) (FaultInjector (MemoryJournal (Tally Rng))) :=
  { freshTarget with
    journal := .new ((MemoryJournal.new Fixture.genesis).snapshotIn "tally" ⟨counted 1, 0, 1, 9⟩).2 }

theorem retried_storedIn : ∀ attempt ∈ retried, attempt.source.StoredIn (pings 2) := by
  have stored : ∀ seq fails, 0 < seq ∧ seq ≤ 2 → (attemptPing seq fails).source.StoredIn (pings 2) := by
    intro seq fails bounds
    refine ⟨⟨[SrcEvent.pinged], 0⟩, bounds.1, ?_, List.mem_singleton_self _⟩
    obtain rfl | rfl : seq = 1 ∨ seq = 2 := by omega
    · rfl
    · rfl
  intro attempt member
  simp only [retried, List.mem_cons, List.not_mem_nil, or_false] at member
  rcases member with rfl | rfl | rfl | rfl
  · exact stored 1 false (by decide)
  · exact stored 2 true (by decide)
  · exact stored 2 false (by decide)
  · exact stored 2 false (by decide)

/-- The second ping may be attempted as often as one likes once the first has been applied. -/
theorem inOrder_pings
    {outcomes : List (SourceEvent (Source Rng) × Except (ExecuteError (Tally Rng)) Delivered)}
    (second : ∀ outcome ∈ outcomes, outcome.1 = (attemptPing 2 false).source) :
    InOrder (pings 2) (((attemptPing 1 false).source, .ok .applied) :: outcomes) := by
  intro before source answer later split earlier stored same before'
  obtain ⟨record, positive, -, -⟩ := stored
  cases before with
  | nil =>
    obtain ⟨first, -⟩ := List.cons.inj split
    obtain ⟨rfl, -⟩ := Prod.mk.inj first
    have below : earlier.atSeq < 1 := before'
    omega
  | cons outcome before =>
    obtain ⟨rfl, rest⟩ := List.cons.inj split
    have here := second (source, answer) (by rw [rest]; simp)
    subst here
    have below : earlier.atSeq < 2 := before'
    have first : earlier = (attemptPing 1 false).source := by
      obtain ⟨stream, seq, event⟩ := earlier
      obtain rfl : seq = 1 := by
        simp only at positive below
        omega
      obtain rfl : stream = "match-1" := same
      cases (event : SrcEvent)
      rfl
    rw [first]
    exact List.mem_cons_self

theorem retried_inOrder {first second third : Except (ExecuteError (Tally Rng)) Delivered} :
    InOrder (pings 2)
      [((attemptPing 1 false).source, .ok .applied), ((attemptPing 2 true).source, first),
        ((attemptPing 2 false).source, second), ((attemptPing 2 false).source, third)] := by
  apply inOrder_pings
  intro outcome member
  simp only [List.mem_cons, List.not_mem_nil, or_false] at member
  rcases member with rfl | rfl | rfl
  · rfl
  · rfl
  · rfl

/-- Where a snapshot was stored ahead the retry draws from another position. -/
theorem redelivery_diverges :
    StandsAtHead "tally" strayTarget.inner ∧ (∀ attempt ∈ retried, attempt.source.StoredIn (pings 2)) ∧
      InOrder (pings 2) (attemptEach "tally" retried .new strayTarget).1 ∧
      ¬Converges "tally" retried strayTarget := by
  refine ⟨⟨0, rfl, rfl⟩, retried_storedIn, retried_inOrder, ?_⟩
  intro converges
  have positions := congrArg (fun run => Journal.entropyPos run.2.2.journal "tally" 2)
    converges.replayed
  have apart : (Except.ok 0 : Except JournalError DrawPos) ≠ .ok 9 := by decide
  exact apart positions

/-- From a fresh target the same schedule converges. -/
theorem redelivery_converges_retried : Converges "tally" retried freshTarget := by
  have forward : DrawsForward (Tally Rng) := fun _ _ _ => ⟨0, (drawnCtx_zero _).symm⟩
  have short : ∀ stream, ∀ record ∈ pings 2 stream, record.events.length ≤ 1 := by
    intro stream record member
    unfold pings at member
    split at member
    · rw [List.eq_of_mem_replicate member]
      exact Nat.le_refl 1
    · cases member
  have single : ∀ state (event : SrcEvent) seq,
      (React.react (F := Source Rng) (T := Tally Rng) state event seq).length ≤ 1 :=
    fun _ _ _ => Nat.le_refl 1
  refine (redelivery_converges forward single (pings 2) short "tally"
    freshTarget ⟨0, rfl, rfl⟩ retried retried_storedIn retried_inOrder).2 ?_
  intro snap member
  obtain rfl := List.mem_singleton.mp member
  exact Nat.zero_le _

end Retried

end Converge

end Ironstate
