import Ironstate.Journal.Fixture

/-!
# The entry points agree

`handle`, `execute`, `execute_in`, `prepare` and `why_not` are five ways to hand a command to an
aggregate. Each is `decide_only` with its own ending (`Aggregate.handle_eq`,
`Aggregate.whyNot_eq`, `executeIn_of_accepted`, `executeIn_of_rejected`), so they accept the same
commands, and leave the same state and the same context.
-/

namespace Ironstate

variable {A : AggregateRules} {J Tx E : Type}

namespace Aggregate

/-- `handle` decides, and evolves by what was decided. -/
theorem handle_eq (aggregate : Aggregate A) (cmd : A.Command) (ctx : A.Ctx) :
    aggregate.handle cmd ctx =
      match aggregate.decideOnly cmd ctx with
      | (.ok events, drawn) => (.ok events, ⟨events.foldl A.evolve aggregate.state⟩, drawn)
      | (.error rejection, drawn) => (.error rejection, aggregate, drawn) := by
  unfold handle decideOnly
  cases aggregate.structuralCheck cmd with
  | some rejection => rfl
  | none => rcases A.decide aggregate.state cmd ctx with ⟨error | events, drawn⟩ <;> rfl

/-- `why_not` decides, and keeps the rejection. -/
theorem whyNot_eq (aggregate : Aggregate A) (cmd : A.Command) (ctx : A.Ctx) :
    aggregate.whyNot cmd ctx =
      match aggregate.decideOnly cmd ctx with
      | (.ok _, drawn) => (none, drawn)
      | (.error rejection, drawn) => (some rejection, drawn) := by
  unfold whyNot decideOnly
  cases aggregate.structuralCheck cmd with
  | some rejection => rfl
  | none => rcases A.decide aggregate.state cmd ctx with ⟨error | events, drawn⟩ <;> rfl

variable [EntropySource E] [CtxEntropy A.Ctx E]

omit [EntropySource E] in
/-- What is decided, and where the draws end, is the same in a context with the same entropy. -/
theorem decideOnly_congr (determined : DeterminedByEntropy A) (aggregate : Aggregate A)
    (cmd : A.Command) {ctx ctx' : A.Ctx} (same : entropy ctx' = entropy ctx) :
    (aggregate.decideOnly cmd ctx').1 = (aggregate.decideOnly cmd ctx).1 ∧
      entropy (aggregate.decideOnly cmd ctx').2 = entropy (aggregate.decideOnly cmd ctx).2 := by
  unfold decideOnly
  cases aggregate.structuralCheck cmd with
  | some rejection => exact ⟨rfl, same⟩
  | none =>
    obtain ⟨answer, moved⟩ := determined aggregate.state cmd ctx ctx' same
    rcases here : A.decide aggregate.state cmd ctx with ⟨result, drawn⟩
    rcases there : A.decide aggregate.state cmd ctx' with ⟨result', drawn'⟩
    rw [here, there] at answer moved
    obtain rfl : result' = result := answer
    cases result' with
    | error error => exact ⟨rfl, moved⟩
    | ok events => exact ⟨rfl, moved⟩

/-- A probe of the entropy stands where the stream does, so `why_not` in its context gives the
verdict of `handle`, and the probe makes the draws. -/
theorem whyNot_probe [LawfulEntropySource E] (determined : DeterminedByEntropy A)
    (aggregate : Aggregate A) (cmd : A.Command) {ctx probing : A.Ctx}
    (probed : entropy probing = (entropy ctx).map probe) :
    (aggregate.whyNot cmd probing).1 =
        (match (aggregate.handle cmd ctx).1 with
          | .ok _ => none
          | .error rejection => some rejection) ∧
      entropy (aggregate.whyNot cmd probing).2 = entropy (aggregate.handle cmd ctx).2.2 := by
  have same : entropy probing = entropy ctx := by
    rw [probed, funext LawfulEntropySource.probe_eq]
    exact Option.map_id'
  obtain ⟨answer, moved⟩ := decideOnly_congr determined aggregate cmd same
  rw [whyNot_eq, handle_eq]
  generalize aggregate.decideOnly cmd probing = there at answer moved ⊢
  generalize aggregate.decideOnly cmd ctx = here at answer moved ⊢
  obtain ⟨result, left⟩ := there
  obtain ⟨result', drawn⟩ := here
  obtain rfl : result = result' := answer
  cases result with
  | error rejection => exact ⟨rfl, moved⟩
  | ok events => exact ⟨rfl, moved⟩

end Aggregate

section Loop

variable [EntropySource E] [CtxEntropy A.Ctx E] {stream : StreamId} {aggregate evolved : Aggregate A}
  {cmd : A.Command} {ctx drawn : A.Ctx} {pos : DrawPos} {events : List A.Event}
  {rejection : Rejection A}

/-! ## A command that is accepted -/

theorem prepare_of_accepted (handled : aggregate.handle cmd ctx = (.ok events, evolved, drawn))
    (pos : DrawPos) :
    prepare aggregate cmd ctx pos = (.ok ⟨events, (ctxDraws drawn).getD pos, pos⟩, drawn) ∧
      events.foldl Aggregate.evolve aggregate = evolved := by
  rw [Aggregate.handle_eq] at handled
  unfold prepare
  generalize aggregate.decideOnly cmd ctx = outcome at handled ⊢
  rcases outcome with ⟨refused | decided, left⟩
  · cases handled
  · cases handled
    exact ⟨rfl, foldl_evolve events aggregate⟩

theorem executeIn_of_accepted [Journal J A Tx] {journal journal' : J} {tx tx' : Tx} {seq : Nat}
    (head : headPos journal stream = .ok pos)
    (handled : aggregate.handle cmd ctx = (.ok events, evolved, drawn))
    (made : Journal.appendIn journal tx stream events ((ctxDraws drawn).getD pos) =
      (.ok seq, journal', tx')) :
    executeIn journal tx stream aggregate cmd ctx =
      ⟨.ok ⟨seq, events, (ctxDraws drawn).getD pos, pos⟩, journal', tx', drawn⟩ := by
  unfold executeIn
  simp only [head, (prepare_of_accepted handled pos).1, made]

/-! ## A command that is rejected -/

theorem prepare_of_rejected {after : Aggregate A}
    (handled : aggregate.handle cmd ctx = (.error rejection, after, drawn)) (pos : DrawPos) :
    prepare aggregate cmd ctx pos = (.error rejection, rewind drawn pos) ∧ after = aggregate := by
  rw [Aggregate.handle_eq] at handled
  unfold prepare
  generalize aggregate.decideOnly cmd ctx = outcome at handled ⊢
  rcases outcome with ⟨refused | decided, left⟩
  · cases handled
    exact ⟨rfl, rfl⟩
  · cases handled

theorem executeIn_of_rejected [Journal J A Tx] {journal : J} {tx : Tx} {after : Aggregate A}
    (head : headPos journal stream = .ok pos)
    (handled : aggregate.handle cmd ctx = (.error rejection, after, drawn)) :
    executeIn journal tx stream aggregate cmd ctx =
      ⟨.error (.rejected rejection), journal, tx, rewind drawn pos⟩ := by
  unfold executeIn
  simp only [head, (prepare_of_rejected handled pos).1]

/-! ## All five -/

variable {K : Type} [Journal J A Tx] [Journal K A Unit]

/-- What the other entry points do with a command that `handle` accepts: over any journal, in any
unit of work, and for `execute` over one that owns its durability. -/
structure AcceptedAlike (journal : J) (tx : Tx) (owned : K) (stream : StreamId)
    (aggregate : Aggregate A) (cmd : A.Command) (ctx probing : A.Ctx) (pos : DrawPos)
    (events : List A.Event) (evolved : Aggregate A) (drawn : A.Ctx) : Prop where
  prepared : ∃ prepared, prepare aggregate cmd ctx pos = (.ok prepared, drawn) ∧
    prepared.events = events ∧ prepared.draws = (ctxDraws drawn).getD pos ∧
    prepared.commit aggregate = evolved
  executedIn : ∀ seq journal' tx',
    Journal.appendIn journal tx stream events ((ctxDraws drawn).getD pos) =
        (.ok seq, journal', tx') →
      ∃ pending, executeIn journal tx stream aggregate cmd ctx =
          ⟨.ok pending, journal', tx', drawn⟩ ∧
        pending.commit aggregate = (seq, evolved)
  executed : ∀ seq owned',
    Journal.appendIn owned () stream events ((ctxDraws drawn).getD pos) = (.ok seq, owned', ()) →
      execute owned stream aggregate cmd ctx = ⟨.ok seq, owned', evolved, drawn⟩
  whyNot : (aggregate.whyNot cmd probing).1 = none

/-- What they do with one that it rejects: the context is rewound to the head. -/
structure RejectedAlike (journal : J) (tx : Tx) (owned : K) (stream : StreamId)
    (aggregate : Aggregate A) (cmd : A.Command) (ctx probing : A.Ctx) (pos : DrawPos)
    (rejection : Rejection A) (after : Aggregate A) (drawn : A.Ctx) : Prop where
  handled : after = aggregate
  prepared : prepare aggregate cmd ctx pos = (.error rejection, rewind drawn pos)
  executedIn : executeIn journal tx stream aggregate cmd ctx =
    ⟨.error (.rejected rejection), journal, tx, rewind drawn pos⟩
  executed : execute owned stream aggregate cmd ctx =
    ⟨.error (.rejected rejection), owned, aggregate, rewind drawn pos⟩
  whyNot : (aggregate.whyNot cmd probing).1 = some rejection

/-- The entry points accept the same commands with the same effect, and reject the others with
the same rejection; asked beforehand, a probe makes the draws, and `why_not` knows. -/
theorem command_paths_agree [LawfulEntropySource E] (determined : DeterminedByEntropy A)
    (journal : J) (tx : Tx) (owned : K) (stream : StreamId) (aggregate : Aggregate A)
    (cmd : A.Command) (ctx probing : A.Ctx) (pos : DrawPos)
    (head : headPos journal stream = .ok pos) (owned_head : headPos owned stream = .ok pos)
    (probed : entropy probing = (entropy ctx).map probe) :
    (∀ events evolved drawn, aggregate.handle cmd ctx = (.ok events, evolved, drawn) →
      AcceptedAlike journal tx owned stream aggregate cmd ctx probing pos events evolved drawn) ∧
    (∀ rejection after drawn, aggregate.handle cmd ctx = (.error rejection, after, drawn) →
      RejectedAlike journal tx owned stream aggregate cmd ctx probing pos rejection after drawn) ∧
    entropy (aggregate.whyNot cmd probing).2 = entropy (aggregate.handle cmd ctx).2.2 := by
  obtain ⟨verdict, moved⟩ := aggregate.whyNot_probe determined cmd probed
  refine ⟨?_, ?_, moved⟩
  · intro events evolved drawn handled
    obtain ⟨made, committed⟩ := prepare_of_accepted handled pos
    refine ⟨⟨_, made, rfl, rfl, committed⟩, ?_, ?_, ?_⟩
    · intro seq journal' tx' appended
      exact ⟨_, executeIn_of_accepted head handled appended, Prod.ext rfl committed⟩
    · intro seq owned' appended
      unfold execute
      rw [executeIn_of_accepted owned_head handled appended]
      simp only [Pending.commit, Prepared.commit, committed]
    · rw [verdict, handled]
  · intro rejection after drawn handled
    obtain ⟨refused, unchanged⟩ := prepare_of_rejected handled pos
    refine ⟨unchanged, refused, executeIn_of_rejected head handled, ?_, ?_⟩
    · unfold execute
      rw [executeIn_of_rejected owned_head handled]
    · rw [verdict, handled]

end Loop

section Tallied

open Fixture

theorem tally_determined : DeterminedByEntropy (Tally Rng) := by
  intro state cmd ctx ctx' same
  exact ⟨rfl, same⟩

/-- A bump that `handle` accepts is appended by `execute`. -/
theorem command_paths_agree_bump :
    execute (MemoryJournal.new Fixture.genesis : MemoryJournal (Tally Rng)) "tally"
        ⟨Fixture.genesis⟩ TallyCommand.bump (ctx 0) =
      ⟨.ok 1, ((MemoryJournal.new Fixture.genesis).appendIn "tally" [TallyEvent.bumped] 0).2,
        ⟨counted 1⟩, ctx 0⟩ := by
  have agree := command_paths_agree tally_determined
    (MemoryJournal.new Fixture.genesis : MemoryJournal (Tally Rng)) ()
    (MemoryJournal.new Fixture.genesis : MemoryJournal (Tally Rng)) "tally" ⟨Fixture.genesis⟩
    TallyCommand.bump (ctx 0) (ctx 0) 0 rfl rfl rfl
  exact (agree.1 [TallyEvent.bumped] ⟨counted 1⟩ (ctx 0) rfl).executed 1 _ rfl

end Tallied

end Ironstate
