import Ironstate.Journal.Fixture

/-!
# What a failed command leaves behind

A failed `execute` or `execute_in` leaves every read of the journal and the aggregate as
they were. The entropy stream it rewinds to the position recorded at the stream's head, which
is where the call found it exactly when the context stood at that head
(`failed_execute_rewinds_iff`).
-/

namespace Ironstate

variable {A : AggregateRules} {J Tx E : Type} [EntropySource E] [CtxEntropy A.Ctx E]

/-- The context's stream, if it has one, stands at the position of the head, if that can be
read. -/
def AtHead [Journal J A Tx] (journal : J) (stream : StreamId) (ctx : A.Ctx) : Prop :=
  ∀ pos drawn, headPos journal stream = .ok pos → ctxDraws ctx = some drawn → drawn = pos

omit [EntropySource E] in
/-- The structural checks leave the context alone, so `decide_only` keeps the entropy stream
when `decide` does. -/
theorem KeepsEntropy.decideOnly (keeps : KeepsEntropy A) {aggregate : Aggregate A}
    {cmd : A.Command} {ctx drawn : A.Ctx} {result : Except (Rejection A) (List A.Event)}
    (decided : aggregate.decideOnly cmd ctx = (result, drawn)) :
    (entropy drawn).isSome = (entropy ctx).isSome := by
  have reached : (aggregate.decideOnly cmd ctx).2 = drawn := by rw [decided]
  rcases decideOnly_cases aggregate cmd ctx with unchanged | made
  · rw [← reached, unchanged]
  · rw [← reached, made]
    exact keeps aggregate.state cmd ctx

/-- A rewind to the head restores the position a context had, exactly when that was the
head's. -/
theorem ctxDraws_rewind_iff [LawfulEntropySource E] {ctx drawn : A.Ctx}
    (keeps : (entropy drawn).isSome = (entropy ctx).isSome) (pos : DrawPos) :
    ctxDraws (rewind drawn pos) = ctxDraws ctx ↔ ∀ before, ctxDraws ctx = some before →
      before = pos := by
  rw [ctxDraws_rewind]
  unfold ctxDraws
  cases present : entropy ctx with
  | none =>
    rw [present, Option.isSome_none, Option.isSome_eq_false_iff, Option.isNone_iff_eq_none] at keeps
    rw [keeps]
    constructor
    · intro _ before absent
      cases absent
    · intro _
      rfl
  | some e =>
    rw [present, Option.isSome_some, Option.isSome_iff_exists] at keeps
    obtain ⟨e', present'⟩ := keeps
    rw [present', Option.map_some, Option.map_some, Option.map_some]
    constructor
    · intro same before stood
      exact (Option.some.inj stood).symm.trans (Option.some.inj same).symm
    · intro stood
      exact congrArg some (stood _ rfl).symm

/-- What a failed `execute_in` leaves, on each of its error paths. -/
theorem executeIn_failed_iff [LawfulEntropySource E] [Journal J A Tx] [AtomicAppend J]
    (keeps : KeepsEntropy A) (journal : J) (tx : Tx) (stream : StreamId)
    (aggregate : Aggregate A) (cmd : A.Command) (ctx : A.Ctx) {error : ExecuteError A}
    (failed : (executeIn journal tx stream aggregate cmd ctx).result = .error error) :
    SameReads journal (executeIn journal tx stream aggregate cmd ctx).journal ∧
      (ctxDraws (executeIn journal tx stream aggregate cmd ctx).ctx = ctxDraws ctx ↔
        AtHead journal stream ctx) := by
  have spec := executeIn_spec journal tx stream aggregate cmd ctx
  generalize executeIn journal tx stream aggregate cmd ctx = outcome at spec failed ⊢
  -- a rewind to the position read at the head
  have rewound : ∀ {pos : DrawPos} {drawn : A.Ctx}, headPos journal stream = .ok pos →
      (entropy drawn).isSome = (entropy ctx).isSome →
      (ctxDraws (rewind drawn pos) = ctxDraws ctx ↔ AtHead journal stream ctx) := by
    intro pos drawn head kept
    rw [ctxDraws_rewind_iff kept]
    constructor
    · intro stood pos' before head' present
      obtain rfl := Except.ok.inj (head.symm.trans head')
      exact stood before present
    · intro stood before present
      exact stood pos before head present
  cases spec with
  | headFailed head =>
    refine ⟨SameReads.refl journal, iff_of_true rfl ?_⟩
    intro pos drawn head' _
    rw [head] at head'
    cases head'
  | rejected head decided =>
    exact ⟨SameReads.refl journal, rewound head (keeps.decideOnly decided)⟩
  | appendFailed head decided append =>
    refine ⟨?_, rewound head (keeps.decideOnly decided)⟩
    have unseen := AtomicAppend.appendIn_error journal tx stream _ _ _ (congrArg Prod.fst append)
    rw [append] at unseen
    exact unseen
  | appended head decided made => cases failed

/-- A failed `execute_in` or `execute` changes no read of the journal and not the aggregate,
and the entropy position is what it was if and only if the context stood at the head. -/
theorem failed_execute_rewinds_iff {J' : Type} [LawfulEntropySource E] [Journal J A Tx]
    [AtomicAppend J] [Journal J' A Unit] [AtomicAppend J'] (keeps : KeepsEntropy A) :
    (∀ (journal : J) (tx : Tx) (stream : StreamId) (aggregate : Aggregate A) (cmd : A.Command)
        (ctx : A.Ctx) (error : ExecuteError A),
      (executeIn journal tx stream aggregate cmd ctx).result = .error error →
        SameReads journal (executeIn journal tx stream aggregate cmd ctx).journal ∧
        (ctxDraws (executeIn journal tx stream aggregate cmd ctx).ctx = ctxDraws ctx ↔
          AtHead journal stream ctx)) ∧
    ∀ (journal : J') (stream : StreamId) (aggregate : Aggregate A) (cmd : A.Command)
        (ctx : A.Ctx) (error : ExecuteError A),
      (execute journal stream aggregate cmd ctx).result = .error error →
        SameReads journal (execute journal stream aggregate cmd ctx).journal ∧
        (execute journal stream aggregate cmd ctx).aggregate = aggregate ∧
        (ctxDraws (execute journal stream aggregate cmd ctx).ctx = ctxDraws ctx ↔
          AtHead journal stream ctx) := by
  refine ⟨?_, ?_⟩
  · intro journal tx stream aggregate cmd ctx error failed
    exact executeIn_failed_iff keeps journal tx stream aggregate cmd ctx failed
  · intro journal stream aggregate cmd ctx error failed
    have inner := @executeIn_failed_iff A J' Unit E _ _ _ _ _ keeps journal () stream aggregate cmd
      ctx error
    unfold execute at failed ⊢
    rcases ran : executeIn journal () stream aggregate cmd ctx with ⟨error' | pending, after, _, ctx'⟩
    · simp only [ran] at failed inner ⊢
      obtain rfl := Except.error.inj failed
      obtain ⟨reads, position⟩ := inner rfl
      exact ⟨reads, trivial, position⟩
    · simp only [ran, reduceCtorEq] at failed

section Shut

open Fixture

/-- A shut tally, which rejects every command. -/
def shutTally : Aggregate (Tally Rng) := ⟨(⟨.shut, 0⟩ : TallyState)⟩

/-- A rejected command over an empty stream, from a context at position 4. -/
def rejectedAway : Executed (Tally Rng) (MemoryJournal (Tally Rng)) :=
  execute (.new Fixture.genesis) "tally" shutTally TallyCommand.bump (ctx 4)

/-- The rejection moves the entropy stream from 4 to 0. -/
theorem rejected_command_moves_entropy :
    rejectedAway.result = .error (.rejected (.terminalPhase TallyPhase.shut)) ∧
      ctxDraws (ctx 4) = some 4 ∧ ctxDraws rejectedAway.ctx = some 0 :=
  ⟨rfl, rfl, rfl⟩

/-- From a context at the head both calls leave the position as it was. -/
theorem failed_execute_rewinds_iff_shut :
    ctxDraws (executeIn (.new Fixture.genesis : MemoryJournal (Tally Rng)) () "tally" shutTally
      TallyCommand.bump (ctx 0)).ctx = ctxDraws (ctx 0) ∧
    ctxDraws (execute (.new Fixture.genesis : MemoryJournal (Tally Rng)) "tally" shutTally
      TallyCommand.bump (ctx 0)).ctx = ctxDraws (ctx 0) := by
  have keeps : KeepsEntropy (Tally Rng) := fun _ _ _ => rfl
  have rewinds := @failed_execute_rewinds_iff (Tally Rng) (MemoryJournal (Tally Rng)) Unit Rng _ _
    (MemoryJournal (Tally Rng)) _ _ _ _ _ keeps
  have atHead : AtHead (.new Fixture.genesis : MemoryJournal (Tally Rng)) "tally" (ctx 0) := by
    intro pos drawn head stood
    obtain rfl : 0 = pos := Except.ok.inj head
    exact (Option.some.inj stood).symm
  refine ⟨?_, ?_⟩
  · exact (rewinds.1 _ () "tally" shutTally TallyCommand.bump (ctx 0) _ rfl).2.mpr atHead
  · exact (rewinds.2 _ "tally" shutTally TallyCommand.bump (ctx 0) _ rfl).2.2.mpr atHead

end Shut

end Ironstate
