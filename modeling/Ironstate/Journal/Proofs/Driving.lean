import Ironstate.Journal.Fixture
import Ironstate.Journal.Kept
import Ironstate.Lib.Yields

/-!
# What the driver of the conformance suite leaves behind

Between two commands of `drive` the journal holds a history that the live aggregate is the end
of, and its positions ascend (`InStep`); so the journal it answers with holds a whole history,
and the digests it recorded are those of the states of that history (`driveLoop_yields`).
-/

namespace Ironstate

open StateMachine (isTerminal)
open Lib (Yields)

namespace Contract

variable {A : AggregateRules} {J R D : Type} {chacha12 : Seed → UInt64 → UInt32}

@[simp] theorem expect_ok {α ε : Type} (message : String) (a : α) :
    expect message (.ok a : Except ε α) = .ok a := rfl

@[simp] theorem check_true (property message : String) (case : UInt32) :
    check property message case true = .ok () := rfl

theorem check_ok {property message : String} {case : UInt32} {holds : Bool}
    (held : holds = true) : check property message case holds = .ok () := by
  rw [held, check_true]

theorem newAggregate_ok {message : String} {genesis : A.State}
    (initial : Aggregate.new genesis = .ok ⟨genesis⟩) :
    (newAggregate message genesis : Except ContractFailure (Aggregate A)) = .ok ⟨genesis⟩ := by
  rw [newAggregate, initial, expect_ok]

section Sampling

variable (arbitrary : AggregateArbitrary A R chacha12)

/-- The only panic left: a strategy that has no value to give. -/
structure Unsampled (failure : ContractFailure) : Prop where
  message : failure = .expect "strategy"
  gap : arbitrary.Gap

theorem sampleInitial_yields (runner : R) :
    Yields (Unsampled arbitrary) (fun out => arbitrary.initialStateStrategy runner = some out)
      (sample (arbitrary.initialStateStrategy runner)) := by
  cases drawn : arbitrary.initialStateStrategy runner with
  | none => exact Yields.error ⟨rfl, .initial drawn⟩
  | some out => exact Yields.ok rfl

theorem sampleCommand_yields (state : A.State) (runner : R) :
    Yields (Unsampled arbitrary) (fun out => arbitrary.commandStrategy state runner = some out)
      (sample (arbitrary.commandStrategy state runner)) := by
  cases drawn : arbitrary.commandStrategy state runner with
  | none => exact Yields.error ⟨rfl, .command drawn⟩
  | some out => exact Yields.ok rfl

end Sampling

/-! ## Positions of a seeded stream -/

theorem drawWords_position (n : Nat) (seed : Seed) (pos : DrawPos) :
    drawWords n (SeededEntropy.at seed pos : SeededEntropy chacha12) =
      .at seed (pos + .ofNat (2 * n)) := by
  induction n generalizing pos with
  | zero => simp [drawWords]
  | succ n ih =>
    have next : (drawU64 (SeededEntropy.at seed pos : SeededEntropy chacha12)).2 =
        .at seed (pos + 2) := rfl
    rw [drawWords, next, ih, UInt64.add_assoc]
    congr 2
    rw [← UInt64.toNat_inj, UInt64.toNat_add, UInt64.toNat_ofNat', UInt64.toNat_ofNat']
    simp only [UInt64.reduceToNat]
    omega

section Drivers

variable [CtxEntropy A.Ctx (SeededEntropy chacha12)]
variable (arbitrary : AggregateArbitrary A R chacha12) (digest128 : A.State → D)

/-- What the suite relies on: sampled genesis states are in their initial phase, contexts
expose the stream they are given, `decide` draws forward and at most `words` words, which
leaves room in the counter, and types have a name. -/
structure Drivable (words maxSteps : Nat) : Prop where
  initial : ∀ runner state runner', arbitrary.initialStateStrategy runner = some (state, runner') →
    Aggregate.new state = .ok ⟨state⟩
  exposes : ∀ e step, entropy (arbitrary.testCtx e step) = some e
  forward : ∀ (state : A.State) (cmd : A.Command) (ctx : A.Ctx),
    ∃ n ≤ words, (A.decide state cmd ctx).2 = drawnCtx n ctx
  room : 2 * words * maxSteps < 2 ^ 64
  headroom : maxSteps + 2 ^ 32 < 2 ^ 64
  named : A.eventTypeName ≠ ""

variable {arbitrary} {words maxSteps : Nat}

/-- Where `decide_only` leaves the stream of a context that stands at `pos`. -/
theorem Drivable.decideOnly (drivable : Drivable arbitrary words maxSteps) {seed : Seed}
    {pos : DrawPos} {step : UInt64} {aggregate : Aggregate A} {cmd : A.Command} {drawn : A.Ctx}
    {result : Except (Rejection A) (List A.Event)}
    (decided : aggregate.decideOnly cmd (arbitrary.testCtx (.at seed pos) step) =
      (result, drawn)) :
    ∃ n ≤ words, entropy drawn = some (.at seed (pos + .ofNat (2 * n))) := by
  have exposed := drivable.exposes (.at seed pos) step
  have reached : (aggregate.decideOnly cmd (arbitrary.testCtx (.at seed pos) step)).2 = drawn :=
    congrArg Prod.snd decided
  rcases decideOnly_cases aggregate cmd (arbitrary.testCtx (.at seed pos) step) with
    unchanged | made
  · refine ⟨0, Nat.zero_le _, ?_⟩
    rw [← reached, unchanged, exposed]
    simp
  · obtain ⟨n, few, drew⟩ := drivable.forward aggregate.state cmd
      (arbitrary.testCtx (.at seed pos) step)
    refine ⟨n, few, ?_⟩
    rw [← reached, made, drew, entropy_drawnCtx, exposed, Option.map_some, drawWords_position]

end Drivers

/-! ## Between two commands -/

/-- The positions of a history start at 0, ascend, and move by at most `words` words each. -/
structure Ascending (words : Nat) (history : List (Record A)) : Prop where
  bounded : ∀ seq, seq ≤ history.length → (posAt history seq).toNat ≤ 2 * words * seq
  ascending : ∀ seq, seq < history.length → posAt history seq ≤ posAt history (seq + 1)

theorem Ascending.nil (words : Nat) : Ascending words ([] : List (Record A)) := by
  refine ⟨?_, ?_⟩
  · intro seq bound
    obtain rfl : seq = 0 := Nat.le_zero.mp bound
    simp
  · intro seq bound
    exact absurd bound (Nat.not_lt_zero seq)

/-- A record after at most `words` more words, where the counter has room for them. -/
theorem Ascending.push {words n : Nat} {history : List (Record A)}
    (ascending : Ascending words history) (few : n ≤ words)
    (room : 2 * words * (history.length + 1) < 2 ^ 64) (events : List A.Event) :
    Ascending words (history ++
      [⟨events, posAt history history.length + .ofNat (2 * n)⟩]) := by
  have reached := ascending.bounded history.length (Nat.le_refl _)
  rw [Nat.mul_succ] at room
  have moved : (posAt history history.length + UInt64.ofNat (2 * n)).toNat =
      (posAt history history.length).toNat + 2 * n := by
    rw [UInt64.toNat_add, UInt64.toNat_ofNat']
    omega
  refine ⟨?_, ?_⟩
  · intro seq bound
    rw [List.length_append, List.length_singleton] at bound
    by_cases old : seq ≤ history.length
    · rw [posAt_append old]
      exact ascending.bounded seq old
    · obtain rfl : seq = history.length + 1 := by omega
      rw [posAt_push, moved, Nat.mul_succ]
      omega
  · intro seq bound
    rw [List.length_append, List.length_singleton] at bound
    rw [posAt_append (by omega)]
    by_cases old : seq < history.length
    · rw [posAt_append old]
      exact ascending.ascending seq old
    · obtain rfl : seq = history.length := by omega
      rw [posAt_push, UInt64.le_iff_toNat_le, moved]
      exact Nat.le_add_right _ _

/-! ## The digests a driver records -/

section Reported

variable (digest128 : A.State → D)

/-- The digests a driver has recorded, and the live one: each is the digest of the state after
the record it names, and the live one is the last of them, or the one it started from. -/
structure Reported (genesis : A.State) (history : List (Record A)) (start live : Aggregate A)
    (steps : List (Nat × D)) : Prop where
  each : ∀ seq digest, (seq, digest) ∈ steps →
    seq ≤ history.length ∧ digest = digest128 (stateAfter genesis history seq)
  last : (steps.getLast?.map Prod.snd).getD (digest128 start.state) = digest128 live.state

variable {digest128}

theorem Reported.nil (genesis : A.State) (history : List (Record A)) (live : Aggregate A) :
    Reported digest128 genesis history live live [] := by
  refine ⟨?_, rfl⟩
  intro seq digest member
  exact absurd member List.not_mem_nil

theorem Reported.cons {genesis : A.State} {history : List (Record A)} {start mid live : Aggregate A}
    {steps : List (Nat × D)} {seq : Nat}
    (reported : Reported digest128 genesis history mid live steps) (bound : seq ≤ history.length)
    (state : mid.state = stateAfter genesis history seq) :
    Reported digest128 genesis history start live ((seq, digest128 mid.state) :: steps) := by
  refine ⟨?_, ?_⟩
  · intro seq' digest member
    rcases List.mem_cons.mp member with same | member
    · obtain ⟨rfl, rfl⟩ := Prod.mk.inj same
      exact ⟨bound, congrArg digest128 state⟩
    · exact reported.each seq' digest member
  · have last := reported.last
    rw [List.getLast?_cons]
    cases final : steps.getLast? with
    | none => simpa [final] using last
    | some step => simpa [final] using last

end Reported

section History

variable [Journal J A Unit] [ContractJournal J A] [KeepsHistory J A]

/-- What holds between two commands of a driver: the journal holds a history whose end is the
live aggregate, the other streams are untouched, and the positions ascend. -/
structure InStep (words : Nat) (genesis : A.State) (history : StreamId → List (Record A)) (j : J)
    (aggregate : Aggregate A) : Prop where
  holds : KeepsHistory.Holds genesis history j
  state : aggregate = ⟨stateAfter genesis (history testStream) (history testStream).length⟩
  others : ∀ other, other ≠ testStream → history other = []
  ascending : Ascending words (history testStream)

variable {words maxSteps : Nat} {genesis : A.State} {history : StreamId → List (Record A)} {j : J}
variable {aggregate : Aggregate A}

theorem InStep.fresh (words : Nat) (genesis : A.State) :
    InStep words genesis (fun _ => []) (ContractJournal.fresh genesis : J) ⟨genesis⟩ :=
  ⟨KeepsHistory.fresh genesis, rfl, fun _ _ => rfl, Ascending.nil words⟩

theorem InStep.headPos (inStep : InStep words genesis history j aggregate) :
    Contract.headPos j testStream =
      .ok (posAt (history testStream) (history testStream).length) := by
  unfold Contract.headPos
  cases headed : Journal.head j testStream with
  | none => rw [KeepsHistory.head_none inStep.holds headed, posAt_zero]
  | some seq =>
    obtain ⟨rfl, -⟩ := KeepsHistory.head_some inStep.holds headed
    simp only [KeepsHistory.entropyPos testStream _ inStep.holds (Nat.le_refl _), expect_ok]

variable [CtxEntropy A.Ctx (SeededEntropy chacha12)]
variable {arbitrary : AggregateArbitrary A R chacha12} {digest128 : A.State → D}

/-- One command of a driver: refused, with nothing changed, or appended as the next record. -/
theorem InStep.execute (drivable : Drivable arbitrary words maxSteps)
    (inStep : InStep words genesis history j aggregate)
    (room : (history testStream).length < maxSteps) (seed : Seed) (cmd : A.Command)
    (step : UInt64) {ctx : A.Ctx}
    (handed : ctx = arbitrary.testCtx
      (.at seed (posAt (history testStream) (history testStream).length)) step) :
    (∃ rejection drawn, execute j testStream aggregate cmd ctx =
      ⟨.error (.rejected rejection), j, aggregate, drawn⟩) ∨
    ∃ record j' aggregate' drawn, execute j testStream aggregate cmd ctx =
        ⟨.ok ((history testStream).length + 1), j', aggregate', drawn⟩ ∧
      InStep words genesis (pushTo history testStream record) j' aggregate' := by
  subst handed
  rcases KeepsHistory.execute inStep.holds testStream aggregate cmd (arbitrary.testCtx
      (.at seed (posAt (history testStream) (history testStream).length)) step) with
    ⟨rejection, drawn, -, outcome⟩ | ⟨events, drawn, pos, j', decided, position, outcome, kept⟩
  · exact .inl ⟨rejection, _, outcome⟩
  · obtain ⟨n, few, moved⟩ := drivable.decideOnly decided
    have reached : pos =
        posAt (history testStream) (history testStream).length + .ofNat (2 * n) := by
      rw [position, ctxDraws, moved]
      rfl
    refine .inr ⟨⟨events, pos⟩, j', _, drawn, outcome, kept, ?_, ?_, ?_⟩
    · rw [pushTo_self, List.length_append, List.length_singleton, stateAfter_push, inStep.state]
    · intro other distinct
      rw [pushTo_ne _ _ distinct, inStep.others other distinct]
    · rw [pushTo_self, reached]
      refine inStep.ascending.push few ?_ events
      have used := Nat.mul_le_mul_left (2 * words) room
      exact Nat.lt_of_le_of_lt used drivable.room

/-! ## Driving -/

/-- What a driver that started with the history `before` answers with: a later history, and
the digests of its later records. -/
def Driven (digest128 : A.State → D) (words maxSteps : Nat) (genesis : A.State)
    (before : List (Record A)) (start : Aggregate A)
    (out : J × Aggregate A × List (Nat × D) × R) : Prop :=
  ∃ history, InStep words genesis history out.1 out.2.1 ∧
    before <+: history testStream ∧ (history testStream).length ≤ maxSteps ∧
    Reported digest128 genesis (history testStream) start out.2.1 out.2.2.1

theorem driveLoop_yields (drivable : Drivable arbitrary words maxSteps) (seed : Seed)
    (left step : Nat) (runner : R) (inStep : InStep words genesis history j aggregate)
    (room : (history testStream).length + left ≤ maxSteps) :
    Yields (Unsampled arbitrary) (Driven digest128 words maxSteps genesis (history testStream) aggregate)
      (driveLoop arbitrary digest128 seed left step j aggregate runner) := by
  induction left generalizing step history j aggregate runner with
  | zero => exact Yields.ok ⟨history, inStep, List.prefix_rfl, room, Reported.nil ..⟩
  | succ left ih =>
    rw [driveLoop]
    by_cases terminal : isTerminal aggregate.phase = true
    · rw [if_pos terminal]
      exact Yields.ok ⟨history, inStep, List.prefix_rfl, by omega, Reported.nil ..⟩
    · rw [if_neg terminal]
      refine Yields.bind (sampleCommand_yields arbitrary _ _) ?_
      rintro ⟨cmd, runner⟩ -
      simp only [inStep.headPos, Lib.ok_bind]
      rcases inStep.execute drivable (by omega) seed cmd (.ofNat step) rfl with
        ⟨rejection, drawn, outcome⟩ | ⟨record, j', aggregate', drawn, outcome, inStep'⟩
      · simp only [outcome]
        refine Yields.bind (ih (step + 1) runner inStep (by omega)) ?_
        rintro ⟨journal, live, steps, runner⟩ driven
        exact Yields.ok driven
      · have length : (pushTo history testStream record testStream).length =
            (history testStream).length + 1 := by
          rw [pushTo_self, List.length_append, List.length_singleton]
        simp only [outcome]
        refine Yields.bind (ih (step + 1) runner inStep' (by omega)) ?_
        rintro ⟨journal, live, steps, runner⟩ ⟨h, kept, ⟨later, grown⟩, bound, reported⟩
        refine Yields.ok ⟨h, kept, ⟨record :: later, ?_⟩, bound, reported.cons ?_ ?_⟩
        · rw [← grown, pushTo_self, List.append_assoc, List.singleton_append]
        · rw [← grown, List.length_append, length]
          exact Nat.le_add_right _ _
        · rw [inStep'.state, length, ← grown, stateAfter_append genesis (Nat.le_of_eq length.symm)]

theorem drive_yields (drivable : Drivable arbitrary words maxSteps)
    (initial : Aggregate.new genesis = .ok ⟨genesis⟩) (seed : Seed) (runner : R) :
    Yields (Unsampled arbitrary) (Driven digest128 words maxSteps genesis [] ⟨genesis⟩)
      (drive (J := J) arbitrary digest128 seed genesis runner maxSteps) := by
  unfold drive
  simp only [newAggregate_ok initial, Lib.ok_bind]
  exact driveLoop_yields drivable seed maxSteps 0 runner (InStep.fresh words genesis)
    (Nat.le_of_eq (Nat.zero_add _))

end History

/-! ## What every append keeps -/

/-- What every append to the driven stream keeps, the driver keeps. -/
theorem driveLoop_keeps [Journal J A Unit] [CtxEntropy A.Ctx (SeededEntropy chacha12)]
    (arbitrary : AggregateArbitrary A R chacha12) {digest128 : A.State → D} (P : J → Prop)
    (append : ∀ j events pos, P j → P (Journal.appendIn j () testStream events pos).2.1)
    (seed : Seed) (left step : Nat) (runner : R) {j : J} (kept : P j) (aggregate : Aggregate A) :
    Yields (fun _ => True) (fun out => P out.1)
      (driveLoop arbitrary digest128 seed left step j aggregate runner) := by
  have anything : ∀ {α : Type} (x : Except ContractFailure α),
      Yields (fun _ => True) (fun _ => True) x := by
    intro α x
    cases x <;> exact trivial
  induction left generalizing step j aggregate runner with
  | zero => exact Yields.ok kept
  | succ left ih =>
    rw [driveLoop]
    by_cases terminal : isTerminal aggregate.phase = true
    · rw [if_pos terminal]
      exact Yields.ok kept
    · rw [if_neg terminal]
      refine Yields.bind (anything _) ?_
      rintro ⟨cmd, runner⟩ -
      refine Yields.bind (anything _) ?_
      intro pos _
      have kept' : P (execute j testStream aggregate cmd
          (arbitrary.testCtx (.at seed pos) (.ofNat step))).journal := by
        rcases execute_journal j testStream aggregate cmd
            (arbitrary.testCtx (.at seed pos) (.ofNat step)) with same | ⟨events, pos, written⟩
        · rw [same]
          exact kept
        · rw [written]
          exact append j events pos kept
      simp only
      generalize execute j testStream aggregate cmd _ = executed at kept' ⊢
      refine Yields.bind (ih (step + 1) runner kept' executed.aggregate) ?_
      rintro ⟨journal, live, steps, runner⟩ later
      cases executed.result with
      | ok seq => exact Yields.ok later
      | error error => exact Yields.ok later

end Contract

end Ironstate
