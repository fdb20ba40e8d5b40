import Ironstate.Journal.Fixture
import Ironstate.Journal.Proofs.Driving

/-!
# The conformance suite passes

Every journal that keeps its history passes `run_contract`, and the forkable suite when its
forks hold the prefix (`runContract_history`, `runContractForkable_history`); the reference
`MemoryJournal` passes the retainable suite as well (`runContractRetainable_memory`). One
lemma for each property of the suite; what they share is `InStep`, which the driver keeps.
-/

namespace Ironstate

open StateMachine (isTerminal)
open Lib (Yields)

namespace Contract

variable {A : AggregateRules} {J R D : Type} {chacha12 : Seed → UInt64 → UInt32}
variable {words maxSteps : Nat} {genesis : A.State} {history : StreamId → List (Record A)} {j : J}
variable {aggregate : Aggregate A} (case : UInt32)

/-! ## Positions -/

/-- A loop over positions that are known and do not decrease. -/
theorem checkPositions_ends [Journal J A Unit] {stream : StreamId} (property place : String)
    (start count : Nat) (positions : Nat → DrawPos)
    (reads : ∀ seq, start ≤ seq → seq < start + count →
      Journal.entropyPos j stream seq = .ok (positions seq))
    (ascending : ∀ seq, start ≤ seq → seq + 1 < start + count →
      positions seq ≤ positions (seq + 1)) :
    ∃ last, checkPositions property place j stream case (List.range' start count) = .ok last := by
  -- the position before the next one: no larger than it
  have loop : Yields (fun _ => False) (fun _ => True)
      (checkPositions property place j stream case (List.range' start count)) := by
    refine Yields.mono (fun _ _ => trivial) (Yields.foldlM (fun done previous =>
      start + done.length < start + count → previous ≤ positions (start + done.length))
      ?_ (fun _ => UInt64.zero_le))
    intro done seq later previous whole inv
    have length := congrArg List.length whole
    have next : (List.range' start count)[done.length]? = some seq := by
      rw [whole, List.getElem?_append_right (Nat.le_refl _), Nat.sub_self]
      rfl
    rw [List.length_range', List.length_append, List.length_cons] at length
    have here : seq = start + done.length := by
      rw [List.getElem?_range' (by omega)] at next
      simpa using (Option.some.inj next).symm
    subst here
    have ordered := inv (by omega)
    rw [checkPosition, reads _ (Nat.le_add_right ..) (by omega)]
    simp only [check_ok (decide_eq_true ordered)]
    refine Yields.ok ?_
    intro more
    rw [List.length_append, List.length_singleton] at more ⊢
    exact ascending _ (Nat.le_add_right ..) more
  obtain ⟨last, ended, -⟩ := loop.ends
  exact ⟨last, ended⟩

theorem stamped_eventsAfter (records : List (Record A)) (seq : Nat) :
    ∀ stored ∈ eventsAfter records seq,
      stored.typeName = A.eventTypeName ∧ stored.version = 1 := by
  intro stored member
  obtain ⟨⟨record, n⟩, -, member⟩ := List.mem_flatMap.mp member
  obtain ⟨event, -, rfl⟩ := List.mem_map.mp member
  exact ⟨rfl, rfl⟩

section History

variable [Journal J A Unit] [ContractJournal J A] [KeepsHistory J A]

/-! ## The stream that no driver touches -/

theorem InStep.untouched (inStep : InStep words genesis history j aggregate) :
    history otherStream = [] :=
  inStep.others otherStream (by decide)

theorem InStep.untouched_head (inStep : InStep words genesis history j aggregate) :
    Journal.head j otherStream = none := by
  rw [KeepsHistory.head otherStream inStep.holds, inStep.untouched]
  rfl

theorem InStep.untouched_events (inStep : InStep words genesis history j aggregate) :
    Journal.eventsSince j otherStream none = .ok [] := by
  rw [KeepsHistory.eventsSince otherStream none inStep.holds, inStep.untouched]
  rfl

theorem InStep.untouched_pos (inStep : InStep words genesis history j aggregate) :
    Journal.entropyPos j otherStream 0 = .ok 0 :=
  KeepsHistory.entropyPos otherStream 0 inStep.holds (Nat.zero_le _)

theorem InStep.untouched_snapshot (inStep : InStep words genesis history j aggregate) :
    ∃ snap, Journal.latestSnapshot j otherStream = .ok (some snap) ∧ snapshotKey snap = (0, 0) := by
  obtain ⟨snap, latest, honest⟩ := KeepsHistory.latestSnapshot otherStream inStep.holds
  rw [inStep.untouched] at honest
  have first : snap.atSeq = 0 := Nat.le_zero.mp honest.bound
  have pos := honest.pos
  rw [first, posAt_zero] at pos
  refine ⟨snap, latest, ?_⟩
  rw [snapshotKey, first, pos]

/-! ## The properties that only read -/

theorem InStep.positions (inStep : InStep words genesis history j aggregate) :
    property2Positions j testStream case = .ok () := by
  unfold property2Positions
  cases headed : Journal.head j testStream with
  | none => rfl
  | some head =>
    obtain ⟨rfl, -⟩ := KeepsHistory.head_some inStep.holds headed
    obtain ⟨last, ended⟩ := checkPositions_ends case "2" "Seq" 1 (history testStream).length
      (posAt (history testStream))
      (fun seq _ below => KeepsHistory.entropyPos testStream seq inStep.holds (by omega))
      (fun seq _ below => inStep.ascending.ascending seq (by omega))
    simp only [ended]
    rfl

theorem InStep.versionTagging (inStep : InStep words genesis history j aggregate)
    (named : A.eventTypeName ≠ "") : property7VersionTagging j testStream case = .ok () := by
  have tagged : Yields (fun _ => False) (fun _ => True)
      (property7VersionTagging j testStream case) := by
    unfold property7VersionTagging
    rw [KeepsHistory.eventsSince testStream none inStep.holds, expect_ok, Lib.ok_bind]
    refine Yields.forM ?_
    intro stored member
    obtain ⟨typeName, version⟩ := stamped_eventsAfter _ _ stored member
    rw [typeName, version, check_ok (by simpa using named), check_ok (by decide)]
    exact Yields.ok trivial
  obtain ⟨_, ended, -⟩ := tagged.ends
  exact ended

theorem InStep.outOfRange (inStep : InStep words genesis history j aggregate)
    (headroom : (history testStream).length + 2 ^ 32 < 2 ^ 64) :
    property9OutOfRange j testStream case = .ok () := by
  have head : (Journal.head j testStream).getD 0 = (history testStream).length := by
    rw [KeepsHistory.head testStream inStep.holds]
    split <;> simp_all
  have added : ∀ a b, a + b < 2 ^ 64 → addU64 a b = .ok (a + b) := by
    intro a b fits
    rw [addU64, Lib.Checked.add_ok fits]
  have probed : Yields (fun _ => False) (fun _ => True) (property9OutOfRange j testStream case) := by
    unfold property9OutOfRange
    simp only [head]
    rw [added _ 1 (by omega), Lib.ok_bind, added _ 2 (by omega), Lib.ok_bind,
      added _ _ (by omega), Lib.ok_bind, added _ 1 (by omega), Lib.ok_bind]
    refine Yields.forM ?_
    intro probe member
    have past : (history testStream).length < probe := by
      simp only [List.mem_cons, List.not_mem_nil, or_false] at member
      omega
    rw [KeepsHistory.entropyPos_past testStream probe inStep.holds past]
    exact Yields.of_eq (check_ok (decide_eq_true rfl)) trivial
  obtain ⟨_, ended, -⟩ := probed.ends
  exact ended

section Digests

variable [DecidableEq D] {digest128 : A.State → D} {steps : List (Nat × D)}

theorem InStep.roundTrip (inStep : InStep words genesis history j aggregate)
    {start : Aggregate A}
    (reported : Reported digest128 genesis (history testStream) start aggregate steps) :
    property1RoundTrip digest128 j testStream genesis steps case = .ok () := by
  unfold property1RoundTrip
  cases final : steps.getLast? with
  | none => rfl
  | some step =>
    have live : step.2 = digest128 aggregate.state := by
      have last := reported.last
      rw [final] at last
      exact last
    rw [inStep.state] at live
    have replayed := KeepsHistory.replay_all genesis (history testStream)
    simp only [KeepsHistory.eventsSince testStream none inStep.holds, Option.getD_none, expect_ok,
      Lib.ok_bind]
    rw [replayed, expect_ok, Lib.ok_bind]
    exact check_ok (decide_eq_true live.symm)

end Digests

/-! ## The properties that resume -/

theorem InStep.snapshotVsHead (chacha12 : Seed → UInt64 → UInt32)
    (inStep : InStep words genesis history j aggregate) (seed : Seed) :
    property5SnapshotVsHead chacha12 j testStream seed case = .ok () := by
  unfold property5SnapshotVsHead
  cases headed : Journal.head j testStream with
  | none => rfl
  | some head =>
    simp only [inStep.headPos, KeepsHistory.resume inStep.holds, expect_ok, Lib.ok_bind]
    exact check_ok (decide_eq_true rfl)

section Sampled

variable [DecidableEq D] {arbitrary : AggregateArbitrary A R chacha12} {digest128 : A.State → D}

theorem InStep.resumeIdentity (inStep : InStep words genesis history j aggregate) (seed : Seed)
    (runner : R) :
    Yields (Unsampled arbitrary) (fun _ => True)
      (property3ResumeIdentity arbitrary digest128 seed j testStream aggregate runner case) := by
  unfold property3ResumeIdentity
  cases headed : Journal.head j testStream with
  | none => exact Yields.ok trivial
  | some head =>
    simp only [inStep.headPos, KeepsHistory.resume inStep.holds, expect_ok, Lib.ok_bind]
    refine Yields.bind (sampleCommand_yields arbitrary _ _) ?_
    rintro ⟨cmd, runner⟩ -
    simp only [← inStep.state, decide_true, check_true, Lib.ok_bind]
    exact Yields.ok trivial

/-! ## The properties that drive a journal of their own -/

variable [CtxEntropy A.Ctx (SeededEntropy chacha12)]

/-- An armed journal over a fresh one: a command is rejected, with nothing changed, or its
append fails, with nothing journaled, the aggregate as it was and the entropy rewound. -/
theorem execute_armed {inner : J} (fresh : KeepsHistory.Holds genesis (fun _ => []) inner)
    (aggregate : Aggregate A) (cmd : A.Command) (ctx : A.Ctx) :
    (∃ rejection drawn, execute (⟨inner, true⟩ : FailNextAppend J) testStream aggregate cmd ctx =
      ⟨.error (.rejected rejection), ⟨inner, true⟩, aggregate, drawn⟩) ∨
    ∃ error drawn, execute (⟨inner, true⟩ : FailNextAppend J) testStream aggregate cmd ctx =
      ⟨.error (.journal error), ⟨inner, false⟩, aggregate, rewind drawn 0⟩ := by
  have spec := execute_spec (⟨inner, true⟩ : FailNextAppend J) testStream aggregate cmd ctx
  generalize execute (⟨inner, true⟩ : FailNextAppend J) testStream aggregate cmd ctx = outcome
    at spec ⊢
  have start : Ironstate.headPos (⟨inner, true⟩ : FailNextAppend J) testStream = .ok 0 :=
    KeepsHistory.headPos fresh testStream
  cases spec with
  | headFailed failed =>
    rw [start] at failed
    cases failed
  | rejected head decided => exact .inl ⟨_, _, rfl⟩
  | appendFailed head decided failed =>
    obtain rfl := Except.ok.inj (start.symm.trans head)
    obtain ⟨-, written⟩ := Prod.mk.inj failed
    obtain ⟨rfl, -⟩ := Prod.mk.inj written
    exact .inr ⟨_, _, rfl⟩
  | appended head decided made =>
    obtain ⟨landed, -⟩ := Prod.mk.inj made
    cases landed

theorem property6Loop_yields {inner : J}
    (fresh : KeepsHistory.Holds genesis (fun _ => []) inner) (seed : Seed) (left : Nat)
    (runner : R) :
    Yields (Unsampled arbitrary) (fun _ => True) (property6Loop arbitrary digest128 seed
      (digest128 aggregate.state) case left ⟨inner, true⟩ aggregate runner) := by
  induction left generalizing runner with
  | zero => exact Yields.ok trivial
  | succ left ih =>
    rw [property6Loop]
    by_cases terminal : isTerminal aggregate.phase = true
    · rw [if_pos terminal]
      exact Yields.ok trivial
    · rw [if_neg terminal]
      refine Yields.bind (sampleCommand_yields arbitrary _ _) ?_
      rintro ⟨cmd, runner⟩ -
      rcases execute_armed fresh aggregate cmd (arbitrary.testCtx (.at seed 0) 0) with
        ⟨rejection, drawn, outcome⟩ | ⟨error, drawn, outcome⟩
      · simp only [outcome]
        exact ih runner
      · have unheaded : (Journal.head (⟨inner, false⟩ : FailNextAppend J) testStream).isNone = true := by
          show (Journal.head inner testStream).isNone = true
          rw [KeepsHistory.head testStream fresh]
          rfl
        have rewound : (ctxDraws (rewind drawn 0)).getD 0 = 0 := by
          rw [ctxDraws_rewind]
          cases ctxDraws drawn <;> rfl
        simp only [outcome, unheaded, rewound, decide_true, check_true, Lib.ok_bind]
        exact Yields.ok trivial

theorem failedAppend_yields (drivable : Drivable arbitrary words maxSteps) (seed : Seed)
    (runner : R) :
    Yields (Unsampled arbitrary) (fun _ => True)
      (property6FailedAppend arbitrary digest128 seed J runner case) := by
  unfold property6FailedAppend
  refine Yields.bind (sampleInitial_yields arbitrary _) ?_
  rintro ⟨genesis, runner⟩ drawn
  simp only [newAggregate_ok (drivable.initial _ _ _ drawn), Lib.ok_bind]
  exact property6Loop_yields case (KeepsHistory.fresh genesis) seed 8 runner

theorem property8Loop_yields (drivable : Drivable arbitrary words maxSteps) (seed : Seed)
    (left step : Nat) (runner : R) (inStep : InStep words genesis history j aggregate)
    (room : (history testStream).length + left ≤ maxSteps) :
    Yields (Unsampled arbitrary) (fun out => ∃ later aggregate', InStep words genesis later out.1 aggregate')
      (property8Loop arbitrary seed none case left step j aggregate runner) := by
  induction left generalizing step history j aggregate runner with
  | zero => exact Yields.ok ⟨history, aggregate, inStep⟩
  | succ left ih =>
    rw [property8Loop]
    by_cases terminal : isTerminal aggregate.phase = true
    · rw [if_pos terminal]
      exact Yields.ok ⟨history, aggregate, inStep⟩
    · rw [if_neg terminal]
      refine Yields.bind (sampleCommand_yields arbitrary _ _) ?_
      rintro ⟨cmd, runner⟩ -
      simp only [inStep.headPos, Lib.ok_bind]
      rcases inStep.execute drivable (by omega) seed cmd (.ofNat step) rfl with
        ⟨rejection, drawn, outcome⟩ | ⟨record, j', aggregate', drawn, outcome, inStep'⟩
      · simp only [outcome, inStep.untouched_head, decide_true, check_true, Lib.ok_bind]
        exact ih (step + 1) runner inStep (by omega)
      · simp only [outcome, inStep'.untouched_head, decide_true, check_true, Lib.ok_bind]
        refine ih (step + 1) runner inStep' ?_
        rw [pushTo_self, List.length_append, List.length_singleton]
        omega

theorem streamIndependence_yields (drivable : Drivable arbitrary words maxSteps)
    (initial : Aggregate.new genesis = .ok ⟨genesis⟩) (seed : Seed) (runner : R) :
    Yields (Unsampled arbitrary) (fun _ => True)
      (property8StreamIndependence arbitrary seed J genesis runner maxSteps case) := by
  have start : InStep words genesis _ (ContractJournal.fresh genesis : J) ⟨genesis⟩ :=
    InStep.fresh words genesis
  obtain ⟨before, latest, key⟩ := start.untouched_snapshot
  unfold property8StreamIndependence
  simp only [newAggregate_ok initial, start.untouched_head, start.untouched_events, latest,
    expect_ok, Lib.ok_bind]
  refine Yields.bind (property8Loop_yields case drivable seed maxSteps 0 runner start ?_) ?_
  · exact Nat.le_of_eq (Nat.zero_add _)
  · rintro ⟨journal, runner⟩ ⟨later, live, inStep⟩
    obtain ⟨after, latest, key'⟩ := inStep.untouched_snapshot
    simp only [inStep.untouched_events, inStep.untouched_pos, latest, key, key', expect_ok,
      decide_true, check_true, Lib.ok_bind, Option.map_some]
    exact Yields.ok trivial

end Sampled

end History

/-! ## The properties that need branching -/

section Forkable

variable [ForkableJournal J A Unit] [ContractJournal J A] [KeepsHistory J A] [BranchesHistory J A]
variable [DecidableEq D] {digest128 : A.State → D}

theorem InStep.roundTripAtEachStep (inStep : InStep words genesis history j aggregate)
    {start : Aggregate A} {steps : List (Nat × D)}
    (reported : Reported digest128 genesis (history testStream) start aggregate steps) :
    property1RoundTripAtEachStep digest128 j testStream genesis steps case = .ok () := by
  have looped : Yields (fun _ => False) (fun _ => True)
      (property1RoundTripAtEachStep digest128 j testStream genesis steps case) := by
    refine Yields.forM ?_
    rintro ⟨seq, digest⟩ member
    obtain ⟨bound, same⟩ := reported.each seq digest member
    obtain ⟨branch, forked, kept⟩ := BranchesHistory.fork testStream seq inStep.holds bound
    have events := KeepsHistory.eventsSince testStream none kept
    have replayed := KeepsHistory.replay_all genesis ((history testStream).take seq)
    simp only [if_true, Option.getD_none] at events
    simp only [forked, events, expect_ok, Lib.ok_bind]
    rw [replayed, expect_ok, Lib.ok_bind, List.length_take, Nat.min_eq_left bound,
      stateAfter_take genesis _ (Nat.le_refl seq), same, check_ok (decide_eq_true rfl)]
    exact Yields.ok trivial
  obtain ⟨_, ended, -⟩ := looped.ends
  exact ended

theorem midpoint_bounds {head : Nat} (positive : 0 < head) :
    1 ≤ midpoint head ∧ midpoint head ≤ head := by
  unfold midpoint
  omega

theorem InStep.forkPosition (inStep : InStep words genesis history j aggregate) :
    property4ForkPosition j testStream case = .ok () := by
  unfold property4ForkPosition
  cases headed : Journal.head j testStream with
  | none => rfl
  | some head =>
    obtain ⟨rfl, positive⟩ := KeepsHistory.head_some inStep.holds headed
    obtain ⟨above, bound⟩ := midpoint_bounds positive
    obtain ⟨branch, forked, kept⟩ := BranchesHistory.fork testStream _ inStep.holds bound
    have length : ((history testStream).take (midpoint (history testStream).length)).length =
        midpoint (history testStream).length := by
      rw [List.length_take, Nat.min_eq_left bound]
    have branchHead := KeepsHistory.head testStream kept
    have branchPos := KeepsHistory.entropyPos testStream (midpoint (history testStream).length)
      kept (by simp only [if_true, length, Nat.le_refl])
    simp only [if_true, length, if_pos (show 0 < midpoint _ from above)] at branchHead
    simp only [if_true, posAt_take _ (Nat.le_refl _)] at branchPos
    simp only [forked, branchPos, branchHead, expect_ok, Lib.ok_bind, decide_true, check_true,
      KeepsHistory.entropyPos testStream _ inStep.holds bound]

end Forkable

/-! ## Retention -/

/-- A stream whose only base is its genesis. -/
def Unsnapshotted (s : Stream A) : Prop := ∀ snap ∈ s.snapshots, snap.atSeq = 0

section Cut

variable {records : List (Record A)} {s : Stream A} {snap : Snapshot A} {seq : Nat}

/-- A snapshot at the head of a whole stream lets every truncation up to there through, and
what is left is sound and resumes. -/
theorem truncate_atHead (whole : Whole genesis records s) (honest : Honest genesis records snap)
    (atHead : snap.atSeq = records.length) (positive : 1 ≤ seq) (bound : seq ≤ records.length) :
    ∃ s', (s.snapshot snap).truncateBefore seq = .ok s' ∧ s'.truncated = seq - 1 ∧
      Sound genesis records s' ∧ s'.Based := by
  have kept := whole.snapshot honest
  have length := kept.length_eq
  have above : (s.snapshot snap).truncated < seq := by
    rw [kept.whole]
    exact positive
  have covered : ∃ base ∈ (s.snapshot snap).snapshots, seq - 1 ≤ base.atSeq ∧
      base.atSeq ≤ (s.snapshot snap).headNat := by
    refine ⟨snap, List.mem_append_right _ (List.mem_singleton.mpr rfl), ?_, ?_⟩ <;> omega
  have cut := (Stream.truncateBefore_ok (s.snapshot snap) _ seq).mpr
    ⟨above, by omega, covered, rfl⟩
  exact ⟨_, cut, rfl, kept.sound.truncate cut, Stream.based_truncateBefore cut⟩

/-- Below the horizon of such a stream nothing is known, when its only other base was its
genesis. -/
theorem truncated_gone (unsnapshotted : Unsnapshotted s) (atHead : snap.atSeq = records.length)
    {s' : Stream A} (cut : (s.snapshot snap).truncateBefore seq = .ok s')
    (bound : seq ≤ records.length) {gone : Nat} (positive : 1 ≤ gone) (below : gone < seq) :
    s'.entropyPos gone = .error (.unknownSeq gone) := by
  obtain ⟨-, -, -, rfl⟩ := (Stream.truncateBefore_ok _ s' seq).mp cut
  have unstored : (((s.snapshot snap).snapshots.filter fun snap => seq - 1 ≤ snap.atSeq).find?
      fun snap => snap.atSeq == gone) = none := by
    rw [List.find?_eq_none]
    intro other member here
    have here := beq_iff_eq.mp here
    rcases List.mem_append.mp (List.mem_of_mem_filter member) with stored | added
    · have first := unsnapshotted other stored
      omega
    · obtain rfl := List.mem_singleton.mp added
      omega
  have discarded : gone ≤ seq - 1 := by omega
  rw [Stream.entropyPos_of_recordAt unstored positive, Stream.recordAt_unknown (.inr discarded)]
  rfl

end Cut

/-- What a stream whose records below `seq` are discarded answers. -/
structure Retained [RetainableJournal J A Unit] (genesis : A.State) (records : List (Record A))
    (seq : Nat) (j : J) (stream : StreamId) : Prop where
  horizon : RetainableJournal.retainedFrom j stream = seq
  kept : ∀ known, seq ≤ known → known ≤ records.length →
    Journal.entropyPos j stream known = .ok (posAt records known)
  gone : ∀ gone, 1 ≤ gone → gone < seq →
    Journal.entropyPos j stream gone = .error (.unknownSeq gone)
  resume : ∀ (chacha12 : Seed → UInt64 → UInt32) (seed : Seed),
    (resume j stream seed : Resumed A chacha12) =
      .ok (⟨stateAfter genesis records records.length⟩, .at seed (posAt records records.length))

/-- The truncation property of any retainable journal that holds a history and whose
truncations, under an honest snapshot at the head, retain the rest. -/
theorem InStep.truncation [RetainableJournal J A Unit] [ContractJournal J A] [KeepsHistory J A]
    [DecidableEq D] (digest128 : A.State → D) (chacha12 : Seed → UInt64 → UInt32)
    (inStep : InStep words genesis history j aggregate)
    (retains : ∀ snap seq, Honest genesis (history testStream) snap →
      snap.atSeq = (history testStream).length → 1 ≤ seq → seq ≤ (history testStream).length →
      ∃ j' j'', Journal.snapshotIn j () testStream snap = (.ok (), j', ()) ∧
        RetainableJournal.truncateBefore j' testStream seq = (.ok (), j'') ∧
        Retained genesis (history testStream) seq j'' testStream) (seed : Seed) :
    property10Truncation chacha12 digest128 j testStream seed case = .ok () := by
  unfold property10Truncation
  cases headed : Journal.head j testStream with
  | none => rfl
  | some head =>
    obtain ⟨rfl, nonempty⟩ := KeepsHistory.head_some inStep.holds headed
    obtain ⟨above, bound⟩ := midpoint_bounds nonempty
    have resumed : (Ironstate.resume j testStream seed : Resumed A chacha12) = _ :=
      KeepsHistory.resume inStep.holds testStream seed
    obtain ⟨j', j'', stored, truncated, retained⟩ := retains
      ⟨stateAfter genesis (history testStream) (history testStream).length, 0,
        (history testStream).length, posAt (history testStream) (history testStream).length⟩ _
      ⟨Nat.le_refl _, rfl, rfl⟩ rfl above bound
    obtain ⟨last, walked⟩ := checkPositions_ends case "10" "retained Seq"
      (midpoint (history testStream).length)
      ((history testStream).length + 1 - midpoint (history testStream).length)
      (posAt (history testStream)) (fun seq low high => retained.kept seq low (by omega))
      (fun seq _ high => inStep.ascending.ascending seq (by omega))
    have swept : Yields (fun _ => False) (fun _ => True)
        ((List.range' 1 (midpoint (history testStream).length - 1)).forM
          (checkGone j'' testStream case)) := by
      refine Yields.forM ?_
      intro seq member
      rw [List.mem_range'_1] at member
      rw [checkGone, retained.gone seq member.1 (by omega)]
      exact Yields.of_eq (check_ok rfl) trivial
    obtain ⟨_, ended, -⟩ := swept.ends
    simp only [resumed, stored, truncated, retained.horizon, retained.resume, walked, ended,
      SeededEntropy.draws_at, expect_ok, Lib.ok_bind, decide_true, check_true]

section Memory

variable {m : MemoryJournal A}

theorem Retained.memory {records : List (Record A)} {seq : Nat}
    (whole : Whole genesis records (m.streamMut testStream))
    (unsnapshotted : Unsnapshotted (m.streamMut testStream)) {snap : Snapshot A}
    (honest : Honest genesis records snap) (atHead : snap.atSeq = records.length)
    (positive : 1 ≤ seq) (bound : seq ≤ records.length) :
    ∃ m' m'', Journal.snapshotIn m () testStream snap = (.ok (), m', ()) ∧
      RetainableJournal.truncateBefore m' testStream seq = (.ok (), m'') ∧
      Retained genesis records seq m'' testStream := by
  obtain ⟨s', cut, horizon, sound, based⟩ := truncate_atHead whole honest atHead positive bound
  have truncated := (MemoryJournal.truncateBefore_touched_iff
    (MemoryJournal.getElem?_put_self m testStream _)).mpr ⟨s', cut, rfl⟩
  rw [MemoryJournal.put_put] at truncated
  have here : (m.put testStream s').streamMut testStream = s' :=
    MemoryJournal.streamMut_put_self m testStream s'
  have length := Stream.headNat_eq sound.retains
  refine ⟨_, _, rfl, truncated, ?_, ?_, ?_, ?_⟩
  · rw [MemoryJournal.retainedFrom_eq, here, Stream.retainedFrom, horizon]
    omega
  · intro known low high
    rw [MemoryJournal.entropyPos_eq, here]
    exact sound.entropyPos (by omega) (.inl (by omega))
  · intro gone low high
    rw [MemoryJournal.entropyPos_eq, here]
    exact truncated_gone unsnapshotted atHead cut bound low high
  · intro chacha12 seed
    exact resume_sound (here.symm ▸ sound) (here.symm ▸ based) seed

theorem drive_unsnapshotted [CtxEntropy A.Ctx (SeededEntropy chacha12)]
    (arbitrary : AggregateArbitrary A R chacha12) (digest128 : A.State → D)
    (initial : Aggregate.new genesis = .ok ⟨genesis⟩) (seed : Seed) (maxSteps : Nat) (runner : R) :
    Yields (fun _ => True)
      (fun out : MemoryJournal A × _ => Unsnapshotted (out.1.streamMut testStream))
      (drive arbitrary digest128 seed genesis runner maxSteps) := by
  unfold drive
  simp only [newAggregate_ok initial, Lib.ok_bind]
  refine driveLoop_keeps arbitrary
    (fun j : MemoryJournal A => Unsnapshotted (j.streamMut testStream)) ?_ seed maxSteps 0 runner
    ?_ _
  · intro j events pos kept
    show Unsnapshotted ((j.appendIn testStream events pos).2.streamMut testStream)
    rw [MemoryJournal.streamMut_appendIn]
    exact kept
  · show Unsnapshotted ((MemoryJournal.new genesis).streamMut testStream)
    rw [MemoryJournal.streamMut_new]
    intro snap member
    obtain rfl := List.mem_singleton.mp member
    rfl

end Memory

/-! ## The three suites -/

section Suites

variable {arbitrary : AggregateArbitrary A R chacha12}

theorem forCases_yields {body : UInt32 → R → Except ContractFailure R}
    (each : ∀ case runner, Yields (Unsampled arbitrary) (fun _ => True) (body case runner)) (left : Nat)
    (case : UInt32) (runner : R) :
    Yields (Unsampled arbitrary) (fun _ => True) (forCases body left case runner) := by
  induction left generalizing case runner with
  | zero => exact Yields.ok trivial
  | succ left ih =>
    refine Yields.bind (each case runner) ?_
    intro runner _
    exact ih (case + 1) runner

/-- A suite that stops for want of a value only. -/
theorem passes {suite : Except ContractFailure Unit}
    (yields : Yields (Unsampled arbitrary) (fun _ => True) suite) :
    suite = .ok () ∨ suite = .error (.expect "strategy") ∧ arbitrary.Gap := by
  cases suite with
  | ok done => exact .inl rfl
  | error failure => exact .inr ⟨congrArg Except.error yields.message, yields.gap⟩

variable [CtxEntropy A.Ctx (SeededEntropy chacha12)] [DecidableEq D] (digest128 : A.State → D)

theorem contractCase_yields [Journal J A Unit] [ContractJournal J A] [KeepsHistory J A]
    (drivable : Drivable arbitrary words maxSteps)
    (initial : Aggregate.new genesis = .ok ⟨genesis⟩) (seedBase : UInt64) (runner : R) :
    Yields (Unsampled arbitrary) (fun out => ∃ history live, InStep words genesis history out.1 live ∧
        Reported digest128 genesis (history testStream) ⟨genesis⟩ live out.2.1)
      (contractCase (J := J) arbitrary digest128 maxSteps seedBase case genesis runner) := by
  unfold contractCase
  refine Yields.bind (drive_yields drivable initial (runSeed seedBase case) runner) ?_
  rintro ⟨journal, live, steps, runner⟩ ⟨history, inStep, -, bound, reported⟩
  have headroom : (history testStream).length + 2 ^ 32 < 2 ^ 64 := by
    have room := drivable.headroom
    omega
  simp only [inStep.positions, inStep.roundTrip case reported, inStep.outOfRange case headroom,
    inStep.versionTagging case drivable.named, inStep.snapshotVsHead, Lib.ok_bind]
  refine Yields.bind (inStep.resumeIdentity case (runSeed seedBase case) runner) ?_
  intro runner _
  refine Yields.bind (failedAppend_yields case drivable (runSeed seedBase case) runner) ?_
  intro runner _
  refine Yields.bind
    (streamIndependence_yields case drivable initial (runSeed seedBase case) runner) ?_
  intro runner _
  exact Yields.ok ⟨history, live, inStep, reported⟩

/-- Tallies that are bumped at every step. -/
def tallies : AggregateArbitrary (Fixture.Tally Fixture.Rng) Unit (fun _ _ => 0) where
  initialStateStrategy runner := some (Fixture.genesis, runner)
  commandStrategy _ runner := some (.bump, runner)
  testCtx e step := (⟨e, 0, step⟩ : OwnedDeterministicCtx Fixture.Rng UInt32)

/-- The state of a tally is its digest. -/
def digestTally (tally : (Fixture.Tally Fixture.Rng).State) : Fixture.TallyState := tally

theorem drivable_tallies : Drivable tallies 0 24 where
  initial := by
    intro runner state runner' drawn
    obtain ⟨rfl, -⟩ := Prod.mk.inj (Option.some.inj drawn)
    rfl
  exposes _ _ := rfl
  forward state cmd ctx := ⟨0, Nat.le_refl 0, (drawnCtx_zero ctx).symm⟩
  room := by decide
  headroom := by decide
  named := by decide

theorem tallies_gapless : ¬tallies.Gap := by
  rintro (none | none) <;> cases none

variable (seededRunner : UInt64 → R) (seedBase : UInt64) (cases : UInt32)

/-- `run_contract` of a journal that keeps its history ends, unless a strategy has no value
to give. -/
theorem runContract_history [Journal J A Unit] [ContractJournal J A] [KeepsHistory J A]
    (drivable : Drivable arbitrary words maxSteps) :
    runContract arbitrary digest128 seededRunner maxSteps seedBase J cases = .ok () ∨
      runContract arbitrary digest128 seededRunner maxSteps seedBase J cases =
        .error (.expect "strategy") ∧ arbitrary.Gap := by
  apply passes
  refine forCases_yields ?_ _ _ _
  intro case runner
  refine Yields.bind (sampleInitial_yields arbitrary _) ?_
  rintro ⟨genesis, runner⟩ drawn
  refine Yields.bind (contractCase_yields case digest128 drivable
    (drivable.initial _ _ _ drawn) seedBase runner) ?_
  rintro ⟨journal, steps, runner⟩ -
  exact Yields.ok trivial

theorem runContract_history_tallies :
    runContract tallies digestTally (fun _ => ()) 24 0xC047
        (MemoryJournal (Fixture.Tally Fixture.Rng)) 64 = .ok () :=
  (runContract_history (J := MemoryJournal (Fixture.Tally Fixture.Rng)) digestTally (fun _ => ())
    0xC047 64 drivable_tallies).resolve_right fun stopped => tallies_gapless stopped.2

/-- So does `run_contract_forkable` where forks hold the prefix. -/
theorem runContractForkable_history [ForkableJournal J A Unit] [ContractJournal J A]
    [KeepsHistory J A] [BranchesHistory J A] (drivable : Drivable arbitrary words maxSteps) :
    runContractForkable arbitrary digest128 seededRunner maxSteps seedBase J cases = .ok () ∨
      runContractForkable arbitrary digest128 seededRunner maxSteps seedBase J cases =
        .error (.expect "strategy") ∧ arbitrary.Gap := by
  apply passes
  refine forCases_yields ?_ _ _ _
  intro case runner
  refine Yields.bind (sampleInitial_yields arbitrary _) ?_
  rintro ⟨genesis, runner⟩ drawn
  refine Yields.bind (contractCase_yields case digest128 drivable
    (drivable.initial _ _ _ drawn) seedBase runner) ?_
  rintro ⟨journal, steps, runner⟩ ⟨history, live, inStep, reported⟩
  simp only [inStep.roundTripAtEachStep case reported, inStep.forkPosition, Lib.ok_bind]
  exact Yields.ok trivial

theorem runContractForkable_history_tallies :
    runContractForkable tallies digestTally (fun _ => ()) 24 0xC047
        (MemoryJournal (Fixture.Tally Fixture.Rng)) 64 = .ok () :=
  (runContractForkable_history (J := MemoryJournal (Fixture.Tally Fixture.Rng)) digestTally
    (fun _ => ()) 0xC047 64 drivable_tallies).resolve_right fun stopped => tallies_gapless stopped.2

/-- `run_contract_retainable` of the reference journal ends, unless a strategy has no value to
give: its driver stores no snapshot, so that a truncation leaves nothing below the horizon. -/
theorem runContractRetainable_memory (drivable : Drivable arbitrary words maxSteps) :
    runContractRetainable arbitrary digest128 seededRunner maxSteps seedBase (MemoryJournal A)
        cases = .ok () ∨
      runContractRetainable arbitrary digest128 seededRunner maxSteps seedBase (MemoryJournal A)
        cases = .error (.expect "strategy") ∧ arbitrary.Gap := by
  apply passes
  refine forCases_yields ?_ _ _ _
  intro case runner
  refine Yields.bind (sampleInitial_yields arbitrary _) ?_
  rintro ⟨genesis, runner⟩ drawn
  have initial := drivable.initial _ _ _ drawn
  have unsnapshotted := drive_unsnapshotted arbitrary digest128 initial (runSeed seedBase case)
    maxSteps runner
  refine Yields.bind (Yields.and (drive_yields drivable initial (runSeed seedBase case) runner)
    unsnapshotted) ?_
  rintro ⟨journal, live, steps, runner⟩ ⟨⟨history, inStep, -, -, -⟩, bare⟩
  have whole := inStep.holds.2 testStream
  have truncation := inStep.truncation case digest128 chacha12
    (fun snap seq honest atHead low high =>
      Retained.memory whole bare honest atHead low high) (runSeed seedBase case)
  simp only [truncation, Lib.ok_bind]
  exact Yields.ok trivial

theorem runContractRetainable_memory_tallies :
    runContractRetainable tallies digestTally (fun _ => ()) 24 0xC047
        (MemoryJournal (Fixture.Tally Fixture.Rng)) 32 = .ok () :=
  (runContractRetainable_memory digestTally (fun _ => ()) 0xC047 32
    drivable_tallies).resolve_right fun stopped => tallies_gapless stopped.2

end Suites

end Contract

end Ironstate
