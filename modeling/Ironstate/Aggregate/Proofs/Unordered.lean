import Ironstate.Aggregate.Proofs.Determinism

/-!
# The aggregate of `tests/planted_nondeterminism.rs`

`Leaky` emits its events in the order that a new hash map iterates in. The world counts the maps that
were made; each has an order of its own. The driver catches it exactly if the maps of two runs of
one case do not iterate alike.
-/

namespace Ironstate.Unordered

/-- `enum Phase`. -/
inductive Phase where
  | open
  | done
  deriving DecidableEq

/-- `enum Step`. -/
inductive Step where
  | finish
  deriving DecidableEq

instance : EventKind Step := ⟨fun _ => none, fun _ => "Finish", [.finish]⟩

instance : StateMachine Phase where
  Event := Step
  transition
    | .open, .finish => some .done
    | .done, .finish => none
  initial := .open
  isTerminal phase := phase == .done
  restriction _ := none
  stateVariants := [.open, .done]
  variantName
    | .open => "Open"
    | .done => "Done"

/-- `enum Command`. -/
inductive Command where
  | go
  deriving DecidableEq

instance : EventKind Command := ⟨fun _ => none, fun _ => "Go", [.go]⟩

/-- `struct PushedEvent`. -/
structure PushedEvent where
  key : UInt8
  deriving DecidableEq

/-- `struct Never`. -/
structure Never where

/-- `struct Leaky`. -/
structure Leaky where
  phase : Phase
  log : List UInt8
  deriving DecidableEq

/-- The rules of `Leaky`, when the map iterates in the given order. -/
abbrev Rules (E : Type) (order : List UInt8) : AggregateRules where
  State := Leaky
  Phase := Phase
  Command := Command
  Event := PushedEvent
  Error := Never
  Ctx := OwnedDeterministicCtx E UInt32
  phase leaky := leaky.phase
  decide _ _ ctx := (.ok (order.map PushedEvent.mk), ctx)
  evolve leaky event := { leaky with log := leaky.log ++ [event.key] }
  eventTypeName := "planted_nondeterminism::PushedEvent"

section Runs

variable {chacha12 : Seed → UInt64 → UInt32} (orders : Nat → List UInt8)

/-- `Leaky` as it runs: every call of `decide` makes a map. -/
def ambient (E : Type) : Ambient (Rules E (orders 0)) Nat where
  decide leaky cmd ctx made := ((Rules E (orders made)).decide leaky cmd ctx, made + 1)
  evolve leaky event made := ((Rules E (orders made)).evolve leaky event, made)

/-- `impl AggregateArbitrary for Leaky`. -/
def arbitrary (R : Type) : AggregateArbitrary (Rules (SeededEntropy chacha12) (orders 0)) R
    chacha12 where
  initialStateStrategy runner := some (⟨.open, []⟩, runner)
  commandStrategy _ runner := some (.go, runner)
  testCtx entropy step := { entropy, actor := 0, now := step }

/-- The orders of so many maps, from the one numbered `made`, one after the other. -/
def keys (made count : Nat) : List UInt8 :=
  ((List.range count).map fun k => orders (made + k)).flatten

theorem keys_cons (made count : Nat) :
    keys orders made (count + 1) = orders made ++ keys orders (made + 1) count := by
  unfold keys
  rw [List.range_succ_eq_map, List.map_cons, List.flatten_cons, List.map_map]
  congr 2
  refine List.map_congr_left fun k _ => ?_
  exact congrArg orders (by omega : made + (k + 1) = made + 1 + k)

theorem keys_succ (made count : Nat) :
    keys orders made (count + 1) = keys orders made count ++ orders (made + count) := by
  simp [keys, List.range_succ]

/-- Two stretches of maps give the same keys all along if they iterate alike. -/
theorem keys_agree_iff (made made' count : Nat) :
    (∀ k < count, keys orders made (k + 1) = keys orders made' (k + 1)) ↔
      ∀ k < count, orders (made + k) = orders (made' + k) := by
  constructor
  · intro agree k below
    have here := agree k below
    rw [keys_succ, keys_succ] at here
    have before : keys orders made k = keys orders made' k := by
      cases k with
      | zero => rfl
      | succ k => exact agree k (Nat.lt_of_succ_lt below)
    rw [before] at here
    exact List.append_cancel_left here
  · intro agree k below
    unfold keys
    congr 1
    refine List.map_congr_left fun i listed => ?_
    exact agree i (Nat.lt_of_lt_of_le (List.mem_range.mp listed) below)

theorem evolveAll_ambient {E : Type} (order : List UInt8) (log : List UInt8) (made : Nat) :
    (ambient orders E).evolveAll (order.map PushedEvent.mk) ⟨.open, log⟩ made =
      (⟨.open, log ++ order⟩, made) := by
  induction order generalizing log with
  | nil => rw [List.append_nil]; rfl
  | cons key order ih =>
    rw [List.map_cons, Ambient.evolveAll]
    refine (ih (log ++ [key])).trans ?_
    rw [List.append_assoc, List.singleton_append]

/-- One command makes one map. -/
theorem handleIn_ambient {E : Type} (log : List UInt8) (ctx : OwnedDeterministicCtx E UInt32)
    (made : Nat) :
    (⟨⟨.open, log⟩⟩ : Aggregate (Rules E (orders 0))).handleIn (ambient orders E) .go ctx made =
      ((.ok ((orders made).map PushedEvent.mk), ⟨⟨.open, log ++ orders made⟩⟩, ctx),
        made + 1) := by
  have evolved := evolveAll_ambient orders (E := E) (orders made) log (made + 1)
  exact congrArg (fun left : Leaky × Nat => ((Except.ok ((orders made).map PushedEvent.mk),
    Aggregate.mk (A := Rules E (orders 0)) left.1, ctx), left.2)) evolved

variable {R D : Type} (digest128 : Leaky → D)

/-- The digests of one run: after each step the keys of one more map have come in. -/
theorem digestSteps_ambient (seed : Seed) (left step : Nat) (log : List UInt8) (pos : DrawPos)
    (runner : R) (made : Nat) (digests : List D) :
    digestSteps (ambient orders (SeededEntropy chacha12)) (arbitrary orders R) digest128 seed left
        step ⟨⟨.open, log⟩⟩ pos runner made digests =
      .ok (digests ++ (List.range left).map
        (fun k => digest128 ⟨.open, log ++ keys orders made (k + 1)⟩), made + left) := by
  induction left generalizing step log pos made digests with
  | zero => simp [digestSteps]
  | succ left ih =>
    unfold digestSteps
    simp only [arbitrary, handleIn_ambient]
    refine (if_neg Bool.false_ne_true).trans ((ih _ _ _ _ _).trans ?_)
    rw [List.range_succ_eq_map, List.map_cons, List.map_map, List.append_assoc,
      List.singleton_append]
    have first : keys orders made (0 + 1) = orders made := by simp [keys]
    have later (k : Nat) : log ++ orders made ++ keys orders (made + 1) (k + 1) =
        log ++ keys orders made (k + 1 + 1) := by
      rw [List.append_assoc, ← keys_cons]
    simp only [first, later, Function.comp_def, Nat.succ_eq_add_one]
    rw [Nat.add_assoc, Nat.add_comm 1 left]

variable (seededRunner : UInt64 → R)

theorem oneRun_ambient (seed : UInt64) (case : UInt32) (maxSteps made : Nat) :
    oneRun (ambient orders (SeededEntropy chacha12)) (arbitrary orders R) digest128 seededRunner
        seed case maxSteps made =
      .ok ((List.range maxSteps).map
        (fun k => digest128 ⟨.open, keys orders made (k + 1)⟩), made + maxSteps) := by
  have loop := @digestSteps_ambient chacha12 orders R D digest128 (runSeed seed case)
    maxSteps 0 [] 0 (seededRunner (seed + case.toUInt64 + 1)) made []
  exact loop

/-- The state after a step of the run whose first map is numbered `made`. -/
def reached (made step : Nat) : Leaky := ⟨.open, keys orders made (step + 1)⟩

/-- The digests of two runs are the same exactly if the maps iterate alike, when they tell the
states apart that the runs reach at the same step. -/
theorem digests_eq_iff {digest128 : Leaky → D} {made made' maxSteps : Nat}
    (apart : ∀ k < maxSteps, digest128 (reached orders made k) = digest128 (reached orders made' k) →
      reached orders made k = reached orders made' k) :
    (List.range maxSteps).map (fun k => digest128 ⟨.open, keys orders made (k + 1)⟩) =
        (List.range maxSteps).map (fun k => digest128 ⟨.open, keys orders made' (k + 1)⟩) ↔
      ∀ k < maxSteps, orders (made + k) = orders (made' + k) := by
  rw [← keys_agree_iff, List.map_inj_left]
  constructor
  · intro agree k below
    exact congrArg Leaky.log (apart k below (agree k (List.mem_range.mpr below)))
  · intro agree k listed
    rw [agree k (List.mem_range.mp listed)]

/-- The digests tell the states apart that the two runs of a case reach at the same step. -/
def TellsApart (maxSteps cases made : Nat) : Prop :=
  ∀ case < cases, ∀ step < maxSteps,
    digest128 (reached orders (made + 2 * case * maxSteps) step) =
        digest128 (reached orders (made + (2 * case + 1) * maxSteps) step) →
      reached orders (made + 2 * case * maxSteps) step =
        reached orders (made + (2 * case + 1) * maxSteps) step

/-- The maps of the two runs of some case do not iterate alike. -/
def Differ (maxSteps cases made : Nat) : Prop :=
  ∃ case < cases, ∃ step < maxSteps,
    orders (made + 2 * case * maxSteps + step) ≠ orders (made + (2 * case + 1) * maxSteps + step)

/-- The runs of the next case are those of this one, two runs later. -/
theorem next_case (made n maxSteps : Nat) :
    made + maxSteps + maxSteps + 2 * n * maxSteps = made + 2 * (n + 1) * maxSteps ∧
      made + maxSteps + maxSteps + (2 * n + 1) * maxSteps =
        made + (2 * (n + 1) + 1) * maxSteps := by
  constructor <;> grind

theorem differ_succ_iff (maxSteps cases made : Nat) :
    Differ orders maxSteps (cases + 1) made ↔
      (∃ step < maxSteps, orders (made + step) ≠ orders (made + maxSteps + step)) ∨
        Differ orders maxSteps cases (made + maxSteps + maxSteps) := by
  have first (n : Nat) := (next_case made n maxSteps).1
  have second (n : Nat) := (next_case made n maxSteps).2
  constructor
  · rintro ⟨case, below, step, within, differ⟩
    cases case with
    | zero => exact .inl ⟨step, within, by simpa using differ⟩
    | succ case =>
      refine .inr ⟨case, Nat.lt_of_succ_lt_succ below, step, within, ?_⟩
      rwa [first, second]
  · rintro (⟨step, within, differ⟩ | ⟨case, below, step, within, differ⟩)
    · exact ⟨0, Nat.succ_pos cases, step, within, by simpa using differ⟩
    · refine ⟨case + 1, Nat.succ_lt_succ below, step, within, ?_⟩
      rwa [← first, ← second]

variable {orders digest128} in
theorem TellsApart.succ {maxSteps cases made : Nat}
    (apart : TellsApart orders digest128 maxSteps (cases + 1) made) :
    (∀ step < maxSteps,
        digest128 (reached orders made step) = digest128 (reached orders (made + maxSteps) step) →
          reached orders made step = reached orders (made + maxSteps) step) ∧
      TellsApart orders digest128 maxSteps cases (made + maxSteps + maxSteps) := by
  refine ⟨by simpa using apart 0 (Nat.succ_pos cases), fun case below => ?_⟩
  rw [(next_case made case maxSteps).1, (next_case made case maxSteps).2]
  exact apart (case + 1) (Nat.succ_lt_succ below)

variable {digest128} [DecidableEq D]

/-- The cases pass exactly if the maps of both runs of each iterate alike. -/
theorem determinismCases_ambient (params : DriveParams) (left : Nat) (case : UInt32) (made : Nat)
    (apart : TellsApart orders digest128 params.maxSteps left made) :
    (Differ orders params.maxSteps left made ∧ ∃ digestsA digestsB blamed,
        determinismCases (ambient orders (SeededEntropy chacha12)) (arbitrary orders R) digest128
          seededRunner params left case made = .error (.nondeterminism digestsA digestsB blamed)) ∨
      ¬Differ orders params.maxSteps left made ∧ ∃ made',
        determinismCases (ambient orders (SeededEntropy chacha12)) (arbitrary orders R) digest128
          seededRunner params left case made = .ok made' := by
  induction left generalizing case made with
  | zero =>
    refine .inr ⟨?_, made, rfl⟩
    rintro ⟨case, below, _⟩
    exact absurd below (Nat.not_lt_zero case)
  | succ left ih =>
    obtain ⟨here, later⟩ := apart.succ
    unfold determinismCases
    simp only [oneRun_ambient, Lib.ok_bind, differ_succ_iff]
    have same := digests_eq_iff orders here
    by_cases alike : ∀ k < params.maxSteps, orders (made + k) = orders (made + params.maxSteps + k)
    · rw [if_pos (same.mpr alike)]
      have none : ¬∃ k < params.maxSteps,
          orders (made + k) ≠ orders (made + params.maxSteps + k) := by
        rintro ⟨k, within, differ⟩
        exact differ (alike k within)
      simp only [none, false_or]
      exact ih (case + 1) _ later
    · rw [if_neg (mt same.mp alike)]
      refine .inl ⟨.inl ?_, _, _, _, rfl⟩
      simpa using alike

/-- `determinism_test!` catches the planted defect exactly if, in some case, some two maps that the
runs make at the same step iterate in another order; the digests are to tell the states apart that
the two runs of a case reach at the same step. -/
theorem runDeterminism_unordered (params : DriveParams) (made : Nat)
    (apart : TellsApart orders digest128 params.maxSteps params.cases.toNat made) :
    (∃ digestsA digestsB case, runDeterminism (ambient orders (SeededEntropy chacha12))
        (arbitrary orders R) digest128 seededRunner params made =
          .error (.nondeterminism digestsA digestsB case)) ↔
      ∃ case < params.cases.toNat, ∃ step < params.maxSteps,
        orders (made + 2 * case * params.maxSteps + step) ≠
          orders (made + (2 * case + 1) * params.maxSteps + step) := by
  change _ ↔ Differ orders params.maxSteps params.cases.toNat made
  unfold runDeterminism
  rcases @determinismCases_ambient chacha12 orders R D digest128 seededRunner _ params
      params.cases.toNat 0 made apart with
    ⟨differ, digestsA, digestsB, blamed, failed⟩ | ⟨alike, made', passed⟩
  · rw [failed]
    exact iff_of_true ⟨digestsA, digestsB, blamed, rfl⟩ differ
  · rw [passed, Lib.ok_bind, oneRun_ambient, Lib.ok_bind]
    refine iff_of_false ?_ alike
    rintro ⟨_, _, _, failed⟩
    cases failed

end Runs

/-- A digest of 128 bits: the keys as the digits of a number. -/
def digits (leaky : Leaky) : BitVec 128 :=
  leaky.log.foldl (fun sum key => sum * 7 + BitVec.ofNat 128 key.toNat) 1

/-- One map, the first of the second run of the second case, is enough. -/
theorem runDeterminism_unordered_once :
    let orders := fun made => if made = 6 then [6, 5, 4, 3, 2, 1] else [1, 2, 3, 4, 5, 6]
    ∃ digestsA digestsB case, runDeterminism (ambient orders (SeededEntropy fun _ _ => 0))
      (arbitrary orders Unit) digits (fun _ => ()) ⟨3, 2, 0xBAD⟩ 0 =
        .error (.nondeterminism digestsA digestsB case) :=
  (runDeterminism_unordered _ _ ⟨3, 2, 0xBAD⟩ 0 (by unfold TellsApart; decide)).mpr
    ⟨1, by decide, 0, by decide, by decide⟩

end Ironstate.Unordered
