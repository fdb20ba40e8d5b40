import Ironstate.Aggregate.Draws
import Ironstate.Aggregate.Proofs.Leak
import Ironstate.Aggregate.Proofs.Views

/-!
# The aggregates of `tests/planted_leak.rs`

Two aggregates with one shape (`shared_impls!`): `Clean` counts its events, `Leaky` copies the
sum of the hidden values into its public total. The driver passes the one and catches the other,
whatever the seed draws.
-/

namespace Ironstate.Planted

open Lib (Yields Unwinding)

/-- `struct Secret`: others learn nothing. -/
structure Secret where
  value : UInt8
  deriving DecidableEq

instance : Conceal Secret := ⟨Unit, fun _ => ()⟩

instance : DecidableEq (Concealed Secret) := inferInstanceAs (DecidableEq Unit)

/-- `enum Phase`. -/
inductive Phase where
  | live
  | ended
  deriving DecidableEq

/-- `enum Step`. -/
inductive Step where
  | «end»
  deriving DecidableEq

instance : EventKind Step := ⟨fun _ => none, fun _ => "End", [.end]⟩

instance : StateMachine Phase where
  Event := Step
  transition phase _ := if phase = .live then some .ended else none
  initial := .live
  isTerminal phase := phase == .ended
  restriction _ := none
  stateVariants := [.live, .ended]
  variantName
    | .live => "Live"
    | .ended => "Ended"

/-- `enum Command`. -/
inductive Command where
  | sum
  deriving DecidableEq

instance : EventKind Command := ⟨fun _ => none, fun _ => "Sum", [.sum]⟩

/-- `enum Ev`. -/
inductive Ev where
  | summed
  deriving DecidableEq

/-- `struct Leaky` and `struct Clean`. -/
structure Shape where
  phase : Phase
  publicTotal : UInt32
  secrets : PerPrincipal UInt32 Secret

/-- What `derive(Redact)` reads of the two structs. -/
def redact : Redacted UInt32 where
  input :=
    { attrs := [⟨"redact", .list [.principal UInt32]⟩]
      data := .named
        [⟨"phase", [], .plain Phase⟩, ⟨"public_total", [], .plain UInt32⟩,
          ⟨"secrets", [⟨"hidden", .path⟩], .perPrincipal Secret inferInstance⟩] }
  rules :=
    [(.public, .plain Phase), (.public, .plain UInt32),
      (.hiddenOwner, .perPrincipal Secret inferInstance)]
  fields := [.public Phase, .public UInt32, .hiddenPerPrincipal Secret inferInstance]
  accepted := rfl
  compiles := rfl

/-- The fields of a state, in order. -/
def Shape.fields (state : Shape) : StateOf UInt32 redact.fields :=
  (state.phase, state.publicTotal, state.secrets, ())

instance : View UInt32 Shape where
  Output := ViewOf UInt32 redact.fields
  viewFor state viewer := View.viewFor state.fields viewer

/-- `sample_secrets`. -/
def sampleSecrets : PerPrincipal UInt32 Secret :=
  PerPrincipal.mk ∅ |>.insert 1 ⟨5⟩ |>.insert 2 ⟨7⟩

/-- `Leaky::sample` and `Clean::sample`. -/
def sample : Shape := ⟨.live, 0, sampleSecrets⟩

section Shared

variable {chacha12 : Seed → UInt64 → UInt32} {R : Type}

/-- `shared_impls!`, the rules. -/
def shared (chacha12 : Seed → UInt64 → UInt32) (eventTypeName : String)
    (evolve : Shape → Ev → Shape) : AggregateRules where
  State := Shape
  Phase := Phase
  Command := Command
  Event := Ev
  Error := Unit
  Ctx := OwnedDeterministicCtx (SeededEntropy chacha12) UInt32
  phase state := state.phase
  decide _ _ ctx := (.ok [.summed], ctx)
  evolve := evolve
  eventTypeName := eventTypeName

variable {eventTypeName : String} {evolve : Shape → Ev → Shape}

instance : CtxEntropy (shared chacha12 eventTypeName evolve).Ctx (SeededEntropy chacha12) :=
  inferInstanceAs (CtxEntropy (OwnedDeterministicCtx (SeededEntropy chacha12) UInt32) _)

instance : View UInt32 (shared chacha12 eventTypeName evolve).State :=
  inferInstanceAs (View UInt32 Shape)

instance : DecidableEq (View.Output UInt32 (shared chacha12 eventTypeName evolve).State) :=
  inferInstanceAs (DecidableEq (Phase × UInt32 × PerPrincipalView UInt32 Secret × Unit))

/-- `resample_hidden`. The draw is `draw_range(0..256)`. -/
def resampleHidden (range : UInt64 → UInt64 → SeededEntropy chacha12 → UInt64)
    (state : Shape) (principal : UInt32) (entropy : SeededEntropy chacha12) : Shape :=
  match state.secrets.get principal with
  | some _ =>
    { state with secrets := state.secrets.insert principal ⟨(range 0 256 entropy).toUInt8⟩ }
  | none => state

/-- `shared_impls!`, the inputs of the driver. -/
def leakTestable (range : UInt64 → UInt64 → SeededEntropy chacha12 → UInt64) :
    LeakTestable (shared chacha12 eventTypeName evolve) UInt32 R chacha12 where
  initialStateStrategy runner := some (sample, runner)
  commandStrategy _ runner := some (.sum, runner)
  testCtx entropy step := ⟨entropy, 0, step⟩
  principals state := state.secrets.entries.toList.map Prod.fst
  resampleHidden := resampleHidden range

end Shared

/-- `Leaky`: the sum of the hidden values becomes public. -/
def evolveLeaky (state : Shape) : Ev → Shape
  | .summed =>
    { state with publicTotal :=
        state.secrets.entries.toList.foldl (fun sum entry => sum + entry.2.value.toUInt32) 0 }

/-- `Clean`: the total ignores the hidden values. -/
def evolveClean (state : Shape) : Ev → Shape
  | .summed => { state with publicTotal := state.publicTotal + 1 }

abbrev Leaky (chacha12 : Seed → UInt64 → UInt32) : AggregateRules :=
  shared chacha12 "planted_leak::Ev" evolveLeaky

abbrev Clean (chacha12 : Seed → UInt64 → UInt32) : AggregateRules :=
  shared chacha12 "planted_leak::Ev" evolveClean

/-! ## What the driver says of them -/

section Verdicts

variable {chacha12 : Seed → UInt64 → UInt32} {R : Type}
variable (range : UInt64 → UInt64 → SeededEntropy chacha12 → UInt64)

/-- What a viewer learns of a state. -/
theorem alike_iff (viewer : UInt32) (s t : Shape) :
    View.viewFor s viewer = View.viewFor t viewer ↔
      s.phase = t.phase ∧ s.publicTotal = t.publicTotal ∧
        PerPrincipal.Same viewer s.secrets t.secrets := by
  refine (viewFor_eq_iff viewer redact.fields s.fields t.fields).trans ?_
  exact ⟨fun ⟨phase, total, secrets, _⟩ => ⟨phase, total, secrets⟩,
    fun ⟨phase, total, secrets⟩ => ⟨phase, total, secrets, trivial⟩⟩

/-- A viewer cannot tell a state from its sibling. -/
theorem siblings_alike (state : Shape) {viewer perturbed : UInt32} (entropy : SeededEntropy chacha12)
    (distinct : (perturbed == viewer) = false) :
    View.viewFor state viewer =
      View.viewFor (resampleHidden range state perturbed entropy) viewer := by
  unfold resampleHidden
  split
  · rename_i held present
    have unseen := PerPrincipal.Same.insert state.secrets (by simpa using distinct) present
      (rfl : conceal (Secret.mk (range 0 256 entropy).toUInt8) = conceal held)
    exact (alike_iff viewer _ _).mpr ⟨rfl, rfl, unseen⟩
  · rfl

theorem resampleHidden_phase (state : Shape) (principal : UInt32)
    (entropy : SeededEntropy chacha12) :
    (resampleHidden range state principal entropy).phase = state.phase := by
  unfold resampleHidden
  split <;> rfl

theorem accepted {state : Shape} (live : state.phase = .live) :
    Aggregate.new (A := Leaky chacha12) state = .ok ⟨state⟩ := by
  obtain ⟨_, _, _⟩ := state
  cases live
  rfl

/-- What one command does to a live aggregate. -/
theorem handled_live {eventTypeName : String} {evolve : Shape → Ev → Shape} {state : Shape}
    (live : state.phase = .live)
    (input : Command × OwnedDeterministicCtx (SeededEntropy chacha12) UInt32) :
    Aggregate.handled (A := shared chacha12 eventTypeName evolve) ⟨state⟩ input =
      ⟨evolve state .summed⟩ := by
  obtain ⟨_, _, _⟩ := state
  cases live
  rfl

theorem handled_ended {eventTypeName : String} {evolve : Shape → Ev → Shape} {state : Shape}
    (ended : state.phase = .ended)
    (input : Command × OwnedDeterministicCtx (SeededEntropy chacha12) UInt32) :
    Aggregate.handled (A := shared chacha12 eventTypeName evolve) ⟨state⟩ input = ⟨state⟩ := by
  obtain ⟨_, _, _⟩ := state
  cases ended
  rfl

/-- The steps of a pair whose sums differ. -/
theorem leakSteps_leaky (seed : Seed) (case : UInt32) (p q : UInt32) (maxSteps : Nat) (runner : R)
    {sibling : Shape} (live : sibling.phase = .live)
    (different : (evolveLeaky sample .summed).publicTotal ≠
      (evolveLeaky sibling .summed).publicTotal) :
    leakSteps (leakTestable range : LeakTestable (Leaky chacha12) UInt32 R chacha12) [] seed case
      p q (maxSteps + 1) 0 ⟨sample⟩ ⟨sibling⟩ 0 runner = .error (.leak ⟨q, p, 1,
        View.viewFor (evolveLeaky sample .summed) q, View.viewFor (evolveLeaky sibling .summed) q,
        case⟩) := by
  refine leakSteps_caught (leakTestable range : LeakTestable (Leaky chacha12) UInt32 R _) [] seed case
    p q maxSteps ⟨sample⟩ ⟨sibling⟩ rfl rfl rfl (handled_live rfl _) (handled_live live _)
    (beq_eq_false_iff_ne.mpr fun same => ?_)
  exact different ((alike_iff q (evolveLeaky sample .summed) (evolveLeaky sibling .summed)).mp same).2.1

theorem leakPair_leaky (seed : Seed) (case : UInt32) (p q : UInt32) (maxSteps : Nat) (runner : R)
    (distinct : (p == q) = false) :
    leakPair (leakTestable range : LeakTestable (Leaky chacha12) UInt32 R chacha12) [] seed case
      p q maxSteps sample runner =
    leakSteps (leakTestable range : LeakTestable (Leaky chacha12) UInt32 R chacha12) [] seed case
      p q maxSteps 0 ⟨sample⟩ ⟨resampleHidden range sample p (.at seed 0)⟩ 0 runner :=
  leakPair_accepted (leakTestable range : LeakTestable (Leaky chacha12) UInt32 R chacha12) [] seed
    case p q maxSteps distinct rfl rfl (accepted (resampleHidden_phase range sample p _))
    (beq_iff_eq.mpr (siblings_alike range sample _ distinct))

/-- What is drawn for the siblings of a case. -/
def drawn (params : DriveParams) (case : UInt32) : UInt8 :=
  (range 0 256 (.at (runSeed params.seed case) 0)).toUInt8

/-- The report on a pair whose sibling has another sum. -/
def report (params : DriveParams) (viewer perturbed : UInt32) :
    Leak UInt32 (View.Output UInt32 (Leaky chacha12).State) :=
  ⟨viewer, perturbed, 1, View.viewFor (evolveLeaky sample .summed) viewer, View.viewFor
    (evolveLeaky (resampleHidden range sample perturbed (.at (runSeed params.seed 0) 0)) .summed)
    viewer, 0⟩

/-- A sibling that draws the value it had is the state itself. -/
theorem resampleHidden_kept {principal : UInt32} {held : UInt8} {entropy : SeededEntropy chacha12}
    (present : sampleSecrets.get principal = some ⟨held⟩)
    (same : (range 0 256 entropy).toUInt8 = held) :
    resampleHidden range sample principal entropy = sample := by
  have kept : sampleSecrets.insert principal ⟨held⟩ = sampleSecrets := by
    refine congrArg PerPrincipal.mk (Std.ExtTreeMap.ext_getElem? fun key => ?_)
    by_cases here : key = principal
    · subst here
      rw [BTreeMap.getElem?_insert_self]
      exact present.symm
    · exact BTreeMap.getElem?_insert_ne _ _ here
  unfold resampleHidden
  have found : sample.secrets.get principal = some ⟨held⟩ := present
  rw [found, same]
  exact congrArg (Shape.mk .live 0) kept

theorem total_one {entropy : SeededEntropy chacha12}
    (different : (range 0 256 entropy).toUInt8 ≠ 5) :
    (evolveLeaky sample .summed).publicTotal ≠
      (evolveLeaky (resampleHidden range sample 1 entropy) .summed).publicTotal := by
  intro same
  have sums : (0 : UInt32) + UInt8.toUInt32 5 + UInt8.toUInt32 7 =
      0 + (range 0 256 entropy).toUInt8.toUInt32 + UInt8.toUInt32 7 := same
  rw [UInt32.add_left_inj, UInt32.add_right_inj, UInt8.toUInt32_inj] at sums
  exact different sums.symm

theorem total_two {entropy : SeededEntropy chacha12}
    (different : (range 0 256 entropy).toUInt8 ≠ 7) :
    (evolveLeaky sample .summed).publicTotal ≠
      (evolveLeaky (resampleHidden range sample 2 entropy) .summed).publicTotal := by
  intro same
  have sums : (0 : UInt32) + UInt8.toUInt32 5 + UInt8.toUInt32 7 =
      0 + UInt8.toUInt32 5 + (range 0 256 entropy).toUInt8.toUInt32 := same
  rw [UInt32.add_right_inj, UInt8.toUInt32_inj] at sums
  exact different sums.symm

/-- `leak_test_catches_hidden_flowing_to_public`. -/
theorem runLeak_leaky (seededRunner : UInt64 → R) (params : DriveParams)
    (cases : 0 < params.cases) (maxSteps : 0 < params.maxSteps) :
    runLeak (leakTestable range : LeakTestable (Leaky chacha12) UInt32 R chacha12) [] seededRunner
      params =
        .error (.leak (if drawn range params 0 = 5 then report range params 1 2
          else report range params 2 1)) := by
  obtain ⟨left, count⟩ : ∃ left, params.cases.toNat = left + 1 :=
    Nat.exists_eq_add_one.mpr cases
  obtain ⟨steps, count'⟩ : ∃ steps, params.maxSteps = steps + 1 := Nat.exists_eq_add_one.mpr maxSteps
  let arbitrary : LeakTestable (Leaky chacha12) UInt32 R chacha12 := leakTestable range
  have self : ∀ p runner, leakPair arbitrary [] (runSeed params.seed 0) 0 p p params.maxSteps sample
      runner = .ok runner := fun p => leakPair_refl arbitrary [] _ _ p p BEq.rfl _ _
  have first := leakPair_leaky range (runSeed params.seed 0) 0 1 2 params.maxSteps
    (seededRunner params.seed) rfl
  unfold runLeak
  rw [count, leakCases]
  -- the pairs come in the order 1 1, 1 2, 2 1, 2 2
  change ([1, 2].foldlM (fun runner p => [1, 2].foldlM (fun runner q =>
    leakPair arbitrary [] (runSeed params.seed 0) 0 p q params.maxSteps sample runner) runner)
    (seededRunner params.seed) >>= leakCases arbitrary [] params left 1) = _
  simp only [List.foldlM_cons, List.foldlM_nil, self, Lib.ok_bind, bind_pure, bind_assoc]
  by_cases same : drawn range params 0 = 5
  · rw [if_pos same]
    have total : ∀ state runner, arbitrary.commandStrategy state runner ≠ none :=
      fun _ _ => Option.some_ne_none _
    obtain ⟨runner, passes⟩ := leakSteps_self arbitrary [] (runSeed params.seed 0) 0 1 2 total
      params.maxSteps 0 ⟨sample⟩ 0 (seededRunner params.seed)
    have second := leakPair_leaky range (runSeed params.seed 0) 0 2 1 params.maxSteps runner rfl
    have different : (range 0 256 (.at (runSeed params.seed 0) 0)).toUInt8 ≠ 7 := by
      intro other
      exact absurd (same.symm.trans other) (by decide)
    have caught := leakSteps_leaky range (runSeed params.seed 0) 0 2 1 steps runner
      (resampleHidden_phase range sample _ _) (total_two range different)
    rw [resampleHidden_kept range rfl same] at first
    rw [first.trans passes, Lib.ok_bind, second, count', caught]
    rfl
  · rw [if_neg same]
    have caught := leakSteps_leaky range (runSeed params.seed 0) 0 1 2 steps
      (seededRunner params.seed) (resampleHidden_phase range sample _ _) (total_one range same)
    rw [first, count', caught]
    rfl

/-- The parameters of the test, over a stream of zeros. -/
theorem runLeak_leaky_zeros :
    let zeros : Seed → UInt64 → UInt32 := fun _ _ => 0
    let range := fun start stop (e : SeededEntropy zeros) =>
      match drawRange 1 start stop e with
      | .ok (some (value, _)) => value
      | _ => 0
    let params : DriveParams := ⟨5, 4, 0x1EA⟩
    runLeak (leakTestable range : LeakTestable (Leaky zeros) UInt32 Unit zeros) [] (fun _ => ())
        params =
      .error (.leak (report range params 2 1)) := by
  intro zeros range params
  exact (runLeak_leaky range (fun _ => ()) params (by decide) (by decide)).trans
    (congrArg _ (congrArg _ (if_neg (by decide))))

/-- What the viewer sees says what the viewer will see. -/
theorem clean_unwinding (viewer : UInt32) :
    Unwinding (Aggregate.handled (A := Clean chacha12)) (seenBy viewer) (Admitted [])
      (fun s t => seenBy viewer s = seenBy viewer t) where
  seen same := same
  kept := by
    rintro ⟨s⟩ ⟨t⟩ input _ same
    obtain ⟨phase, total, secrets⟩ := (alike_iff viewer s t).mp same
    cases live : Shape.phase s with
    | live =>
      have reached : Aggregate.handled ⟨s⟩ input = ⟨evolveClean s .summed⟩ := handled_live live input
      have reached' : Aggregate.handled ⟨t⟩ input = ⟨evolveClean t .summed⟩ :=
        handled_live (phase ▸ live) input
      rw [reached, reached']
      exact (alike_iff viewer (evolveClean s .summed) (evolveClean t .summed)).mpr
        ⟨phase, congrArg (· + 1) total, secrets⟩
    | ended =>
      have reached : Aggregate.handled ⟨s⟩ input = ⟨s⟩ := handled_ended live input
      have reached' : Aggregate.handled ⟨t⟩ input = ⟨t⟩ := handled_ended (phase ▸ live) input
      rw [reached, reached']
      exact same

/-- `leak_test_passes_a_clean_aggregate`. -/
theorem runLeak_clean (seededRunner : UInt64 → R) (params : DriveParams) :
    runLeak (leakTestable range : LeakTestable (Clean chacha12) UInt32 R chacha12) []
      seededRunner params = .ok () :=
  runLeak_gapless (by rintro (none | none) <;> cases none) clean_unwinding
    (fun state _ _ => siblings_alike range state) seededRunner params

end Verdicts

end Ironstate.Planted
