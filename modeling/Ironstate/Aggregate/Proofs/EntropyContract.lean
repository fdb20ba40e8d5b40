import Ironstate.Aggregate.EntropyContract
import Ironstate.Aggregate.Proofs.Shuffle

/-!
# A lawful source meets the contract

`assert_entropy_contract` is complete: what a source with the laws of the trait can still be told is
that 200 draws have missed a value, which is then so (`Excused`). The loops are taken by what one
draw gives (`eachDraw_yields`, `coverLoop_yields`), and the shuffles by `shuffleLen_eq`.
-/

namespace Ironstate

open Lib (Panic Yields)

section Lawful

variable {E α : Type} {range : UInt64 → UInt64 → E → Except Panic (Option (UInt64 × E))}

/-- A `draw_range` that fails on no range but an empty one. -/
def Answers (range : UInt64 → UInt64 → E → Except Panic (Option (UInt64 × E))) : Prop :=
  ∀ start stop e, start < stop → ∃ answer, range start stop e = .ok answer

/-- The values that draws below 6 answer, one after the other. -/
def DrawsSix (range : UInt64 → UInt64 → E → Except Panic (Option (UInt64 × E))) :
    List UInt64 → E → Prop
  | [], _ => True
  | v :: vs, e => ∃ e', range 0 6 e = .ok (some (v, e')) ∧ DrawsSix range vs e'

/-- What a lawful source may be stopped for. -/
def Excused (range : UInt64 → UInt64 → E → Except Panic (Option (UInt64 × E))) (fresh : E) :
    Breach → Prop
  | .spent => ∃ start stop e, start < stop ∧ range start stop e = .ok none
  | .uncovered seen => ∃ vs, vs.length = 200 ∧ DrawsSix range vs fresh ∧
      (∀ v < 6, seen[v.toNat]? = some (decide (v ∈ vs))) ∧ ∃ v < 6, v ∉ vs
  | _ => False

theorem ensure_yields {allowed : Breach → Prop} {holds : Bool} {breach : Breach}
    (held : holds = true) : Yields allowed (fun _ => True) (ensure holds breach) := by
  rw [ensure, if_pos held]
  exact trivial

theorem asked_yields {allowed : Breach → Prop} {post : α → Prop}
    {x : Except Panic (Option α)} {answer : Option α} (answered : x = .ok answer)
    (spent : answer = none → allowed .spent) (held : ∀ a, answer = some a → post a) :
    Yields allowed post (asked x) := by
  subst answered
  cases answer with
  | none => exact Yields.error (spent rfl)
  | some a => exact Yields.ok (held a rfl)

/-! ## The stream -/

section Stream

variable [EntropySource E] {allowed : Breach → Prop}

theorem sameStream_yields (word left : Nat) (e : E) :
    Yields allowed (fun _ => True) (sameStream word left e e) := by
  induction left generalizing word e with
  | zero => exact Yields.ok trivial
  | succ left ih =>
    rw [sameStream]
    exact Yields.bind (ensure_yields (beq_self_eq_true _)) fun _ _ => ih _ _

variable [LawfulEntropySource E]

theorem seekRoundTrips_yields (e : E) :
    Yields allowed (fun _ => True) (seekRoundTrips e e) := by
  refine ensure_yields ?_
  have back : seek e (draws (drawWords 5 e)) = drawWords 5 e := by
    rw [← seek_drawWords 5, LawfulEntropySource.seek_draws]
  rw [back]
  exact beq_self_eq_true _

theorem seekRewinds_yields (e : E) : Yields allowed (fun _ => True) (seekRewinds e) := by
  have back : seek (drawWords 5 (drawU64 (drawWords 2 e)).2) (draws (drawWords 2 e)) =
      drawWords 2 e := by
    rw [seek_drawWords, LawfulEntropySource.seek_drawU64, LawfulEntropySource.seek_draws]
  refine ensure_yields (beq_iff_eq.mpr ?_)
  exact congrArg (fun e => (drawU64 e).1) back

theorem probeIsPure_yields (e : E) : Yields allowed (fun _ => True) (probeIsPure e e) := by
  have back : seek e (draws (drawWords 1 e)) = drawWords 1 e := by
    rw [← seek_drawWords 1, LawfulEntropySource.seek_draws]
  unfold probeIsPure
  refine Yields.bind (ensure_yields (beq_self_eq_true _)) ?_
  intro _ _
  refine ensure_yields (beq_iff_eq.mpr ?_)
  rw [back, LawfulEntropySource.probe_eq]

end Stream

/-! ## Ranges -/

theorem eachDraw_yields {allowed : Breach → Prop} {draw : E → Except Panic (Option (α × E))}
    {check : α → Except Breach Unit}
    (each : ∀ e, Yields allowed (fun drawn => Yields allowed (fun _ => True) (check drawn.1))
      (asked (draw e))) (count : Nat) (e : E) :
    Yields allowed (fun _ => True) (eachDraw draw check count e) := by
  induction count generalizing e with
  | zero => exact Yields.ok trivial
  | succ count ih =>
    refine Yields.bind (each e) ?_
    rintro ⟨v, e'⟩ checked
    exact Yields.bind checked fun _ _ => ih e'

variable {fresh : E}

/-- A draw of a range answers inside it, or has spent its fuel. -/
theorem asked_range (inRange : InRange range) (answers : Answers range) {start stop : UInt64}
    (nonempty : start < stop) (e : E) :
    Yields (Excused range fresh)
      (fun drawn => range start stop e = .ok (some drawn) ∧ start ≤ drawn.1 ∧ drawn.1 < stop)
      (asked (range start stop e)) := by
  obtain ⟨answer, answered⟩ := answers start stop e nonempty
  refine asked_yields answered ?_ ?_
  · rintro rfl
    exact ⟨start, stop, e, nonempty, answered⟩
  · rintro ⟨v, e'⟩ rfl
    exact ⟨answered, inRange start stop e v e' answered⟩

theorem range_yields (inRange : InRange range) (answers : Answers range) {start stop : UInt64}
    (nonempty : start < stop) {holds : UInt64 → Bool} {breach : UInt64 → Breach}
    (held : ∀ v, start ≤ v → v < stop → holds v = true) (count : Nat) (e : E) :
    Yields (Excused range fresh) (fun _ => True)
      (eachDraw (range start stop) (fun v => ensure (holds v) (breach v)) count e) := by
  refine eachDraw_yields (fun e => ?_) count e
  refine Yields.mono ?_ (asked_range inRange answers nonempty e)
  rintro ⟨v, e'⟩ ⟨_, above, below⟩
  exact ensure_yields (held v above below)

/-- What the loop notes are the values drawn. -/
theorem coverLoop_yields (inRange : InRange range) (answers : Answers range)
    {provided : Provided E} (kept : provided.range = range) (count : Nat) {seen : List Bool}
    (six : seen.length = 6) (e : E) :
    Yields (Excused range fresh)
      (fun seen' => seen'.length = 6 ∧ ∃ vs, vs.length = count ∧ DrawsSix range vs e ∧
        ∀ v < 6, seen'[v.toNat]? = seen[v.toNat]?.map (· || decide (v ∈ vs)))
      (coverLoop provided count seen e) := by
  induction count generalizing seen e with
  | zero =>
    refine Yields.ok ⟨six, [], rfl, trivial, ?_⟩
    intro v _
    simp
  | succ count ih =>
    rw [coverLoop, kept]
    refine Yields.bind (asked_range inRange answers (by decide) e) ?_
    rintro ⟨v, e'⟩ ⟨answered, _, below⟩
    refine Yields.bind (ensure_yields (decide_eq_true below)) ?_
    intro _ _
    refine Yields.mono ?_ (ih (by rw [List.length_set, six] : (seen.set v.toNat true).length = 6) e')
    rintro seen' ⟨six', vs, length, drawn, noted⟩
    refine ⟨six', v :: vs, congrArg Nat.succ length, ⟨e', answered, drawn⟩, ?_⟩
    intro w below'
    have inside : w.toNat < seen.length := by
      rw [six]
      exact UInt64.lt_iff_toNat_lt.mp below'
    rw [noted w below']
    by_cases same : v = w
    · subst same
      simp [inside]
    · have other : v.toNat ≠ w.toNat := fun equal => same (UInt64.toNat_inj.mp equal)
      rw [List.getElem?_set_ne other]
      simp [Ne.symm same]

theorem rangeCovers_yields (inRange : InRange range) (answers : Answers range)
    {provided : Provided E} (kept : provided.range = range) :
    Yields (Excused range fresh) (fun _ => True) (rangeCovers provided fresh) := by
  refine Yields.bind (coverLoop_yields inRange answers kept 200 rfl fresh) ?_
  rintro seen ⟨six, vs, length, drawn, noted⟩
  have noted (v : UInt64) (below : v < 6) : seen[v.toNat]? = some (decide (v ∈ vs)) := by
    have inside : v.toNat < 6 := UInt64.lt_iff_toNat_lt.mp below
    rw [noted v below, List.getElem?_replicate_of_lt inside, Option.map_some, Bool.false_or]
  by_cases all : seen.all id = true
  · exact ensure_yields all
  · -- some flag is down, and the value it stands for was not drawn
    rw [ensure, if_neg all]
    refine Yields.error ⟨vs, length, drawn, noted, ?_⟩
    obtain ⟨flag, listed, down⟩ := List.all_eq_false.mp (Bool.eq_false_iff.mpr all)
    obtain ⟨k, inside, rfl⟩ := List.mem_iff_getElem.mp listed
    have word : (UInt64.ofNat k).toNat = k := toNat_ofNat (by omega)
    have below : UInt64.ofNat k < 6 := by
      rw [UInt64.lt_iff_toNat_lt, word]
      exact Nat.lt_of_lt_of_eq inside six
    refine ⟨.ofNat k, below, ?_⟩
    intro member
    have up := noted _ below
    rw [word, List.getElem?_eq_getElem inside] at up
    simp [member] at up
    exact down up

/-- `draw_below` as the trait has it: the draw is compared with the numerator. -/
theorem below_yields (inRange : InRange range) (answers : Answers range) {num : UInt64}
    (le : num ≤ 10) {holds : Bool → Bool} {breach : Breach}
    (held : ∀ v < 10, holds (decide (v < num)) = true) (count : Nat) (e : E) :
    Yields (Excused range fresh) (fun _ => True)
      (eachDraw ((Provided.ofRange range).below num 10) (fun hit => ensure (holds hit) breach)
        count e) := by
  refine eachDraw_yields (fun e => ?_) count e
  obtain ⟨answer, answered⟩ := answers 0 10 e (by decide)
  have hit : (Provided.ofRange range).below num 10 e =
      .ok (answer.map fun drawn => (decide (drawn.1 < num), drawn.2)) := by
    simp [Provided.ofRange, Lib.Checked.assert, answered, bind, Except.bind, le]
  refine asked_yields hit ?_ ?_
  · intro none
    exact ⟨0, 10, e, by decide, by rw [answered, Option.map_eq_none_iff.mp none]⟩
  · rintro ⟨hit, e''⟩ drawn
    obtain ⟨⟨v, e'⟩, rfl, hits⟩ := Option.map_eq_some_iff.mp drawn
    obtain ⟨rfl, rfl⟩ := Prod.mk.injEq .. ▸ hits
    exact ensure_yields (held v (inRange _ _ _ _ _ answered).2)

/-! ## Shuffles -/

/-- The indices of a shuffle are drawn, or the fuel of a draw is spent. -/
theorem drawAll_answers (answers : Answers range) {i : Nat} (fits : i + 1 < 2 ^ 64) (e : E) :
    ∃ answer, drawAll range i e = .ok answer ∧
      (answer = none → ∃ start stop e, start < stop ∧ range start stop e = .ok none) := by
  induction i generalizing e with
  | zero => exact ⟨some ([], e), rfl, fun none => by cases none⟩
  | succ i ih =>
    have nonempty : (0 : UInt64) < .ofNat (i + 2) := by
      rw [UInt64.lt_iff_toNat_lt, toNat_ofNat fits]
      exact Nat.succ_pos _
    obtain ⟨answer, answered⟩ := answers 0 (.ofNat (i + 2)) e nonempty
    rw [drawAll, answered]
    rcases answer with _ | ⟨j, e₁⟩
    · exact ⟨none, rfl, fun _ => ⟨_, _, _, nonempty, answered⟩⟩
    · obtain ⟨rest, later, spent⟩ := ih (Nat.lt_of_succ_lt fits) e₁
      simp only [later]
      exact ⟨_, rfl, fun none => spent (Option.map_eq_none_iff.mp none)⟩

/-- What `shuffle_len` answers: the swaps of the indices drawn. -/
theorem asked_shuffleLen (inRange : InRange range) (answers : Answers range) {len : Nat}
    (fits : len < 2 ^ 64) (e : E) :
    Yields (Excused range fresh)
      (fun drawn => ∃ js, drawAll range (len - 1) e = .ok (some (js, drawn.2)) ∧
        drawn.1 = Lib.swaps (len - 1) js (List.range len))
      (asked ((Provided.ofRange range).shuffleLen len e)) := by
  have loop := shuffleLen_eq inRange (Nat.le_refl 64) fits e
  obtain ⟨answer, drawn, spent⟩ := drawAll_answers answers (i := len - 1) (by omega) e
  rw [drawn] at loop
  refine asked_yields loop (fun none => spent (Option.map_eq_none_iff.mp none)) ?_
  rintro ⟨ys, e''⟩ swapped
  obtain ⟨⟨js, e'⟩, rfl, equal⟩ := Option.map_eq_some_iff.mp swapped
  obtain ⟨rfl, rfl⟩ := Prod.mk.injEq .. ▸ equal
  exact ⟨js, drawn, rfl⟩

theorem shufflePermutes_yields (inRange : InRange range) (answers : Answers range) (e : E) :
    Yields (Excused range fresh) (fun _ => True) (shufflePermutes (.ofRange range) e) := by
  refine Yields.bind (asked_shuffleLen inRange answers (by decide) e) ?_
  rintro ⟨perm, e'⟩ ⟨js, _, rfl⟩
  refine ensure_yields ?_
  have perm := (List.mergeSort_perm (Lib.swaps 7 js (List.range 8))
    (fun i j => decide (i ≤ j))).trans (Lib.swaps_perm 7 js (List.range 8))
  have sorted : ((Lib.swaps 7 js (List.range 8)).mergeSort
      (fun i j => decide (i ≤ j))).Pairwise (· ≤ ·) := by
    refine (List.pairwise_mergeSort ?_ ?_ _).imp of_decide_eq_true
    · intro i j k
      simp only [decide_eq_true_eq]
      exact Nat.le_trans
    · intro i j
      simp only [Bool.or_eq_true, decide_eq_true_eq]
      exact Nat.le_total i j
  have range_sorted : (List.range 8).Pairwise (· ≤ ·) := by decide
  exact beq_iff_eq.mpr (perm.eq_of_pairwise (fun _ _ _ _ => Nat.le_antisymm) sorted range_sorted)

theorem shufflesAgree_yields (inRange : InRange range) (answers : Answers range) (e : E) :
    Yields (Excused range fresh) (fun _ => True) (shufflesAgree (.ofRange range) e e) := by
  refine Yields.bind (asked_shuffleLen inRange answers (by decide) e) ?_
  rintro ⟨viaLen, e'⟩ ⟨js, drawn, rfl⟩
  have fits : (List.range 10).length < 2 ^ 64 := by decide
  have loop := shuffle_eq inRange (Nat.le_refl 64) fits e
  rw [List.length_range, drawn] at loop
  have swapped : Yields (Excused range fresh)
      (fun again => again.1 = Lib.swaps 9 js (List.range 10))
      (asked (shuffle range 64 (List.range 10) e)) := by
    refine asked_yields loop (fun none => by cases none) ?_
    intro again answered
    cases answered
    rfl
  refine Yields.bind swapped ?_
  rintro ⟨identity, e''⟩ rfl
  exact ensure_yields (beq_self_eq_true _)

theorem shuffleOneDraws_yields [EntropySource E] (inRange : InRange range)
    (answers : Answers range) (e : E) :
    Yields (Excused range fresh) (fun _ => True) (shuffleOneDraws (.ofRange range) e) := by
  refine Yields.bind (asked_shuffleLen inRange answers (by decide) e) ?_
  rintro ⟨ys, e'⟩ ⟨js, drawn, _⟩
  cases drawn
  exact ensure_yields (beq_self_eq_true _)

theorem assertEntropyContract_yields [EntropySource E] [LawfulEntropySource E]
    (inRange : InRange range) (answers : Answers range) (fresh : E) :
    Yields (Excused range fresh) (fun _ => True)
      (assertEntropyContract (.ofRange range) fun _ => fresh) := by
  refine Yields.bind (sameStream_yields 0 32 fresh) fun _ _ => ?_
  refine Yields.bind (seekRoundTrips_yields fresh) fun _ _ => ?_
  refine Yields.bind (seekRewinds_yields fresh) fun _ _ => ?_
  refine Yields.bind (probeIsPure_yields fresh) fun _ _ => ?_
  refine Yields.bind (range_yields inRange answers (by decide) (fun v above below => ?_) _ _)
    fun _ _ => ?_
  · simp [above, below]
  refine Yields.bind (range_yields inRange answers (by decide) (fun v above below => ?_) _ _)
    fun _ _ => ?_
  · have above := UInt64.le_iff_toNat_le.mp above
    have below := UInt64.lt_iff_toNat_lt.mp below
    have five : v.toNat = 5 := Nat.le_antisymm (Nat.le_of_lt_succ below) above
    exact beq_iff_eq.mpr (UInt64.toNat_inj.mp five)
  refine Yields.bind (rangeCovers_yields inRange answers rfl) fun _ _ => ?_
  refine Yields.bind (below_yields inRange answers (by decide) (fun v _ => ?_) _ _) fun _ _ => ?_
  · simp
  refine Yields.bind (below_yields inRange answers (by decide) (fun v below => ?_) _ _)
    fun _ _ => ?_
  · exact decide_eq_true below
  refine Yields.bind (shufflePermutes_yields inRange answers fresh) fun _ _ => ?_
  refine Yields.bind (shufflesAgree_yields inRange answers fresh) fun _ _ => ?_
  exact shuffleOneDraws_yields inRange answers fresh

end Lawful

/-! ## The source of the documentation -/

namespace Splitmix

/-- The loop answers in the range, or not at all. -/
theorem rejectLoop_cases {start stop zone : UInt64} (nonempty : start < stop) (fuel : Nat)
    (e : Splitmix) : ∃ answer, rejectLoop start (stop - start) zone fuel e = .ok answer ∧
      ∀ drawn, answer = some drawn → start ≤ drawn.1 ∧ drawn.1 < stop := by
  have span : (stop - start).toNat = stop.toNat - start.toNat :=
    UInt64.toNat_sub_of_le _ _ (UInt64.le_of_lt nonempty)
  have nonempty := UInt64.lt_iff_toNat_lt.mp nonempty
  induction fuel generalizing e with
  | zero => exact ⟨none, rfl, fun drawn none => by cases none⟩
  | succ fuel ih =>
    rw [rejectLoop]
    by_cases accepted : (drawU64 e).1 < zone
    · have rest : ((drawU64 e).1 % (stop - start)).toNat < stop.toNat - start.toNat := by
        rw [UInt64.toNat_mod, ← span]
        exact Nat.mod_lt _ (by omega)
      have word := UInt64.toNat_lt stop
      have fits : start.toNat + ((drawU64 e).1 % (stop - start)).toNat < 2 ^ 64 := by omega
      simp only [accepted, if_true, U64.add_ok fits]
      refine ⟨_, rfl, ?_⟩
      rintro drawn rest'
      obtain rfl := Option.some.inj rest'
      rw [UInt64.le_iff_toNat_le, UInt64.lt_iff_toNat_lt, UInt64.toNat_add, Nat.mod_eq_of_lt fits]
      omega
    · simp only [accepted, if_false]
      exact ih _

theorem drawRange_cases {start stop : UInt64} (nonempty : start < stop) (fuel : Nat)
    (e : Splitmix) : ∃ answer, drawRange fuel start stop e = .ok answer ∧
      ∀ drawn, answer = some drawn → start ≤ drawn.1 ∧ drawn.1 < stop := by
  have positive : (stop - start != 0) = true := by
    have span := UInt64.toNat_sub_of_le _ _ (UInt64.le_of_lt nonempty)
    have below := UInt64.lt_iff_toNat_lt.mp nonempty
    refine bne_iff_ne.mpr fun zero => ?_
    rw [zero] at span
    simp at span
    omega
  rw [drawRange, U64.sub_ok (UInt64.le_of_lt nonempty), Lib.ok_bind, Lib.Checked.assert,
    if_pos positive]
  exact rejectLoop_cases nonempty fuel e

theorem drawRange_answers (fuel : Nat) : Answers (drawRange fuel) := by
  intro start stop e nonempty
  obtain ⟨answer, answered, _⟩ := drawRange_cases nonempty fuel e
  exact ⟨answer, answered⟩

theorem drawRange_inRange (fuel : Nat) : InRange (drawRange fuel) := by
  intro start stop e value e' drawn
  by_cases nonempty : start < stop
  · obtain ⟨answer, answered, inside⟩ := drawRange_cases nonempty fuel e
    obtain rfl := Except.ok.inj (answered.symm.trans drawn)
    exact inside _ rfl
  · -- an empty range has no remainders, and a backward one overflows
    rw [drawRange] at drawn
    by_cases le : start ≤ stop
    · have equal : stop - start = 0 := by
        rw [UInt64.le_antisymm le (UInt64.not_lt.mp nonempty), UInt64.sub_self]
      rw [U64.sub_ok le, Lib.ok_bind, equal] at drawn
      cases drawn
    · have backward : ¬start.toNat ≤ stop.toNat := fun le' => le (UInt64.le_iff_toNat_le.mpr le')
      rw [U64.sub, U64.checked, Lib.Checked.sub, if_neg backward] at drawn
      cases drawn

end Splitmix

/-- A source that keeps the laws of the trait, with any `draw_range` that stays in its range, passes
the contract, unless 200 draws below 6 do miss a value. -/
theorem assertEntropyContract_passes {E : Type} [EntropySource E] [LawfulEntropySource E]
    {range : UInt64 → UInt64 → E → Except Panic (Option (UInt64 × E))}
    (inRange : InRange range) (answers : Answers range) (fresh : E) :
    assertEntropyContract (.ofRange range) (fun _ => fresh) = .ok () ∨
      ∃ breach, assertEntropyContract (.ofRange range) (fun _ => fresh) = .error breach ∧
        Excused range fresh breach := by
  have yields := assertEntropyContract_yields inRange answers fresh
  cases run : assertEntropyContract (.ofRange range) fun _ => fresh with
  | ok passed => exact .inl rfl
  | error breach =>
    rw [run] at yields
    exact .inr ⟨breach, rfl, yields⟩

theorem assertEntropyContract_passes_splitmix :
    assertEntropyContract (.ofRange (Splitmix.drawRange 64)) (fun _ => ⟨7, 0⟩) = .ok () ∨
      ∃ breach,
        assertEntropyContract (.ofRange (Splitmix.drawRange 64)) (fun _ => ⟨7, 0⟩) = .error breach ∧
          Excused (Splitmix.drawRange 64) ⟨7, 0⟩ breach :=
  assertEntropyContract_passes (Splitmix.drawRange_inRange 64) (Splitmix.drawRange_answers 64) _

end Ironstate
