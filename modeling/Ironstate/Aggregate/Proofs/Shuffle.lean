import Ironstate.Aggregate.Proofs.Range
import Ironstate.Lib.Shuffle

/-!
# Fisher–Yates

Both shuffles draw the same indices (`drawAll`) and make the same swaps with them
(`shuffleLoop_eq`), whatever their source, as long as its `draw_range` answers inside its range.
What the swaps do is `Lib.existsUnique_swaps`.
-/

namespace Ironstate

open Lib (Panic swapAt swaps Drawn)

/-! ## Sources -/

section Sources

variable {E : Type}

/-- A `draw_range` that answers inside its range. -/
def InRange (range : UInt64 → UInt64 → E → Except Panic (Option (UInt64 × E))) : Prop :=
  ∀ start stop e value e', range start stop e = .ok (some (value, e')) →
    start ≤ value ∧ value < stop

/-- The source with a log of the ranges it has drawn from. -/
def logged (range : UInt64 → UInt64 → E → Except Panic (Option (UInt64 × E)))
    (start stop : UInt64) (source : E × List (UInt64 × UInt64)) :
    Except Panic (Option (UInt64 × E × List (UInt64 × UInt64))) :=
  (range start stop source.1).map
    (Option.map fun drawn => (drawn.1, drawn.2, source.2 ++ [(start, stop)]))

/-- A source that answers from a list of results. -/
def scripted (start stop : UInt64) : List UInt64 → Except Panic (Option (UInt64 × List UInt64))
  | [] => .ok none
  | value :: rest =>
    if start ≤ value ∧ value < stop then .ok (some (value, rest))
    else .error (.failed "the result is outside the range")

theorem scripted_inRange : InRange scripted := by
  rintro start stop (_ | ⟨value, rest⟩) value' e' drawn
  · cases drawn
  · by_cases inside : start ≤ value ∧ value < stop
    · rw [scripted, if_pos inside] at drawn
      cases drawn
      exact inside
    · rw [scripted, if_neg inside] at drawn
      cases drawn

theorem logged_inRange {range : UInt64 → UInt64 → E → Except Panic (Option (UInt64 × E))}
    (inRange : InRange range) : InRange (logged range) := by
  rintro start stop ⟨e, calls⟩ value e' drawn
  unfold logged at drawn
  cases answered : range start stop e with
  | error panic => simp [answered, Except.map] at drawn
  | ok answer =>
    cases answer with
    | none => simp [answered, Except.map] at drawn
    | some answer =>
      obtain ⟨value', next⟩ := answer
      simp only [answered, Except.map, Option.map_some, Except.ok.injEq, Option.some.injEq,
        Prod.mk.injEq] at drawn
      exact drawn.1 ▸ inRange start stop e value' next answered

variable [EntropySource E]

/-- The default `draw_range` answers inside its range. -/
theorem drawRange_inRange (fuel : Nat) : InRange (drawRange (E := E) fuel) := by
  intro start stop e value e' drawn
  by_cases nonempty : start < stop
  · obtain ⟨bits, mask, _, _, uniform⟩ := drawRange_uniform nonempty
    classical
    by_cases found : ∃ k, k < fuel ∧ wordAt k e &&& mask < stop - start
    · obtain ⟨enough, accepted⟩ := Nat.find_spec found
      have first := uniform.first E fuel (Nat.find found) e enough
        (fun i before accepted => Nat.find_min found before ⟨Nat.lt_trans before enough, accepted⟩)
        accepted
      rw [first] at drawn
      cases drawn
      exact uniform.inside _ accepted
    · have running := uniform.running E fuel e fun i below accepted => found ⟨i, below, accepted⟩
      rw [running] at drawn
      cases drawn
  · -- an empty range fails an assertion
    have empty : ¬(start ≤ stop ∧ stop - start > 0) := by
      rintro ⟨le, positive⟩
      have positive := UInt64.lt_iff_toNat_lt.mp positive
      rw [UInt64.toNat_sub_of_le _ _ le] at positive
      exact nonempty (UInt64.lt_iff_toNat_lt.mpr (by simpa using positive))
    by_cases le : start ≤ stop
    · simp [drawRange, Lib.Checked.assert, bind, Except.bind, le, not_and.mp empty le] at drawn
    · simp [drawRange, Lib.Checked.assert, bind, Except.bind, le] at drawn

end Sources

/-! ## One swap -/

section Loops

variable {E α : Type} {range : UInt64 → UInt64 → E → Except Panic (Option (UInt64 × E))}
variable {usize : Nat}

theorem swap_ok {xs : List α} {i j : Nat} (below : i < xs.length) (below' : j < xs.length) :
    swap xs i j = .ok (swapAt xs i j) := by
  unfold swap swapAt
  rw [Lib.Checked.get_ok (List.getElem?_eq_getElem below),
    Lib.Checked.get_ok (List.getElem?_eq_getElem below'), List.getElem?_eq_getElem below,
    List.getElem?_eq_getElem below']
  rfl

theorem toNat_ofNat {n : Nat} (fits : n < 2 ^ 64) : (UInt64.ofNat n).toNat = n :=
  Nat.mod_eq_of_lt fits

/-- No cast of a draw changes an index. -/
theorem drawIndex_eq (inRange : InRange range) (width : usize ≤ 64) {i : Nat}
    (fits : i + 1 < 2 ^ usize) (e : E) :
    drawIndex range usize i e =
      (range 0 (.ofNat (i + 1)) e).map (Option.map fun drawn => (drawn.1.toNat, drawn.2)) := by
  have wide : i + 1 < 2 ^ 64 := Nat.lt_of_lt_of_le fits (Nat.pow_le_pow_right (by decide) width)
  simp only [drawIndex, Lib.Checked.cast_ok (Nat.lt_of_succ_lt wide), Lib.Checked.add_ok wide,
    bind, Except.bind]
  rcases answered : range 0 (.ofNat (i + 1)) e with panic | ⟨_ | ⟨j, e'⟩⟩
  · rfl
  · rfl
  · have below := UInt64.lt_iff_toNat_lt.mp (inRange _ _ _ _ _ answered).2
    rw [toNat_ofNat wide] at below
    simp only [Lib.Checked.cast_ok (Nat.lt_trans below fits)]
    rfl

/-! ## The loops -/

/-- The indices drawn for `n, …, 1`. -/
def drawAll (range : UInt64 → UInt64 → E → Except Panic (Option (UInt64 × E))) :
    Nat → E → Except Panic (Option (List Nat × E))
  | 0, e => .ok (some ([], e))
  | i + 1, e =>
    match range 0 (.ofNat (i + 2)) e with
    | .error panic => .error panic
    | .ok none => .ok none
    | .ok (some (j, e)) =>
      (drawAll range i e).map (Option.map fun drawn => (j.toNat :: drawn.1, drawn.2))

theorem drawAll_drawn (inRange : InRange range) {i : Nat} (fits : i + 1 < 2 ^ 64) {e e' : E}
    {js : List Nat} (drawn : drawAll range i e = .ok (some (js, e'))) : Drawn i js := by
  induction i generalizing e js with
  | zero =>
    cases drawn
    rfl
  | succ i ih =>
    rw [drawAll] at drawn
    rcases answered : range 0 (.ofNat (i + 2)) e with panic | ⟨_ | ⟨j, e₁⟩⟩
    · simp only [answered] at drawn
      cases drawn
    · simp only [answered] at drawn
      cases drawn
    · have below := UInt64.lt_iff_toNat_lt.mp (inRange _ _ _ _ _ answered).2
      rw [toNat_ofNat fits] at below
      simp only [answered] at drawn
      rcases later : drawAll range i e₁ with panic | ⟨_ | ⟨js', e₂⟩⟩
      · simp only [later] at drawn
        cases drawn
      · simp only [later] at drawn
        cases drawn
      · simp only [later] at drawn
        cases drawn
        exact ⟨Nat.le_of_lt_succ below, ih (Nat.lt_of_succ_lt fits) later⟩

/-- The loop over a slice draws all indices and makes the swaps. -/
theorem shuffleLoop_eq (inRange : InRange range) (width : usize ≤ 64) {i : Nat} {xs : List α}
    (inside : i < xs.length ∨ i = 0) (fits : xs.length < 2 ^ usize) (e : E) :
    shuffleLoop range usize i xs e =
      (drawAll range i e).map (Option.map fun drawn => (swaps i drawn.1 xs, drawn.2)) := by
  induction i generalizing xs e with
  | zero => rfl
  | succ i ih =>
    have inside : i + 1 < xs.length := inside.resolve_right (Nat.succ_ne_zero i)
    have fits' : i + 1 + 1 < 2 ^ usize := by omega
    have wide : i + 1 + 1 < 2 ^ 64 :=
      Nat.lt_of_lt_of_le fits' (Nat.pow_le_pow_right (by decide) width)
    rw [shuffleLoop, drawAll, drawIndex_eq inRange width fits']
    rcases answered : range 0 (.ofNat (i + 2)) e with panic | ⟨_ | ⟨j, e₁⟩⟩
    · rfl
    · rfl
    · have below := UInt64.lt_iff_toNat_lt.mp (inRange _ _ _ _ _ answered).2
      rw [toNat_ofNat wide] at below
      have length := (Lib.swapAt_perm xs (i + 1) j.toNat).length_eq
      simp only [Except.map, Option.map_some, bind, Except.bind,
        swap_ok inside (Nat.lt_of_lt_of_le below inside)]
      rw [ih (by omega) (by omega)]
      rcases drawAll range i e₁ with panic | ⟨_ | ⟨js, e₂⟩⟩ <;> rfl

/-- The loop of `shuffle_len` is the loop of `shuffle`, written again for indices. -/
theorem shuffleLenLoop_eq (i : Nat) (indices : List Nat) (e : E) :
    shuffleLenLoop range usize i indices e = shuffleLoop range usize i indices e := by
  induction i generalizing indices e with
  | zero => rfl
  | succ i ih =>
    rw [shuffleLenLoop, shuffleLoop]
    simp only [ih]

theorem shuffle_eq (inRange : InRange range) (width : usize ≤ 64) {xs : List α}
    (fits : xs.length < 2 ^ usize) (e : E) :
    shuffle range usize xs e =
      (drawAll range (xs.length - 1) e).map
        (Option.map fun drawn => (swaps (xs.length - 1) drawn.1 xs, drawn.2)) :=
  shuffleLoop_eq inRange width (by omega) fits e

theorem shuffleLen_eq (inRange : InRange range) (width : usize ≤ 64) {len : Nat}
    (fits : len < 2 ^ usize) (e : E) :
    shuffleLen range usize len e =
      (drawAll range (len - 1) e).map
        (Option.map fun drawn => (swaps (len - 1) drawn.1 (List.range len), drawn.2)) := by
  unfold shuffleLen
  rw [shuffleLenLoop_eq]
  refine shuffleLoop_eq inRange width ?_ ?_ e
  · rw [List.length_range]
    omega
  · rwa [List.length_range]

/-! ## The draws made -/

/-- The ranges drawn from for `n, …, 1`. -/
def ranges (n : Nat) : List (UInt64 × UInt64) :=
  (List.range n).reverse.map fun i => (0, .ofNat (i + 2))

theorem ranges_succ (n : Nat) : ranges (n + 1) = (0, .ofNat (n + 2)) :: ranges n := by
  simp [ranges, List.range_succ]

theorem drawAll_logged (i : Nat) (e : E) (calls : List (UInt64 × UInt64)) :
    drawAll (logged range) i (e, calls) =
      (drawAll range i e).map
        (Option.map fun drawn => (drawn.1, drawn.2, calls ++ ranges i)) := by
  induction i generalizing e calls with
  | zero => simp [drawAll, ranges, Except.map]
  | succ i ih =>
    rw [drawAll, drawAll, logged]
    rcases range 0 (.ofNat (i + 2)) e with panic | ⟨_ | ⟨j, e₁⟩⟩
    · rfl
    · rfl
    · simp only [Except.map, Option.map_some]
      rw [ih, ranges_succ]
      rcases drawAll range i e₁ with panic | ⟨_ | ⟨js, e₂⟩⟩
      · rfl
      · rfl
      · simp [Except.map]

end Loops

/-- Drawn indices are words. -/
theorem toNat_map_ofNat {n : Nat} (fits : n < 2 ^ 64) {js : List Nat} (drawn : Drawn n js) :
    (js.map UInt64.ofNat).map UInt64.toNat = js := by
  rw [List.map_map]
  refine (List.map_congr_left fun j listed => ?_).trans (List.map_id js)
  exact toNat_ofNat (Nat.lt_of_le_of_lt (drawn.le listed) fits)

/-- Results that are in their ranges are drawn as they stand. -/
theorem drawAll_scripted {i : Nat} (fits : i + 1 < 2 ^ 64) (js rest : List UInt64)
    (drawn : Drawn i (js.map UInt64.toNat)) :
    drawAll scripted i (js ++ rest) = .ok (some (js.map UInt64.toNat, rest)) := by
  induction i generalizing js with
  | zero =>
    obtain rfl := List.map_eq_nil_iff.mp drawn
    rfl
  | succ i ih =>
    cases js with
    | nil => exact drawn.elim
    | cons j js =>
      have inside : 0 ≤ j ∧ j < .ofNat (i + 2) := by
        rw [UInt64.le_iff_toNat_le, UInt64.lt_iff_toNat_lt, toNat_ofNat fits]
        exact ⟨Nat.zero_le _, Nat.lt_succ_of_le drawn.1⟩
      rw [drawAll, List.cons_append, scripted, if_pos inside]
      simp only [ih (Nat.lt_of_succ_lt fits) js drawn.2]
      rfl

/-- A script in range is used up, and its results are the swaps. -/
theorem shuffleLen_scripted {usize len : Nat} (width : usize ≤ 64) (fits : len < 2 ^ usize)
    {js : List UInt64} (drawn : Drawn (len - 1) (js.map UInt64.toNat)) :
    shuffleLen scripted usize len js =
      .ok (some (swaps (len - 1) (js.map UInt64.toNat) (List.range len), [])) := by
  have wide : len < 2 ^ 64 := Nat.lt_of_lt_of_le fits (Nat.pow_le_pow_right (by decide) width)
  have answers := drawAll_scripted (by omega) js [] drawn
  rw [List.append_nil] at answers
  rw [shuffleLen_eq scripted_inRange width fits, answers]
  rfl

/-- The default `draw_range` never fails on the ranges of a shuffle. -/
theorem drawAll_default {E : Type} [EntropySource E] (fuel : Nat) {i : Nat} (fits : i + 1 < 2 ^ 64)
    (e : E) : ∃ answer, drawAll (drawRange fuel) i e = .ok answer := by
  induction i generalizing e with
  | zero => exact ⟨_, rfl⟩
  | succ i ih =>
    have nonempty : (0 : UInt64) < .ofNat (i + 2) := by
      rw [UInt64.lt_iff_toNat_lt, toNat_ofNat fits]
      exact Nat.succ_pos _
    obtain ⟨_, _, _, _, uniform⟩ := drawRange_uniform nonempty
    obtain ⟨answer, drawn⟩ := uniform.answers E fuel e
    rw [drawAll, drawn]
    rcases answer with _ | ⟨j, e₁⟩
    · exact ⟨_, rfl⟩
    · obtain ⟨rest, later⟩ := ih (Nat.lt_of_succ_lt fits) e₁
      simp only [later]
      exact ⟨_, rfl⟩

/-! ## Fisher–Yates -/

/-- What the shuffles of one length do. -/
structure FisherYates (usize len : Nat) : Prop where
  /-- Every sequence of results in range gives a permutation. -/
  returns : ∀ js : List UInt64, Drawn (len - 1) (js.map UInt64.toNat) →
    ∃ ys, shuffleLen scripted usize len js = .ok (some (ys, [])) ∧ ys.Perm (List.range len)
  /-- Each permutation is that of one sequence. -/
  once : ∀ ys, ys.Perm (List.range len) →
    ∃! js : List UInt64, Drawn (len - 1) (js.map UInt64.toNat) ∧
      shuffleLen scripted usize len js = .ok (some (ys, []))
  /-- Any source is drawn from `len - 1` times, and what it answers is such a sequence. -/
  draws : ∀ (E : Type) (range : UInt64 → UInt64 → E → Except Panic (Option (UInt64 × E))),
    InRange range → ∀ e ys e', shuffleLen range usize len e = .ok (some (ys, e')) →
      shuffleLen (logged range) usize len (e, []) = .ok (some (ys, e', ranges (len - 1))) ∧
        ∃ js : List UInt64, Drawn (len - 1) (js.map UInt64.toNat) ∧
          shuffleLen scripted usize len js = .ok (some (ys, []))
  /-- A slice is permuted likewise, by the same draws. -/
  copies : ∀ (E : Type) (range : UInt64 → UInt64 → E → Except Panic (Option (UInt64 × E))),
    InRange range → ∀ (α : Type) (xs : List α), xs.length = len → ∀ e ys e',
      shuffleLen range usize len e = .ok (some (ys, e')) →
        ∃ zs, shuffle range usize xs e = .ok (some (zs, e')) ∧
          shuffle (logged range) usize xs (e, []) = .ok (some (zs, e', ranges (len - 1))) ∧
          ∀ k : Nat, zs[k]? = ys[k]?.bind fun i => xs[i]?

  /-- Where the one does not end, or its source fails, so does the other. -/
  alike : ∀ (E : Type) (range : UInt64 → UInt64 → E → Except Panic (Option (UInt64 × E))),
    InRange range → ∀ (α : Type) (xs : List α), xs.length = len → ∀ e,
      (shuffle range usize xs e).map (Option.map Prod.snd) =
        (shuffleLen range usize len e).map (Option.map Prod.snd)
  /-- The default `draw_range` is such a source, and no step of a shuffle by it fails. -/
  default : ∀ (E : Type) [EntropySource E] (fuel : Nat),
    InRange (drawRange (E := E) fuel) ∧
      ∀ e, ∃ answer, shuffleLen (drawRange (E := E) fuel) usize len e = .ok answer

/-- For every length, the sequences of results correspond to the permutations one to one, and the
two shuffles are one. -/
theorem fisherYates {usize len : Nat} (width : usize ≤ 64) (fits : len < 2 ^ usize) :
    FisherYates usize len := by
  have wide : len < 2 ^ 64 := Nat.lt_of_lt_of_le fits (Nat.pow_le_pow_right (by decide) width)
  refine ⟨?_, ?_, ?_, ?_, ?_, ?_⟩
  · intro js drawn
    exact ⟨_, shuffleLen_scripted width fits drawn, Lib.swaps_perm _ _ _⟩
  · intro ys perm
    have above (k : Nat) (beyond : len - 1 < k) : ys[k]? = (List.range len)[k]? := by
      have same := perm.length_eq
      rw [List.length_range] at same
      rw [List.getElem?_eq_none (by omega), List.getElem?_eq_none (by rw [List.length_range]; omega)]
    obtain ⟨ks, ⟨drawn, reached⟩, unique⟩ := Lib.existsUnique_swaps List.nodup_range
      (by rw [List.length_range]; omega) perm above
    have words := toNat_map_ofNat (by omega) drawn
    refine ⟨ks.map UInt64.ofNat, ⟨words.symm ▸ drawn, ?_⟩, ?_⟩
    · rw [shuffleLen_scripted width fits (words.symm ▸ drawn), words, reached]
    · rintro js ⟨drawn', returned⟩
      rw [shuffleLen_scripted width fits drawn'] at returned
      have same := unique _ ⟨drawn', by simpa using returned⟩
      exact List.map_injective_iff.mpr (fun _ _ => UInt64.toNat_inj.mp) (same.trans words.symm)
  · intro E range inRange e ys e' returned
    rw [shuffleLen_eq inRange width fits] at returned
    rw [shuffleLen_eq (logged_inRange inRange) width fits, drawAll_logged]
    have results (js) (answers : drawAll range (len - 1) e = .ok (some (js, e'))) :
        Drawn (len - 1) js := drawAll_drawn inRange (by omega) answers
    generalize drawAll range (len - 1) e = answers at returned results ⊢
    rcases answers with panic | ⟨_ | ⟨js, e₁⟩⟩
    · cases returned
    · cases returned
    · cases returned
      have drawn := results js rfl
      have words := toNat_map_ofNat (by omega) drawn
      refine ⟨rfl, js.map UInt64.ofNat, words.symm ▸ drawn, ?_⟩
      rw [shuffleLen_scripted width fits (words.symm ▸ drawn), words]
  · rintro E range inRange α xs rfl e ys e' returned
    rw [shuffleLen_eq inRange width fits] at returned
    rw [shuffle_eq inRange width fits, shuffle_eq (logged_inRange inRange) width fits,
      drawAll_logged]
    generalize drawAll range (xs.length - 1) e = drawn at returned ⊢
    rcases drawn with panic | ⟨_ | ⟨js, e₁⟩⟩
    · cases returned
    · cases returned
    · cases returned
      exact ⟨_, rfl, rfl, Lib.getElem?_swaps _ js xs⟩
  · rintro E range inRange α xs rfl e
    rw [shuffle_eq inRange width fits, shuffleLen_eq inRange width fits]
    rcases drawAll range (xs.length - 1) e with panic | ⟨_ | ⟨js, e₁⟩⟩ <;> rfl
  · intro E _ fuel
    refine ⟨drawRange_inRange fuel, fun e => ?_⟩
    obtain ⟨answer, drawn⟩ := drawAll_default fuel (i := len - 1) (by omega) e
    rw [shuffleLen_eq (drawRange_inRange fuel) width fits, drawn]
    exact ⟨_, rfl⟩

/-- Three positions, of which the first and the last are exchanged. -/
theorem fisherYates_three :
    shuffleLen scripted 32 3 [0, 1] = .ok (some ([2, 1, 0], [])) ∧ FisherYates 32 3 :=
  ⟨rfl, fisherYates (by decide) (by decide)⟩

end Ironstate
