import Mathlib.Data.List.Nodup

/-!
# Shuffling by swaps

From index `n` down to 1, the element at each index is swapped with one at or below it. The swaps
move positions and never look at the elements (`swaps_map`), and each arrangement of distinct
elements is reached by exactly one choice of swaps (`existsUnique_swaps`).
-/

namespace Ironstate.Lib

variable {α β : Type}

/-- The list with two elements exchanged. -/
def swapAt (xs : List α) (i j : Nat) : List α :=
  match xs[i]?, xs[j]? with
  | some x, some y => (xs.set i y).set j x
  | _, _ => xs

/-- The swaps of `n, …, 1`, each with the index it is given. -/
def swaps : Nat → List Nat → List α → List α
  | n + 1, j :: js, xs => swaps n js (swapAt xs (n + 1) j)
  | _, _, xs => xs

/-- Indices for `n, …, 1`, none above its own. -/
def Drawn : Nat → List Nat → Prop
  | 0, js => js = []
  | _ + 1, [] => False
  | n + 1, j :: js => j ≤ n + 1 ∧ Drawn n js

/-! ## One swap -/

section Swap

variable (xs : List α) (i j : Nat)

theorem swapAt_perm : (swapAt xs i j).Perm xs := by
  unfold swapAt
  split
  · next x y here there =>
    obtain ⟨below, rfl⟩ := List.getElem?_eq_some_iff.mp here
    obtain ⟨below', rfl⟩ := List.getElem?_eq_some_iff.mp there
    exact List.set_set_perm below below'
  · exact .refl xs

theorem swapAt_map (f : α → β) : swapAt (xs.map f) i j = (swapAt xs i j).map f := by
  unfold swapAt
  rw [List.getElem?_map, List.getElem?_map]
  cases xs[i]? with
  | none => rfl
  | some x =>
    cases xs[j]? with
    | none => rfl
    | some y => simp [List.map_set]

variable {xs i j}

theorem getElem?_swapAt_left (below : i < xs.length) (below' : j < xs.length) :
    (swapAt xs i j)[i]? = xs[j]? := by
  unfold swapAt
  rw [List.getElem?_eq_getElem below, List.getElem?_eq_getElem below']
  by_cases same : i = j
  · subst same
    simp [below]
  · simp [Ne.symm same, below]

theorem getElem?_swapAt_of_ne {k : Nat} (ne : k ≠ i) (ne' : k ≠ j) :
    (swapAt xs i j)[k]? = xs[k]? := by
  unfold swapAt
  split
  · simp [ne.symm, ne'.symm]
  · rfl

end Swap

/-! ## All swaps -/

theorem swaps_perm (n : Nat) (js : List Nat) (xs : List α) : (swaps n js xs).Perm xs := by
  induction n generalizing js xs with
  | zero => exact .refl xs
  | succ n ih =>
    cases js with
    | nil => exact .refl xs
    | cons j js => exact (ih js _).trans (swapAt_perm xs (n + 1) j)

/-- The swaps move positions, whatever stands there. -/
theorem swaps_map (f : α → β) (n : Nat) (js : List Nat) (xs : List α) :
    swaps n js (xs.map f) = (swaps n js xs).map f := by
  induction n generalizing js xs with
  | zero => rfl
  | succ n ih =>
    cases js with
    | nil => rfl
    | cons j js => rw [swaps, swaps, swapAt_map, ih]

/-- A shuffle of a list is a shuffle of its positions. -/
theorem getElem?_swaps (n : Nat) (js : List Nat) (xs : List α) (k : Nat) :
    (swaps n js xs)[k]? = (swaps n js (List.range xs.length))[k]?.bind fun i => xs[i]? := by
  have positions : xs.map some = (List.range xs.length).map fun i => xs[i]? := by
    apply List.ext_getElem
    · simp
    · intro i below below'
      rw [List.length_map] at below
      simp [below]
  have moved := swaps_map some n js xs
  rw [positions, swaps_map] at moved
  have here := congrArg (fun zs => zs[k]?) moved
  simp only [List.getElem?_map] at here
  generalize (swaps n js (List.range xs.length))[k]? = position at here ⊢
  generalize (swaps n js xs)[k]? = element at here ⊢
  cases position with
  | none => simpa using here.symm
  | some i =>
    cases element with
    | none => simp at here
    | some x => simpa using here.symm

theorem Drawn.le {n j : Nat} {js : List Nat} (drawn : Drawn n js) (listed : j ∈ js) : j ≤ n := by
  induction n generalizing js with
  | zero =>
    obtain rfl := drawn
    cases listed
  | succ n ih =>
    cases js with
    | nil => exact drawn.elim
    | cons i js =>
      rcases List.mem_cons.mp listed with rfl | later
      · exact drawn.1
      · exact Nat.le_succ_of_le (ih drawn.2 later)

/-- The positions above all swaps keep their elements. -/
theorem getElem?_swaps_above {n k : Nat} {js : List Nat} (drawn : Drawn n js) (above : n < k)
    (xs : List α) : (swaps n js xs)[k]? = xs[k]? := by
  induction n generalizing js xs with
  | zero => rfl
  | succ n ih =>
    cases js with
    | nil => rfl
    | cons j js =>
      have ne : k ≠ n + 1 := by omega
      have ne' : k ≠ j := by have := drawn.1; omega
      rw [swaps, ih drawn.2 (by omega), getElem?_swapAt_of_ne ne ne']

/-- The last of the swapped positions holds what the first swap brought there. -/
theorem getElem?_swaps_last {n j : Nat} {js : List Nat} {xs : List α}
    (drawn : Drawn (n + 1) (j :: js)) (below : n + 1 < xs.length) :
    (swaps (n + 1) (j :: js) xs)[n + 1]? = xs[j]? := by
  have le := drawn.1
  rw [swaps, getElem?_swaps_above drawn.2 (by omega), getElem?_swapAt_left below (by omega)]

/-- Lists that agree above the first position and have the same elements are the same. -/
theorem eq_of_perm_of_above {xs ys : List α} (perm : ys.Perm xs)
    (above : ∀ k, 0 < k → ys[k]? = xs[k]?) : ys = xs := by
  cases xs with
  | nil => exact perm.eq_nil
  | cons x xs =>
    cases ys with
    | nil => exact absurd perm.length_eq (by simp)
    | cons y ys =>
      have tail : ys = xs := List.ext_getElem? fun k => above (k + 1) (Nat.succ_pos k)
      subst tail
      have first : [y].Perm [x] := (List.perm_append_right_iff ys).mp perm
      rw [List.singleton_perm_singleton.mp first]

/-- Every arrangement of distinct elements that differs only up to position `n` is reached by
exactly one choice of indices. -/
theorem existsUnique_swaps {n : Nat} {xs ys : List α} (nodup : xs.Nodup)
    (inside : n < xs.length ∨ n = 0) (perm : ys.Perm xs) (above : ∀ k, n < k → ys[k]? = xs[k]?) :
    ∃! js, Drawn n js ∧ swaps n js xs = ys := by
  induction n generalizing xs with
  | zero =>
    refine ⟨[], ⟨rfl, (eq_of_perm_of_above perm above).symm⟩, ?_⟩
    rintro js ⟨drawn, _⟩
    exact drawn
  | succ n ih =>
    have inside : n + 1 < xs.length := inside.resolve_right (Nat.succ_ne_zero n)
    have inside' : n + 1 < ys.length := perm.length_eq ▸ inside
    -- the first index is where the element of the last position stands
    obtain ⟨j, bound, same⟩ := List.mem_iff_getElem.mp (perm.subset (List.getElem_mem inside'))
    have there : xs[j]? = ys[n + 1]? := by
      rw [List.getElem?_eq_getElem bound, List.getElem?_eq_getElem inside', same]
    have le : j ≤ n + 1 := by
      by_contra beyond
      have again : ys[j]? = ys[n + 1]? := (above j (by omega)).trans there
      have := (List.getElem?_inj inside' (perm.nodup_iff.mpr nodup)).mp again.symm
      omega
    have swapped : ∀ k, n < k → ys[k]? = (swapAt xs (n + 1) j)[k]? := by
      intro k beyond
      by_cases last : k = n + 1
      · rw [last, getElem?_swapAt_left inside bound, there]
      · rw [getElem?_swapAt_of_ne last (by omega), above k (by omega)]
    have perm' := swapAt_perm xs (n + 1) j
    obtain ⟨js, ⟨drawn, reached⟩, unique⟩ := ih (perm'.nodup_iff.mpr nodup)
      (by rw [perm'.length_eq]; omega) (perm.trans perm'.symm) swapped
    refine ⟨j :: js, ⟨⟨le, drawn⟩, reached⟩, ?_⟩
    rintro (_ | ⟨j', js'⟩) ⟨drawn', reached'⟩
    · exact drawn'.elim
    · have last := getElem?_swaps_last drawn' inside
      rw [reached', ← there] at last
      obtain rfl := (List.getElem?_inj bound nodup).mp last
      rw [unique js' ⟨drawn'.2, reached'⟩]

end Ironstate.Lib
