import Mathlib.Logic.Relation

/-!
# Worklist search

A search over the vertices `0, …, seen.length - 1` that marks each vertex when it is first met
and keeps the marked vertices whose successors are still to be looked at on a stack. It marks
exactly the vertices that a path leads to from the vertices marked at the start
(`Searching.marked_iff`).
-/

namespace Ironstate.Lib

/-- The successors of one vertex: those met for the first time are marked and pushed. -/
def visit (seen : List Bool) (stack : List Nat) : List Nat → List Bool × List Nat
  | [] => (seen, stack)
  | j :: rest =>
    if seen[j]? = some false then visit (seen.set j true) (j :: stack) rest
    else visit seen stack rest

section Visit

variable (seen : List Bool) (stack successors : List Nat)

theorem visit_length : (visit seen stack successors).1.length = seen.length := by
  fun_induction visit seen stack successors with
  | case1 => rfl
  | case2 seen stack j rest fresh ih => rw [ih, List.length_set]
  | case3 seen stack j rest known ih => exact ih

/-- What is marked is pushed, so that the vertices left to do stay as many. -/
theorem visit_measure :
    (visit seen stack successors).1.count false + (visit seen stack successors).2.length =
      seen.count false + stack.length := by
  fun_induction visit seen stack successors with
  | case1 => rfl
  | case2 seen stack j rest fresh ih =>
    obtain ⟨bound, unmarked⟩ := List.getElem?_eq_some_iff.mp fresh
    have positive : 0 < seen.count false := List.count_pos_iff.mpr (unmarked ▸ List.getElem_mem bound)
    have marked : (seen.set j true).count false = seen.count false - 1 := by
      simp [List.count_set bound, unmarked]
    rw [ih, marked, List.length_cons]
    omega
  | case3 seen stack j rest known ih => exact ih

theorem visit_marked (i : Nat) :
    (visit seen stack successors).1[i]? = some true ↔
      seen[i]? = some true ∨ i ∈ successors ∧ i < seen.length := by
  fun_induction visit seen stack successors with
  | case1 => simp
  | case2 seen stack j rest fresh ih =>
    obtain ⟨bound, unmarked⟩ := List.getElem?_eq_some_iff.mp fresh
    rw [ih, List.length_set]
    by_cases same : i = j
    · subst same
      simp [bound]
    · simp [List.getElem?_set_ne (Ne.symm same), same]
  | case3 seen stack j rest known ih =>
    rw [ih]
    by_cases same : i = j
    · subst same
      have marked : i < seen.length → seen[i]? = some true := by
        intro bound
        rw [List.getElem?_eq_getElem bound] at known ⊢
        simpa using known
      grind
    · simp [same]

theorem visit_stack (i : Nat) :
    i ∈ (visit seen stack successors).2 ↔
      i ∈ stack ∨ i ∈ successors ∧ seen[i]? = some false := by
  fun_induction visit seen stack successors with
  | case1 => simp
  | case2 seen stack j rest fresh ih =>
    obtain ⟨bound, _⟩ := List.getElem?_eq_some_iff.mp fresh
    rw [ih]
    by_cases same : i = j
    · subst same
      simp [fresh]
    · simp [List.getElem?_set_ne (Ne.symm same), same]
  | case3 seen stack j rest known ih =>
    rw [ih]
    by_cases same : i = j
    · subst same
      simp [known]
    · simp [same]

end Visit

/-- Pops a vertex and looks at its successors, until there is none left. -/
def search (next : Nat → List Nat) (seen : List Bool) : List Nat → List Bool
  | [] => seen
  | i :: stack =>
    search next (visit seen stack (next i)).1 (visit seen stack (next i)).2
termination_by stack => seen.count false + stack.length
decreasing_by
  have kept := visit_measure seen stack (next i)
  simp only [List.length_cons]
  omega

/-- What holds between two turns of the search: the stack is marked, and a marked vertex that
is not on it has all its successors marked. -/
structure Searching (next : Nat → List Nat) (seen : List Bool) (stack : List Nat) : Prop where
  marked : ∀ i ∈ stack, seen[i]? = some true
  closed : ∀ i, seen[i]? = some true → i ∉ stack → ∀ j ∈ next i, j < seen.length →
    seen[j]? = some true

namespace Searching

variable {next : Nat → List Nat} {seen : List Bool} {stack : List Nat}

theorem turn {i : Nat} (searching : Searching next seen (i :: stack)) :
    Searching next (visit seen stack (next i)).1 (visit seen stack (next i)).2 := by
  refine ⟨?_, ?_⟩
  · intro k pushed
    rw [visit_marked]
    rcases (visit_stack seen stack (next i) k).mp pushed with old | ⟨successor, unmarked⟩
    · exact .inl (searching.marked k (List.mem_cons_of_mem _ old))
    · exact .inr ⟨successor, (List.getElem?_eq_some_iff.mp unmarked).1⟩
  · intro k known done j edge bound
    rw [visit_length] at bound
    rw [visit_marked] at known ⊢
    by_cases here : k = i
    · exact .inr ⟨here ▸ edge, bound⟩
    · have old : seen[k]? = some true := by
        rcases known with old | ⟨successor, inside⟩
        · exact old
        · rw [visit_stack] at done
          cases value : seen[k] with
          | true => exact List.getElem?_eq_some_iff.mpr ⟨inside, value⟩
          | false =>
            exact absurd (.inr ⟨successor, List.getElem?_eq_some_iff.mpr ⟨inside, value⟩⟩) done
      have popped : k ∉ i :: stack := by
        rw [visit_stack] at done
        rw [List.mem_cons]
        rintro (same | pushed)
        · exact here same
        · exact done (.inl pushed)
      exact .inl (searching.closed k old popped j edge bound)

/-- The edges between the vertices there are. -/
def Edge (next : Nat → List Nat) (n i j : Nat) : Prop := j ∈ next i ∧ j < n

/-- The search marks what a path leads to, and nothing else. -/
theorem marked_iff (searching : Searching next seen stack) (j : Nat) :
    (search next seen stack)[j]? = some true ↔
      ∃ i, seen[i]? = some true ∧ Relation.ReflTransGen (Edge next seen.length) i j := by
  fun_induction search next seen stack with
  | case1 seen =>
    constructor
    · intro marked
      exact ⟨j, marked, .refl⟩
    · rintro ⟨i, marked, path⟩
      induction path with
      | refl => exact marked
      | tail _ edge ih => exact searching.closed _ ih List.not_mem_nil _ edge.1 edge.2
  | case2 seen i stack ih =>
    rw [ih searching.turn, visit_length]
    constructor
    · rintro ⟨k, marked, path⟩
      rcases (visit_marked seen stack (next i) k).mp marked with old | edge
      · exact ⟨k, old, path⟩
      · exact ⟨i, searching.marked i List.mem_cons_self, .head edge path⟩
    · rintro ⟨k, marked, path⟩
      exact ⟨k, (visit_marked seen stack (next i) k).mpr (.inl marked), path⟩

end Searching

end Ironstate.Lib
