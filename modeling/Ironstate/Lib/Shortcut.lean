import Mathlib.Computability.DFA

/-!
# Short runs

Where a system has finitely many states, whatever it reaches it reaches in fewer operations than it
has states: a longer run comes back to a state, and what it does between is left out.
-/

namespace Ironstate.Lib

/-- For every run there is one with fewer operations than there are states, to the same state. -/
theorem exists_short_run {σ ο : Type} [Fintype σ] (step : σ → ο → σ) (s : σ) (ops : List ο) :
    ∃ short : List ο,
      short.length < Fintype.card σ ∧ short.foldl step s = ops.foldl step s := by
  induction bound : ops.length using Nat.strong_induction_on generalizing ops with
  | _ n ih =>
    rcases Nat.lt_or_ge n (Fintype.card σ) with short | long
    · exact ⟨ops, bound ▸ short, rfl⟩
    · -- the run loops at some state, and the loop is cut out
      let M : DFA ο σ := ⟨step, s, ∅⟩
      obtain ⟨q, a, b, c, rfl, _, nonempty, there, loop, ends⟩ :=
        M.evalFrom_split (bound ▸ long) (rfl : M.evalFrom s ops = M.evalFrom s ops)
      have cut : M.evalFrom s (a ++ c) = M.evalFrom s (a ++ b ++ c) := by
        rw [DFA.evalFrom_of_append, there, ends]
      have shorter : (a ++ c).length < n := by
        have positive := List.length_pos_of_ne_nil nonempty
        simp only [List.length_append] at bound ⊢
        omega
      obtain ⟨short, few, same⟩ := ih _ shorter (a ++ c) rfl
      exact ⟨short, few, same.trans cut⟩

end Ironstate.Lib
