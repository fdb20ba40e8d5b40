/-!
# Runs of a labelled system

States reached from an initial one by operations a policy admits, and the rules that
carry a step fact to a run: an invariant, and a simulation in which only some operations of
the first run have a counterpart in the second.
-/

namespace Ironstate.Lib

variable {σ τ ο π : Type}

/-- The states `step` reaches from `init` by operations that `admits` allows in the state
they are applied to. -/
inductive Reaches (step : σ → ο → σ) (admits : σ → ο → Prop) (init : σ) : σ → Prop where
  | start : Reaches step admits init init
  | next {s : σ} {o : ο} (before : Reaches step admits init s) (admitted : admits s o) :
      Reaches step admits init (step s o)

namespace Reaches

variable {step : σ → ο → σ} {admits admits' : σ → ο → Prop} {init s : σ}

/-- A property of the initial state that every admitted step preserves holds of every
state reached. -/
theorem invariant {Inv : σ → Prop} (initial : Inv init)
    (preserved : ∀ s o, Inv s → admits s o → Inv (step s o))
    (reached : Reaches step admits init s) : Inv s := by
  induction reached with
  | start => exact initial
  | next _ admitted ih => exact preserved _ _ ih admitted

/-- A policy that admits more reaches more. -/
theorem mono (weaker : ∀ s o, admits s o → admits' s o) (reached : Reaches step admits init s) :
    Reaches step admits' init s := by
  induction reached with
  | start => exact .start
  | next _ admitted ih => exact .next ih (weaker _ _ admitted)

end Reaches

/-- The operations of a second system that a run of the first one emits, in order. -/
def emitted (step : σ → ο → σ) (emit : σ → ο → Option π) (s : σ) : List ο → List π
  | [] => []
  | o :: ops => (emit s o).toList ++ emitted step emit (step s o) ops

/-- A step of the first system either has a counterpart in the second or leaves the
relation as it was; the second run then follows the emitted operations alone. -/
theorem foldl_stuttering {R : σ → τ → Prop} {step : σ → ο → σ} {step' : τ → π → τ}
    {emit : σ → ο → Option π}
    (stutters : ∀ s t o, R s t → emit s o = none → R (step s o) t)
    (matched : ∀ s t o p, R s t → emit s o = some p → R (step s o) (step' t p))
    (ops : List ο) {s : σ} {t : τ} (related : R s t) :
    R (ops.foldl step s) ((emitted step emit s ops).foldl step' t) := by
  induction ops generalizing s t with
  | nil => exact related
  | cons o ops ih =>
    simp only [emitted, List.foldl_cons, List.foldl_append]
    cases found : emit s o with
    | none => exact ih (stutters s t o related found)
    | some p => exact ih (matched s t o p related found)

end Ironstate.Lib
