import Mathlib.Data.List.Basic

/-!
# Noninterference

Two runs of one machine on the same inputs, from states that a viewer cannot tell apart. A
relation that every input keeps (`Unwinding`) makes them look the same to the end. Where the
machine may tell the viewer something on a channel that only grows (`Releasing`), the runs look
the same exactly as long as the channel does: once it differs it never agrees again (`Apart`).
-/

namespace Ironstate.Lib

variable {σ ι ω β : Type}

/-- Neither list continues the other. -/
def Apart (xs ys : List β) : Prop := ¬xs <+: ys ∧ ¬ys <+: xs

namespace Apart

variable {xs ys xs' ys' : List β}

theorem ne (apart : Apart xs ys) : xs ≠ ys := by
  rintro rfl
  exact apart.1 (List.prefix_rfl)

/-- Two different entries at one place. -/
theorem append {x y : β} (different : x ≠ y) : Apart (xs ++ [x]) (xs ++ [y]) := by
  constructor
  · intro continued
    exact different (by simpa using continued)
  · intro continued
    exact different.symm (by simpa using continued)

/-- What is apart stays apart, however both lists go on. -/
theorem extend (apart : Apart xs ys) (more : xs <+: xs') (more' : ys <+: ys') :
    Apart xs' ys' := by
  constructor
  · intro continued
    rcases List.prefix_or_prefix_of_prefix (more.trans continued) more' with shorter | shorter
    · exact apart.1 shorter
    · exact apart.2 shorter
  · intro continued
    rcases List.prefix_or_prefix_of_prefix (more'.trans continued) more with shorter | shorter
    · exact apart.2 shorter
    · exact apart.1 shorter

end Apart

/-- A relation that shows in no view and that every admitted input keeps. -/
structure Unwinding (next : σ → ι → σ) (view : σ → ω) (admitted : ι → Prop)
    (Alike : σ → σ → Prop) : Prop where
  seen : ∀ {s t}, Alike s t → view s = view t
  kept : ∀ {s t} input, admitted input → Alike s t → Alike (next s input) (next t input)

namespace Unwinding

variable {next : σ → ι → σ} {view : σ → ω} {admitted : ι → Prop} {Alike : σ → σ → Prop}

theorem run (unwinding : Unwinding next view admitted Alike) {s t : σ} (alike : Alike s t)
    (inputs : List ι) (all : ∀ input ∈ inputs, admitted input) :
    Alike (inputs.foldl next s) (inputs.foldl next t) := by
  induction inputs generalizing s t with
  | nil => exact alike
  | cons input inputs ih =>
    obtain ⟨here, later⟩ := List.forall_mem_cons.mp all
    exact ih (unwinding.kept input here alike) later

end Unwinding

/-- A relation that shows in no view, and that an input breaks only where it tells the viewer two
different things on a channel of the view. -/
structure Releasing (next : σ → ι → σ) (view : σ → ω) (released : σ → List β)
    (Alike : σ → σ → Prop) : Prop where
  seen : ∀ {s t}, Alike s t → view s = view t
  told : ∀ {s t}, view s = view t → released s = released t
  grows : ∀ s input, released s <+: released (next s input)
  kept : ∀ {s t} input, Alike s t →
    Alike (next s input) (next t input) ∨ Apart (released (next s input)) (released (next t input))

namespace Releasing

variable {next : σ → ι → σ} {view : σ → ω} {released : σ → List β} {Alike : σ → σ → Prop}

theorem grows_run (releasing : Releasing next view released Alike) (s : σ) (inputs : List ι) :
    released s <+: released (inputs.foldl next s) := by
  induction inputs generalizing s with
  | nil => exact List.prefix_rfl
  | cons input inputs ih => exact (releasing.grows s input).trans (ih (next s input))

theorem run (releasing : Releasing next view released Alike) {s t : σ} (alike : Alike s t)
    (inputs : List ι) :
    Alike (inputs.foldl next s) (inputs.foldl next t) ∨
      Apart (released (inputs.foldl next s)) (released (inputs.foldl next t)) := by
  induction inputs generalizing s t with
  | nil => exact .inl alike
  | cons input inputs ih =>
    rcases releasing.kept input alike with alike | apart
    · exact ih alike
    · exact .inr (apart.extend (releasing.grows_run _ inputs) (releasing.grows_run _ inputs))

/-- The channel is all the viewer learns: where it agrees in the end, every view on the way
agreed. -/
theorem views_eq_iff (releasing : Releasing next view released Alike) {s t : σ}
    (alike : Alike s t) (inputs : List ι) :
    (∀ count, view ((inputs.take count).foldl next s) = view ((inputs.take count).foldl next t)) ↔
      released (inputs.foldl next s) = released (inputs.foldl next t) := by
  constructor
  · intro views
    have last := releasing.told (views inputs.length)
    rwa [List.take_length] at last
  · intro same count
    rcases releasing.run alike (inputs.take count) with alike | apart
    · exact releasing.seen alike
    · have later := apart.extend (releasing.grows_run _ (inputs.drop count))
        (releasing.grows_run _ (inputs.drop count))
      rw [← List.foldl_append, ← List.foldl_append, List.take_append_drop] at later
      exact absurd same later.ne

end Releasing

end Ironstate.Lib
