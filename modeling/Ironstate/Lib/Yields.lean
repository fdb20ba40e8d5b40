/-!
# Computations that may stop

Rules for what a computation in `Except` answers with when it does not stop for one of the
reasons allowed: one for each way to build a computation, with an invariant for each kind of
loop. With no reason allowed, a computation that yields ends.
-/

namespace Ironstate.Lib

variable {ε α β σ : Type} {allowed : ε → Prop}

/-- The computation answers with a value of `post`, or stops for an allowed reason. -/
def Yields (allowed : ε → Prop) (post : α → Prop) : Except ε α → Prop
  | .ok a => post a
  | .error e => allowed e

@[simp] theorem ok_bind (a : α) (f : α → Except ε β) : (Except.ok a >>= f) = f a := rfl

/-- What a computation answers, it answers after its first step has. -/
theorem bind_eq_ok {x : Except ε α} {f : α → Except ε β} {b : β} (answered : x >>= f = .ok b) :
    ∃ a, x = .ok a ∧ f a = .ok b := by
  cases x with
  | error error => cases answered
  | ok a => exact ⟨a, rfl, answered⟩

namespace Yields

variable {x : Except ε α} {post post' : α → Prop}

theorem ok {a : α} (held : post a) : Yields allowed post (.ok a) := held

theorem error {e : ε} (permitted : allowed e) : Yields allowed post (.error e) := permitted

theorem of_eq {a : α} (answer : x = .ok a) (held : post a) : Yields allowed post x :=
  answer ▸ held

theorem mono (weaker : ∀ a, post a → post' a) (yields : Yields allowed post x) :
    Yields allowed post' x := by
  cases x with
  | ok a => exact weaker a yields
  | error e => exact yields

/-- More reasons to stop are allowed. -/
theorem widen {allowed' : ε → Prop} (wider : ∀ e, allowed e → allowed' e)
    (yields : Yields allowed post x) : Yields allowed' post x := by
  cases x with
  | ok a => exact yields
  | error e => exact wider e yields

/-- Two things known of one computation; it stops for the stronger reason. -/
theorem and {allowed' : ε → Prop} (yields : Yields allowed post x)
    (yields' : Yields allowed' post' x) : Yields allowed (fun a => post a ∧ post' a) x := by
  cases x with
  | ok a => exact ⟨yields, yields'⟩
  | error e => exact yields

/-- What follows may rely on what came first. -/
theorem bind {mid : α → Prop} {after : β → Prop} {f : α → Except ε β}
    (first : Yields allowed mid x) (rest : ∀ a, mid a → Yields allowed after (f a)) :
    Yields allowed after (x >>= f) := by
  cases x with
  | ok a => exact rest a first
  | error e => exact first

/-- A computation that yields with no reason allowed ends. -/
theorem ends (yields : Yields (fun _ : ε => False) post x) : ∃ a, x = .ok a ∧ post a := by
  cases x with
  | ok a => exact ⟨a, rfl, yields⟩
  | error e => exact yields.elim

/-- So does one whose reasons cannot be. -/
theorem ends_of (never : ∀ e, ¬allowed e) (yields : Yields allowed post x) :
    ∃ a, x = .ok a ∧ post a :=
  (yields.widen never).ends

/-- A loop over a list: the invariant speaks of the elements already done. -/
theorem foldlM {f : σ → α → Except ε σ} {xs : List α} (Inv : List α → σ → Prop)
    (step : ∀ done x later s, xs = done ++ x :: later → Inv done s →
      Yields allowed (Inv (done ++ [x])) (f s x)) {s : σ} (initial : Inv [] s) :
    Yields allowed (Inv xs) (xs.foldlM f s) := by
  have loop : ∀ (later done : List α) (s : σ), xs = done ++ later → Inv done s →
      Yields allowed (Inv xs) (later.foldlM f s) := by
    intro later
    induction later with
    | nil =>
      rintro done s rfl inv
      rw [List.append_nil]
      exact inv
    | cons x later ih =>
      intro done s whole inv
      rw [List.foldlM_cons]
      refine bind (step done x later s whole inv) ?_
      intro s' inv'
      refine ih (done ++ [x]) s' ?_ inv'
      rw [whole, List.append_assoc, List.singleton_append]
  exact loop xs [] s rfl initial

/-- A loop of checks, each of which passes by itself. -/
theorem forM {f : α → Except ε Unit} {xs : List α}
    (each : ∀ x ∈ xs, Yields allowed (fun _ => True) (f x)) :
    Yields allowed (fun _ => True) (xs.forM f) := by
  induction xs with
  | nil => exact trivial
  | cons x xs ih =>
    refine bind (each x (List.mem_cons_self ..)) ?_
    intro _ _
    exact ih fun later member => each later (List.mem_cons_of_mem _ member)

end Yields

end Ironstate.Lib
