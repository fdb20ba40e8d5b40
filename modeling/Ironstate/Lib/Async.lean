/-!
# Asynchronous computations

A computation over a state that is suspended now and then, as the state machine that polling
drives it through. `polls` is what a caller who stops polling is left with, `blockOn` what a
caller who does not is; `Always` states an invariant of every suspension together with what
holds at the end, and has one rule for each way to build a computation.
-/

namespace Ironstate.Lib

/-- A computation has ended, works on the state it is polled with, or suspends itself. -/
inductive Async (σ α : Type) where
  | ready (a : α)
  | work (update : σ → σ) (rest : σ → Async σ α)
  | pending (rest : Async σ α)

/-- What one poll answers; a pending computation is polled again from where it stands. -/
inductive Poll (σ α : Type) where
  | ready (a : α)
  | pending (rest : Async σ α)

namespace Async

variable {σ τ α β : Type}

protected def bind : Async σ α → (α → Async σ β) → Async σ β
  | ready a, f => f a
  | work update rest, f => work update fun s => (rest s).bind f
  | pending rest, f => pending (rest.bind f)

instance : Monad (Async σ) where
  pure := ready
  bind := Async.bind

/-- One suspension. -/
def yieldNow : Async σ Unit := pending (ready ())

/-- A use of the state that does not suspend. -/
def access (f : σ → α × σ) : Async σ α := work (fun s => (f s).2) fun s => ready (f s).1

def get : Async σ σ := access fun s => (s, s)

def modify (f : σ → σ) : Async σ Unit := access fun s => ((), f s)

/-- A computation over a part of the state. -/
def zoom (part : τ → σ) (put : τ → σ → τ) : Async σ α → Async τ α
  | ready a => ready a
  | work update rest => work (fun t => put t (update (part t))) fun t => (rest (part t)).zoom part put
  | pending rest => pending (rest.zoom part put)

/-- Works until the next suspension, or to the end. -/
def poll : Async σ α → σ → Poll σ α × σ
  | ready a, s => (.ready a, s)
  | work update rest, s => (rest s).poll (update s)
  | pending rest, s => (.pending rest, s)

/-- Up to `n` polls, the last of which may be the one that ends it. -/
def polls : Nat → Async σ α → σ → Poll σ α × σ
  | 0, x, s => (.pending x, s)
  | n + 1, x, s =>
    match x.poll s with
    | (.ready a, s) => (.ready a, s)
    | (.pending rest, s) => polls n rest s

/-- Polls until it ends. -/
def blockOn : Async σ α → σ → α × σ
  | ready a, s => (a, s)
  | work update rest, s => (rest s).blockOn (update s)
  | pending rest, s => rest.blockOn s

/-- How often it is suspended. -/
def suspensions : Async σ α → σ → Nat
  | ready _, _ => 0
  | work update rest, s => (rest s).suspensions (update s)
  | pending rest, s => rest.suspensions s + 1

/-- `I` holds at every suspension, and `post` at the end. -/
def Always (I : σ → Prop) (post : α → σ → Prop) : Async σ α → σ → Prop
  | ready a, s => post a s
  | work update rest, s => (rest s).Always I post (update s)
  | pending rest, s => I s ∧ rest.Always I post s

/-! ## Blocking -/

@[simp] theorem blockOn_access (f : σ → α × σ) (s : σ) : blockOn (access f) s = f s := rfl

/-- Blocking on one computation and then on the next is blocking on both. -/
@[simp] theorem blockOn_bind (x : Async σ α) (f : α → Async σ β) (s : σ) :
    blockOn (x >>= f) s = blockOn (f (blockOn x s).1) (blockOn x s).2 := by
  induction x generalizing s with
  | ready a => rfl
  | work update rest ih => exact ih s (update s)
  | pending rest ih => exact ih s

/-- The part of the state is written back. -/
theorem blockOn_zoom (part : τ → σ) (put : τ → σ → τ) (put_part : ∀ t, put t (part t) = t)
    (part_put : ∀ t s, part (put t s) = s) (put_put : ∀ t s s', put (put t s) s' = put t s')
    (x : Async σ α) (t : τ) :
    blockOn (x.zoom part put) t = ((blockOn x (part t)).1, put t (blockOn x (part t)).2) := by
  induction x generalizing t with
  | ready a => exact congrArg (Prod.mk a) (put_part t).symm
  | work update rest ih =>
    have rest' := ih (part t) (put t (update (part t)))
    rw [part_put, put_put] at rest'
    exact rest'
  | pending rest ih => exact ih t

/-! ## What a caller who stops polling is left with -/

section Always

variable {I : σ → Prop} {post : α → σ → Prop}

theorem Always.mono {I' : σ → Prop} {post' : α → σ → Prop} (inv : ∀ s, I s → I' s)
    (ended : ∀ a s, post a s → post' a s) {x : Async σ α} {s : σ} (always : x.Always I post s) :
    x.Always I' post' s := by
  induction x generalizing s with
  | ready a => exact ended a s always
  | work update rest ih => exact ih s always
  | pending rest ih => exact ⟨inv s always.1, ih always.2⟩

theorem always_bind (mid : α → σ → Prop) {after : β → σ → Prop} {x : Async σ α}
    {f : α → Async σ β} {s : σ} (first : x.Always I mid s) (rest : ∀ a s, mid a s → (f a).Always I after s) :
    (x >>= f).Always I after s := by
  induction x generalizing s with
  | ready a => exact rest a s first
  | work update later ih => exact ih s first
  | pending later ih => exact ⟨first.1, ih first.2⟩

/-- A use of the state is followed by what may rely on it. -/
theorem always_access_bind {after : β → σ → Prop} {g : σ → α × σ} {f : α → Async σ β} {s : σ}
    (rest : (f (g s).1).Always I after (g s).2) : (access g >>= f).Always I after s := rest

theorem always_zoom (part : τ → σ) (put : τ → σ → τ) (part_put : ∀ t s, part (put t s) = s)
    (put_put : ∀ t s s', put (put t s) s' = put t s') {K : τ → Prop} {after : α → τ → Prop}
    {x : Async σ α} {t : τ} (put_part : put t (part t) = t)
    (always : x.Always (fun s => K (put t s)) (fun a s => after a (put t s)) (part t)) :
    (x.zoom part put).Always K after t := by
  have general : ∀ (x : Async σ α) (s : σ),
      x.Always (fun s => K (put t s)) (fun a s => after a (put t s)) s →
        (x.zoom part put).Always K after (put t s) := by
    intro x
    induction x with
    | ready a => exact fun s held => held
    | work update rest ih =>
      intro s held
      show ((rest (part (put t s))).zoom part put).Always K after
        (put (put t s) (update (part (put t s))))
      rw [part_put, put_put]
      exact ih s _ held
    | pending rest ih => exact fun s held => ⟨held.1, ih s held.2⟩
  have here := general x (part t) always
  rwa [put_part] at here

theorem Always.poll {x : Async σ α} {s : σ} (always : x.Always I post s) :
    (∃ a, (x.poll s).1 = .ready a ∧ post a (x.poll s).2) ∨
      ∃ rest, (x.poll s).1 = .pending rest ∧ I (x.poll s).2 ∧
        rest.Always I post (x.poll s).2 := by
  induction x generalizing s with
  | ready a => exact .inl ⟨a, rfl, always⟩
  | work update rest ih => exact ih s always
  | pending rest ih => exact .inr ⟨rest, rfl, always.1, always.2⟩

/-- However often it was polled, it has ended with `post`, or is suspended with `I`. -/
theorem Always.polls {x : Async σ α} {s : σ} (always : x.Always I post s) (before : I s)
    (n : Nat) :
    (∃ a, (x.polls n s).1 = .ready a ∧ post a (x.polls n s).2) ∨
      ∃ rest, (x.polls n s).1 = .pending rest ∧ I (x.polls n s).2 := by
  induction n generalizing x s with
  | zero => exact .inr ⟨x, rfl, before⟩
  | succ n ih =>
    rw [Async.polls]
    rcases always.poll with ⟨a, answer, ended⟩ | ⟨rest, answer, held, later⟩
    · rw [show x.poll s = (.ready a, (x.poll s).2) from Prod.ext answer rfl]
      exact .inl ⟨a, rfl, ended⟩
    · rw [show x.poll s = (.pending rest, (x.poll s).2) from Prod.ext answer rfl]
      exact ih later held

end Always

/-- Polls that end the computation leave what blocking on it leaves. -/
theorem blockOn_of_polls {x : Async σ α} {s s' : σ} {a : α} {n : Nat}
    (ended : x.polls n s = (.ready a, s')) : x.blockOn s = (a, s') := by
  have polled : ∀ (x : Async σ α) (s : σ), match x.poll s with
      | (.ready a, s') => x.blockOn s = (a, s')
      | (.pending rest, s') => x.blockOn s = rest.blockOn s' := by
    intro x
    induction x with
    | ready a => exact fun s => rfl
    | work update rest ih => exact fun s => ih s (update s)
    | pending rest ih => exact fun s => rfl
  induction n generalizing x s with
  | zero => cases ended
  | succ n ih =>
    have here := polled x s
    rw [Async.polls] at ended
    rcases outcome : x.poll s with ⟨answer | rest, s₁⟩
    · rw [outcome] at here ended
      cases ended
      exact here
    · rw [outcome] at here ended
      exact here.trans (ih ended)

theorem suspensions_bind (x : Async σ α) (f : α → Async σ β) (s : σ) :
    suspensions (x >>= f) s =
      suspensions x s + suspensions (f (x.blockOn s).1) (x.blockOn s).2 := by
  induction x generalizing s with
  | ready a => exact (Nat.zero_add _).symm
  | work update rest ih => exact ih s (update s)
  | pending rest ih => exact (congrArg Nat.succ (ih s)).trans (Nat.succ_add _ _).symm

theorem suspensions_zoom (part : τ → σ) (put : τ → σ → τ) (part_put : ∀ t s, part (put t s) = s)
    (x : Async σ α) (t : τ) : (x.zoom part put).suspensions t = x.suspensions (part t) := by
  induction x generalizing t with
  | ready a => rfl
  | work update rest ih =>
    have rest' := ih (part t) (put t (update (part t)))
    rw [part_put] at rest'
    exact rest'
  | pending rest ih => exact congrArg Nat.succ (ih t)

/-- More polls than there are suspensions end every computation. -/
theorem polls_end {x : Async σ α} {s : σ} {n : Nat} (enough : x.suspensions s < n) :
    x.polls n s = (.ready (x.blockOn s).1, (x.blockOn s).2) := by
  obtain ⟨n, rfl⟩ : ∃ more, n = more + 1 := ⟨n - 1, by omega⟩
  induction x generalizing s n with
  | ready a => rfl
  | work update rest ih => exact ih s n enough
  | pending rest ih =>
    have more : rest.suspensions s < n := Nat.lt_of_succ_lt_succ enough
    obtain ⟨n, rfl⟩ : ∃ fewer, n = fewer + 1 := ⟨n - 1, by omega⟩
    exact ih n more

end Async

end Ironstate.Lib
