import Mathlib.Data.List.MinMax

/-!
# Numbered logs with a discarded front

A log is its full history of entries, numbered from 1. What a store still holds of it is
the history without its first `horizon` entries (`Retains`); what a reader sees of it is a
list of views, each made from an entry and its number (`readings`); what an entry prefix
amounts to is a fold (`stateAt`), which may be restarted from any earlier state. A choice
among checkpoints takes the last one of the highest rank (`newest`).
-/

namespace Ironstate.Lib

variable {α β σ ε : Type}

/-- `kept` is what is left of `history` once its first `horizon` entries are discarded. -/
structure Retains (history kept : List α) (horizon : Nat) : Prop where
  horizon_le : horizon ≤ history.length
  kept_eq : kept = history.drop horizon

namespace Retains

variable {history kept : List α} {horizon : Nat}

theorem nil : Retains ([] : List α) [] 0 := ⟨Nat.le_refl 0, rfl⟩

theorem length_eq (h : Retains history kept horizon) : horizon + kept.length = history.length := by
  rw [h.kept_eq, List.length_drop]
  have := h.horizon_le
  omega

theorem push (h : Retains history kept horizon) (entry : α) :
    Retains (history ++ [entry]) (kept ++ [entry]) horizon := by
  refine ⟨?_, ?_⟩
  · rw [List.length_append]
    exact Nat.le_trans h.horizon_le (Nat.le_add_right _ _)
  · rw [h.kept_eq, List.drop_append_of_le_length h.horizon_le]

/-- Discarding more of the front moves the horizon by as much. -/
theorem discard (h : Retains history kept horizon) {count : Nat} (bound : count ≤ kept.length) :
    Retains history (kept.drop count) (horizon + count) := by
  refine ⟨?_, ?_⟩
  · have := h.length_eq
    omega
  · rw [h.kept_eq, List.drop_drop]

/-- Cutting the history above the horizon keeps the front of what is retained. -/
theorem cut (h : Retains history kept horizon) {upto : Nat} (above : horizon ≤ upto)
    (bound : upto ≤ history.length) :
    Retains (history.take upto) (kept.take (upto - horizon)) horizon := by
  refine ⟨?_, ?_⟩
  · rw [List.length_take]
    omega
  · rw [h.kept_eq, List.drop_take]

theorem getElem? (h : Retains history kept horizon) (i : Nat) :
    kept[i]? = history[horizon + i]? := by
  rw [h.kept_eq, List.getElem?_drop]

theorem drop_eq (h : Retains history kept horizon) {upto : Nat} (above : horizon ≤ upto) :
    kept.drop (upto - horizon) = history.drop upto := by
  rw [h.kept_eq, List.drop_drop]
  congr 1
  omega

end Retains

/-- What a reader sees of `entries` when the first of them has number `first`. -/
def readings (view : Nat → α → List β) (first : Nat) (entries : List α) : List β :=
  (entries.zipIdx first).flatMap fun numbered => view numbered.2 numbered.1

@[simp] theorem readings_nil (view : Nat → α → List β) (first : Nat) :
    readings view first [] = [] := rfl

@[simp] theorem readings_cons (view : Nat → α → List β) (first : Nat) (entry : α)
    (entries : List α) :
    readings view first (entry :: entries) =
      view first entry ++ readings view (first + 1) entries := rfl

theorem readings_append (view : Nat → α → List β) (first : Nat) (entries later : List α) :
    readings view first (entries ++ later) =
      readings view first entries ++ readings view (first + entries.length) later := by
  induction entries generalizing first with
  | nil => simp
  | cons entry entries ih =>
    simp only [List.cons_append, readings_cons, ih, List.append_assoc, List.length_cons]
    rw [Nat.add_right_comm, Nat.add_assoc first]

/-- When every reading carries the number of its entry, keeping the readings up to a number
is reading the entries up to it. -/
theorem readings_filter_le {view : Nat → α → List β} {number : β → Nat}
    (numbered : ∀ n entry, ∀ reading ∈ view n entry, number reading = n) (first bound : Nat)
    (entries : List α) :
    (readings view first entries).filter (fun reading => number reading ≤ bound) =
      readings view first (entries.take (bound + 1 - first)) := by
  induction entries generalizing first with
  | nil => simp
  | cons entry entries ih =>
    rw [readings_cons, List.filter_append, ih]
    by_cases kept : first ≤ bound
    · obtain ⟨room, eq⟩ : ∃ room, bound + 1 - first = room + 1 := ⟨bound - first, by omega⟩
      have rest : bound + 1 - (first + 1) = room := by omega
      have here : (view first entry).filter (fun reading => number reading ≤ bound) =
          view first entry := by
        rw [List.filter_eq_self]
        intro reading member
        rw [numbered first entry reading member]
        exact decide_eq_true kept
      rw [here, eq, rest, List.take_succ_cons, readings_cons]
    · have here : (view first entry).filter (fun reading => number reading ≤ bound) = [] := by
        rw [List.filter_eq_nil_iff]
        intro reading member
        rw [numbered first entry reading member]
        simpa using kept
      have none : bound + 1 - first = 0 := by omega
      have rest : bound + 1 - (first + 1) = 0 := by omega
      rw [here, none, rest, List.take_zero, List.take_zero]
      rfl

/-- Numbering the kept entries from their index and adding the offset afterwards is
numbering them from the offset. -/
theorem readings_zipIdx_drop (view : Nat → α → List β) (offset skipped : Nat)
    (entries : List α) :
    ((entries.zipIdx.drop skipped).flatMap fun numbered => view (offset + numbered.2) numbered.1) =
      readings view (offset + skipped) (entries.drop skipped) := by
  have shifted : ∀ (start : Nat) (rest : List α),
      ((rest.zipIdx start).flatMap fun numbered => view (offset + numbered.2) numbered.1) =
        readings view (offset + start) rest := by
    intro start rest
    induction rest generalizing start with
    | nil => rfl
    | cons entry rest ih =>
      rw [List.zipIdx_cons, List.flatMap_cons, readings_cons, ih, Nat.add_assoc]
  have dropped : ∀ (start count : Nat) (rest : List α),
      (rest.zipIdx start).drop count = (rest.drop count).zipIdx (start + count) := by
    intro start count rest
    induction count generalizing start rest with
    | zero => rfl
    | succ count ih =>
      cases rest with
      | nil => rfl
      | cons entry rest =>
        rw [List.zipIdx_cons, List.drop_succ_cons, List.drop_succ_cons, ih]
        congr 1
        omega
  rw [dropped, Nat.zero_add]
  exact shifted skipped _

/-- The state after the first `upto` batches. -/
def stateAt (step : σ → ε → σ) (genesis : σ) (batches : List (List ε)) (upto : Nat) : σ :=
  (batches.take upto).flatten.foldl step genesis

/-- Batches appended later do not change an earlier state. -/
theorem stateAt_append (step : σ → ε → σ) (genesis : σ) {batches : List (List ε)} {upto : Nat}
    (bound : upto ≤ batches.length) (later : List (List ε)) :
    stateAt step genesis (batches ++ later) upto = stateAt step genesis batches upto := by
  unfold stateAt
  rw [List.take_append_of_le_length bound]

theorem stateAt_take (step : σ → ε → σ) (genesis : σ) (batches : List (List ε)) {upto cut : Nat}
    (bound : upto ≤ cut) :
    stateAt step genesis (batches.take cut) upto = stateAt step genesis batches upto := by
  unfold stateAt
  rw [List.take_take, Nat.min_eq_left bound]

theorem stateAt_push (step : σ → ε → σ) (genesis : σ) (batches : List (List ε))
    (batch : List ε) :
    stateAt step genesis (batches ++ [batch]) (batches.length + 1) =
      batch.foldl step (stateAt step genesis batches batches.length) := by
  unfold stateAt
  rw [List.take_of_length_le (by simp), List.take_length, List.flatten_append, List.foldl_append]
  simp

/-- Replay from the state at `upto` over the later batches reaches the final state. -/
theorem foldl_stateAt (step : σ → ε → σ) (genesis : σ) (batches : List (List ε)) (upto : Nat) :
    (batches.drop upto).flatten.foldl step (stateAt step genesis batches upto) =
      stateAt step genesis batches batches.length := by
  unfold stateAt
  rw [← List.foldl_append, ← List.flatten_append, List.take_append_drop, List.take_length]

/-- The last of the elements of highest rank. -/
def newest (rank : α → Nat) (items : List α) : Option α := items.reverse.argmax rank

theorem newest_push (rank : α → Nat) (items : List α) (item : α) :
    newest rank (items ++ [item]) =
      match newest rank items with
      | none => some item
      | some best => if rank item < rank best then some best else some item := by
  unfold newest
  rw [List.reverse_append, List.reverse_singleton, List.singleton_append, List.argmax_cons]
  cases items.reverse.argmax rank <;> rfl

theorem newest_eq_none {rank : α → Nat} {items : List α} :
    newest rank items = none ↔ items = [] := by
  unfold newest
  rw [List.argmax_eq_none, List.reverse_eq_nil_iff]

theorem newest_mem {rank : α → Nat} {items : List α} {best : α}
    (found : newest rank items = some best) : best ∈ items :=
  List.mem_reverse.mp (List.argmax_mem found)

theorem le_newest {rank : α → Nat} {items : List α} {best item : α}
    (found : newest rank items = some best) (member : item ∈ items) : rank item ≤ rank best :=
  List.le_of_mem_argmax (List.mem_reverse.mpr member) found

theorem newest_isSome {rank : α → Nat} {items : List α} {item : α} (member : item ∈ items) :
    ∃ best, newest rank items = some best ∧ rank item ≤ rank best := by
  cases found : newest rank items with
  | none => rw [newest_eq_none.mp found] at member; simp at member
  | some best => exact ⟨best, rfl, le_newest found member⟩

/-- No item ranks above the choice, and none after it ranks as high. -/
theorem newest_split {rank : α → Nat} {items : List α} {best : α}
    (found : newest rank items = some best) :
    ∃ before later, items = before ++ best :: later ∧
      (∀ item ∈ before, rank item ≤ rank best) ∧ ∀ item ∈ later, rank item < rank best := by
  induction items using List.reverseRecOn generalizing best with
  | nil => cases found
  | append_singleton items item ih =>
    have highest : ∀ other ∈ items, rank other ≤ rank best := by
      intro other member
      exact le_newest found (List.mem_append_left _ member)
    rw [newest_push] at found
    cases chosen : newest rank items with
    | none =>
      rw [chosen] at found
      obtain rfl := Option.some.inj found
      rw [newest_eq_none.mp chosen]
      exact ⟨[], [], rfl, by simp, by simp⟩
    | some earlier =>
      rw [chosen] at found
      by_cases below : rank item < rank earlier
      · simp only [if_pos below] at found
        obtain rfl := Option.some.inj found
        obtain ⟨before, later, split, high, low⟩ := ih chosen
        refine ⟨before, later ++ [item], by rw [split]; simp, high, ?_⟩
        intro other member
        rcases List.mem_append.mp member with old | new
        · exact low other old
        · rw [List.mem_singleton.mp new]
          exact below
      · simp only [if_neg below] at found
        obtain rfl := Option.some.inj found
        exact ⟨items, [], rfl, highest, by simp⟩

/-- Dropping the items below a rank either keeps the choice or leaves nothing. -/
theorem newest_filter_ge (rank : α → Nat) (bound : Nat) (items : List α) :
    newest rank (items.filter fun item => bound ≤ rank item) =
      (newest rank items).filter fun best => bound ≤ rank best := by
  induction items using List.reverseRecOn with
  | nil => rfl
  | append_singleton items item ih =>
    rw [List.filter_append, newest_push]
    by_cases above : bound ≤ rank item
    · simp only [List.filter_cons, above, decide_true, if_true, List.filter_nil]
      rw [newest_push, ih]
      cases newest rank items with
      | none => simp [Option.filter, above]
      | some best => grind
    · simp only [List.filter_cons, above, decide_false, Bool.false_eq_true, if_false,
        List.filter_nil, List.append_nil]
      rw [ih]
      cases newest rank items with
      | none => simp [Option.filter, above]
      | some best => grind

end Ironstate.Lib
