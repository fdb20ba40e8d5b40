import Ironstate.Core.Analysis

/-!
# The graph of a report

What the walk of `analyze` collects, and what its two searches find, as facts about the graph
of the variants: one edge for each move that a representative makes and enforcement allows
(`VariantEdge`). `analyze_claims` gives the lines of a report in those terms.
-/

namespace Ironstate.Analysis

open StateMachine (stateVariants isTerminal initial)
open EventKind (eventVariants)

variable {S : Type} [StateMachine S]

/-! ## The walk -/

/-- The edge for one event, as an index. -/
def rowTarget (state : S) (event : Event S) : Option Nat :=
  if structurallyAllowed state event then
    (transition state event).bind fun target => indexOf S (StateMachine.variantName target)
  else none

/-- A move that the transition function defines, whether or not enforcement allows it. -/
def move (state : S) (event : Event S) : Option (S × Event S × S) :=
  (transition state event).map fun target => (state, event, target)

variable (S) in
/-- The moves between the representatives. -/
def moves : List (S × Event S × S) :=
  stateVariants.flatMap fun state => eventVariants.filterMap (move state)

theorem mem_moves (state : S) (event : Event S) (target : S) :
    (state, event, target) ∈ moves S ↔
      state ∈ stateVariants ∧ event ∈ eventVariants ∧ transition state event = some target := by
  constructor
  · intro listed
    obtain ⟨state', known, listed⟩ := List.mem_flatMap.mp listed
    obtain ⟨event', known', made⟩ := List.mem_filterMap.mp listed
    obtain ⟨target', defined, same⟩ := Option.map_eq_some_iff.mp made
    obtain ⟨rfl, rfl, rfl⟩ := by simpa using same
    exact ⟨known, known', defined⟩
  · rintro ⟨known, known', defined⟩
    exact List.mem_flatMap.mpr
      ⟨state, known, List.mem_filterMap.mpr ⟨event, known', by simp [move, defined]⟩⟩

/-- Enforcement never lets the move fire. -/
def dead (step : S × Event S × S) : Bool := !structurallyAllowed step.1 step.2.1

/-- The lines for the moves that never fire. -/
def deadLines (steps : List (S × Event S × S)) : List String :=
  (steps.filter dead).map fun step => deadLine step.1 step.2.1 step.2.2

theorem deadLines_append (steps later : List (S × Event S × S)) :
    deadLines (steps ++ later) = deadLines steps ++ deadLines later := by
  simp [deadLines]

theorem foldl_walkEvent (state : S) (events : List (Event S)) (walk : Walk) :
    (events.foldl (walkEvent state) walk).row = walk.row ++ events.filterMap (rowTarget state) ∧
      (events.foldl (walkEvent state) walk).dead =
        walk.dead ++ deadLines (events.filterMap (move state)) := by
  induction events generalizing walk with
  | nil => simp [deadLines]
  | cons event events ih =>
    rw [List.foldl_cons, (ih _).1, (ih _).2]
    cases defined : transition state event with
    | none => simp [walkEvent, rowTarget, move, defined]
    | some target =>
      cases allowed : structurallyAllowed state event with
      | true =>
        cases found : indexOf S (StateMachine.variantName target) <;>
          simp [walkEvent, rowTarget, move, deadLines, dead, defined, allowed, found]
      | false => simp [walkEvent, rowTarget, move, deadLines, dead, defined, allowed]

/-- The row of a state. -/
def rowOf (state : S) : List Nat := eventVariants.filterMap (rowTarget state)

theorem foldl_walkState (states : List S) (rows : List (List Nat)) (walk : Walk)
    (fresh : walk.row = []) :
    (states.foldl walkState (rows, walk)).1 = rows ++ states.map rowOf ∧
      (states.foldl walkState (rows, walk)).2.dead = walk.dead ++ deadLines
        (states.flatMap fun state => eventVariants.filterMap (move state)) := by
  induction states generalizing rows walk with
  | nil => simp [deadLines]
  | cons state states ih =>
    obtain ⟨row, blocked⟩ := foldl_walkEvent state eventVariants walk
    rw [List.foldl_cons]
    have ih := ih (rows ++ [rowOf state])
      { eventVariants.foldl (walkEvent state) walk with row := [] } rfl
    rw [fresh, List.nil_append] at row
    have after : walkState (rows, walk) state = (rows ++ [rowOf state],
        { eventVariants.foldl (walkEvent state) walk with row := [] }) := by
      simp [walkState, rowOf, row]
    rw [after, ih.1, ih.2, blocked]
    simp [deadLines_append]

/-! ## The searches -/

section Searches

variable {edges : List (List Nat)} {n : Nat}

/-- The edges of the graph, as the searches see them. -/
abbrev Edge (edges : List (List Nat)) (n : Nat) : Nat → Nat → Prop :=
  Lib.Searching.Edge (fun i => edges.getD i []) n

/-- `reachable_from` finds what a path from the start leads to. -/
theorem reachableFrom_iff {start : Nat} (inside : start < n) (j : Nat) :
    (reachableFrom start edges n)[j]? = some true ↔
      Relation.ReflTransGen (Edge edges n) start j := by
  have marked (i : Nat) :
      ((List.replicate n false).set start true)[i]? = some true ↔ i = start := by
    by_cases here : i = start
    · subst here
      simp [inside]
    · simp [List.getElem?_set_ne (Ne.symm here), here, List.getElem?_replicate]
  have searching : Lib.Searching (fun i => edges.getD i [])
      ((List.replicate n false).set start true) [start] := by
    refine ⟨?_, ?_⟩
    · intro i pushed
      exact (marked i).mpr (List.mem_singleton.mp pushed)
    · intro i known done
      exact absurd (List.mem_singleton.mpr ((marked i).mp known)) done
  have nonempty : n ≠ 0 := by omega
  rw [reachableFrom, if_neg nonempty, searching.marked_iff]
  simp only [marked, exists_eq_left, List.length_set, List.length_replicate]

theorem length_modifyAll (outs : List Nat) (i : Nat) (rev : List (List Nat)) :
    (outs.foldl (fun rev j => rev.modify j fun sources => sources ++ [i]) rev).length =
      rev.length := by
  induction outs generalizing rev with
  | nil => rfl
  | cons j outs ih => simp [ih]

theorem mem_modifyAll (outs : List Nat) (i p j : Nat) (rev : List (List Nat)) :
    p ∈ (outs.foldl (fun rev j => rev.modify j fun sources => sources ++ [i]) rev).getD j [] ↔
      p ∈ rev.getD j [] ∨ j < rev.length ∧ j ∈ outs ∧ p = i := by
  induction outs generalizing rev with
  | nil => simp
  | cons k outs ih =>
    rw [List.foldl_cons, ih, List.length_modify]
    by_cases here : j = k
    · subst here
      by_cases inside : j < rev.length
      · simp [inside]
        grind
      · simp [inside]
    · have kept : (rev.modify k fun sources => sources ++ [i]).getD j [] = rev.getD j [] := by
        simp [Ne.symm here]
      rw [kept]
      simp [here]

/-- The edges reversed. -/
theorem mem_reversed (p j : Nat) :
    p ∈ (reversed edges n).getD j [] ↔ j < n ∧ j ∈ edges.getD p [] := by
  have rows (rows : List (List Nat)) (k : Nat) (rev : List (List Nat)) :
      p ∈ ((rows.zipIdx k).foldl (fun rev outs =>
          outs.1.foldl (fun rev j => rev.modify j fun sources => sources ++ [outs.2]) rev)
          rev).getD j [] ↔
        p ∈ rev.getD j [] ∨ j < rev.length ∧ k ≤ p ∧ j ∈ rows.getD (p - k) [] := by
    induction rows generalizing k rev with
    | nil => simp
    | cons outs rows ih =>
      rw [List.zipIdx_cons, List.foldl_cons, ih, length_modifyAll, mem_modifyAll]
      by_cases here : p = k
      · subst here
        have passed : ¬p + 1 ≤ p := by omega
        simp [passed]
      · by_cases later : k + 1 ≤ p
        · have shift : p - k = p - (k + 1) + 1 := by omega
          have least : k ≤ p := by omega
          simp [here, later, shift, least]
        · have before : ¬k ≤ p := by omega
          simp [here, later, before]
  have empty : (List.replicate n ([] : List Nat)).getD j [] = [] := by
    simp only [List.getD_eq_getElem?_getD, List.getElem?_replicate]
    split <;> rfl
  unfold reversed
  rw [rows edges 0, empty, List.length_replicate]
  simp

/-- The terminal vertices are marked and pushed. -/
theorem foldl_terminal (last : Nat → Bool) (vertices : List Nat) (can : List Bool)
    (stack : List Nat) (i : Nat) :
    let start := vertices.foldl (fun (can, stack) i =>
      if last i then (can.set i true, i :: stack) else (can, stack)) (can, stack)
    start.1.length = can.length ∧
      (start.1[i]? = some true ↔
        can[i]? = some true ∨ i < can.length ∧ i ∈ vertices ∧ last i) ∧
      (i ∈ start.2 ↔ i ∈ stack ∨ i ∈ vertices ∧ last i) := by
  induction vertices generalizing can stack with
  | nil => simp
  | cons k vertices ih =>
    rw [List.foldl_cons]
    cases final : last k with
    | true =>
      obtain ⟨size, marked, pushed⟩ := ih (can.set k true) (k :: stack)
      simp only [if_true]
      refine ⟨by rw [size, List.length_set], ?_, ?_⟩
      · rw [marked, List.length_set]
        by_cases here : i = k
        · subst here
          by_cases inside : i < can.length
          · simp [inside, final]
          · simp [inside]
        · simp [List.getElem?_set_ne (Ne.symm here), here]
      · rw [pushed]
        by_cases here : i = k
        · subst here
          simp [final]
        · simp [here]
    | false =>
      obtain ⟨size, marked, pushed⟩ := ih can stack
      simp only [Bool.false_eq_true, if_false]
      refine ⟨size, ?_, ?_⟩
      · rw [marked]
        by_cases here : i = k
        · subst here
          simp [final]
        · simp [here]
      · rw [pushed]
        by_cases here : i = k
        · subst here
          simp [final]
        · simp [here]

/-- `reaches_terminal` finds what a path leads from to a terminal vertex. -/
theorem reachesTerminal_iff {terminal : List Bool} (rows : edges.length = n)
    (final : terminal.length = n) (i : Nat) :
    (reachesTerminal edges terminal n)[i]? = some true ↔
      ∃ t, terminal.getD t false = true ∧ Relation.ReflTransGen (Edge edges n) i t := by
  have start := foldl_terminal (fun t => terminal.getD t false) (List.range n) (List.replicate n false) []
  unfold reachesTerminal
  generalize (List.range n).foldl _ _ = initial at start ⊢
  obtain ⟨can, stack⟩ := initial
  have size : can.length = n := by simpa using (start 0).1
  have inside (t : Nat) (last : terminal.getD t false = true) : t < n := by
    rw [List.getD_eq_getElem?_getD] at last
    grind
  have marked (t : Nat) : can[t]? = some true ↔ terminal.getD t false = true := by
    have read := (start t).2.1
    simp only [List.getElem?_replicate, List.length_replicate, List.mem_range] at read
    rw [read]
    grind
  have pushed (t : Nat) : t ∈ stack ↔ terminal.getD t false = true := by
    have read := (start t).2.2
    simp only [List.not_mem_nil, List.mem_range, false_or] at read
    rw [read]
    exact ⟨And.right, fun last => ⟨inside t last, last⟩⟩
  have searching : Lib.Searching (fun i => (reversed edges n).getD i []) can stack := by
    refine ⟨?_, ?_⟩
    · intro t waiting
      exact (marked t).mpr ((pushed t).mp waiting)
    · intro t known done
      exact absurd ((pushed t).mpr ((marked t).mp known)) done
  have swapped : Lib.Searching.Edge (fun i => (reversed edges n).getD i []) n =
      Function.swap (Edge edges n) := by
    funext t p
    apply propext
    unfold Lib.Searching.Edge Function.swap
    rw [mem_reversed]
    constructor
    · rintro ⟨⟨bound, edge⟩, _⟩
      exact ⟨edge, bound⟩
    · rintro ⟨edge, bound⟩
      refine ⟨⟨bound, edge⟩, Nat.lt_of_not_le fun outside => ?_⟩
      have none : edges.getD p [] = [] := by simp [rows, outside]
      exact absurd (none ▸ edge : t ∈ []) List.not_mem_nil
  rw [searching.marked_iff, size, swapped]
  simp only [marked, Relation.reflTransGen_swap]

end Searches

/-! ## Variants by name -/

variable (S) in
/-- A move between variants: a representative of the first makes it, on the representative of
some event, and enforcement allows it. -/
def VariantEdge (u v : String) : Prop :=
  ∃ state ∈ stateVariants (S := S), StateMachine.variantName state = u ∧
    ∃ event ∈ eventVariants, structurallyAllowed state event ∧
      ∃ target, transition state event = some target ∧ StateMachine.variantName target = v

variable (S) in
/-- A path of such moves. -/
abbrev VariantPath : String → String → Prop := Relation.ReflTransGen (VariantEdge S)

/-- A representative that is not terminal and has no way out. -/
def Stuck (state : S) : Prop :=
  isTerminal state = false ∧ ∀ v, ¬VariantEdge S (StateMachine.variantName state) v

/-- A representative that is not terminal and has a way out, but none to a terminal one. -/
def Trapped (state : S) : Prop :=
  isTerminal state = false ∧ (∃ v, VariantEdge S (StateMachine.variantName state) v) ∧
    ∀ t ∈ stateVariants (S := S), isTerminal t = true →
      ¬VariantPath S (StateMachine.variantName state) (StateMachine.variantName t)

variable (S) in
/-- The rows of the representatives, in order. -/
abbrev rowsOf : List (List Nat) := stateVariants.map (rowOf (S := S))

variable (S) in
/-- Which representatives are terminal, in order. -/
abbrev terminalOf : List Bool := stateVariants.map (isTerminal (S := S))

variable (S) in
/-- How many variants there are. -/
abbrev variantCount : Nat := (stateVariants (S := S)).length

theorem mem_names (i : Nat) (name : String) :
    (names S)[i]? = some name ↔
      ∃ state, (stateVariants (S := S))[i]? = some state ∧
        StateMachine.variantName state = name := by
  simp [names]

theorem mem_rowOf (state : S) (j : Nat) :
    j ∈ rowOf state ↔ ∃ event ∈ eventVariants, structurallyAllowed state event ∧
      ∃ target, transition state event = some target ∧
        indexOf S (StateMachine.variantName target) = some j := by
  simp [rowOf, rowTarget, Option.bind_eq_some_iff]

section Derived

variable (derived : StateMachine.Derived S)

include derived

theorem indexOf_iff (name : String) (i : Nat) :
    indexOf S name = some i ↔ (names S)[i]? = some name := by
  unfold indexOf
  rw [List.findIdx?_eq_some_iff_getElem, List.getElem?_eq_some_iff]
  constructor
  · rintro ⟨inside, found, _⟩
    exact ⟨inside, by simpa using found⟩
  · rintro ⟨inside, found⟩
    refine ⟨inside, by simpa using found, ?_⟩
    intro j earlier same
    have twice : (names S)[j] = (names S)[i] := by
      rw [found]
      simpa using same
    have equal : j = i := (List.getElem_inj derived.distinct).mp twice
    omega

/-- The edges between indices are the moves between the variants that stand there. -/
theorem edge_iff (i j : Nat) :
    Edge (rowsOf S) (variantCount S) i j ↔
      ∃ u v, (names S)[i]? = some u ∧ (names S)[j]? = some v ∧ VariantEdge S u v := by
  unfold Edge Lib.Searching.Edge
  constructor
  · rintro ⟨listed, _⟩
    cases here : (stateVariants (S := S))[i]? with
    | none => simp [here] at listed
    | some state =>
      have listed : j ∈ rowOf state := by simpa [here] using listed
      obtain ⟨event, known, allowed, target, defined, found⟩ := (mem_rowOf state j).mp listed
      refine ⟨StateMachine.variantName state, StateMachine.variantName target, ?_, ?_, ?_⟩
      · exact (mem_names i _).mpr ⟨state, here, rfl⟩
      · exact (indexOf_iff derived _ j).mp found
      · exact ⟨state, List.mem_of_getElem? here, rfl, event, known, allowed, target, defined, rfl⟩
  · rintro ⟨u, v, from_u, to_v, state, known, name, event, listed, allowed, target, defined, goal⟩
    obtain ⟨k, inside, here⟩ := List.getElem_of_mem known
    have here := List.getElem?_eq_some_iff.mpr ⟨inside, here⟩
    have same : k = i := by
      have found := (indexOf_iff derived u k).mpr ((mem_names k u).mpr ⟨state, here, name⟩)
      have index := (indexOf_iff derived u i).mpr from_u
      exact Option.some.inj (found.symm.trans index)
    subst same
    have found := (indexOf_iff derived v j).mpr to_v
    have row : j ∈ rowOf state :=
      (mem_rowOf state j).mpr ⟨event, listed, allowed, target, defined, goal ▸ found⟩
    obtain ⟨last, at_j, _⟩ := (mem_names j v).mp to_v
    obtain ⟨bound, _⟩ := List.getElem?_eq_some_iff.mp at_j
    exact ⟨by simpa [here] using row, bound⟩

/-- A variant that a path leads to is listed. -/
theorem VariantPath.listed {u v : String} (path : VariantPath S u v) {i : Nat}
    (start : (names S)[i]? = some u) :
    ∃ j, (names S)[j]? = some v ∧
      Relation.ReflTransGen (Edge (rowsOf S) (variantCount S)) i j := by
  induction path with
  | refl => exact ⟨i, start, .refl⟩
  | tail _ edge ih =>
    obtain ⟨j, here, path⟩ := ih
    have ⟨_, _, _, _, _, _, target, _, name⟩ := edge
    obtain ⟨k, there⟩ := List.mem_iff_getElem?.mp (derived.listed target)
    have there := name ▸ there
    exact ⟨k, there, path.tail ((edge_iff derived j k).mpr ⟨_, _, here, there, edge⟩)⟩

/-- Paths between indices are paths between the variants that stand there. -/
theorem path_iff {i j : Nat} {u v : String} (start : (names S)[i]? = some u)
    (goal : (names S)[j]? = some v) :
    Relation.ReflTransGen (Edge (rowsOf S) (variantCount S)) i j ↔ VariantPath S u v := by
  constructor
  · intro path
    induction path generalizing v with
    | refl => exact Option.some.inj (start.symm.trans goal) ▸ .refl
    | tail _ edge ih =>
      obtain ⟨w, _, here, there, move⟩ := (edge_iff derived _ _).mp edge
      exact (ih here).tail (Option.some.inj (there.symm.trans goal) ▸ move)
  · intro path
    obtain ⟨k, found, path⟩ := path.listed derived start
    have same := ((indexOf_iff derived v k).mpr found).symm.trans
      ((indexOf_iff derived v j).mpr goal)
    exact Option.some.inj same ▸ path

/-- The backward search finds the variants that a path leads from to a terminal one. -/
theorem reaches_iff {i : Nat} {state : S} (here : (stateVariants (S := S))[i]? = some state) :
    (reachesTerminal (rowsOf S) (terminalOf S) (variantCount S))[i]? = some true ↔
      ∃ t ∈ stateVariants (S := S), isTerminal t = true ∧
        VariantPath S (StateMachine.variantName state) (StateMachine.variantName t) := by
  have start := (mem_names i _).mpr ⟨state, here, rfl⟩
  rw [reachesTerminal_iff (List.length_map _) (List.length_map _)]
  constructor
  · rintro ⟨j, last, path⟩
    cases there : (stateVariants (S := S))[j]? with
    | none => simp [there] at last
    | some t =>
      have goal := (mem_names j _).mpr ⟨t, there, rfl⟩
      exact ⟨t, List.mem_of_getElem? there, by simpa [there] using last,
        (path_iff derived start goal).mp path⟩
  · rintro ⟨t, known, last, path⟩
    obtain ⟨j, there⟩ := List.mem_iff_getElem?.mp known
    have goal := (mem_names j _).mpr ⟨t, there, rfl⟩
    exact ⟨j, by simpa [there] using last, (path_iff derived start goal).mpr path⟩

/-- A row is empty when no move leads out of its variant. -/
theorem rowOf_eq_nil_iff {i : Nat} {state : S} (here : (stateVariants (S := S))[i]? = some state) :
    rowOf state = [] ↔ ∀ v, ¬VariantEdge S (StateMachine.variantName state) v := by
  have start := (mem_names i _).mpr ⟨state, here, rfl⟩
  have row : (rowsOf S).getD i [] = rowOf state := by simp [here]
  constructor
  · intro empty v move
    obtain ⟨_, _, _, _, _, _, target, _, name⟩ := id move
    obtain ⟨j, there⟩ := List.mem_iff_getElem?.mp (derived.listed target)
    have edge := (edge_iff derived i j).mpr ⟨_, _, start, name ▸ there, move⟩
    have listed : j ∈ rowOf state := row ▸ edge.1
    exact absurd (empty ▸ listed) List.not_mem_nil
  · intro stuck
    rw [List.eq_nil_iff_forall_not_mem]
    intro j listed
    obtain ⟨event, known, allowed, target, defined, found⟩ := (mem_rowOf state j).mp listed
    exact stuck _ ⟨state, List.mem_of_getElem? here, rfl, event, known, allowed, target, defined,
      rfl⟩

end Derived

/-! ## The lines -/

/-- No path of moves leads to the representative from the initial variant. -/
def Unreached (state : S) : Prop :=
  ¬VariantPath S (StateMachine.variantName (initial (S := S))) (StateMachine.variantName state)

open Classical in
/-- The names of the representatives with a property, in order. -/
noncomputable def namesWith (property : S → Prop) : List String :=
  (stateVariants.filter fun state => decide (property state)).map StateMachine.variantName

theorem mem_namesWith {property : S → Prop} {name : String} :
    name ∈ namesWith property ↔
      ∃ state ∈ stateVariants, property state ∧ StateMachine.variantName state = name := by
  simp [namesWith, and_assoc]

theorem namesWith_congr {property property' : S → Prop}
    (same : ∀ state, property state ↔ property' state) :
    namesWith property = namesWith property' := by
  rw [show property = property' from funext fun state => propext (same state)]

/-- Picking by index is picking by what stands there. -/
theorem filter_range (p : Nat → Bool) (property : S → Prop)
    (agree : ∀ i state, (stateVariants (S := S))[i]? = some state →
      (p i = true ↔ property state)) :
    ((List.range (stateVariants (S := S)).length).filter p).map (fun i => (names S).getD i "") =
      namesWith property := by
  unfold names namesWith
  generalize stateVariants (S := S) = states at agree
  induction states generalizing p with
  | nil => rfl
  | cons state states ih =>
    have first := agree 0 state rfl
    have later := ih (p ∘ Nat.succ) fun i other here => agree (i + 1) other here
    rw [List.length_cons, List.range_succ_eq_map, List.filter_cons, List.filter_map,
      List.filter_cons]
    by_cases holds : property state
    · simp only [first.mpr holds, holds, decide_true, if_true, List.map_cons, ← later]
      simp
    · have fails : p 0 = false := Bool.eq_false_iff.mpr fun holds' => holds (first.mp holds')
      simp only [fails, holds, decide_false, Bool.false_eq_true, if_false, ← later]
      simp

/-- The lines of a report, in order. -/
theorem analyze_claims (derived : StateMachine.Derived S) (typeName : String) :
    ∃ unused producing pairs, (analyze S typeName).claims =
      reachabilityClaims (variantCount S) (StateMachine.variantName (initial (S := S)))
          (namesWith (S := S) Unreached) ++
        (namesWith (S := S) Stuck).map deadlockClaim ++
        (namesWith (S := S) Trapped).map inescapableClaim ++ deadClaims (deadLines (moves S)) ++
        unusedClaims unused ++ [coverageClaim producing pairs] := by
  obtain ⟨rows, blocked⟩ := foldl_walkState (stateVariants (S := S)) [] ⟨[], [], []⟩ rfl
  rw [List.nil_append] at rows blocked
  obtain ⟨start, first⟩ := List.mem_iff_getElem?.mp (derived.listed (initial (S := S)))
  have index := (indexOf_iff derived _ start).mpr first
  have bound : start < variantCount S := by
    simpa [names] using (List.getElem?_eq_some_iff.mp first).1
  have marked (bools : List Bool) (i : Nat) : bools.getD i false = true ↔ bools[i]? = some true := by
    rw [List.getD_eq_getElem?_getD]
    cases bools[i]? <;> simp
  -- each filter over indices is a property of the representative that stands there
  have unreached := filter_range (S := S)
    (fun i => !(reachableFrom start (rowsOf S) (variantCount S)).getD i false) Unreached (by
      intro i state here
      have name := (mem_names i _).mpr ⟨state, here, rfl⟩
      rw [Bool.not_eq_true', ← Bool.not_eq_true, marked, reachableFrom_iff bound,
        path_iff derived first name]
      rfl)
  have final (i : Nat) (state : S) (here : (stateVariants (S := S))[i]? = some state) :
      (terminalOf S).getD i false = isTerminal state := by
    simp [here]
  have row (i : Nat) (state : S) (here : (stateVariants (S := S))[i]? = some state) :
      ((rowsOf S).getD i []).isEmpty = true ↔
        ∀ v, ¬VariantEdge S (StateMachine.variantName state) v := by
    rw [← rowOf_eq_nil_iff derived here, List.isEmpty_iff]
    simp [here]
  have stuck := filter_range (S := S)
    (fun i => !(terminalOf S).getD i false &&
      ((rowsOf S).getD i []).isEmpty) Stuck (by
      intro i state here
      rw [Bool.and_eq_true, row i state here, final i state here, Bool.not_eq_true']
      rfl)
  have trapped := filter_range (S := S)
    (fun i => !(terminalOf S).getD i false &&
      !(reachesTerminal (rowsOf S) (terminalOf S) (variantCount S)).getD i false &&
        !((rowsOf S).getD i []).isEmpty) Trapped (by
      intro i state here
      rw [Bool.and_eq_true, Bool.and_eq_true, Bool.not_eq_true', Bool.not_eq_true',
        Bool.not_eq_true', final i state here, ← Bool.not_eq_true (List.isEmpty _),
        row i state here, ← Bool.not_eq_true (List.getD _ _ _), marked, reaches_iff derived here]
      unfold Trapped
      simp only [Classical.not_forall, Classical.not_not, not_exists, not_and]
      exact ⟨fun ⟨⟨last, caught⟩, out⟩ => ⟨last, out, caught⟩,
        fun ⟨last, out, caught⟩ => ⟨⟨last, caught⟩, out⟩⟩)
  refine ⟨((eventVariants (E := Event S)).map EventKind.variantName).filter fun name =>
      !((stateVariants (S := S)).foldl walkState ([], ⟨[], [], []⟩)).2.usedEvent.contains name,
    ((rowsOf S).map List.length).foldl (· + ·) 0,
    saturatingMul (variantCount S) (eventVariants (E := Event S)).length, ?_⟩
  simp only [analyze, rows, blocked, index]
  rw [← unreached, ← stuck, ← trapped]
  rfl

theorem ne_nil_iff {α : Type} {xs : List α} : xs ≠ [] ↔ ∃ x, x ∈ xs :=
  ⟨List.exists_mem_of_ne_nil xs, fun ⟨_, listed⟩ => List.ne_nil_of_mem listed⟩

theorem namesWith_ne_nil {property : S → Prop} :
    namesWith property ≠ [] ↔ ∃ state ∈ stateVariants, property state := by
  simp only [ne_nil_iff, mem_namesWith]
  constructor
  · rintro ⟨name, state, known, holds, _⟩
    exact ⟨state, known, holds⟩
  · rintro ⟨state, known, holds⟩
    exact ⟨_, state, known, holds, rfl⟩

theorem any_reachabilityClaims (n : Nat) (initialName : String) (unreachable : List String) :
    (reachabilityClaims n initialName unreachable).any Claim.isError = true ↔ unreachable ≠ [] := by
  cases unreachable with
  | nil => simp [reachabilityClaims, allReachableClaim, proven]
  | cons name names => simp [reachabilityClaims, unreachableClaim, proven]

theorem any_deadClaims (lines : List String) :
    (deadClaims lines).any Claim.isError = true ↔ lines ≠ [] := by
  cases lines with
  | nil => simp [deadClaims, proven]
  | cons line lines => simp [deadClaims, proven]

theorem any_errorClaims {lineOf : String → Claim} (error : ∀ name, (lineOf name).isError = true)
    (names : List String) : (names.map lineOf).any Claim.isError = true ↔ names ≠ [] := by
  cases names with
  | nil => simp
  | cons name names => simp [error]

theorem unusedClaims_isError {unused : List String} {claim : Claim}
    (listed : claim ∈ unusedClaims unused) : claim.isError = false := by
  unfold unusedClaims at listed
  cases unused with
  | nil => cases listed
  | cons name names =>
    obtain rfl := List.mem_singleton.mp listed
    rfl

end Ironstate.Analysis
