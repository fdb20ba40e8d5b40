import Ironstate.Core.Proofs.Report

/-!
# Lines labelled proven

Each line of a report about a state can be told from all others by its text, so that finding it
is a fact about the graph (`mem_unreachable_iff` and its siblings). The graph has the moves of
the representatives, whose data is `Default::default()`. On a run whose moves are moves of the
graph the lines are true (`proven_lines_follow`); on other runs they need not be
(`proven_lines_fail`).
-/

namespace Ironstate

open StateMachine (stateVariants isTerminal initial)
open Analysis

namespace Analysis

variable {S : Type} [StateMachine S]

/-! ## Finding a line -/

/-- The first and the last character of a line. -/
def Claim.ends (claim : Claim) : Option Char × Option Char :=
  (claim.message.toList.head?, claim.message.toList.getLast?)

theorem unreachableClaim_ends (name : String) :
    (unreachableClaim name).ends = (some 's', some 'e') := by
  simp [Claim.ends, unreachableClaim, proven, List.getLast?_cons]

theorem deadlockClaim_ends (name : String) :
    (deadlockClaim name).ends = (some 's', some 's') := by
  simp [Claim.ends, deadlockClaim, proven, List.getLast?_cons]

theorem inescapableClaim_ends (name : String) :
    (inescapableClaim name).ends = (some 's', some ')') := by
  simp [Claim.ends, inescapableClaim, proven, List.getLast?_cons]

theorem allReachableClaim_start (n : Nat) (name : String) :
    (allReachableClaim n name).ends.1 = some 'a' := by
  simp [Claim.ends, allReachableClaim, proven]

theorem deadLine_start (state : S) (event : Event S) (target : S) :
    (proven true (deadLine state event target)).ends.1 = some 't' := by
  unfold deadLine
  extract_lets why
  -- whatever the reason given, the line starts with "transition"
  generalize why = why
  simp [Claim.ends, proven]

theorem deadClaims_start {steps : List (S × Event S × S)} {claim : Claim}
    (listed : claim ∈ deadClaims (deadLines steps)) :
    claim.ends.1 = some 'n' ∨ claim.ends.1 = some 't' := by
  unfold deadClaims at listed
  split at listed
  · obtain rfl := List.mem_singleton.mp listed
    exact .inl rfl
  · obtain ⟨line, named, rfl⟩ := List.mem_map.mp listed
    obtain ⟨step, _, rfl⟩ := List.mem_map.mp named
    exact .inr (deadLine_start _ _ _)

theorem unusedClaims_start {unused : List String} {claim : Claim}
    (listed : claim ∈ unusedClaims unused) : claim.ends.1 = some 'u' := by
  unfold unusedClaims at listed
  split at listed
  · cases listed
  · obtain rfl := List.mem_singleton.mp listed
    simp [Claim.ends, proven]

theorem coverageClaim_start (producing pairs : Nat) :
    (coverageClaim producing pairs).ends.1 = some 'c' := by
  simp [Claim.ends, coverageClaim]

theorem unreachableClaim_inj {name other : String}
    (same : unreachableClaim name = unreachableClaim other) : name = other := by
  simpa [unreachableClaim, proven] using same

theorem deadlockClaim_inj {name other : String}
    (same : deadlockClaim name = deadlockClaim other) : name = other := by
  simpa [deadlockClaim, proven] using same

theorem inescapableClaim_inj {name other : String}
    (same : inescapableClaim name = inescapableClaim other) : name = other := by
  simpa [inescapableClaim, proven] using same

section Derived

variable (derived : StateMachine.Derived S) (typeName : String)

include derived

/-- The lines about a state are those of three groups. -/
theorem mem_state_line {claim : Claim} (start : claim.ends.1 = some 's') :
    claim ∈ (analyze S typeName).claims ↔
      (∃ name ∈ namesWith (S := S) Unreached, unreachableClaim name = claim) ∨
        (∃ name ∈ namesWith (S := S) Stuck, deadlockClaim name = claim) ∨
        ∃ name ∈ namesWith (S := S) Trapped, inescapableClaim name = claim := by
  obtain ⟨unused, producing, pairs, lines⟩ := analyze_claims derived typeName
  have reachability (unreachable : List String) :
      claim ∈ reachabilityClaims (variantCount S) (StateMachine.variantName (initial (S := S)))
          unreachable ↔ ∃ name ∈ unreachable, unreachableClaim name = claim := by
    unfold reachabilityClaims
    cases unreachable with
    | nil =>
      have other : claim ≠ allReachableClaim (variantCount S)
          (StateMachine.variantName (initial (S := S))) := by
        rintro rfl
        rw [allReachableClaim_start] at start
        cases start
      simp [other]
    | cons name names => exact List.mem_map
  have blocked : claim ∉ deadClaims (deadLines (moves S)) := by
    intro listed
    rcases deadClaims_start listed with other | other <;> simp [start] at other
  have unused_events : claim ∉ unusedClaims unused := by
    intro listed
    simp [unusedClaims_start listed] at start
  have coverage : claim ≠ coverageClaim producing pairs := by
    rintro rfl
    simp [coverageClaim_start] at start
  rw [lines]
  simp [reachability, blocked, unused_events, coverage]

theorem mem_unreachable_iff (name : String) :
    unreachableClaim name ∈ (analyze S typeName).claims ↔
      ∃ state ∈ stateVariants (S := S), Unreached state ∧
        StateMachine.variantName state = name := by
  have ends := unreachableClaim_ends name
  rw [mem_state_line derived typeName (congrArg Prod.fst ends), ← mem_namesWith]
  constructor
  · rintro (⟨other, listed, same⟩ | ⟨other, _, same⟩ | ⟨other, _, same⟩)
    · exact unreachableClaim_inj same ▸ listed
    · simp [← same, deadlockClaim_ends] at ends
    · simp [← same, inescapableClaim_ends] at ends
  · intro listed
    exact .inl ⟨name, listed, rfl⟩

theorem mem_deadlock_iff (name : String) :
    deadlockClaim name ∈ (analyze S typeName).claims ↔
      ∃ state ∈ stateVariants (S := S), Stuck state ∧ StateMachine.variantName state = name := by
  have ends := deadlockClaim_ends name
  rw [mem_state_line derived typeName (congrArg Prod.fst ends), ← mem_namesWith]
  constructor
  · rintro (⟨other, _, same⟩ | ⟨other, listed, same⟩ | ⟨other, _, same⟩)
    · simp [← same, unreachableClaim_ends] at ends
    · exact deadlockClaim_inj same ▸ listed
    · simp [← same, inescapableClaim_ends] at ends
  · intro listed
    exact .inr (.inl ⟨name, listed, rfl⟩)

theorem mem_inescapable_iff (name : String) :
    inescapableClaim name ∈ (analyze S typeName).claims ↔
      ∃ state ∈ stateVariants (S := S), Trapped state ∧
        StateMachine.variantName state = name := by
  have ends := inescapableClaim_ends name
  rw [mem_state_line derived typeName (congrArg Prod.fst ends), ← mem_namesWith]
  constructor
  · rintro (⟨other, _, same⟩ | ⟨other, _, same⟩ | ⟨other, listed, same⟩)
    · simp [← same, unreachableClaim_ends] at ends
    · simp [← same, deadlockClaim_ends] at ends
    · exact inescapableClaim_inj same ▸ listed
  · intro listed
    exact .inr (.inr ⟨name, listed, rfl⟩)

theorem mem_allReachable_iff :
    allReachableClaim (variantCount S) (StateMachine.variantName (initial (S := S))) ∈
        (analyze S typeName).claims ↔
      ∀ state ∈ stateVariants (S := S), VariantPath S
        (StateMachine.variantName (initial (S := S))) (StateMachine.variantName state) := by
  obtain ⟨unused, producing, pairs, lines⟩ := analyze_claims derived typeName
  constructor
  · intro listed state known
    refine Classical.byContradiction fun unreached => ?_
    have start := allReachableClaim_start (variantCount S)
      (StateMachine.variantName (initial (S := S)))
    generalize allReachableClaim (variantCount S)
      (StateMachine.variantName (initial (S := S))) = claim at listed start
    have some_unreached : namesWith (S := S) Unreached ≠ [] :=
      namesWith_ne_nil.mpr ⟨state, known, unreached⟩
    have lines_of : reachabilityClaims (variantCount S)
        (StateMachine.variantName (initial (S := S))) (namesWith (S := S) Unreached) =
          (namesWith (S := S) Unreached).map unreachableClaim := by
      simp [reachabilityClaims, some_unreached]
    rw [lines, lines_of] at listed
    simp only [List.mem_append, List.mem_map, List.mem_singleton] at listed
    rcases listed with ((((⟨name, _, rfl⟩ | ⟨name, _, rfl⟩) | ⟨name, _, rfl⟩) | blocked) | unused) | rfl
    · simp [unreachableClaim_ends] at start
    · simp [deadlockClaim_ends] at start
    · simp [inescapableClaim_ends] at start
    · rcases deadClaims_start blocked with other | other <;> simp [start] at other
    · simp [unusedClaims_start unused] at start
    · simp [coverageClaim_start] at start
  · intro reached
    have none_unreached : namesWith (S := S) Unreached = [] := by
      refine Classical.byContradiction fun some_unreached => ?_
      obtain ⟨state, known, unreached⟩ := namesWith_ne_nil.mp some_unreached
      exact unreached (reached state known)
    rw [lines, none_unreached]
    simp [reachabilityClaims]

end Derived

end Analysis

/-! ## What the lines say -/

section Runs

variable {S : Type} [StateMachine S]

/-- The lines of a report that speak of all runs are true of the admitted ones. -/
structure RunLines (admits : Machine S → List (Event S) → Prop) (report : Report) : Prop where
  unreachable : ∀ name, unreachableClaim name ∈ report.claims →
    ∀ events, admits (Machine.new S) events →
      StateMachine.variantName ((Machine.new S).applyAll events).state ≠ name
  deadlock : ∀ name, deadlockClaim name ∈ report.claims →
    ∀ before events, StateMachine.variantName ((Machine.new S).applyAll before).state = name →
      admits ((Machine.new S).applyAll before) events →
        StateMachine.variantName ((Machine.new S).applyAll (before ++ events)).state = name
  inescapable : ∀ name, inescapableClaim name ∈ report.claims →
    ∀ before events, StateMachine.variantName ((Machine.new S).applyAll before).state = name →
      admits ((Machine.new S).applyAll before) events →
        isTerminal ((Machine.new S).applyAll (before ++ events)).state = false

variable (S) in
/-- The line that all variants are reachable is true. -/
def EnteredLine (report : Report) : Prop :=
  allReachableClaim (variantCount S) (StateMachine.variantName (initial (S := S))) ∈
      report.claims →
    ∀ state ∈ stateVariants (S := S), ∃ events,
      StateMachine.variantName ((Machine.new S).applyAll events).state =
        StateMachine.variantName state

theorem VariantPath.stuck {state : S} (stuck : Stuck state) {v : String}
    (path : VariantPath S (StateMachine.variantName state) v) :
    v = StateMachine.variantName state := by
  rcases Relation.ReflTransGen.cases_head path with same | ⟨w, edge, _⟩
  · exact same.symm
  · exact absurd edge (stuck.2 w)

/-- On runs that only make moves of the graph, the lines labelled proven are true; and all
variants are entered where each move of the graph can be made from some value that its variant
takes in a run. -/
theorem proven_lines_follow (derived : StateMachine.Derived S) (typeName : String) :
    RunLines (S := S) Machine.Follows (analyze S typeName) ∧
      ((Machine.new S).Realises → EnteredLine S (analyze S typeName)) := by
  refine ⟨⟨?_, ?_, ?_⟩, ?_⟩
  · rintro name line events follows rfl
    obtain ⟨state, _, unreached, same⟩ := (mem_unreachable_iff derived typeName _).mp line
    exact unreached (same ▸ follows.path)
  · rintro name line before events rfl follows
    obtain ⟨state, _, stuck, same⟩ := (mem_deadlock_iff derived typeName _).mp line
    rw [Machine.applyAll_append, ← same]
    exact VariantPath.stuck stuck (same ▸ follows.path)
  · rintro name line before events rfl follows
    obtain ⟨state, _, trapped, same⟩ := (mem_inescapable_iff derived typeName _).mp line
    have path := follows.path
    rw [Machine.applyAll_append]
    generalize (((Machine.new S).applyAll before).applyAll events).state = final at path ⊢
    obtain ⟨t, known, name⟩ := List.mem_map.mp (derived.listed final)
    refine Bool.eq_false_iff.mpr fun last => trapped.2.2 t known ?_ ?_
    · exact (derived.terminal t final name).trans last
    · exact same ▸ name ▸ path
  · intro realises line state known
    exact realises.entered ((mem_allReachable_iff derived typeName).mp line state known)

end Runs

/-! ## A cart that carries its item count -/

namespace Fixture

/-- `enum Cart`: `Shopping` carries the running item count. -/
inductive Cart where
  | shopping (items : UInt32)
  | closed
  deriving DecidableEq

/-- `enum CartEvent`. -/
inductive CartEvent where
  | add
  | checkout

instance : EventKind CartEvent where
  kinds _ := none
  variantName
    | .add => "Add"
    | .checkout => "Checkout"
  eventVariants := [.add, .checkout]

/-- An empty cart is not checked out. The representative of `Shopping` has
`items: Default::default()`, which is an empty cart. -/
instance : StateMachine Cart where
  Event := CartEvent
  transition
    | .shopping items, .add => some (.shopping (items + 1))
    | .shopping items, .checkout => if items = 0 then none else some .closed
    | .closed, _ => none
  initial := .shopping 0
  isTerminal
    | .closed => true
    | .shopping _ => false
  restriction _ := none
  stateVariants := [.shopping 0, .closed]
  variantName
    | .shopping _ => "Shopping"
    | .closed => "Closed"

theorem Cart.derived : StateMachine.Derived Cart where
  distinct := by decide
  listed state := by
    cases state with
    | shopping items => exact (by decide : "Shopping" ∈ ["Shopping", "Closed"])
    | closed => exact (by decide : "Closed" ∈ ["Shopping", "Closed"])
  terminal s t same := by
    cases s with
    | shopping items =>
      cases t with
      | shopping items => rfl
      | closed => exact absurd same (by decide : "Shopping" ≠ "Closed")
    | closed =>
      cases t with
      | shopping items => exact absurd same (by decide : "Closed" ≠ "Shopping")
      | closed => rfl

/-- No representative leaves its variant. -/
theorem Cart.variantEdge {u v : String} (edge : VariantEdge Cart u v) : u = v := by
  obtain ⟨state, known, rfl, event, _, _, target, defined, rfl⟩ := edge
  cases state with
  | closed => cases event <;> cases defined
  | shopping items =>
    cases event with
    | add =>
      cases defined
      rfl
    | checkout =>
      have empty : items = 0 := by
        rcases List.mem_cons.mp known with same | same
        · exact Cart.shopping.inj same
        · cases List.mem_singleton.mp same
      subst empty
      cases defined

theorem Cart.variantPath {u v : String} (path : VariantPath Cart u v) : u = v := by
  induction path with
  | refl => rfl
  | tail _ edge ih => exact ih.trans (Cart.variantEdge edge)

theorem Cart.closed_unreachable :
    unreachableClaim "Closed" ∈ (analyze Cart "Cart").claims := by
  rw [mem_unreachable_iff Cart.derived]
  refine ⟨.closed, by decide, ?_, rfl⟩
  intro path
  exact absurd (Cart.variantPath path) (by decide)

/-- The cart of the guide, capped at fifty items. -/
inductive CappedCart where
  | empty
  | shopping (items : UInt32)
  | checkedOut
  deriving DecidableEq

instance : StateMachine CappedCart where
  Event := CartEvent
  transition
    | .empty, .add => some (.shopping 1)
    | .shopping items, .add => if items < 50 then some (.shopping (items + 1)) else none
    | .shopping _, .checkout => some .checkedOut
    | _, _ => none
  initial := .empty
  isTerminal
    | .checkedOut => true
    | _ => false
  restriction _ := none
  stateVariants := [.empty, .shopping 0, .checkedOut]
  variantName
    | .empty => "Empty"
    | .shopping _ => "Shopping"
    | .checkedOut => "CheckedOut"

theorem CappedCart.derived : StateMachine.Derived CappedCart where
  distinct := by decide
  listed state := by
    cases state with
    | empty => exact (by decide : "Empty" ∈ ["Empty", "Shopping", "CheckedOut"])
    | shopping items => exact (by decide : "Shopping" ∈ ["Empty", "Shopping", "CheckedOut"])
    | checkedOut => exact (by decide : "CheckedOut" ∈ ["Empty", "Shopping", "CheckedOut"])
  terminal s t same := by
    cases s <;> cases t <;> first | rfl | exact absurd same (of_decide_eq_false rfl)

/-- A full cart takes no more items, a cart of one item does. -/
theorem CappedCart.realises : (Machine.new CappedCart).Realises := by
  rintro u v _ ⟨state, _, rfl, event, _, _, target, defined, rfl⟩
  cases state with
  | empty =>
    cases event with
    | add =>
      cases defined
      exact ⟨[], CartEvent.add, .shopping 1, rfl, rfl, rfl⟩
    | checkout => cases defined
  | shopping items =>
    cases event with
    | add =>
      refine ⟨[CartEvent.add], CartEvent.add, .shopping 2, rfl, rfl, ?_⟩
      obtain ⟨_, moved⟩ := Option.ite_none_right_eq_some.mp defined
      cases moved
      rfl
    | checkout =>
      cases defined
      exact ⟨[CartEvent.add], CartEvent.checkout, .checkedOut, rfl, rfl, rfl⟩
  | checkedOut => cases event <;> cases defined

/-- The report of the capped cart has the line that all its variants are reachable. -/
theorem CappedCart.allReachable :
    allReachableClaim (variantCount CappedCart)
        (StateMachine.variantName (initial (S := CappedCart))) ∈
      (analyze CappedCart "Cart").claims := by
  have shops : VariantEdge CappedCart "Empty" "Shopping" :=
    ⟨.empty, by decide, rfl, CartEvent.add, .head _, rfl, .shopping 1, rfl, rfl⟩
  have pays : VariantEdge CappedCart "Shopping" "CheckedOut" :=
    ⟨.shopping 0, by decide, rfl, CartEvent.checkout, .tail _ (.head _), rfl, .checkedOut, rfl, rfl⟩
  refine (mem_allReachable_iff CappedCart.derived "Cart").mpr fun state _ => ?_
  cases state with
  | empty => exact .refl
  | shopping items => exact .single shops
  | checkedOut => exact .head shops (.single pays)

end Fixture

open Fixture

/-- Two items may be added to the cart, and it is still not closed; and the capped cart enters
each of its variants. -/
theorem proven_lines_follow_carts :
    StateMachine.variantName ((Machine.new Cart).applyAll [CartEvent.add, CartEvent.add]).state ≠
        "Closed" ∧
      ∀ state ∈ stateVariants (S := CappedCart), ∃ events,
        StateMachine.variantName ((Machine.new CappedCart).applyAll events).state =
          StateMachine.variantName state := by
  refine ⟨?_, (proven_lines_follow CappedCart.derived "Cart").2 CappedCart.realises
    CappedCart.allReachable⟩
  refine (proven_lines_follow Cart.derived "Cart").1.unreachable "Closed"
    Cart.closed_unreachable _ ⟨?_, ?_, trivial⟩
  · intro next moved
    cases moved
    exact ⟨.shopping 0, by decide, rfl, CartEvent.add, .head _, rfl, _, rfl, rfl⟩
  · intro next moved
    cases moved
    exact ⟨.shopping 0, by decide, rfl, CartEvent.add, .head _, rfl, _, rfl, rfl⟩

/-- A cart with an item in it is checked out, although its report has the line that `Closed` is
unreachable. -/
theorem proven_lines_fail :
    ¬(RunLines (S := Cart) (fun _ _ => True) (analyze Cart "Cart") ∧
      EnteredLine Cart (analyze Cart "Cart")) := by
  rintro ⟨⟨unreachable, _, _⟩, _⟩
  exact unreachable "Closed" Cart.closed_unreachable [CartEvent.add, CartEvent.checkout] trivial
    rfl

end Ironstate
