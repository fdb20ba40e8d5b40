/-!
# The transition traits

`kind.rs` and the traits of `machine.rs`. An associated type of a trait is a field of the
class; a `&'static [Kind]` is a list. `EventKind::likelihood`, a floating-point generation
weight that only the randomised tests read, is left out.
-/

namespace Ironstate

/-- `Kind(pub &'static str)`. -/
structure Kind where
  label : String
  deriving DecidableEq, Repr

/-- `kind::intersects`: the two kind sets share at least one label. -/
def intersects (a b : List Kind) : Bool := a.any fun x => b.contains x

/-- `trait EventKind`. -/
class EventKind (E : Type) where
  /-- The kinds the event carries, `none` for the implicit default kind. -/
  kinds : E → Option (List Kind)
  variantName : E → String
  /-- One representative value per variant. -/
  eventVariants : List E

/-- `trait TransitionRules`. -/
class TransitionRules (S : Type) where
  Event : Type
  [eventKind : EventKind Event]
  transition : S → Event → Option S

attribute [reducible, instance] TransitionRules.eventKind

/-- `trait StateMachine: TransitionRules + Clone + Debug + PartialEq`; `PartialEq` is the
`BEq` it extends. -/
class StateMachine (S : Type) extends TransitionRules S, BEq S where
  initial : S
  isTerminal : S → Bool
  /-- The kinds this state restricts incoming events to, `none` for any kind. -/
  restriction : S → Option (List Kind)
  /-- One representative value per variant. -/
  stateVariants : List S
  variantName : S → String

namespace StateMachine

/-- What the derive generates, as far as the walk over the variants relies on it: one
representative for each variant, and patterns that ignore the data a variant carries. -/
structure Derived (S : Type) [StateMachine S] : Prop where
  distinct : ((stateVariants (S := S)).map variantName).Nodup
  listed : ∀ state : S, variantName state ∈ (stateVariants (S := S)).map variantName
  terminal : ∀ s t : S, variantName s = variantName t → isTerminal s = isTerminal t

/-- A machine whose variants carry no data: the representatives are all the values there are. -/
structure PayloadFree (S : Type) [StateMachine S] : Prop where
  distinct : ((stateVariants (S := S)).map variantName).Nodup
  states : ∀ state : S, state ∈ stateVariants
  events : ∀ event : TransitionRules.Event S, event ∈ EventKind.eventVariants

end StateMachine

end Ironstate
