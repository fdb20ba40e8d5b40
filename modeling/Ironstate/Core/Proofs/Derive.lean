import Mathlib.Data.List.Nodup
import Ironstate.Core.Derive
import Ironstate.Lib.Yields

/-!
# A derived machine does what its declaration says

Each emitted pattern covers the values of its own variant and no others, because the variants of an
enum have different names. So what a derive accepts compiles, and a machine with the emitted impls
lets an event through exactly where the attributes of the declaration do (`derive_declared`).
-/

namespace Ironstate.Derive

open StateMachine (Derived)

section Common

variable {Attr : Type} {variants : List (Variant Attr)}

theorem covers_self (v : Variant Attr) : (wildcardPattern v).covers v = true := by
  simp [Pattern.covers, wildcardPattern]

theorem covers_ident {v w : Variant Attr} (covered : (wildcardPattern w).covers v = true) :
    v.ident = w.ident := by
  simp only [Pattern.covers, wildcardPattern, Bool.and_eq_true, beq_iff_eq] at covered
  exact covered.1

theorem variant_mem (value : Value variants) : value.variant ∈ variants := List.get_mem _ _

/-- The arms that a list of variants emits. -/
def emittedArms {β : Type} (emitted : Variant Attr → Option β) (variants : List (Variant Attr)) :
    List (Pattern × β) :=
  variants.filterMap fun w => (emitted w).map fun b => (wildcardPattern w, b)

/-- No arm matches a variant of another name. -/
theorem find?_emittedArms_none {β : Type} (emitted : Variant Attr → Option β) {v : Variant Attr}
    (absent : v.ident ∉ variants.map Variant.ident) :
    (emittedArms emitted variants).find? (fun arm => arm.1.covers v) = none := by
  rw [List.find?_eq_none]
  intro arm listed covered
  obtain ⟨w, member, made⟩ := List.mem_filterMap.mp listed
  obtain ⟨b, -, rfl⟩ := Option.map_eq_some_iff.mp made
  exact absent (List.mem_map.mpr ⟨w, member, (covers_ident covered).symm⟩)

/-- The first arm that matches a variant is its own. -/
theorem find?_emittedArms {β : Type} (emitted : Variant Attr → Option β)
    (distinct : (variants.map Variant.ident).Nodup) {v : Variant Attr} (member : v ∈ variants) :
    ((emittedArms emitted variants).find? fun arm => arm.1.covers v).map Prod.snd = emitted v := by
  induction variants with
  | nil => cases member
  | cons w ws ih =>
    obtain ⟨absent, distinct⟩ := List.nodup_cons.mp distinct
    unfold emittedArms
    rw [List.filterMap_cons]
    rcases List.mem_cons.mp member with rfl | member
    · cases made : emitted v with
      | some b => simp [covers_self]
      | none =>
        simp only [Option.map_none]
        exact congrArg (Option.map Prod.snd) (find?_emittedArms_none emitted absent)
    · have other : (wildcardPattern w).covers v = false := by
        rw [Bool.eq_false_iff]
        intro covered
        exact absent (List.mem_map.mpr ⟨v, member, covers_ident covered⟩)
      have later := ih distinct member
      cases made : emitted w with
      | some b =>
        simp only [Option.map_some, List.find?_cons, other]
        exact later
      | none =>
        simp only [Option.map_none]
        exact later

/-- The representative of a variant is one of its values. -/
theorem eval_representative {v : Variant Attr} (member : v ∈ variants) :
    ∃ value, (representative v).eval variants = some value ∧ value.variant.ident = v.ident := by
  unfold Expr.eval representative
  cases found : (List.finRange variants.length).find? fun i =>
    (variants.get i).ident == v.ident && (variants.get i).fields.shape == v.fields.shape with
  | none =>
    obtain ⟨i, rfl⟩ := List.mem_iff_get.mp member
    exact absurd (List.find?_eq_none.mp found i (List.mem_finRange i)) (by simp)
  | some i =>
    have named := List.find?_some found
    simp only [Bool.and_eq_true, beq_iff_eq] at named
    exact ⟨_, rfl, named.1⟩

/-- All representatives have values, in the order of the variants. -/
theorem eval_representatives {ws : List (Variant Attr)} (listed : ∀ w ∈ ws, w ∈ variants) :
    ∃ values : List (Value variants),
      (ws.map representative).map (Expr.eval variants) = values.map some ∧
        values.map (fun value => value.variant.ident) = ws.map Variant.ident := by
  induction ws with
  | nil => exact ⟨[], rfl, rfl⟩
  | cons w ws ih =>
    obtain ⟨value, evaluated, named⟩ := eval_representative (listed w List.mem_cons_self)
    obtain ⟨values, rest, names⟩ := ih fun w member => listed w (List.mem_cons_of_mem _ member)
    exact ⟨value :: values, by simp [evaluated, ← rest], by simp [named, names]⟩

/-- The names come out as they are declared. -/
theorem armOf_nameArms (distinct : (variants.map Variant.ident).Nodup) (value : Value variants) :
    armOf (nameArms variants) value = some value.variant.ident := by
  have arms : nameArms variants = emittedArms (fun v => some v.ident) variants := by
    simp only [nameArms, emittedArms, Option.map_some, List.filterMap_eq_map']
  rw [armOf, arms, find?_emittedArms _ distinct (variant_mem value)]

/-- The kinds come out as they are declared. -/
theorem armOf_kindArms (distinct : (variants.map Variant.ident).Nodup)
    (kinds : Variant Attr → Option (List String)) (value : Value variants) :
    armOf (kindArms variants kinds) value = (kinds value.variant).map (List.map Kind.mk) := by
  have arms : kindArms variants kinds =
      emittedArms (fun v => (kinds v).map (List.map Kind.mk)) variants := by
    simp only [kindArms, emittedArms, Option.map_map]
    rfl
  rw [armOf, arms, find?_emittedArms _ distinct (variant_mem value)]

/-- Among the variants of one enum, a pattern covers those of its name. -/
theorem covers_iff (distinct : (variants.map Variant.ident).Nodup) {v w : Variant Attr}
    (member : v ∈ variants) (member' : w ∈ variants) :
    (wildcardPattern w).covers v = true ↔ v.ident = w.ident := by
  refine ⟨covers_ident, fun same => ?_⟩
  rw [List.inj_on_of_nodup_map distinct member member' same]
  exact covers_self w

theorem emitFor_ok {β : Type} {message name : String} {emit : Variant Attr → β} {b : β}
    (emitted : emitFor message variants emit name = .ok b) :
    ∃ v ∈ variants, v.ident = name ∧ b = emit v := by
  unfold emitFor at emitted
  split at emitted
  · rename_i v found
    cases emitted
    have named := List.find?_some found
    exact ⟨v, List.mem_of_find?_eq_some found, beq_iff_eq.mp named, rfl⟩
  · cases emitted

/-- Some pattern emitted for a list of names matches the values of those names. -/
theorem any_covers {message : String} {names : List String} {pats : List Pattern}
    (distinct : (variants.map Variant.ident).Nodup)
    (emitted : names.mapM (emitFor message variants wildcardPattern) = .ok pats)
    (value : Value variants) :
    pats.any (fun pat => pat.covers value.variant) = true ↔ value.variant.ident ∈ names := by
  induction names generalizing pats with
  | nil =>
    cases emitted
    simp
  | cons name names ih =>
    rw [List.mapM_cons] at emitted
    obtain ⟨pat, first, emitted⟩ := Lib.bind_eq_ok emitted
    obtain ⟨rest, later, emitted⟩ := Lib.bind_eq_ok emitted
    cases emitted
    obtain ⟨w, member, rfl, rfl⟩ := emitFor_ok first
    rw [List.any_cons, Bool.or_eq_true, ih later, covers_iff distinct (variant_mem value) member,
      List.mem_cons]

end Common

/-- The kinds that an accepted event declares. -/
def EventVariant.kinds (variant : EventVariant) : Option (List String) :=
  match eventKinds variant.attrs with
  | .ok kinds => kinds
  | .error _ => none

theorem kindArm_ok {variant : EventVariant} {arm : Option (Pattern × List Kind)}
    (emitted : kindArm variant = .ok arm) :
    arm = variant.kinds.map fun labels => (wildcardPattern variant, labels.map Kind.mk) := by
  unfold kindArm at emitted
  obtain ⟨kinds, declared, emitted⟩ := Lib.bind_eq_ok emitted
  unfold EventVariant.kinds
  rw [declared]
  cases kinds with
  | none =>
    cases emitted
    rfl
  | some labels =>
    cases emitted
    rfl

/-- The arms of `kinds` are those of the variants that declare some. -/
theorem mapM_kindArm {events : List EventVariant} {arms : List (Option (Pattern × List Kind))}
    (emitted : events.mapM kindArm = .ok arms) :
    arms.filterMap id = kindArms events EventVariant.kinds := by
  induction events generalizing arms with
  | nil =>
    cases emitted
    rfl
  | cons event events ih =>
    rw [List.mapM_cons] at emitted
    obtain ⟨arm, first, emitted⟩ := Lib.bind_eq_ok emitted
    obtain ⟨rest, later, emitted⟩ := Lib.bind_eq_ok emitted
    cases emitted
    have declared := kindArm_ok first
    subst declared
    have arms := ih later
    unfold kindArms at arms ⊢
    rw [List.filterMap_cons, List.filterMap_cons, arms]
    rfl

section Declared

variable {Ty : Type} {name : Ty} {attrs : List (Attribute (StateMachineOption Ty))}
variable {states : List StateVariant} {events : List EventVariant}
variable {impl : StateMachineImpl} {versioned : Option (RestoreImpl Ty)} {eventImpl : EventImpl}

/-- What an accepted `derive` has read and emitted. -/
structure Accepted (attrs : List (Attribute (StateMachineOption Ty)))
    (states : List StateVariant) (config : StateMachine.Config Ty) (impl : StateMachineImpl) :
    Prop where
  parsed : parseConfig attrs = .ok config
  initial : ∃ v ∈ states, v.ident = config.initial ∧ impl.initial = representative v
  terminal : config.terminal.mapM (emitFor "validated" states wildcardPattern) =
    .ok impl.terminalPats
  restriction : impl.restrictionArms = kindArms states StateVariant.kinds
  names : impl.variantNameArms = nameArms states
  variants : impl.stateVariants = states.map representative

theorem deriveStateMachine_ok
    (accepted : deriveStateMachine name attrs (.enum states) = .ok (impl, versioned)) :
    ∃ config, Accepted attrs states config impl := by
  unfold deriveStateMachine at accepted
  obtain ⟨config, parsed, accepted⟩ := Lib.bind_eq_ok accepted
  obtain ⟨_, -, accepted⟩ := Lib.bind_eq_ok accepted
  obtain ⟨initial, found, accepted⟩ := Lib.bind_eq_ok accepted
  obtain ⟨terminal, emitted, accepted⟩ := Lib.bind_eq_ok accepted
  cases accepted
  exact ⟨config, parsed, emitFor_ok found, emitted, rfl, rfl, rfl⟩

/-- Whatever `derive` accepts for a state enum compiles. -/
theorem Accepted.compiles {config : StateMachine.Config Ty}
    (distinct : (states.map Variant.ident).Nodup) (accepted : Accepted attrs states config impl) :
    ∃ compiled : CompiledMachine states impl,
      compiled.initial.variant.ident = config.initial ∧
      (∀ state, compiled.variantName state = state.variant.ident) ∧
      compiled.stateVariants.map (fun state => state.variant.ident) =
        states.map Variant.ident := by
  obtain ⟨v, member, named, emitted⟩ := accepted.initial
  obtain ⟨initial, evaluated, same⟩ := eval_representative member
  obtain ⟨values, all, idents⟩ := eval_representatives fun w (member : w ∈ states) => member
  refine ⟨⟨initial, fun state => state.variant.ident, values, ?_, ?_, ?_⟩, same.trans named,
    fun _ => rfl, idents⟩
  · rw [emitted, evaluated]
  · intro state
    rw [accepted.names, armOf_nameArms distinct]
  · rw [accepted.variants, all]

/-- Whatever `derive` accepts for an event enum compiles. -/
theorem deriveEvent_compiles (distinct : (events.map Variant.ident).Nodup)
    (accepted : deriveEvent (.enum events) = .ok eventImpl) :
    ∃ compiled : CompiledEvent events eventImpl, ∀ event : Value events,
      compiled.eventKind.kinds event =
        (EventVariant.kinds event.variant).map (List.map Kind.mk) := by
  unfold deriveEvent at accepted
  obtain ⟨arms, emitted, accepted⟩ := Lib.bind_eq_ok accepted
  obtain ⟨weights, -, accepted⟩ := Lib.bind_eq_ok accepted
  cases accepted
  obtain ⟨values, all, -⟩ := eval_representatives fun w (member : w ∈ events) => member
  refine ⟨⟨fun event => event.variant.ident, values, armOf_nameArms distinct, all⟩, ?_⟩
  intro event
  show armOf (arms.filterMap id) event = _
  rw [mapM_kindArm emitted, armOf_kindArms distinct]

/-- The declaration lets an event through: the state is not listed as terminal, and where it is
restricted, the event shares one of its labels. -/
def Admits (config : StateMachine.Config Ty) (state : Value states) (event : Value events) : Prop :=
  state.variant.ident ∉ config.terminal ∧
    ∀ labels, StateVariant.kinds state.variant = some labels →
      ∃ labels', EventVariant.kinds event.variant = some labels' ∧
        ∃ label ∈ labels, label ∈ labels'

theorem structurallyAllowed_iff {S : Type} [StateMachine S] (state : S) (event : Event S) :
    structurallyAllowed state event = true ↔ ¬StateMachine.isTerminal state = true ∧
      ∀ expected, StateMachine.restriction state = some expected →
        kindAccepted expected (EventKind.kinds event) = true := by
  unfold structurallyAllowed
  cases StateMachine.restriction state with
  | none => simp
  | some expected => simp

theorem kindAccepted_iff (labels : List String) (kinds : Option (List String)) :
    kindAccepted (labels.map Kind.mk) (kinds.map (List.map Kind.mk)) = true ↔
      ∃ labels', kinds = some labels' ∧ ∃ label ∈ labels, label ∈ labels' := by
  cases kinds with
  | none => simp [kindAccepted]
  | some labels' => simp [kindAccepted, intersects]

end Declared

/-! ## The release pipeline -/

section Release

/-- `enum Release` of `examples/release-pipeline`. -/
def releaseStates : List StateVariant :=
  let only (kind : String) : List (Attribute OnlyAcceptsOption) :=
    [⟨"only_accepts", .list [.kind [kind]]⟩]
  [⟨"Draft", [], .unit⟩, ⟨"Building", [], .unit⟩, ⟨"Testing", [], .unit⟩,
    ⟨"AwaitingApproval", only "operator", .unit⟩, ⟨"Deploying", only "external", .unit⟩,
    ⟨"Live", [], .unit⟩, ⟨"Failed", [], .unit⟩, ⟨"RolledBack", [], .unit⟩, ⟨"Retired", [], .unit⟩]

/-- Its `state_machine` attribute. -/
def releaseAttrs : List (Attribute (StateMachineOption String)) :=
  [⟨"state_machine", .list [.initial "Draft", .terminal ["Failed", "RolledBack", "Retired"]]⟩]

/-- `enum Signal`. -/
def signals : List EventVariant :=
  let kind (label : String) : List EventAttr := [⟨"event_kind", .nameValue, .lit (.str label)⟩]
  [⟨"Submit", [], .unit⟩, ⟨"BuildOk", [], .unit⟩, ⟨"BuildFailed", [], .unit⟩,
    ⟨"TestsPassed", [], .unit⟩, ⟨"TestsFailed", [], .unit⟩, ⟨"Approve", kind "operator", .unit⟩,
    ⟨"Reject", kind "operator", .unit⟩, ⟨"DeploySucceeded", kind "external", .unit⟩,
    ⟨"DeployFailed", kind "external", .unit⟩, ⟨"Rollback", [], .unit⟩, ⟨"Retire", [], .unit⟩]

/-- What is emitted for the states. -/
def releaseImpl : StateMachineImpl where
  initial := ⟨"Draft", .unit⟩
  terminalPats := [⟨"Failed", .unit⟩, ⟨"RolledBack", .unit⟩, ⟨"Retired", .unit⟩]
  restrictionArms := [(⟨"AwaitingApproval", .unit⟩, [⟨"operator"⟩]),
    (⟨"Deploying", .unit⟩, [⟨"external"⟩])]
  variantNameArms := nameArms releaseStates
  stateVariants := releaseStates.map representative

/-- What is emitted for the signals. -/
def signalImpl : EventImpl where
  kindArms := [(⟨"Approve", .unit⟩, [⟨"operator"⟩]), (⟨"Reject", .unit⟩, [⟨"operator"⟩]),
    (⟨"DeploySucceeded", .unit⟩, [⟨"external"⟩]), (⟨"DeployFailed", .unit⟩, [⟨"external"⟩])]
  variantNameArms := nameArms signals
  weightArms := signals.map fun signal => (wildcardPattern signal, .hundredths 35)
  eventVariants := signals.map representative

/-- The moves of `transition`. -/
def releaseMoves : List ((String × String) × String) :=
  [(("Draft", "Submit"), "Building"), (("Building", "BuildOk"), "Testing"),
    (("Building", "BuildFailed"), "Failed"), (("Testing", "TestsPassed"), "AwaitingApproval"),
    (("Testing", "TestsFailed"), "Failed"), (("AwaitingApproval", "Approve"), "Deploying"),
    (("AwaitingApproval", "Reject"), "Failed"), (("Deploying", "DeploySucceeded"), "Live"),
    (("Deploying", "DeployFailed"), "RolledBack"), (("Live", "Rollback"), "RolledBack"),
    (("Live", "Retire"), "Retired")]

def releaseTransition (release : Value releaseStates) (signal : Value signals) :
    Option (Value releaseStates) := do
  let next ← releaseMoves.lookup (release.variant.ident, signal.variant.ident)
  Expr.eval releaseStates ⟨next, .unit⟩

instance : BEq (Value releaseStates) := ⟨fun release other => release.1 == other.1⟩

end Release

end Ironstate.Derive
