import Ironstate.Aggregate.Syn
import Ironstate.Core.Machine
import Ironstate.Core.Versioned

/-!
# `#[derive(StateMachine)]` and `#[derive(Event)]`

`ironstate-derive`: `common.rs`, `statemachine.rs` and `event.rs`. A derive runs at compile time and
leaves an impl behind, whose patterns and expressions are the tokens it emits; `Pattern.covers` and
`Expr.eval` are what the compiler makes of them in an enum. Attributes come as `syn` has read them:
an option whose value `syn` refuses is `malformed`, with its message. Generics, spans and the parsing
of a float are left out.
-/

namespace Ironstate.Derive

/-! ## Enums -/

/-- A field: its type, and the `Default` of that type. -/
structure Field where
  Ty : Type
  default : Ty

/-- `syn::Fields`. -/
inductive Fields where
  | unit
  | unnamed (fields : List Field)
  | named (fields : List (String × Field))

/-- How a variant is written, whatever its fields. -/
inductive Shape where
  | unit
  | unnamed
  | named
  deriving DecidableEq

namespace Fields

def shape : Fields → Shape
  | .unit => .unit
  | .unnamed _ => .unnamed
  | .named _ => .named

def list : Fields → List Field
  | .unit => []
  | .unnamed fields => fields
  | .named fields => fields.map Prod.snd

end Fields

/-- `syn::Variant`. -/
structure Variant (Attr : Type) where
  ident : String
  attrs : List Attr
  fields : Fields

/-- The data of a variant. -/
def Tuple : List Field → Type
  | [] => Unit
  | field :: fields => field.Ty × Tuple fields

/-- `Default::default()` for each field. -/
def defaults : (fields : List Field) → Tuple fields
  | [] => ()
  | field :: fields => (field.default, defaults fields)

/-- The values of an enum. -/
def Value {Attr : Type} (variants : List (Variant Attr)) : Type :=
  (i : Fin variants.length) × Tuple (variants.get i).fields.list

section Common

variable {Attr : Type}

/-- The variant of a value. -/
def Value.variant {variants : List (Variant Attr)} (value : Value variants) : Variant Attr :=
  variants.get value.1

/-- `Self::name`, `Self::name(..)` or `Self::name { .. }`, as a pattern. -/
structure Pattern where
  name : String
  shape : Shape

/-- The same with `Default::default()` for each field, as an expression. -/
structure Expr where
  name : String
  shape : Shape

/-- `wildcard_pattern`. -/
def wildcardPattern (variant : Variant Attr) : Pattern := ⟨variant.ident, variant.fields.shape⟩

/-- `representative`. -/
def representative (variant : Variant Attr) : Expr := ⟨variant.ident, variant.fields.shape⟩

/-- The pattern matches the values of a variant. -/
def Pattern.covers (pattern : Pattern) (variant : Variant Attr) : Bool :=
  variant.ident == pattern.name && variant.fields.shape == pattern.shape

/-- The value of an expression, where the enum has the variant. -/
def Expr.eval (variants : List (Variant Attr)) (expr : Expr) : Option (Value variants) :=
  ((List.finRange variants.length).find? fun i =>
    (variants.get i).ident == expr.name && (variants.get i).fields.shape == expr.shape).map
      fun i => ⟨i, defaults _⟩

/-- `match self`: the first arm whose pattern matches. -/
def armOf {variants : List (Variant Attr)} {β : Type} (arms : List (Pattern × β))
    (value : Value variants) : Option β :=
  (arms.find? fun arm => arm.1.covers value.variant).map Prod.snd

/-- The arms of `variant_name`. -/
def nameArms (variants : List (Variant Attr)) : List (Pattern × String) :=
  variants.map fun v => (wildcardPattern v, v.ident)

/-- One arm for each variant that carries kinds. -/
def kindArms (variants : List (Variant Attr)) (kinds : Variant Attr → Option (List String)) :
    List (Pattern × List Kind) :=
  variants.filterMap fun v => (kinds v).map fun labels => (wildcardPattern v, labels.map Kind.mk)

end Common

/-! ## `#[derive(StateMachine)]` -/

/-- An option inside `state_machine(..)`. -/
inductive StateMachineOption (Ty : Type) where
  | initial (ident : String)
  | terminal (idents : List String)
  | version (version : Nat)
  | history (paths : List Ty)
  | mermaidDocs
  | other
  | malformed (message : String)

/-- An option inside `only_accepts(..)`; a single label is a list of one. -/
inductive OnlyAcceptsOption where
  | kind (labels : List String)
  | other
  | malformed (message : String)

/-- What `syn` answers where the options in parentheses are missing. -/
def noArguments (path : String) {Opt : Type} : Meta Opt → Except String (List Opt)
  | .path => .error ("expected attribute arguments in parentheses: #[" ++ path ++ "(...)]")
  | .nameValue => .error ("expected parentheses: #[" ++ path ++ "(...)]")
  | .list options => .ok options

/-- What the loop of `parse_config` leaves in its variables. -/
structure Parsed (Ty : Type) where
  initial : Option String
  terminal : List String
  version : Option Nat
  history : List Ty
  seen : Bool

section StateMachine

variable {Ty : Type}

/-- The closure of `parse_config`. -/
def parseOption (parsed : Parsed Ty) : StateMachineOption Ty → Except String (Parsed Ty)
  | .initial ident => .ok { parsed with initial := some ident }
  | .terminal idents => .ok { parsed with terminal := idents }
  | .version version => .ok { parsed with version := some version }
  | .history paths => .ok { parsed with history := paths }
  | .mermaidDocs => .ok parsed
  | .other =>
    .error ("unknown `state_machine` option; expected initial, terminal, version, " ++
      "or history")
  | .malformed message => .error message

/-- One turn of the loop of `parse_config`. -/
def parseAttr (parsed : Parsed Ty) (attr : Attribute (StateMachineOption Ty)) :
    Except String (Parsed Ty) :=
  if attr.path != "state_machine" then .ok parsed
  else do
    let options ← noArguments "state_machine" attr.meta
    options.foldlM parseOption { parsed with seen := true }

/-- `parse_config`. -/
def parseConfig (attrs : List (Attribute (StateMachineOption Ty))) :
    Except String (StateMachine.Config Ty) := do
  let parsed ← attrs.foldlM parseAttr ⟨none, [], none, [], false⟩
  match parsed.initial with
  | none =>
    .error ("missing `initial` state.\n" ++
      "Every machine needs exactly one initial state.\n" ++
      "Add `#[state_machine(initial = SomeVariant, terminal = [..])]`.")
  | some initial =>
    if !parsed.seen then
      .error ("missing `#[state_machine(...)]` attribute.\n" ++
        "StateMachine needs to know the initial and terminal states.\n" ++
        "Add `#[state_machine(initial = …, terminal = [..])]`.")
    else if parsed.terminal.isEmpty then
      .error ("missing `terminal` states.\n" ++
        "A machine needs at least one terminal state so analysis can check " ++
        "every state can finish.\n" ++
        "Add `terminal = [SomeVariant]` to the `state_machine` attribute.")
    else .ok ⟨initial, parsed.terminal, parsed.version, parsed.history⟩

/-- The closure of `only_accepts_kinds`. -/
def parseKind (_ : List String) : OnlyAcceptsOption → Except String (List String)
  | .kind labels => .ok labels
  | .other => .error "expected `kind = \"…\"` or `kind = [\"…\", \"…\"]`"
  | .malformed message => .error message

/-- `only_accepts_kinds`: an attribute that does not parse is passed over. -/
def onlyAcceptsKinds : List (Attribute OnlyAcceptsOption) → Option (List String)
  | [] => none
  | attr :: attrs =>
    if attr.path != "only_accepts" then onlyAcceptsKinds attrs
    else
      let parsed := do
        let options ← noArguments "only_accepts" attr.meta
        options.foldlM parseKind []
      match parsed with
      | .ok kinds => if kinds.isEmpty then onlyAcceptsKinds attrs else some kinds
      | .error _ => onlyAcceptsKinds attrs

/-- A variant of a state enum. -/
abbrev StateVariant := Variant (Attribute OnlyAcceptsOption)

/-- The kinds a variant restricts events to. -/
def StateVariant.kinds (variant : StateVariant) : Option (List String) :=
  onlyAcceptsKinds variant.attrs

/-- The `impl StateMachine` that the derive emits: `is_terminal` ends in `_ => false`, `restriction`
in `_ => None`. -/
structure StateMachineImpl where
  initial : Expr
  terminalPats : List Pattern
  restrictionArms : List (Pattern × List Kind)
  variantNameArms : List (Pattern × String)
  stateVariants : List Expr

/-- `syn::Data`. -/
inductive Data (Attr : Type) where
  | «enum» (variants : List (Variant Attr))
  | other

/-- What is emitted for `variants.iter().find(|v| v.ident == name).expect(message)`. -/
def emitFor (message : String) {Attr β : Type} (variants : List (Variant Attr))
    (emit : Variant Attr → β) (name : String) : Except String β :=
  match variants.find? fun v => v.ident == name with
  | some variant => .ok (emit variant)
  | none => .error message

/-- `derive` of `statemachine.rs`, for the type `name`. -/
def deriveStateMachine (name : Ty) (attrs : List (Attribute (StateMachineOption Ty))) :
    Data (Attribute OnlyAcceptsOption) →
      Except String (StateMachineImpl × Option (RestoreImpl Ty))
  | .other =>
    .error ("StateMachine can only be derived for enums.\n" ++
      "A state machine's states are enum variants.\n" ++
      "Define your states as `enum \x7b … \x7d` and derive StateMachine on it.")
  | .enum variants => do
    let config ← parseConfig attrs
    -- `validate` comes first in what emits the `Versioned` impl
    let versioned ← StateMachine.derive name config (variants.map Variant.ident)
    let initialExpr ← emitFor "validated to exist" variants representative config.initial
    let terminalPats ← config.terminal.mapM (emitFor "validated" variants wildcardPattern)
    .ok (⟨initialExpr, terminalPats, kindArms variants StateVariant.kinds, nameArms variants,
      variants.map representative⟩, versioned)

end StateMachine

/-! ## `#[derive(Event)]` -/

/-- The value of an attribute, as far as the derive reads it. -/
inductive Lit where
  | str (value : String)
  | int (value : Nat)
  | float (literal : String)
  | other

/-- `syn::Expr`: a literal, an array, or anything else. -/
inductive AttrExpr where
  | lit (value : Lit)
  | array (elems : List Lit)
  | other

/-- An attribute of an event variant: its path, and `Meta` with the value it gives. -/
structure EventAttr where
  path : String
  «meta» : Meta Unit
  value : AttrExpr

/-- `require_name_value`. -/
def EventAttr.requireNameValue (attr : EventAttr) : Except String AttrExpr :=
  match attr.meta with
  | .path => .error ("expected a value for this attribute: `" ++ attr.path ++ " = ...`")
  | .list _ => .error "expected `=`"
  | .nameValue => .ok attr.value

/-- One entry of a list of kinds. -/
def listEntry : Lit → Except String String
  | .str label => .ok label
  | _ => .error "event_kind list entries must be string literals"

/-- `event_kinds`. -/
def eventKinds : List EventAttr → Except String (Option (List String))
  | [] => .ok none
  | attr :: attrs =>
    if attr.path != "event_kind" then eventKinds attrs
    else do
      match ← attr.requireNameValue with
      | .lit (.str label) => .ok (some [label])
      | .array elems => do
        let kinds ← elems.mapM listEntry
        .ok (some kinds)
      | _ =>
        .error ("event_kind must be a string or a list of strings, e.g. " ++
          "#[event_kind = \"external\"] or #[event_kind = [\"external\", \"operator\"]]")

/-- A weight, as it is written; those of the labels in hundredths. -/
inductive Weight where
  | hundredths (value : Nat)
  | int (value : Nat)
  | float (literal : String)

/-- `label_weight`. -/
def labelWeight (label : String) : Except String Weight :=
  match label with
  | "almost_always" => .ok (.hundredths 85)
  | "common" => .ok (.hundredths 60)
  | "moderate" => .ok (.hundredths 35)
  | "uncommon" => .ok (.hundredths 15)
  | "rare" => .ok (.hundredths 5)
  | "exceptional" => .ok (.hundredths 1)
  | other =>
    .error ("`" ++ other ++ "` is not a known likelihood label.\n" ++
      "Expected one of: almost_always, common, moderate, uncommon, rare, " ++
      "exceptional.\n" ++
      "Or give a number directly, e.g. #[likelihood = 0.6].")

/-- `likelihood`. -/
def likelihood : List EventAttr → Except String Weight
  | [] => .ok (.hundredths 35)
  | attr :: attrs =>
    if attr.path != "likelihood" then likelihood attrs
    else do
      match ← attr.requireNameValue with
      | .lit (.str label) => labelWeight label
      | .lit (.float literal) => .ok (.float literal)
      | .lit (.int value) =>
        if value < 2 ^ 32 then .ok (.int value)
        else .error "number too large to fit in target type"
      | _ =>
        .error ("likelihood must be a qualitative label or a number, e.g. " ++
          "#[likelihood = \"common\"] or #[likelihood = 0.6]")

/-- A variant of an event enum. -/
abbrev EventVariant := Variant EventAttr

/-- The arm of `kinds` for a variant, if it has one. -/
def kindArm (variant : EventVariant) : Except String (Option (Pattern × List Kind)) := do
  match ← eventKinds variant.attrs with
  | some labels => .ok (some (wildcardPattern variant, labels.map Kind.mk))
  | none => .ok none

/-- The arm of `likelihood` for a variant. -/
def weightArm (variant : EventVariant) : Except String (Pattern × Weight) := do
  let weight ← likelihood variant.attrs
  .ok (wildcardPattern variant, weight)

/-- The `impl EventKind` that the derive emits: `kinds` ends in `_ => None`. -/
structure EventImpl where
  kindArms : List (Pattern × List Kind)
  variantNameArms : List (Pattern × String)
  weightArms : List (Pattern × Weight)
  eventVariants : List Expr

/-- `derive` of `event.rs`. -/
def deriveEvent : Data EventAttr → Except String EventImpl
  | .other =>
    .error ("Event can only be derived for enums.\n" ++
      "Events are the inputs that drive a machine's transitions.\n" ++
      "Define them as `enum \x7b … \x7d` and derive Event on it.")
  | .enum variants => do
    let arms ← variants.mapM kindArm
    let weights ← variants.mapM weightArm
    .ok ⟨arms.filterMap id, nameArms variants, weights, variants.map representative⟩

/-! ## What the compiler makes of it -/

/-- An `impl StateMachine` that compiles for an enum: its expressions have values, and its
`match` of the names leaves no value out. -/
structure CompiledMachine (states : List StateVariant) (impl : StateMachineImpl) where
  initial : Value states
  variantName : Value states → String
  stateVariants : List (Value states)
  initial_eval : impl.initial.eval states = some initial
  name_arm : ∀ state, armOf impl.variantNameArms state = some (variantName state)
  states_eval : impl.stateVariants.map (Expr.eval states) = stateVariants.map some

/-- An `impl EventKind` that compiles for an enum. -/
structure CompiledEvent (events : List EventVariant) (impl : EventImpl) where
  variantName : Value events → String
  eventVariants : List (Value events)
  name_arm : ∀ event, armOf impl.variantNameArms event = some (variantName event)
  events_eval : impl.eventVariants.map (Expr.eval events) = eventVariants.map some

section Compiled

variable {states : List StateVariant} {events : List EventVariant} {impl : StateMachineImpl}
variable {eventImpl : EventImpl}

@[reducible] def CompiledEvent.eventKind (compiled : CompiledEvent events eventImpl) :
    EventKind (Value events) where
  kinds event := armOf eventImpl.kindArms event
  variantName := compiled.variantName
  eventVariants := compiled.eventVariants

/-- The derived machine, with the transition function its author writes. -/
@[reducible] def CompiledMachine.stateMachine [BEq (Value states)]
    (compiled : CompiledMachine states impl) (kinds : CompiledEvent events eventImpl)
    (transition : Value states → Value events → Option (Value states)) :
    StateMachine (Value states) where
  Event := Value events
  eventKind := kinds.eventKind
  transition := transition
  initial := compiled.initial
  isTerminal state := impl.terminalPats.any fun pat => pat.covers state.variant
  restriction state := armOf impl.restrictionArms state
  stateVariants := compiled.stateVariants
  variantName := compiled.variantName

end Compiled

end Ironstate.Derive
