import Ironstate.Aggregate.StableHash

/-!
# The type scan of `derive(StableHash)`

`check_type` and `forbidden` of `stablehash.rs`, and the derive with the scan in it. The scan reads
a type as it is written; which type the compiler then takes it for (a name may be an alias, or a
type of one's own) is said beside it.
-/

namespace Ironstate.StableHash

mutual

/-- `syn::Type`. Of a path only the last segment has its arguments read. -/
inductive SynType where
  | path (leading : List String) (ident : String) (arguments : PathArguments)
  | reference (elem : SynType)
  | slice (elem : SynType)
  | array (elem : SynType)
  | paren (elem : SynType)
  | group (elem : SynType)
  | tuple (elems : List SynType)
  | other

/-- `syn::PathArguments`. -/
inductive PathArguments where
  | none
  | angleBracketed (args : List GenericArgument)
  | parenthesized

/-- `syn::GenericArgument`. -/
inductive GenericArgument where
  | type (inner : SynType)
  | other

end

/-- `syn::Error`: what it spans, where that is a type and not the whole input, and the message. -/
structure SynError where
  spanned : Option SynType
  message : String

/-- `forbidden`. -/
def forbidden (ident : String) : Option String :=
  if ident = "f32" ∨ ident = "f64" then
    some ("floats cannot appear in stable-hashed state.\n" ++
      "Floating-point results are not identical across platforms and optimization " ++
      "levels, so a digest would not be reproducible.\n" ++
      "Use an integer or fixed-point representation, or mark the field " ++
      "`#[stable_hash(skip)]` if it is not part of the value's identity.")
  else if ident = "HashMap" ∨ ident = "HashSet" then
    some ("HashMap/HashSet cannot appear in stable-hashed state.\n" ++
      "Their iteration order is randomized, so two equal maps could encode " ++
      "differently.\n" ++
      "Use BTreeMap/BTreeSet (ordered) or PerPrincipal, or mark the field " ++
      "`#[stable_hash(skip)]`.")
  else if ident = "Instant" ∨ ident = "SystemTime" then
    some ("wall-clock values cannot be stable-hashed.\n" ++
      "They are not state and not deterministic; time must enter as data.\n" ++
      "Use LogicalTime, or mark the field `#[stable_hash(skip)]`.")
  else none

mutual

/-- `check_type`. -/
def checkType : SynType → Except SynError Unit
  | .path leading ident arguments =>
    match forbidden ident with
    | some message => .error ⟨some (.path leading ident arguments), message⟩
    | none => checkArguments arguments
  | .reference elem => checkType elem
  | .slice elem => checkType elem
  | .array elem => checkType elem
  | .paren elem => checkType elem
  | .group elem => checkType elem
  | .tuple elems => checkElems elems
  | .other => .ok ()

def checkArguments : PathArguments → Except SynError Unit
  | .none => .ok ()
  | .angleBracketed args => checkArgs args
  | .parenthesized => .ok ()

/-- The loop over the arguments of a path. -/
def checkArgs : List GenericArgument → Except SynError Unit
  | [] => .ok ()
  | arg :: args => do
    checkArg arg
    checkArgs args

def checkArg : GenericArgument → Except SynError Unit
  | .type inner => checkType inner
  | .other => .ok ()

/-- The loop over the elements of a tuple. -/
def checkElems : List SynType → Except SynError Unit
  | [] => .ok ()
  | elem :: elems => do
    checkType elem
    checkElems elems

end

/-- `Vec<f32>`, of `tests/ui/float_in_vec.rs`. -/
example : (checkType (.path [] "Vec" (.angleBracketed [.type (.path [] "f32" .none)]))).toOption =
    none := by decide

/-! ## The derive -/

/-- A field, with its type as it is written. -/
structure WrittenField : Type 1 where
  decl : FieldDecl
  written : SynType

/-- `syn::Data`, with the types as they are written. -/
inductive WrittenData : Type 1 where
  | struct (fields : List WrittenField)
  | enum (variants : List (List WrittenField))
  | union

/-- The declaration that the compiler sees. -/
def WrittenData.decl : WrittenData → Data
  | .struct fields => .struct (fields.map WrittenField.decl)
  | .enum variants => .enum (variants.map fun fields => fields.map WrittenField.decl)
  | .union => .union

/-- `check_type(..)?`, and what follows. -/
def checked {α : Type 1} : Except SynError Unit → Except SynError α → Except SynError α
  | .error error, _ => .error error
  | .ok _, rest => rest

/-- The loop of `struct_body` over the fields, and that of `enum_body` over those of a variant. -/
def scanFields : List WrittenField → Except SynError (List Slot)
  | [] => .ok []
  | field :: fields =>
    if isSkip field.decl then do
      let slots ← scanFields fields
      .ok (.skipped field.decl.ty :: slots)
    else
      checked (checkType field.written) do
        let slots ← scanFields fields
        .ok (.encoded field.decl.ty :: slots)

/-- The loop of `enum_body` over the variants. -/
def scanVariants : List (List WrittenField) → Except SynError (List (List Slot))
  | [] => .ok []
  | fields :: variants => do
    let arm ← scanFields fields
    let arms ← scanVariants variants
    .ok (arm :: arms)

/-- `derive`, with the types it refuses. -/
def scannedDerive : WrittenData → Except SynError Body
  | .struct fields => do
    let slots ← scanFields fields
    .ok (.struct slots)
  | .enum variants => do
    let arms ← scanVariants variants
    .ok (.enum arms)
  | .union => (derive .union).mapError fun message => ⟨none, message⟩

end Ironstate.StableHash
