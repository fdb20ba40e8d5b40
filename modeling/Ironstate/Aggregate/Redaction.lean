import Ironstate.Aggregate.Syn
import Ironstate.Core.BTreeMap

/-!
# Redaction

`redaction.rs`, and the `Redact` derive (`ironstate-aggregate-derive/redact.rs`). A trait with
an associated type is a class with a field for it, and `clone` is the identity. The derive
decides on a rule for each field (`classify`, `Redact.derive`); the compiler then needs the impl that
the rule calls (`resolve`; of `OwnerRedact` the two impls of `redaction.rs`). What is left of
an accepted struct is the list of its fields with those impls, and its states and views are
tuples over that list.
-/

namespace Ironstate

/-- `trait Conceal`: what non-owners see of an owned value. -/
class Conceal (T : Type) where
  Concealed : Type
  conceal : T → Concealed

export Conceal (Concealed conceal)

/-- `trait OwnerRedact<P>`. -/
class OwnerRedact (P T : Type) where
  View : Type
  redactFor : T → P → View

/-- `trait View<P>`. -/
class View (P S : Type) where
  Output : Type
  viewFor : S → P → Output

/-! ## The containers -/

/-- `struct PerPrincipal`. -/
structure PerPrincipal (P T : Type) [Ord P] where
  entries : BTreeMap P T

/-- `struct PerPrincipalView`. -/
@[ext] structure PerPrincipalView (P T : Type) [Ord P] [Conceal T] where
  mine : Option T
  others : BTreeMap P (Concealed T)

/-- `struct Owned`. -/
structure Owned (P T : Type) where
  owner : P
  value : T

/-- `enum OwnedView`. -/
inductive OwnedView (T : Type) [Conceal T] where
  | mine (value : T)
  | concealed (residue : Concealed T)

section Containers

variable {P T : Type} [Ord P] [Std.TransOrd P] [BEq P] [Conceal T]

namespace PerPrincipal

omit [BEq P] [Conceal T] in
/-- `PerPrincipal::get`. -/
def get (store : PerPrincipal P T) (principal : P) : Option T := store.entries[principal]?

omit [BEq P] [Conceal T] in
/-- `PerPrincipal::insert`, without the value it returns. -/
def insert (store : PerPrincipal P T) (principal : P) (value : T) : PerPrincipal P T :=
  ⟨store.entries.insert principal value⟩

/-- The residues of all entries, collected into a map. -/
def residues (store : PerPrincipal P T) : BTreeMap P (Concealed T) :=
  (store.entries.toList.map fun entry => (entry.1, conceal entry.2)).foldl
    (fun collected entry => collected.insert entry.1 entry.2) ∅

/-- One turn of the loop of `redact_for`. -/
def redactEntry (viewer : P) (seen : Option T × BTreeMap P (Concealed T)) (entry : P × T) :
    Option T × BTreeMap P (Concealed T) :=
  if entry.1 == viewer then (some entry.2, seen.2)
  else (seen.1, seen.2.insert entry.1 (conceal entry.2))

end PerPrincipal

instance : Conceal (PerPrincipal P T) where
  Concealed := BTreeMap P (Concealed T)
  conceal store := store.residues

instance : OwnerRedact P (PerPrincipal P T) where
  View := PerPrincipalView P T
  redactFor store viewer :=
    let (mine, others) := store.entries.toList.foldl (PerPrincipal.redactEntry viewer) (none, ∅)
    ⟨mine, others⟩

instance : OwnerRedact P (Owned P T) where
  View := OwnedView T
  redactFor owned viewer :=
    if owned.owner == viewer then .mine owned.value else .concealed (conceal owned.value)

instance : Conceal (Owned P T) where
  Concealed := Concealed T
  conceal owned := conceal owned.value

end Containers

/-! ## The derive -/

/-- `enum Visibility`. -/
inductive Visibility where
  | «public»
  | hiddenOwner
  | hiddenConceal
  | hiddenAll
  deriving DecidableEq

/-- One option inside `hidden(..)`. -/
inductive HiddenOption where
  | conceal
  | «from» (value : String)
  | other

/-- One option inside `redact(..)`. -/
inductive RedactOption where
  | principal (T : Type)
  | other

/-- The options of one `redact(..)`, in order: the last principal counts. -/
def parsePrincipalOptions (principal : Option Type) :
    List RedactOption → Except String (Option Type)
  | [] => .ok principal
  | .principal T :: options => parsePrincipalOptions (some T) options
  | .other :: _ => .error "unknown `redact` option; expected `principal = SomeType`"

/-- The loop of `parse_principal`; `syn` refuses a `redact` without a list. -/
def parsePrincipalFrom (principal : Option Type) :
    List (Attribute RedactOption) → Except String (Option Type)
  | [] => .ok principal
  | attr :: attrs =>
    if attr.path != "redact" then parsePrincipalFrom principal attrs
    else
      match attr.meta with
      | .path => .error "expected attribute arguments in parentheses: #[redact(...)]"
      | .nameValue => .error "expected parentheses: #[redact(...)]"
      | .list options =>
        match parsePrincipalOptions principal options with
        | .error message => .error message
        | .ok principal => parsePrincipalFrom principal attrs

/-- `parse_principal`. -/
def parsePrincipal (attrs : List (Attribute RedactOption)) : Except String Type :=
  match parsePrincipalFrom none attrs with
  | .error message => .error message
  | .ok (some principal) => .ok principal
  | .ok none =>
    .error ("missing principal.\n" ++
      "Redaction needs to know who the viewers are.\n" ++
      "Add `#[redact(principal = YourPrincipalType)]` above the struct.")

/-- The options of one `hidden(..)`, in order: the last one found counts. -/
def parseOptions (found : Option Visibility) : List HiddenOption →
    Except String (Option Visibility)
  | [] => .ok found
  | .conceal :: options => parseOptions (some .hiddenConceal) options
  | .from value :: options =>
    if value == "all" then parseOptions (some .hiddenAll) options
    else .error "expected `from = all`"
  | .other :: _ =>
    .error ("unknown `hidden` form; expected `#[hidden]`, " ++
      "`#[hidden(conceal)]`, or `#[hidden(from = all)]`")

/-- The loop of `classify`: the last `hidden` attribute counts. -/
def classifyFrom (visibility : Visibility) :
    List (Attribute HiddenOption) → Except String Visibility
  | [] => .ok visibility
  | attr :: attrs =>
    if attr.path != "hidden" then classifyFrom visibility attrs
    else
      match attr.meta with
      | .path => classifyFrom .hiddenOwner attrs
      | .list options =>
        match parseOptions none options with
        | .error message => .error message
        | .ok none =>
          .error ("empty `hidden(...)`; use `#[hidden]`, `#[hidden(conceal)]`, " ++
            "or `#[hidden(from = all)]`")
        | .ok (some found) => classifyFrom found attrs
      | .nameValue =>
        .error ("`hidden` does not take a value; use `#[hidden]`, " ++
          "`#[hidden(conceal)]`, or `#[hidden(from = all)]`")

/-- `classify`. -/
def classify (attrs : List (Attribute HiddenOption)) : Except String Visibility :=
  classifyFrom .public attrs

/-- The type of a field, by the impls a rule may call on it; the stores are keyed by the
principal of the derive. -/
inductive FieldTy where
  | plain (T : Type)
  | concealing (T : Type) (impl : Conceal T)
  | perPrincipal (T : Type) (impl : Conceal T)
  | owned (T : Type) (impl : Conceal T)

/-- A named field, as declared. -/
structure FieldDecl where
  ident : String
  attrs : List (Attribute HiddenOption)
  ty : FieldTy

/-- `syn::Data`, and the fields of a struct. -/
inductive Data where
  | named (fields : List FieldDecl)
  | unnamed
  | notStruct

/-- `syn::DeriveInput`. -/
structure DeriveInput where
  attrs : List (Attribute RedactOption)
  data : Data

/-- The rules for the fields, in order, up to the first attribute that is refused. -/
def classifyFields : List FieldDecl → Except String (List (Visibility × FieldTy))
  | [] => .ok []
  | field :: fields =>
    match classify field.attrs with
    | .error message => .error message
    | .ok visibility =>
      match classifyFields fields with
      | .error message => .error message
      | .ok rules => .ok ((visibility, field.ty) :: rules)

/-- `derive`: the principal, and a rule for each field. -/
def Redact.derive (input : DeriveInput) : Except String (Type × List (Visibility × FieldTy)) :=
  match parsePrincipal input.attrs with
  | .error message => .error message
  | .ok principal =>
    match input.data with
    | .notStruct =>
      .error ("Redact can only be derived for structs.\n" ++
        "Redaction is field-level: each field is public, hidden, or concealed.\n" ++
        "Use a struct with named fields.")
    | .unnamed =>
      .error ("Redact needs named fields.\n" ++
        "Each field's visibility is declared by an attribute on the named field.\n" ++
        "Convert the tuple/unit struct to one with named fields.")
    | .named fields =>
      match classifyFields fields with
      | .error message => .error message
      | .ok rules => .ok (principal, rules)

/-- A field under its rule, with the impl the rule calls. -/
inductive Field where
  | «public» (T : Type)
  | hiddenPerPrincipal (T : Type) (impl : Conceal T)
  | hiddenOwned (T : Type) (impl : Conceal T)
  | hiddenConceal (T : Type) (impl : Conceal T)
  | hiddenAll (T : Type)

section Derive

variable (P : Type) [Ord P]

/-- The values of a field, as its type has them. -/
def FieldTy.Val : FieldTy → Type
  | .plain T => T
  | .concealing T _ => T
  | .perPrincipal T _ => PerPrincipal P T
  | .owned T _ => Owned P T

/-- The values of a field. -/
def Field.Val : Field → Type
  | .public T => T
  | .hiddenPerPrincipal T _ => PerPrincipal P T
  | .hiddenOwned T _ => Owned P T
  | .hiddenConceal T _ => T
  | .hiddenAll T => T

/-- The values of a struct, field by field. -/
def StateOf : List Field → Type
  | [] => Unit
  | field :: fields => field.Val P × StateOf fields

variable [Std.TransOrd P] [BEq P]

/-- The impl a rule calls, if the type has it: the compiler refuses the view where it does
not. -/
def resolve : Visibility × FieldTy → Option Field
  | (.public, ty) => some (.public (ty.Val P))
  | (.hiddenOwner, .perPrincipal T impl) => some (.hiddenPerPrincipal T impl)
  | (.hiddenOwner, .owned T impl) => some (.hiddenOwned T impl)
  | (.hiddenOwner, _) => none
  | (.hiddenConceal, .plain _) => none
  | (.hiddenConceal, .concealing T impl) => some (.hiddenConceal T impl)
  | (.hiddenConceal, .perPrincipal T _) => some (.hiddenConceal (PerPrincipal P T) inferInstance)
  | (.hiddenConceal, .owned T _) => some (.hiddenConceal (Owned P T) inferInstance)
  | (.hiddenAll, ty) => some (.hiddenAll (ty.Val P))

/-- A struct whose derive is accepted and whose view compiles. -/
structure Redacted where
  input : DeriveInput
  rules : List (Visibility × FieldTy)
  fields : List Field
  accepted : Redact.derive input = .ok (P, rules)
  compiles : rules.map (resolve P) = fields.map some

/-- The generated view type: a field that is hidden from all has no counterpart. -/
def ViewOf : List Field → Type
  | [] => Unit
  | .public T :: fields => T × ViewOf fields
  | .hiddenPerPrincipal T _ :: fields => OwnerRedact.View P (PerPrincipal P T) × ViewOf fields
  | .hiddenOwned T _ :: fields => OwnerRedact.View P (Owned P T) × ViewOf fields
  | .hiddenConceal T _ :: fields => Concealed T × ViewOf fields
  | .hiddenAll _ :: fields => ViewOf fields

variable {P}

/-- The generated `view_for`. -/
def viewFor (viewer : P) : (fields : List Field) → StateOf P fields → ViewOf P fields
  | [], _ => ()
  | .public _ :: fields, (value, rest) => (value, viewFor viewer fields rest)
  | .hiddenPerPrincipal T _ :: fields, (value, rest) =>
    (OwnerRedact.redactFor (T := PerPrincipal P T) value viewer, viewFor viewer fields rest)
  | .hiddenOwned T _ :: fields, (value, rest) =>
    (OwnerRedact.redactFor (T := Owned P T) value viewer, viewFor viewer fields rest)
  | .hiddenConceal T _ :: fields, (value, rest) =>
    (conceal (T := T) value, viewFor viewer fields rest)
  | .hiddenAll _ :: fields, (_, rest) => viewFor viewer fields rest

instance (fields : List Field) : View P (StateOf P fields) where
  Output := ViewOf P fields
  viewFor state viewer := viewFor viewer fields state

end Derive

end Ironstate
