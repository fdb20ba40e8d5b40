import Mathlib.Data.List.Basic
import Ironstate.Aggregate.TypeScan

/-!
# What the type scan refuses

The scan meets the paths of a type in order, and stops at the first whose name is forbidden
(`checkType_eq`), so that the derive stops at the first such path of the fields it encodes
(`scannedDerive_eq`). A type with a `StableHash` impl, written out, has no such path but where a
derived type of the program is itself declared under a forbidden name (`Spells.clean_iff`).
-/

namespace Ironstate.StableHash

universe u

/-! ## The paths that are met -/

mutual

/-- The paths that the scan meets, in its order. -/
def SynType.scanned : SynType → List SynType
  | .path leading ident arguments => .path leading ident arguments :: arguments.scanned
  | .reference elem => elem.scanned
  | .slice elem => elem.scanned
  | .array elem => elem.scanned
  | .paren elem => elem.scanned
  | .group elem => elem.scanned
  | .tuple elems => scannedElems elems
  | .other => []

def PathArguments.scanned : PathArguments → List SynType
  | .none => []
  | .angleBracketed args => scannedArgs args
  | .parenthesized => []

def scannedArgs : List GenericArgument → List SynType
  | [] => []
  | arg :: args => arg.scanned ++ scannedArgs args

def GenericArgument.scanned : GenericArgument → List SynType
  | .type inner => inner.scanned
  | .other => []

def scannedElems : List SynType → List SynType
  | [] => []
  | elem :: elems => elem.scanned ++ scannedElems elems

end

/-- What the scan has against a type, its parts apart. -/
def refusal : SynType → Option SynError
  | .path leading ident arguments =>
    (forbidden ident).map fun message => ⟨some (.path leading ident arguments), message⟩
  | _ => none

/-- The first refusal, or the answer. -/
def verdict {α : Type u} (scanned : List SynType) (answer : Except SynError α) :
    Except SynError α :=
  (scanned.findSome? refusal).elim answer .error

@[simp] theorem verdict_nil {α : Type u} (answer : Except SynError α) : verdict [] answer = answer :=
  rfl

theorem verdict_append {α : Type u} (xs ys : List SynType) (answer : Except SynError α) :
    verdict (xs ++ ys) answer = verdict xs (verdict ys answer) := by
  unfold verdict
  rw [List.findSome?_append]
  cases xs.findSome? refusal <;> rfl

theorem verdict_bind {α β : Type u} (xs : List SynType) (answer : Except SynError α)
    (f : α → Except SynError β) : (verdict xs answer >>= f) = verdict xs (answer >>= f) := by
  unfold verdict
  cases xs.findSome? refusal <;> rfl

mutual

theorem checkType_eq : ∀ ty : SynType, checkType ty = verdict ty.scanned (.ok ())
  | .path leading ident arguments => by
    rw [checkType, SynType.scanned, verdict, List.findSome?_cons, refusal]
    cases refused : forbidden ident with
    | none => exact checkArguments_eq arguments
    | some message => rfl
  | .reference elem => checkType_eq elem
  | .slice elem => checkType_eq elem
  | .array elem => checkType_eq elem
  | .paren elem => checkType_eq elem
  | .group elem => checkType_eq elem
  | .tuple elems => checkElems_eq elems
  | .other => rfl

theorem checkArguments_eq :
    ∀ arguments : PathArguments, checkArguments arguments = verdict arguments.scanned (.ok ())
  | .none => rfl
  | .angleBracketed args => checkArgs_eq args
  | .parenthesized => rfl

theorem checkArgs_eq :
    ∀ args : List GenericArgument, checkArgs args = verdict (scannedArgs args) (.ok ())
  | [] => rfl
  | arg :: args => by
    rw [checkArgs, checkArg_eq arg, checkArgs_eq args, scannedArgs, verdict_append, verdict_bind]
    rfl

theorem checkArg_eq : ∀ arg : GenericArgument, checkArg arg = verdict arg.scanned (.ok ())
  | .type inner => checkType_eq inner
  | .other => rfl

theorem checkElems_eq :
    ∀ elems : List SynType, checkElems elems = verdict (scannedElems elems) (.ok ())
  | [] => rfl
  | elem :: elems => by
    rw [checkElems, checkType_eq elem, checkElems_eq elems, scannedElems, verdict_append,
      verdict_bind]
    rfl

end

theorem checked_verdict {α : Type 1} (xs : List SynType) (rest : Except SynError α) :
    checked (verdict xs (.ok ())) rest = verdict xs rest := by
  unfold verdict
  cases xs.findSome? refusal <;> rfl

/-! ## The derive -/

/-- The fields that the derive encodes, in order. -/
def WrittenData.encoded : WrittenData → List WrittenField
  | .struct fields => fields.filter fun field => !isSkip field.decl
  | .enum variants => variants.flatMap fun fields => fields.filter fun field => !isSkip field.decl
  | .union => []

/-- The paths that the scan meets in some fields. -/
def scannedIn (fields : List WrittenField) : List SynType :=
  fields.flatMap fun field => field.written.scanned

theorem scannedIn_append (xs ys : List WrittenField) :
    scannedIn (xs ++ ys) = scannedIn xs ++ scannedIn ys :=
  List.flatMap_append

theorem scanFields_eq (fields : List WrittenField) :
    scanFields fields = verdict (scannedIn (fields.filter fun field => !isSkip field.decl))
      (.ok (structBody (fields.map WrittenField.decl))) := by
  induction fields with
  | nil => rfl
  | cons field fields ih =>
    rw [scanFields, ih]
    by_cases skip : isSkip field.decl = true
    · have body : structBody ((field :: fields).map WrittenField.decl) =
          .skipped field.decl.ty :: structBody (fields.map WrittenField.decl) := by
        simp [structBody, skip]
      rw [if_pos skip, List.filter_cons_of_neg (by simp [skip]), verdict_bind, body]
      rfl
    · have body : structBody ((field :: fields).map WrittenField.decl) =
          .encoded field.decl.ty :: structBody (fields.map WrittenField.decl) := by
        simp [structBody, skip]
      have met : scannedIn (field :: fields.filter fun field => !isSkip field.decl) =
          field.written.scanned ++ scannedIn (fields.filter fun field => !isSkip field.decl) := rfl
      rw [if_neg skip, List.filter_cons_of_pos (by simp [skip]), verdict_bind, body,
        checkType_eq, checked_verdict, met, verdict_append]
      rfl

theorem scanVariants_eq (variants : List (List WrittenField)) :
    scanVariants variants = verdict (scannedIn (WrittenData.enum variants).encoded)
      (.ok (enumBody (variants.map fun fields => fields.map WrittenField.decl))) := by
  induction variants with
  | nil => rfl
  | cons fields variants ih =>
    have encoded : (WrittenData.enum (fields :: variants)).encoded =
        (fields.filter fun field => !isSkip field.decl) ++ (WrittenData.enum variants).encoded :=
      List.flatMap_cons
    rw [scanVariants, scanFields_eq, ih, verdict_bind, encoded, scannedIn_append, verdict_append]
    exact congrArg (verdict _) (verdict_bind _ _ _)

/-- The derive stops at the first refusal in the fields it encodes, and otherwise answers as it
does without the scan. -/
theorem scannedDerive_eq (data : WrittenData) :
    scannedDerive data = verdict (scannedIn data.encoded)
      ((derive data.decl).mapError fun message => ⟨none, message⟩) := by
  cases data with
  | struct fields =>
    rw [scannedDerive, scanFields_eq, verdict_bind]
    rfl
  | enum variants =>
    rw [scannedDerive, scanVariants_eq, verdict_bind]
    rfl
  | union => rfl

/-! ## Types with an impl -/

/-- The name of an integer type. -/
def IntTy.name : IntTy → String
  | .u8 => "u8"
  | .u16 => "u16"
  | .u32 => "u32"
  | .u64 => "u64"
  | .u128 => "u128"
  | .i8 => "i8"
  | .i16 => "i16"
  | .i32 => "i32"
  | .i64 => "i64"
  | .i128 => "i128"

/-- A declaration of the program, applied to types; to none, unless it is generic. -/
structure Applied where
  ident : String
  arguments : List Ty

section Spelling

variable (declared : String → Applied)

/-- The types with an impl that are paths, by name. A derived type goes by the name it is declared
under, whichever instance of the declaration it is. -/
inductive Named : String → Ty → Prop where
  | int (ty : IntTy) : Named ty.name (.int ty)
  | usize : Named "usize" .usize
  | isize : Named "isize" .isize
  | bool : Named "bool" .bool
  | char : Named "char" .char
  | str : Named "str" .str
  | string : Named "String" .string
  | box (ty : Ty) : Named "Box" (.box ty)
  | vec (ty : Ty) : Named "Vec" (.vec ty)
  | option (ty : Ty) : Named "Option" (.option ty)
  | result (ok err : Ty) : Named "Result" (.result ok err)
  | btreeMap (key value : Ty) : Named "BTreeMap" (.btreeMap key value)
  | btreeSet (ty : Ty) : Named "BTreeSet" (.btreeSet ty)
  | perPrincipal (principal value : Ty) : Named "PerPrincipal" (.perPrincipal principal value)
  | owned (principal value : Ty) : Named "Owned" (.owned principal value)
  | derived (name : String) : Named (declared name).ident (.derived name)

/-- The types that a type is applied to, or put together of. -/
def Ty.parts : Ty → List Ty
  | .int _ | .usize | .isize | .bool | .char | .str | .string | .unit => []
  | .ref ty | .box ty | .slice ty | .vec ty | .array ty _ | .option ty | .btreeSet ty => [ty]
  | .result ok err => [ok, err]
  | .btreeMap key value => [key, value]
  | .tuple tys => tys
  | .perPrincipal principal value | .owned principal value => [principal, value]
  | .derived name => (declared name).arguments

mutual

/-- A type with an impl is written so, behind any module path and in any parentheses. -/
inductive Spells : SynType → Ty → Prop where
  | path {ident : String} {arguments : PathArguments} {ty : Ty} (leading : List String)
      (named : Named declared ident ty) (applied : SpellsArguments arguments (ty.parts declared)) :
      Spells (.path leading ident arguments) ty
  | ref {written : SynType} {ty : Ty} (elem : Spells written ty) :
      Spells (.reference written) (.ref ty)
  | slice {written : SynType} {ty : Ty} (elem : Spells written ty) :
      Spells (.slice written) (.slice ty)
  | array {written : SynType} {ty : Ty} {len : Nat} (elem : Spells written ty) :
      Spells (.array written) (.array ty len)
  | unit : Spells (.tuple []) .unit
  | tuple {elems : List SynType} {tys : List Ty} (all : SpellsElems elems tys) :
      Spells (.tuple elems) (.tuple tys)
  | paren {written : SynType} {ty : Ty} (elem : Spells written ty) : Spells (.paren written) ty
  | group {written : SynType} {ty : Ty} (elem : Spells written ty) : Spells (.group written) ty

inductive SpellsArguments : PathArguments → List Ty → Prop where
  | none : SpellsArguments .none []
  | angleBracketed {args : List GenericArgument} {tys : List Ty} (all : SpellsArgs args tys) :
      SpellsArguments (.angleBracketed args) tys

/-- Lifetimes and constants may stand between the types. -/
inductive SpellsArgs : List GenericArgument → List Ty → Prop where
  | nil : SpellsArgs [] []
  | other {args : List GenericArgument} {tys : List Ty} (rest : SpellsArgs args tys) :
      SpellsArgs (.other :: args) tys
  | cons {written : SynType} {args : List GenericArgument} {ty : Ty} {tys : List Ty}
      (first : Spells written ty) (rest : SpellsArgs args tys) :
      SpellsArgs (.type written :: args) (ty :: tys)

inductive SpellsElems : List SynType → List Ty → Prop where
  | nil : SpellsElems [] []
  | cons {written : SynType} {elems : List SynType} {ty : Ty} {tys : List Ty}
      (first : Spells written ty) (rest : SpellsElems elems tys) :
      SpellsElems (written :: elems) (ty :: tys)

end

/-- The names of the declarations that a type mentions, itself or in what it is applied to. -/
inductive Ty.Mentions : Ty → String → Prop
  | itself (name : String) : Mentions (.derived name) (declared name).ident
  | part {ty part : Ty} {ident : String} (within : part ∈ ty.parts declared)
      (mentions : Mentions part ident) : Mentions ty ident

/-- None of these paths is refused. -/
def Clean (scanned : List SynType) : Prop := ∀ ty ∈ scanned, refusal ty = none

/-- Nothing that the type mentions has a forbidden name. -/
def Free (ty : Ty) : Prop := ∀ ident, ty.Mentions declared ident → forbidden ident = none

theorem clean_append (xs ys : List SynType) : Clean (xs ++ ys) ↔ Clean xs ∧ Clean ys :=
  List.forall_mem_append

theorem clean_nil : Clean [] := fun _ met => absurd met List.not_mem_nil

theorem clean_path (leading : List String) (ident : String) (arguments : PathArguments) :
    Clean (SynType.path leading ident arguments).scanned ↔
      forbidden ident = none ∧ Clean arguments.scanned := by
  rw [SynType.scanned, Clean, List.forall_mem_cons, refusal, Option.map_eq_none_iff, Clean]

variable {declared}

theorem free_derived (name : String) : Free declared (.derived name) ↔
    forbidden (declared name).ident = none ∧
      ∀ part ∈ (declared name).arguments, Free declared part := by
  constructor
  · intro free
    exact ⟨free _ (.itself name), fun part within ident mentions => free ident (.part within mentions)⟩
  · rintro ⟨named, parts⟩ ident (_ | ⟨within, mentions⟩)
    · exact named
    · exact parts _ within ident mentions

/-- A type that is not derived mentions what its parts mention. -/
theorem free_of_parts (ty : Ty) (plain : ∀ name, ty ≠ .derived name) :
    Free declared ty ↔ ∀ part ∈ ty.parts declared, Free declared part := by
  constructor
  · exact fun free part within ident mentions => free ident (.part within mentions)
  · rintro parts ident (name | ⟨within, mentions⟩)
    · exact absurd rfl (plain name)
    · exact parts _ within ident mentions

/-- Only a derived type may be called by a forbidden name. -/
theorem Named.free_iff {ident : String} {ty : Ty} (named : Named declared ident ty) :
    Free declared ty ↔
      forbidden ident = none ∧ ∀ part ∈ ty.parts declared, Free declared part := by
  cases named with
  | derived name => exact free_derived name
  | int ty => exact (free_of_parts _ (by rintro _ ⟨⟩)).trans (and_iff_right (by cases ty <;> decide)).symm
  | _ => exact (free_of_parts _ (by rintro _ ⟨⟩)).trans (and_iff_right (by decide)).symm

mutual

/-- A type with an impl is refused only for a declaration with a forbidden name. -/
theorem Spells.clean_iff {written : SynType} {ty : Ty} :
    Spells declared written ty → (Clean written.scanned ↔ Free declared ty)
  | .path leading named applied => by
    rw [clean_path, named.free_iff, applied.clean_iff]
  | .ref elem => elem.clean_iff.trans
      ((free_of_parts (.ref _) (by rintro _ ⟨⟩)).trans List.forall_mem_singleton).symm
  | .slice elem => elem.clean_iff.trans
      ((free_of_parts (.slice _) (by rintro _ ⟨⟩)).trans List.forall_mem_singleton).symm
  | .array elem => elem.clean_iff.trans
      ((free_of_parts (.array _ _) (by rintro _ ⟨⟩)).trans List.forall_mem_singleton).symm
  | .unit => iff_of_true clean_nil ((free_of_parts .unit (by rintro _ ⟨⟩)).mpr nofun)
  | .tuple all => all.clean_iff.trans (free_of_parts (.tuple _) (by rintro _ ⟨⟩)).symm
  | .paren elem => elem.clean_iff
  | .group elem => elem.clean_iff

theorem SpellsArguments.clean_iff {arguments : PathArguments} {tys : List Ty} :
    SpellsArguments declared arguments tys →
      (Clean arguments.scanned ↔ ∀ ty ∈ tys, Free declared ty)
  | .none => iff_of_true clean_nil nofun
  | .angleBracketed all => all.clean_iff

theorem SpellsArgs.clean_iff {args : List GenericArgument} {tys : List Ty} :
    SpellsArgs declared args tys → (Clean (scannedArgs args) ↔ ∀ ty ∈ tys, Free declared ty)
  | .nil => iff_of_true clean_nil nofun
  | .other rest => rest.clean_iff
  | .cons first rest => by
    rw [scannedArgs, clean_append, List.forall_mem_cons]
    exact and_congr first.clean_iff rest.clean_iff

theorem SpellsElems.clean_iff {elems : List SynType} {tys : List Ty} :
    SpellsElems declared elems tys → (Clean (scannedElems elems) ↔ ∀ ty ∈ tys, Free declared ty)
  | .nil => iff_of_true clean_nil nofun
  | .cons first rest => by
    rw [scannedElems, clean_append, List.forall_mem_cons]
    exact and_congr first.clean_iff rest.clean_iff

end

variable (declared) in
/-- Every field that is encoded has a type with an impl, written out. -/
def WrittenData.Spelled (data : WrittenData) : Prop :=
  ∀ field ∈ data.encoded, ∃ ty, field.decl.ty = .hashed ty ∧ Spells declared field.written ty

end Spelling

theorem clean_scannedIn (fields : List WrittenField) :
    Clean (scannedIn fields) ↔ ∀ field ∈ fields, Clean field.written.scanned :=
  List.forall_mem_flatMap

/-- A refusal spans the path refused. -/
theorem refusal_spanned {ty : SynType} {error : SynError} (refused : refusal ty = some error) :
    error.spanned = some ty := by
  cases ty with
  | path leading ident arguments =>
    obtain ⟨message, _, rfl⟩ := Option.map_eq_some_iff.mp refused
    rfl
  | _ => cases refused

/-- The derive refuses a type exactly if the scan meets a path that is refused. -/
theorem scannedDerive_refused_iff (data : WrittenData) :
    (∃ written message, scannedDerive data = .error ⟨some written, message⟩) ↔
      ¬Clean (scannedIn data.encoded) := by
  rw [scannedDerive_eq, verdict]
  cases first : (scannedIn data.encoded).findSome? refusal with
  | none =>
    refine iff_of_false ?_ (not_not_intro (List.findSome?_eq_none_iff.mp first))
    rintro ⟨written, message, refused⟩
    cases data <;> cases refused
  | some error =>
    obtain ⟨ty, met, refused⟩ := List.exists_of_findSome?_eq_some first
    refine iff_of_true ⟨ty, error.message, ?_⟩ fun clean => ?_
    · rw [← refusal_spanned refused]
      rfl
    · rw [clean ty met] at refused
      cases refused

/-- `Tagged<Instant>`, of a generic type and an `Instant` of one's own. -/
def taggedInstant : String → Applied
  | "Tagged<Instant>" => ⟨"Tagged", [.derived "Instant"]⟩
  | name => ⟨name, []⟩

end Ironstate.StableHash
