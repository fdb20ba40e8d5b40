import Ironstate.Aggregate.Syn
import Ironstate.Lib.Code

/-!
# Stable hashing

The canonical encoding of `stablehash.rs`, with the impls of `redaction.rs` and the `StableHash`
derive (`ironstate-aggregate-derive/stablehash.rs`). The types that have an impl are a syntax
(`Ty`), in which a derived type is a name with the body that the derive generated for it
(`Decls`), so that a derived type may contain itself. The values of a type are an inductive
family over that syntax, and `encode` has one case for each impl.

The digests are functions of the bytes (`Ironstate.Journal.Audit`). `check_type` only refuses
declarations (`Ironstate.Aggregate.TypeScan`).
-/

namespace Ironstate.StableHash

open Lib (leBytes)

/-! ## The encoder -/

/-- `struct CanonicalEncoder`. -/
structure CanonicalEncoder where
  buf : List UInt8

namespace CanonicalEncoder

/-- `CanonicalEncoder::new`. -/
def new : CanonicalEncoder := ⟨[]⟩

/-- `CanonicalEncoder::bytes`. -/
def bytes (enc : CanonicalEncoder) : List UInt8 := enc.buf

/-- `CanonicalEncoder::write_raw`. -/
def writeRaw (enc : CanonicalEncoder) (bytes : List UInt8) : CanonicalEncoder :=
  ⟨enc.buf ++ bytes⟩

/-- `CanonicalEncoder::write_len`. -/
def writeLen (enc : CanonicalEncoder) (len : Nat) : CanonicalEncoder :=
  ⟨enc.buf ++ leBytes 8 len⟩

/-- `CanonicalEncoder::write_discriminant`. -/
def writeDiscriminant (enc : CanonicalEncoder) (discriminant : Nat) : CanonicalEncoder :=
  ⟨enc.buf ++ leBytes 4 discriminant⟩

end CanonicalEncoder

/-! ## Types -/

/-- The types of `int_impls!`. -/
inductive IntTy where
  | u8 | u16 | u32 | u64 | u128 | i8 | i16 | i32 | i64 | i128
  deriving DecidableEq

/-- The size of `to_le_bytes`. -/
def IntTy.size : IntTy → Nat
  | .u8 | .i8 => 1
  | .u16 | .i16 => 2
  | .u32 | .i32 => 4
  | .u64 | .i64 => 8
  | .u128 | .i128 => 16

/-- A type with a `StableHash` impl. -/
inductive Ty where
  | int (ty : IntTy)
  | usize
  | isize
  | bool
  | char
  | str
  | string
  | unit
  | ref (ty : Ty)
  | box (ty : Ty)
  | slice (ty : Ty)
  | vec (ty : Ty)
  | array (ty : Ty) (len : Nat)
  | option (ty : Ty)
  | result (ok err : Ty)
  | btreeMap (key value : Ty)
  | btreeSet (ty : Ty)
  | tuple (tys : List Ty)
  | perPrincipal (principal value : Ty)
  | owned (principal value : Ty)
  | derived (name : String)

/-- The type of a field: one with an impl, or any other, which only a skipped field may have. -/
inductive FieldTy : Type 1 where
  | hashed (ty : Ty)
  | foreign (T : Type)

/-! ## The derive -/

/-- One option inside `stable_hash(..)`. It is bare when nothing follows the name: `is_skip`
reads no value, so that the attribute stops being parsed at the first one. -/
structure SkipOption where
  name : String
  bare : Bool
  deriving DecidableEq

/-- A field, as declared; the name of a named field plays no part. -/
structure FieldDecl : Type 1 where
  attrs : List (Attribute SkipOption)
  ty : FieldTy

/-- The closure of `is_skip`, over the options of one attribute. -/
def skipOptions (skip : Bool) : List SkipOption → Bool
  | [] => skip
  | option :: options =>
    let skip := skip || option.name == "skip"
    if option.bare then skipOptions skip options else skip

/-- The loop of `is_skip`; an attribute without a list is a parse error, which is dropped. -/
def isSkipFrom (skip : Bool) : List (Attribute SkipOption) → Bool
  | [] => skip
  | attr :: attrs =>
    if attr.path != "stable_hash" then isSkipFrom skip attrs
    else
      match attr.meta with
      | .list options => isSkipFrom (skipOptions skip options) attrs
      | .path => isSkipFrom skip attrs
      | .nameValue => isSkipFrom skip attrs

/-- `is_skip`. -/
def isSkip (field : FieldDecl) : Bool := isSkipFrom false field.attrs

/-- What the generated body does with a field. -/
inductive Slot : Type 1 where
  | encoded (ty : FieldTy)
  | skipped (ty : FieldTy)

/-- `syn::Data`; the fields of a struct or a variant are named, unnamed or none. -/
inductive Data : Type 1 where
  | struct (fields : List FieldDecl)
  | enum (variants : List (List FieldDecl))
  | union

/-- The body of a generated `encode`. -/
inductive Body : Type 1 where
  | struct (slots : List Slot)
  | enum (arms : List (List Slot))

/-- `struct_body`, and the fields of an arm of `enum_body`. -/
def structBody (fields : List FieldDecl) : List Slot :=
  fields.map fun field => if isSkip field then .skipped field.ty else .encoded field.ty

/-- `WithCache` of `tests/stablehash.rs`. -/
example : structBody [⟨[], .hashed (.int .u64)⟩,
    ⟨[⟨"stable_hash", .list [⟨"skip", true⟩]⟩], .hashed .string⟩] =
      [.encoded (.hashed (.int .u64)), .skipped (.hashed .string)] := rfl

/-- `enum_body`: the arms, in declaration order. -/
def enumBody (variants : List (List FieldDecl)) : List (List Slot) := variants.map structBody

/-- `derive`. -/
def derive : Data → Except String Body
  | .struct fields => .ok (.struct (structBody fields))
  | .enum variants => .ok (.enum (enumBody variants))
  | .union =>
    .error ("StableHash cannot be derived for unions.\n" ++
      "A union has no defined active field, so it has no canonical encoding.\n" ++
      "Use a struct or an enum.")

/-- The derived types of a program. The compiler numbers the variants of an enum by a `u32`, so
that `variant_index as u32` is the index. -/
structure Decls : Type 1 where
  input : String → Data
  body : String → Body
  accepted : ∀ name, derive (input name) = .ok (body name)
  indexed : ∀ name arms, body name = .enum arms → arms.length ≤ 2 ^ 32

/-! ## Values -/

/-- The target a value lives on. -/
inductive Target where
  | bits32
  | bits64

/-- The width of `usize` and `isize`. -/
def Target.bits : Target → Nat
  | .bits32 => 32
  | .bits64 => 64

mutual

/-- The values of a type. A length is a `usize`. A map, a set or a store holds its entries in
the order of the keys. -/
inductive Val (decls : Decls) (target : Target) : Ty → Type 1 where
  | int (ty : IntTy) (value : BitVec (8 * ty.size)) : Val decls target (.int ty)
  | usize (value : BitVec target.bits) : Val decls target .usize
  | isize (value : BitVec target.bits) : Val decls target .isize
  | bool (value : Bool) : Val decls target .bool
  | char (value : Char) : Val decls target .char
  | str (text : String) (short : text.utf8ByteSize < 2 ^ target.bits) : Val decls target .str
  | string (text : Val decls target .str) : Val decls target .string
  | unit : Val decls target .unit
  | ref {ty : Ty} (value : Val decls target ty) : Val decls target (.ref ty)
  | box {ty : Ty} (value : Val decls target ty) : Val decls target (.box ty)
  | slice {ty : Ty} (len : Nat) (short : len < 2 ^ target.bits)
      (items : Items decls target ty len) : Val decls target (.slice ty)
  | vec {ty : Ty} (items : Val decls target (.slice ty)) : Val decls target (.vec ty)
  | array {ty : Ty} (len : Nat) (items : Items decls target ty len) :
      Val decls target (.array ty len)
  | none {ty : Ty} : Val decls target (.option ty)
  | some {ty : Ty} (value : Val decls target ty) : Val decls target (.option ty)
  | ok {ok err : Ty} (value : Val decls target ok) : Val decls target (.result ok err)
  | err {ok err : Ty} (error : Val decls target err) : Val decls target (.result ok err)
  | btreeMap {key value : Ty} (len : Nat) (short : len < 2 ^ target.bits)
      (entries : Items decls target (.tuple [key, value]) len) :
      Val decls target (.btreeMap key value)
  | btreeSet {ty : Ty} (len : Nat) (short : len < 2 ^ target.bits)
      (items : Items decls target ty len) : Val decls target (.btreeSet ty)
  | tuple {tys : List Ty}
      (values : Fields decls target (tys.map fun ty => .encoded (.hashed ty))) :
      Val decls target (.tuple tys)
  | perPrincipal {principal value : Ty} (len : Nat) (short : len < 2 ^ target.bits)
      (entries : Items decls target (.tuple [principal, value]) len) :
      Val decls target (.perPrincipal principal value)
  | owned {principal value : Ty} (owner : Val decls target principal)
      (held : Val decls target value) : Val decls target (.owned principal value)
  | struct {name : String} {slots : List Slot} (body : decls.body name = .struct slots)
      (fields : Fields decls target slots) : Val decls target (.derived name)
  | enum {name : String} {arms : List (List Slot)} {slots : List Slot}
      (body : decls.body name = .enum arms) (index : Nat) (arm : arms[index]? = some slots)
      (fields : Fields decls target slots) : Val decls target (.derived name)

/-- So many values of one type, in order. -/
inductive Items (decls : Decls) (target : Target) : Ty → Nat → Type 1 where
  | nil {ty : Ty} : Items decls target ty 0
  | cons {ty : Ty} {len : Nat} (item : Val decls target ty) (items : Items decls target ty len) :
      Items decls target ty (len + 1)

/-- The values of the fields, in order. -/
inductive Fields (decls : Decls) (target : Target) : List Slot → Type 1 where
  | nil : Fields decls target []
  | encoded {ty : Ty} {slots : List Slot} (value : Val decls target ty)
      (fields : Fields decls target slots) :
      Fields decls target (.encoded (.hashed ty) :: slots)
  | skipped {ty : Ty} {slots : List Slot} (value : Val decls target ty)
      (fields : Fields decls target slots) :
      Fields decls target (.skipped (.hashed ty) :: slots)
  | skippedForeign {T : Type} {slots : List Slot} (value : T)
      (fields : Fields decls target slots) :
      Fields decls target (.skipped (.foreign T) :: slots)

end

variable {decls : Decls} {target : Target}

open CanonicalEncoder

mutual

/-- `StableHash::encode`. -/
def Val.encode {ty : Ty} : Val decls target ty → CanonicalEncoder → CanonicalEncoder
  | .int ty value, enc => enc.writeRaw (leBytes ty.size value.toNat)
  | .usize value, enc => enc.writeRaw (leBytes 8 (value.setWidth 64).toNat)
  | .isize value, enc => enc.writeRaw (leBytes 8 (value.signExtend 64).toNat)
  | .bool value, enc => enc.writeRaw [value.toUInt8]
  | .char value, enc => enc.writeRaw (leBytes 4 value.toNat)
  | .str text _, enc => (enc.writeLen text.utf8ByteSize).writeRaw text.toUTF8.data.toList
  | .string text, enc => text.encode enc
  | .unit, enc => enc
  | .ref value, enc => value.encode enc
  | .box value, enc => value.encode enc
  | .slice len _ items, enc => items.encode (enc.writeLen len)
  | .vec items, enc => items.encode enc
  | .array len items, enc => items.encode (enc.writeLen len)
  | .none, enc => enc.writeDiscriminant 0
  | .some value, enc => value.encode (enc.writeDiscriminant 1)
  | .ok value, enc => value.encode (enc.writeDiscriminant 0)
  | .err error, enc => error.encode (enc.writeDiscriminant 1)
  | .btreeMap len _ entries, enc => entries.encode (enc.writeLen len)
  | .btreeSet len _ items, enc => items.encode (enc.writeLen len)
  | .tuple values, enc => values.encode enc
  | .perPrincipal len _ entries, enc => entries.encode (enc.writeLen len)
  | .owned owner held, enc => held.encode (owner.encode enc)
  | .struct _ fields, enc => fields.encode enc
  | .enum _ index _ fields, enc => fields.encode (enc.writeDiscriminant index)

/-- The loop over the items of a collection. -/
def Items.encode {ty : Ty} {len : Nat} :
    Items decls target ty len → CanonicalEncoder → CanonicalEncoder
  | .nil, enc => enc
  | .cons item items, enc => items.encode (item.encode enc)

/-- The generated calls, one for each field that is not skipped. -/
def Fields.encode {slots : List Slot} :
    Fields decls target slots → CanonicalEncoder → CanonicalEncoder
  | .nil, enc => enc
  | .encoded value fields, enc => fields.encode (value.encode enc)
  | .skipped _ fields, enc => fields.encode enc
  | .skippedForeign _ fields, enc => fields.encode enc

end

end Ironstate.StableHash
