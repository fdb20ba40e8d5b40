import Ironstate.Aggregate.StableHash

/-!
# The encoding delimits itself

Every value's bytes end where they end and determine the value up to its skipped fields
(`Val.delimits`): one lemma for each impl, put together by recursion on the value. What an impl
writes is appended to what the encoder holds (`Appends`), so that the bytes of a value are the
bytes of its parts in order.
-/

namespace Ironstate.StableHash

open Lib (leBytes leBytes_append leBytes_inj Delimits)
open CanonicalEncoder (new)

/-! ## What a call writes -/

/-- A call appends the bytes it writes to a fresh encoder. -/
def Appends (write : CanonicalEncoder → CanonicalEncoder) : Prop :=
  ∀ enc, (write enc).buf = enc.buf ++ (write new).buf

theorem Appends.comp {first second : CanonicalEncoder → CanonicalEncoder}
    (appends : Appends first) (appends' : Appends second) :
    Appends fun enc => second (first enc) := by
  intro enc
  have later := appends' (first new)
  simp only [appends' (first enc), appends enc, later, List.append_assoc]

theorem appends_id : Appends fun enc => enc := fun enc => (List.append_nil enc.buf).symm

theorem appends_writeRaw (bytes : List UInt8) : Appends (·.writeRaw bytes) := fun _ => rfl

theorem appends_writeLen (len : Nat) : Appends (·.writeLen len) := fun _ => rfl

theorem appends_writeDiscriminant (discriminant : Nat) :
    Appends (·.writeDiscriminant discriminant) := fun _ => rfl

variable {decls : Decls} {target : Target}

mutual

theorem Val.appends {ty : Ty} : (x : Val decls target ty) → Appends x.encode
  | .int _ _ => appends_writeRaw _
  | .usize _ => appends_writeRaw _
  | .isize _ => appends_writeRaw _
  | .bool _ => appends_writeRaw _
  | .char _ => appends_writeRaw _
  | .str _ _ => (appends_writeLen _).comp (appends_writeRaw _)
  | .string text => text.appends
  | .unit => appends_id
  | .ref value => value.appends
  | .box value => value.appends
  | .slice len _ items => (appends_writeLen len).comp items.appends
  | .vec items => items.appends
  | .array len items => (appends_writeLen len).comp items.appends
  | .none => appends_writeDiscriminant 0
  | .some value => (appends_writeDiscriminant 1).comp value.appends
  | .ok value => (appends_writeDiscriminant 0).comp value.appends
  | .err error => (appends_writeDiscriminant 1).comp error.appends
  | .btreeMap len _ entries => (appends_writeLen len).comp entries.appends
  | .btreeSet len _ items => (appends_writeLen len).comp items.appends
  | .tuple values => values.appends
  | .perPrincipal len _ entries => (appends_writeLen len).comp entries.appends
  | .owned owner held => owner.appends.comp held.appends
  | .struct _ fields => fields.appends
  | .enum _ index _ fields => (appends_writeDiscriminant index).comp fields.appends

theorem Items.appends {ty : Ty} {len : Nat} :
    (xs : Items decls target ty len) → Appends xs.encode
  | .nil => appends_id
  | .cons item items => item.appends.comp items.appends

theorem Fields.appends {slots : List Slot} :
    (xs : Fields decls target slots) → Appends xs.encode
  | .nil => appends_id
  | .encoded value fields => value.appends.comp fields.appends
  | .skipped _ fields => fields.appends
  | .skippedForeign _ fields => fields.appends

end

/-- The canonical bytes of a value. -/
def Val.bytes {ty : Ty} (x : Val decls target ty) : List UInt8 := (x.encode new).bytes

/-- The bytes of the items, without a length. -/
def Items.bytes {ty : Ty} {len : Nat} (xs : Items decls target ty len) : List UInt8 :=
  (xs.encode new).bytes

/-- The bytes of the fields. -/
def Fields.bytes {slots : List Slot} (xs : Fields decls target slots) : List UInt8 :=
  (xs.encode new).bytes

/-! ## Agreement -/

mutual

/-- The values are equal, up to the fields that are skipped. -/
inductive Val.Agree : {ty : Ty} → Val decls target ty → Val decls target ty → Prop where
  | int {ty : IntTy} {value : BitVec (8 * ty.size)} : Val.Agree (.int ty value) (.int ty value)
  | usize {value : BitVec target.bits} : Val.Agree (.usize value) (.usize value)
  | isize {value : BitVec target.bits} : Val.Agree (.isize value) (.isize value)
  | bool {value : Bool} : Val.Agree (.bool value) (.bool value)
  | char {value : Char} : Val.Agree (.char value) (.char value)
  | str {text : String} {short short' : text.utf8ByteSize < 2 ^ target.bits} :
      Val.Agree (.str text short) (.str text short')
  | string {x y : Val decls target .str} (text : Val.Agree x y) :
      Val.Agree (.string x) (.string y)
  | unit : Val.Agree .unit .unit
  | ref {ty : Ty} {x y : Val decls target ty} (value : Val.Agree x y) :
      Val.Agree (.ref x) (.ref y)
  | box {ty : Ty} {x y : Val decls target ty} (value : Val.Agree x y) :
      Val.Agree (.box x) (.box y)
  | slice {ty : Ty} {len : Nat} {short short' : len < 2 ^ target.bits}
      {xs ys : Items decls target ty len} (items : Items.Agree xs ys) :
      Val.Agree (.slice len short xs) (.slice len short' ys)
  | vec {ty : Ty} {xs ys : Val decls target (.slice ty)} (items : Val.Agree xs ys) :
      Val.Agree (.vec xs) (.vec ys)
  | array {ty : Ty} {len : Nat} {xs ys : Items decls target ty len}
      (items : Items.Agree xs ys) : Val.Agree (.array len xs) (.array len ys)
  | none {ty : Ty} : Val.Agree (.none : Val decls target (.option ty)) .none
  | some {ty : Ty} {x y : Val decls target ty} (value : Val.Agree x y) :
      Val.Agree (.some x) (.some y)
  | ok {ok err : Ty} {x y : Val decls target ok} (value : Val.Agree x y) :
      Val.Agree (.ok x : Val decls target (.result ok err)) (.ok y)
  | err {ok err : Ty} {x y : Val decls target err} (error : Val.Agree x y) :
      Val.Agree (.err x : Val decls target (.result ok err)) (.err y)
  | btreeMap {key value : Ty} {len : Nat} {short short' : len < 2 ^ target.bits}
      {xs ys : Items decls target (.tuple [key, value]) len} (entries : Items.Agree xs ys) :
      Val.Agree (.btreeMap len short xs) (.btreeMap len short' ys)
  | btreeSet {ty : Ty} {len : Nat} {short short' : len < 2 ^ target.bits}
      {xs ys : Items decls target ty len} (items : Items.Agree xs ys) :
      Val.Agree (.btreeSet len short xs) (.btreeSet len short' ys)
  | tuple {tys : List Ty}
      {xs ys : Fields decls target (tys.map fun ty => .encoded (.hashed ty))}
      (values : Fields.Agree xs ys) : Val.Agree (.tuple xs) (.tuple ys)
  | perPrincipal {principal value : Ty} {len : Nat} {short short' : len < 2 ^ target.bits}
      {xs ys : Items decls target (.tuple [principal, value]) len}
      (entries : Items.Agree xs ys) :
      Val.Agree (.perPrincipal len short xs) (.perPrincipal len short' ys)
  | owned {principal value : Ty} {p q : Val decls target principal}
      {x y : Val decls target value} (owner : Val.Agree p q) (held : Val.Agree x y) :
      Val.Agree (.owned p x) (.owned q y)
  | struct {name : String} {slots : List Slot} {body body' : decls.body name = .struct slots}
      {xs ys : Fields decls target slots} (fields : Fields.Agree xs ys) :
      Val.Agree (.struct body xs) (.struct body' ys)
  | enum {name : String} {arms : List (List Slot)} {slots : List Slot}
      {body body' : decls.body name = .enum arms} {index : Nat}
      {arm arm' : arms[index]? = .some slots} {xs ys : Fields decls target slots}
      (fields : Fields.Agree xs ys) :
      Val.Agree (.enum body index arm xs) (.enum body' index arm' ys)

/-- The items agree, one by one. -/
inductive Items.Agree : {ty : Ty} → {len : Nat} → Items decls target ty len →
    Items decls target ty len → Prop where
  | nil {ty : Ty} : Items.Agree (.nil : Items decls target ty 0) .nil
  | cons {ty : Ty} {len : Nat} {x y : Val decls target ty} {xs ys : Items decls target ty len}
      (item : Val.Agree x y) (items : Items.Agree xs ys) :
      Items.Agree (.cons x xs) (.cons y ys)

/-- The fields that are not skipped agree. -/
inductive Fields.Agree : {slots : List Slot} → Fields decls target slots →
    Fields decls target slots → Prop where
  | nil : Fields.Agree .nil .nil
  | encoded {ty : Ty} {slots : List Slot} {x y : Val decls target ty}
      {xs ys : Fields decls target slots} (value : Val.Agree x y) (fields : Fields.Agree xs ys) :
      Fields.Agree (.encoded x xs) (.encoded y ys)
  | skipped {ty : Ty} {slots : List Slot} {x y : Val decls target ty}
      {xs ys : Fields decls target slots} (fields : Fields.Agree xs ys) :
      Fields.Agree (.skipped x xs) (.skipped y ys)
  | skippedForeign {T : Type} {slots : List Slot} {x y : T} {xs ys : Fields decls target slots}
      (fields : Fields.Agree xs ys) :
      Fields.Agree (.skippedForeign x xs) (.skippedForeign y ys)

end

mutual

/-- Values that agree write the same bytes. -/
theorem Val.Agree.encode {ty : Ty} {x y : Val decls target ty} :
    x.Agree y → ∀ enc, x.encode enc = y.encode enc
  | .int, _ => rfl
  | .usize, _ => rfl
  | .isize, _ => rfl
  | .bool, _ => rfl
  | .char, _ => rfl
  | .str, _ => rfl
  | .string text, enc => text.encode enc
  | .unit, _ => rfl
  | .ref value, enc => value.encode enc
  | .box value, enc => value.encode enc
  | .slice items, enc => items.encode (enc.writeLen _)
  | .vec items, enc => items.encode enc
  | .array items, enc => items.encode (enc.writeLen _)
  | .none, _ => rfl
  | .some value, enc => value.encode (enc.writeDiscriminant 1)
  | .ok value, enc => value.encode (enc.writeDiscriminant 0)
  | .err error, enc => error.encode (enc.writeDiscriminant 1)
  | .btreeMap entries, enc => entries.encode (enc.writeLen _)
  | .btreeSet items, enc => items.encode (enc.writeLen _)
  | .tuple values, enc => values.encode enc
  | .perPrincipal entries, enc => entries.encode (enc.writeLen _)
  | .owned owner held, enc => (held.encode _).trans (congrArg _ (owner.encode enc))
  | .struct fields, enc => fields.encode enc
  | .enum fields, enc => fields.encode (enc.writeDiscriminant _)

theorem Items.Agree.encode {ty : Ty} {len : Nat} {xs ys : Items decls target ty len} :
    xs.Agree ys → ∀ enc, xs.encode enc = ys.encode enc
  | .nil, _ => rfl
  | .cons item items, enc => (items.encode _).trans (congrArg _ (item.encode enc))

theorem Fields.Agree.encode {slots : List Slot} {xs ys : Fields decls target slots} :
    xs.Agree ys → ∀ enc, xs.encode enc = ys.encode enc
  | .nil, _ => rfl
  | .encoded value fields, enc => (fields.encode _).trans (congrArg _ (value.encode enc))
  | .skipped fields, enc => fields.encode enc
  | .skippedForeign fields, enc => fields.encode enc

end

/-! ## Every impl delimits itself -/

theorem Target.usize_small (target : Target) : 2 ^ target.bits ≤ 256 ^ 8 := by
  cases target <;> decide

/-- A word is below the number of words of its size. -/
theorem toNat_small (size : Nat) (value : BitVec (8 * size)) : value.toNat < 256 ^ size := by
  have small := value.isLt
  rw [Nat.pow_mul] at small
  exact small

theorem delimits_int (ty : IntTy) (value : BitVec (8 * ty.size)) :
    Delimits Val.bytes Val.Agree (.int ty value : Val decls target (.int ty)) := by
  apply Delimits.of_length
  · intro y
    cases y with
    | int _ other =>
      exact (Lib.leBytes_length ty.size _).trans (Lib.leBytes_length ty.size _).symm
  · intro y same
    cases y with
    | int _ other =>
      have equal := leBytes_inj (toNat_small ty.size value) (toNat_small ty.size other) same
      obtain rfl := BitVec.eq_of_toNat_eq equal
      exact .int

theorem delimits_usize (value : BitVec target.bits) :
    Delimits Val.bytes Val.Agree (.usize value : Val decls target .usize) := by
  apply Delimits.of_length
  · intro y
    cases y with
    | usize other => exact (Lib.leBytes_length 8 _).trans (Lib.leBytes_length 8 _).symm
  · intro y same
    cases y with
    | usize other =>
      have equal := leBytes_inj (toNat_small 8 (value.setWidth 64))
        (toNat_small 8 (other.setWidth 64)) same
      have wide : target.bits ≤ 64 := by cases target <;> decide
      rw [BitVec.toNat_setWidth_of_le wide, BitVec.toNat_setWidth_of_le wide] at equal
      obtain rfl := BitVec.eq_of_toNat_eq equal
      exact .usize

theorem delimits_isize (value : BitVec target.bits) :
    Delimits Val.bytes Val.Agree (.isize value : Val decls target .isize) := by
  apply Delimits.of_length
  · intro y
    cases y with
    | isize other => exact (Lib.leBytes_length 8 _).trans (Lib.leBytes_length 8 _).symm
  · intro y same
    cases y with
    | isize other =>
      have equal := BitVec.eq_of_toNat_eq (leBytes_inj (toNat_small 8 (value.signExtend 64))
        (toNat_small 8 (other.signExtend 64)) same)
      have wide : target.bits ≤ 64 := by cases target <;> decide
      have signed := congrArg BitVec.toInt equal
      rw [BitVec.toInt_signExtend_of_le wide, BitVec.toInt_signExtend_of_le wide] at signed
      obtain rfl := BitVec.eq_of_toInt_eq signed
      exact .isize

theorem delimits_bool (value : Bool) :
    Delimits Val.bytes Val.Agree (.bool value : Val decls target .bool) := by
  apply Delimits.of_length
  · intro y
    cases y with
    | bool other => rfl
  · intro y same
    cases y with
    | bool other =>
      have equal : value.toUInt8 = other.toUInt8 := (List.cons.inj same).1
      have known : value = other := by
        cases value <;> cases other <;> first | rfl | exact absurd equal (by decide)
      subst known
      exact .bool

theorem delimits_char (value : Char) :
    Delimits Val.bytes Val.Agree (.char value : Val decls target .char) := by
  apply Delimits.of_length
  · intro y
    cases y with
    | char other => exact (Lib.leBytes_length 4 _).trans (Lib.leBytes_length 4 _).symm
  · intro y same
    cases y with
    | char other =>
      have equal := leBytes_inj value.val.toNat_lt other.val.toNat_lt same
      obtain rfl := Char.toNat_inj.mp equal
      exact .char

theorem delimits_str (text : String) (short : text.utf8ByteSize < 2 ^ target.bits) :
    Delimits Val.bytes Val.Agree (.str text short : Val decls target .str) := by
  intro y p q same
  cases y with
  | str other short' =>
    have framed : leBytes 8 text.utf8ByteSize ++ (text.toUTF8.data.toList ++ p) =
        leBytes 8 other.utf8ByteSize ++ (other.toUTF8.data.toList ++ q) := by
      simpa [Val.bytes, Val.encode, CanonicalEncoder.bytes, CanonicalEncoder.writeLen,
        CanonicalEncoder.writeRaw, new] using same
    obtain ⟨size, text_rest⟩ := leBytes_append (Nat.lt_of_lt_of_le short target.usize_small)
      (Nat.lt_of_lt_of_le short' target.usize_small) framed
    obtain ⟨bytes, rest⟩ := List.append_inj text_rest size
    have equal : text = other :=
      String.toByteArray_inj.mp (ByteArray.ext (Array.toList_inj.mp bytes))
    subst equal
    exact ⟨rest, .str⟩

/-- A length is read off first. -/
theorem len_append {n m : Nat} {xs ys p q : List UInt8} (short : n < 2 ^ target.bits)
    (short' : m < 2 ^ target.bits) (same : leBytes 8 n ++ xs ++ p = leBytes 8 m ++ ys ++ q) :
    n = m ∧ xs ++ p = ys ++ q := by
  rw [List.append_assoc, List.append_assoc] at same
  exact leBytes_append (Nat.lt_of_lt_of_le short target.usize_small)
    (Nat.lt_of_lt_of_le short' target.usize_small) same

/-- A discriminant is read off first. -/
theorem discriminant_append {d e : Nat} {xs ys p q : List UInt8} (small : d < 2 ^ 32)
    (small' : e < 2 ^ 32) (same : leBytes 4 d ++ xs ++ p = leBytes 4 e ++ ys ++ q) :
    d = e ∧ xs ++ p = ys ++ q := by
  rw [List.append_assoc, List.append_assoc] at same
  exact leBytes_append small small' same

section Composite

variable {ty : Ty} {len : Nat}

/-- Items behind their number. -/
theorem delimits_framed {len' : Nat} {items : Items decls target ty len}
    {others : Items decls target ty len'} (short : len < 2 ^ target.bits)
    (short' : len' < 2 ^ target.bits) (inner : Delimits Items.bytes Items.Agree items)
    {p q : List UInt8}
    (same : leBytes 8 len ++ items.bytes ++ p = leBytes 8 len' ++ others.bytes ++ q) :
    p = q ∧ ∃ number : len = len', (number ▸ items).Agree others := by
  obtain ⟨rfl, later⟩ := len_append short short' same
  obtain ⟨rest, agree⟩ := inner others p q later
  exact ⟨rest, rfl, agree⟩

theorem bytes_slice {short : len < 2 ^ target.bits}
    (items : Items decls target ty len) :
    (Val.slice len short items).bytes = leBytes 8 len ++ items.bytes :=
  items.appends (new.writeLen len)

theorem delimits_slice {short : len < 2 ^ target.bits}
    {items : Items decls target ty len}
    (inner : Delimits Items.bytes Items.Agree items) :
    Delimits Val.bytes Val.Agree (.slice len short items) := by
  intro y p q same
  cases y with
  | slice len' short' others =>
    rw [bytes_slice, bytes_slice] at same
    obtain ⟨rest, rfl, agree⟩ := delimits_framed short short' inner same
    exact ⟨rest, .slice agree⟩

theorem bytes_btreeSet {short : len < 2 ^ target.bits}
    (items : Items decls target ty len) :
    (Val.btreeSet len short items).bytes = leBytes 8 len ++ items.bytes :=
  items.appends (new.writeLen len)

theorem delimits_btreeSet {short : len < 2 ^ target.bits}
    {items : Items decls target ty len}
    (inner : Delimits Items.bytes Items.Agree items) :
    Delimits Val.bytes Val.Agree (.btreeSet len short items) := by
  intro y p q same
  cases y with
  | btreeSet len' short' others =>
    rw [bytes_btreeSet, bytes_btreeSet] at same
    obtain ⟨rest, rfl, agree⟩ := delimits_framed short short' inner same
    exact ⟨rest, .btreeSet agree⟩

theorem bytes_btreeMap {key value : Ty} {short : len < 2 ^ target.bits}
    (entries : Items decls target (.tuple [key, value]) len) :
    (Val.btreeMap len short entries).bytes = leBytes 8 len ++ entries.bytes :=
  entries.appends (new.writeLen len)

theorem delimits_btreeMap {key value : Ty} {short : len < 2 ^ target.bits}
    {entries : Items decls target (.tuple [key, value]) len}
    (inner : Delimits Items.bytes Items.Agree entries) :
    Delimits Val.bytes Val.Agree (.btreeMap len short entries) := by
  intro y p q same
  cases y with
  | btreeMap len' short' others =>
    rw [bytes_btreeMap, bytes_btreeMap] at same
    obtain ⟨rest, rfl, agree⟩ := delimits_framed short short' inner same
    exact ⟨rest, .btreeMap agree⟩

theorem bytes_perPrincipal {principal value : Ty} {short : len < 2 ^ target.bits}
    (entries : Items decls target (.tuple [principal, value]) len) :
    (Val.perPrincipal len short entries).bytes = leBytes 8 len ++ entries.bytes :=
  entries.appends (new.writeLen len)

theorem delimits_perPrincipal {principal value : Ty} {short : len < 2 ^ target.bits}
    {entries : Items decls target (.tuple [principal, value]) len}
    (inner : Delimits Items.bytes Items.Agree entries) :
    Delimits Val.bytes Val.Agree (.perPrincipal len short entries) := by
  intro y p q same
  cases y with
  | perPrincipal len' short' others =>
    rw [bytes_perPrincipal, bytes_perPrincipal] at same
    obtain ⟨rest, rfl, agree⟩ := delimits_framed short short' inner same
    exact ⟨rest, .perPrincipal agree⟩

theorem bytes_array (items : Items decls target ty len) :
    (Val.array len items).bytes = leBytes 8 len ++ items.bytes :=
  items.appends (new.writeLen len)

theorem delimits_array {items : Items decls target ty len}
    (inner : Delimits Items.bytes Items.Agree items) :
    Delimits Val.bytes Val.Agree (.array len items) := by
  intro y p q same
  cases y with
  | array _ others =>
    rw [bytes_array, bytes_array, List.append_assoc, List.append_assoc] at same
    obtain ⟨rest, agree⟩ := inner others p q (List.append_cancel_left same)
    exact ⟨rest, .array agree⟩

theorem bytes_none :
    (.none : Val decls target (.option ty)).bytes = leBytes 4 0 ++ [] := rfl

theorem bytes_some (value : Val decls target ty) :
    (Val.some value).bytes = leBytes 4 1 ++ value.bytes :=
  value.appends (new.writeDiscriminant 1)

theorem delimits_none : Delimits Val.bytes Val.Agree (.none : Val decls target (.option ty)) := by
  intro y p q same
  cases y with
  | none =>
    rw [bytes_none] at same
    exact ⟨(discriminant_append (by decide) (by decide) same).2, .none⟩
  | some other =>
    rw [bytes_none, bytes_some] at same
    exact absurd (discriminant_append (by decide) (by decide) same).1 (by decide)

theorem delimits_some {value : Val decls target ty}
    (inner : Delimits Val.bytes Val.Agree value) :
    Delimits Val.bytes Val.Agree (.some value) := by
  intro y p q same
  cases y with
  | none =>
    rw [bytes_none, bytes_some] at same
    exact absurd (discriminant_append (by decide) (by decide) same).1 (by decide)
  | some other =>
    rw [bytes_some, bytes_some] at same
    obtain ⟨rest, agree⟩ := inner other p q (discriminant_append (by decide) (by decide) same).2
    exact ⟨rest, .some agree⟩

theorem bytes_ok {ok err : Ty} (value : Val decls target ok) :
    (.ok value : Val decls target (.result ok err)).bytes = leBytes 4 0 ++ value.bytes :=
  value.appends (new.writeDiscriminant 0)

theorem bytes_err {ok err : Ty} (error : Val decls target err) :
    (.err error : Val decls target (.result ok err)).bytes = leBytes 4 1 ++ error.bytes :=
  error.appends (new.writeDiscriminant 1)

theorem delimits_ok {ok err : Ty} {value : Val decls target ok}
    (inner : Delimits Val.bytes Val.Agree value) :
    Delimits Val.bytes Val.Agree (.ok value : Val decls target (.result ok err)) := by
  intro y p q same
  cases y with
  | ok other =>
    rw [bytes_ok, bytes_ok] at same
    obtain ⟨rest, agree⟩ := inner other p q (discriminant_append (by decide) (by decide) same).2
    exact ⟨rest, .ok agree⟩
  | err error =>
    rw [bytes_ok, bytes_err] at same
    exact absurd (discriminant_append (by decide) (by decide) same).1 (by decide)

theorem delimits_err {ok err : Ty} {error : Val decls target err}
    (inner : Delimits Val.bytes Val.Agree error) :
    Delimits Val.bytes Val.Agree (.err error : Val decls target (.result ok err)) := by
  intro y p q same
  cases y with
  | ok value =>
    rw [bytes_ok, bytes_err] at same
    exact absurd (discriminant_append (by decide) (by decide) same).1 (by decide)
  | err other =>
    rw [bytes_err, bytes_err] at same
    obtain ⟨rest, agree⟩ := inner other p q (discriminant_append (by decide) (by decide) same).2
    exact ⟨rest, .err agree⟩

theorem bytes_owned {principal value : Ty} (owner : Val decls target principal)
    (held : Val decls target value) :
    (Val.owned owner held).bytes = owner.bytes ++ held.bytes :=
  held.appends (owner.encode new)

theorem delimits_owned {principal value : Ty} {owner : Val decls target principal}
    {held : Val decls target value} (first : Delimits Val.bytes Val.Agree owner)
    (second : Delimits Val.bytes Val.Agree held) :
    Delimits Val.bytes Val.Agree (.owned owner held) := by
  intro y p q same
  cases y with
  | owned other kept =>
    rw [bytes_owned, bytes_owned] at same
    obtain ⟨rest, agree, agree'⟩ := first.pair second same
    exact ⟨rest, .owned agree agree'⟩

theorem delimits_struct {name : String} {slots : List Slot}
    {body : decls.body name = .struct slots} {fields : Fields decls target slots}
    (inner : Delimits Fields.bytes Fields.Agree fields) :
    Delimits Val.bytes Val.Agree (.struct body fields) := by
  intro y p q same
  cases y with
  | struct body' others =>
    obtain rfl := Body.struct.inj (body.symm.trans body')
    obtain ⟨rest, agree⟩ := inner others p q same
    exact ⟨rest, .struct agree⟩
  | enum body' => cases body.symm.trans body'

/-- The index of an arm fits the discriminant. -/
theorem index_small {name : String} {arms : List (List Slot)} {slots : List Slot} {index : Nat}
    (body : decls.body name = .enum arms) (arm : arms[index]? = some slots) : index < 2 ^ 32 :=
  Nat.lt_of_lt_of_le (List.getElem?_eq_some_iff.mp arm).1 (decls.indexed name arms body)

theorem bytes_enum {name : String} {arms : List (List Slot)} {slots : List Slot}
    {body : decls.body name = .enum arms} {index : Nat} {arm : arms[index]? = some slots}
    (fields : Fields decls target slots) :
    (Val.enum body index arm fields).bytes = leBytes 4 index ++ fields.bytes :=
  fields.appends (new.writeDiscriminant index)

theorem delimits_enum {name : String} {arms : List (List Slot)} {slots : List Slot}
    {body : decls.body name = .enum arms} {index : Nat} {arm : arms[index]? = some slots}
    {fields : Fields decls target slots} (inner : Delimits Fields.bytes Fields.Agree fields) :
    Delimits Val.bytes Val.Agree (.enum body index arm fields) := by
  intro y p q same
  cases y with
  | struct body' => cases body.symm.trans body'
  | enum body' index' arm' others =>
    obtain rfl := Body.enum.inj (body.symm.trans body')
    rw [bytes_enum, bytes_enum] at same
    obtain ⟨number, later⟩ :=
      discriminant_append (index_small body arm) (index_small body' arm') same
    subst number
    obtain rfl := Option.some.inj (arm.symm.trans arm')
    obtain ⟨rest, agree⟩ := inner others p q later
    exact ⟨rest, .enum agree⟩

end Composite

/-! ## Every value delimits itself -/

mutual

theorem Val.delimits {ty : Ty} : (x : Val decls target ty) → Delimits Val.bytes Val.Agree x
  | .int ty value => delimits_int ty value
  | .usize value => delimits_usize value
  | .isize value => delimits_isize value
  | .bool value => delimits_bool value
  | .char value => delimits_char value
  | .str text short => delimits_str text short
  | .string text => fun y p q same => by
    cases y with
    | string other =>
      obtain ⟨rest, agree⟩ := text.delimits other p q same
      exact ⟨rest, .string agree⟩
  | .unit => fun y p q same => by
    cases y with
    | unit => exact ⟨same, .unit⟩
  | .ref value => fun y p q same => by
    cases y with
    | ref other =>
      obtain ⟨rest, agree⟩ := value.delimits other p q same
      exact ⟨rest, .ref agree⟩
  | .box value => fun y p q same => by
    cases y with
    | box other =>
      obtain ⟨rest, agree⟩ := value.delimits other p q same
      exact ⟨rest, .box agree⟩
  | .slice _ _ items => delimits_slice items.delimits
  | .vec items => fun y p q same => by
    cases y with
    | vec others =>
      obtain ⟨rest, agree⟩ := items.delimits others p q same
      exact ⟨rest, .vec agree⟩
  | .array _ items => delimits_array items.delimits
  | .none => delimits_none
  | .some value => delimits_some value.delimits
  | .ok value => delimits_ok value.delimits
  | .err error => delimits_err error.delimits
  | .btreeMap _ _ entries => delimits_btreeMap entries.delimits
  | .btreeSet _ _ items => delimits_btreeSet items.delimits
  | .tuple values => fun y p q same => by
    cases y with
    | tuple others =>
      obtain ⟨rest, agree⟩ := values.delimits others p q same
      exact ⟨rest, .tuple agree⟩
  | .perPrincipal _ _ entries => delimits_perPrincipal entries.delimits
  | .owned owner held => delimits_owned owner.delimits held.delimits
  | .struct _ fields => delimits_struct fields.delimits
  | .enum _ _ _ fields => delimits_enum fields.delimits

theorem Items.delimits {ty : Ty} {len : Nat} :
    (xs : Items decls target ty len) → Delimits Items.bytes Items.Agree xs
  | .nil => fun ys p q same => by
    cases ys with
    | nil => exact ⟨same, .nil⟩
  | .cons item items => fun ys p q same => by
    cases ys with
    | cons other others =>
      have written : (Items.cons item items).bytes = item.bytes ++ items.bytes :=
        items.appends (item.encode new)
      have written' : (Items.cons other others).bytes = other.bytes ++ others.bytes :=
        others.appends (other.encode new)
      rw [written, written'] at same
      obtain ⟨rest, agree, agree'⟩ := item.delimits.pair items.delimits same
      exact ⟨rest, .cons agree agree'⟩

theorem Fields.delimits {slots : List Slot} :
    (xs : Fields decls target slots) → Delimits Fields.bytes Fields.Agree xs
  | .nil => fun ys p q same => by
    cases ys with
    | nil => exact ⟨same, .nil⟩
  | .encoded value fields => fun ys p q same => by
    cases ys with
    | encoded other others =>
      have written : (Fields.encoded value fields).bytes = value.bytes ++ fields.bytes :=
        fields.appends (value.encode new)
      have written' : (Fields.encoded other others).bytes = other.bytes ++ others.bytes :=
        others.appends (other.encode new)
      rw [written, written'] at same
      obtain ⟨rest, agree, agree'⟩ := value.delimits.pair fields.delimits same
      exact ⟨rest, .encoded agree agree'⟩
  | .skipped _ fields => fun ys p q same => by
    cases ys with
    | skipped _ others =>
      obtain ⟨rest, agree⟩ := fields.delimits others p q same
      exact ⟨rest, .skipped agree⟩
  | .skippedForeign _ fields => fun ys p q same => by
    cases ys with
    | skippedForeign _ others =>
      obtain ⟨rest, agree⟩ := fields.delimits others p q same
      exact ⟨rest, .skippedForeign agree⟩

end

/-! ## The two targets -/

theorem short_on_64 {n : Nat} (short : n < 2 ^ Target.bits32.bits) :
    n < 2 ^ Target.bits64.bits := Nat.lt_trans short (by decide)

mutual

/-- The same value on a 64-bit target. -/
def Val.widen {ty : Ty} : Val decls .bits32 ty → Val decls .bits64 ty
  | .int ty value => .int ty value
  | .usize value => .usize (value.setWidth 64)
  | .isize value => .isize (value.signExtend 64)
  | .bool value => .bool value
  | .char value => .char value
  | .str text short => .str text (short_on_64 short)
  | .string text => .string text.widen
  | .unit => .unit
  | .ref value => .ref value.widen
  | .box value => .box value.widen
  | .slice len short items => .slice len (short_on_64 short) items.widen
  | .vec items => .vec items.widen
  | .array len items => .array len items.widen
  | .none => .none
  | .some value => .some value.widen
  | .ok value => .ok value.widen
  | .err error => .err error.widen
  | .btreeMap len short entries => .btreeMap len (short_on_64 short) entries.widen
  | .btreeSet len short items => .btreeSet len (short_on_64 short) items.widen
  | .tuple values => .tuple values.widen
  | .perPrincipal len short entries => .perPrincipal len (short_on_64 short) entries.widen
  | .owned owner held => .owned owner.widen held.widen
  | .struct body fields => .struct body fields.widen
  | .enum body index arm fields => .enum body index arm fields.widen

/-- The same items on a 64-bit target. -/
def Items.widen {ty : Ty} {len : Nat} : Items decls .bits32 ty len → Items decls .bits64 ty len
  | .nil => .nil
  | .cons item items => .cons item.widen items.widen

/-- The same fields on a 64-bit target. -/
def Fields.widen {slots : List Slot} : Fields decls .bits32 slots → Fields decls .bits64 slots
  | .nil => .nil
  | .encoded value fields => .encoded value.widen fields.widen
  | .skipped value fields => .skipped value.widen fields.widen
  | .skippedForeign value fields => .skippedForeign value fields.widen

end

mutual

/-- A value writes the same bytes on both targets. -/
theorem Val.encode_widen {ty : Ty} :
    (x : Val decls .bits32 ty) → ∀ enc, x.widen.encode enc = x.encode enc
  | .int _ _, _ => rfl
  | .usize value, enc => by
    have wide : (value.setWidth 64).setWidth 64 = value.setWidth 64 := BitVec.setWidth_eq _
    exact congrArg (fun word => enc.writeRaw (leBytes 8 (BitVec.toNat word))) wide
  | .isize value, enc => by
    have wide : (value.signExtend 64).signExtend 64 = value.signExtend 64 :=
      BitVec.signExtend_eq _
    exact congrArg (fun word => enc.writeRaw (leBytes 8 (BitVec.toNat word))) wide
  | .bool _, _ => rfl
  | .char _, _ => rfl
  | .str _ _, _ => rfl
  | .string text, enc => text.encode_widen enc
  | .unit, _ => rfl
  | .ref value, enc => value.encode_widen enc
  | .box value, enc => value.encode_widen enc
  | .slice _ _ items, enc => items.encode_widen (enc.writeLen _)
  | .vec items, enc => items.encode_widen enc
  | .array _ items, enc => items.encode_widen (enc.writeLen _)
  | .none, _ => rfl
  | .some value, enc => value.encode_widen (enc.writeDiscriminant 1)
  | .ok value, enc => value.encode_widen (enc.writeDiscriminant 0)
  | .err error, enc => error.encode_widen (enc.writeDiscriminant 1)
  | .btreeMap _ _ entries, enc => entries.encode_widen (enc.writeLen _)
  | .btreeSet _ _ items, enc => items.encode_widen (enc.writeLen _)
  | .tuple values, enc => values.encode_widen enc
  | .perPrincipal _ _ entries, enc => entries.encode_widen (enc.writeLen _)
  | .owned owner held, enc =>
    (held.encode_widen _).trans (congrArg held.encode (owner.encode_widen enc))
  | .struct _ fields, enc => fields.encode_widen enc
  | .enum _ _ _ fields, enc => fields.encode_widen (enc.writeDiscriminant _)

theorem Items.encode_widen {ty : Ty} {len : Nat} :
    (xs : Items decls .bits32 ty len) → ∀ enc, xs.widen.encode enc = xs.encode enc
  | .nil, _ => rfl
  | .cons item items, enc =>
    (items.encode_widen _).trans (congrArg items.encode (item.encode_widen enc))

theorem Fields.encode_widen {slots : List Slot} :
    (xs : Fields decls .bits32 slots) → ∀ enc, xs.widen.encode enc = xs.encode enc
  | .nil, _ => rfl
  | .encoded value fields, enc =>
    (fields.encode_widen _).trans (congrArg fields.encode (value.encode_widen enc))
  | .skipped _ fields, enc => fields.encode_widen enc
  | .skippedForeign _ fields, enc => fields.encode_widen enc

end

/-- The canonical encoding delimits itself, determines a value exactly up to its skipped fields,
and is the same on both targets. -/
theorem encoding_canonical (decls : Decls) (ty : Ty) :
    (∀ (target : Target) (x y : Val decls target ty) (p q : List UInt8),
      x.bytes ++ p = y.bytes ++ q → p = q ∧ x.Agree y) ∧
    (∀ (target : Target) (x y : Val decls target ty), x.Agree y → x.bytes = y.bytes) ∧
    ∀ x : Val decls .bits32 ty, x.widen.bytes = x.bytes := by
  refine ⟨?_, ?_, ?_⟩
  · intro target x y p q same
    exact x.delimits y p q same
  · intro target x y agree
    exact congrArg CanonicalEncoder.bytes (agree.encode new)
  · intro x
    exact congrArg CanonicalEncoder.bytes (x.encode_widen new)

end Ironstate.StableHash
