import Ironstate.Core.Error

/-!
# Versioned restore

`migrate.rs`, and the two derives that generate `restore_versioned`: `StateMachine`
(`ironstate-derive/statemachine.rs`) and `Versioned` (`ironstate-aggregate-derive/versioned.rs`).
A derive runs at compile time and leaves code behind, so its result is a value of
`RestoreImpl`, the tokens it emits; `RestoreImpl.restoreVersioned` is what that code does.
Reading the attribute is `syn`'s: the derives start from what it has read. `u32` versions and
`usize` lengths are natural numbers, and the casts between them the identity below the
number of types a declaration can list.
-/

namespace Ironstate

/-! ## The runtime -/

/-- What the generated code refers to: types, their values, the impls of `MigrateFrom`, and
the two entry points of `serde_json`, whose errors are boxed and so are their messages. -/
structure Crate (Bytes Value : Type) where
  Ty : Type
  El : Ty → Type
  /-- `<new as MigrateFrom<old>>::migrate`, where there is such an impl. -/
  migrate : (old new : Ty) → Option (El old → El new)
  /-- `serde_json::from_slice::<Envelope>`. -/
  fromSlice : Bytes → Except String (Nat × Value)
  /-- `serde_json::from_value`. -/
  fromValue : (ty : Ty) → Value → Except String (El ty)

namespace Crate

variable {Bytes Value : Type} (crate : Crate Bytes Value)

/-- `rt::parse_envelope`. -/
def parseEnvelope (bytes : Bytes) : Except RestoreError (Nat × Value) :=
  match crate.fromSlice bytes with
  | .error source => .error (.decode 0 source)
  | .ok env => .ok env

/-- `rt::decode`. -/
def decode (ty : crate.Ty) (version : Nat) (payload : Value) :
    Except RestoreError (crate.El ty) :=
  match crate.fromValue ty payload with
  | .error source => .error (.decode version source)
  | .ok value => .ok value

end Crate

/-! ## The generated code -/

/-- The right-hand side of a version arm. -/
inductive Body (Ty : Type) where
  /-- `decode::<Self>(version, payload)`. -/
  | current
  /-- `let value: start = decode(v, payload)?`, one `let value = <next as MigrateFrom<_>>::migrate(value)`
  for each of `steps`, and `Ok(<Self as MigrateFrom<_>>::migrate(value))`. -/
  | retired (v : Nat) (start : Ty) (steps : List Ty)

/-- One arm of `match version`. -/
structure Arm (Ty : Type) where
  version : Nat
  body : Body Ty

/-- An `impl Versioned for name`: `VERSION`, and the version arms of `restore_versioned` before
its two closing ones. -/
structure RestoreImpl (Ty : Type) where
  name : Ty
  version : Nat
  arms : List (Arm Ty)

section Run

variable {Bytes Value : Type} (crate : Crate Bytes Value)

/-- The calls of `migrate` from one type through `steps` to `Self`, and what they return.
There is no code to run where an impl is missing. -/
def migrateSteps (self : crate.Ty) : (old : crate.Ty) → crate.El old → List crate.Ty →
    Option (crate.El self × List (crate.Ty × crate.Ty))
  | old, value, [] =>
    match crate.migrate old self with
    | none => none
    | some migrate => some (migrate value, [(old, self)])
  | old, value, next :: steps =>
    match crate.migrate old next with
    | none => none
    | some migrate =>
      match migrateSteps self next (migrate value) steps with
      | none => none
      | some (result, calls) => some (result, (old, next) :: calls)

/-- What an arm returns, with the calls of `migrate` it makes. -/
def Body.run (self : crate.Ty) (version : Nat) (payload : Value) : Body crate.Ty →
    Option (Except RestoreError (crate.El self) × List (crate.Ty × crate.Ty))
  | .current => some (crate.decode self version payload, [])
  | .retired v start steps =>
    match crate.decode start v payload with
    | .error error => some (.error error, [])
    | .ok value =>
      match migrateSteps crate self start value steps with
      | none => none
      | some (result, calls) => some (.ok result, calls)

/-- `restore_versioned`: the first arm with the version, or else the two closing arms. -/
def RestoreImpl.restoreVersioned (impl : RestoreImpl crate.Ty) (bytes : Bytes) :
    Option (Except RestoreError (crate.El impl.name) × List (crate.Ty × crate.Ty)) :=
  match crate.parseEnvelope bytes with
  | .error error => some (.error error, [])
  | .ok (version, payload) =>
    match impl.arms.find? fun arm => arm.version == version with
    | some arm => arm.body.run crate impl.name version payload
    | none =>
      if version > impl.version then some (.error (.newerThanBinary version impl.version), [])
      else some (.error (.unknownVersion version), [])

end Run

/-! ## `#[derive(StateMachine)]` -/

namespace StateMachine

/-- `struct Config`; an `Ident` is its string, a `Path` the type it names. -/
structure Config (Ty : Type) where
  initial : String
  terminal : List String
  version : Option Nat
  history : List Ty

variable {Ty : Type}

/-- `validate`; the error is the message, without its span. -/
def validate (config : Config Ty) (variants : List String) : Except String Unit :=
  if !variants.contains config.initial then
    .error ("`" ++ config.initial ++ "` is not a variant of this enum")
  else
    match config.terminal.find? fun t => !variants.contains t with
    | some t => .error ("terminal state `" ++ t ++ "` is not a variant of this enum")
    | none =>
      if !config.history.isEmpty then
        let expected := config.history.length + 1
        let version := config.version.getD 1
        if version ≠ expected then
          .error ("version/history mismatch: history lists " ++ toString config.history.length ++
            " prior version(s), so version must be " ++ toString expected ++ ", but it is " ++
            toString version ++ ".\n" ++
            "`history` is oldest-first and entry i is version i+1; the current type is " ++
            "the last version.\n" ++
            "Set `version = " ++ toString expected ++ "` or adjust the history list.")
        else .ok ()
      else if config.version.getD 1 > 1 then
        .error ("version is greater than 1 but no `history` is declared.\n" ++
          "A higher version needs the retired types so restore can migrate forward.\n" ++
          "Add `history = [OldTypeV1, …]` listing every prior version, oldest first.")
      else .ok ()

/-- `versioned_impl`. -/
def versionedImpl (name : Ty) (version : Nat) (history : List Ty) : RestoreImpl Ty :=
  -- the current-version arm decodes straight into `Self`
  let arms := [⟨version, .current⟩]
  let retired := history.zipIdx.map fun entry =>
    let (start, i) := entry
    let v := i + 1
    ⟨v, .retired v start (history.drop (i + 1))⟩
  ⟨name, version, arms ++ retired⟩

/-- The `Versioned` impl that `derive` emits beside the `StateMachine` one. -/
def derive (name : Ty) (config : Config Ty) (variants : List String) :
    Except String (Option (RestoreImpl Ty)) :=
  match validate config variants with
  | .error message => .error message
  | .ok () =>
    if config.version.isSome || !config.history.isEmpty then
      let version := config.version.getD 1
      .ok (some (versionedImpl name version config.history))
    else .ok none

end StateMachine

/-! ## `#[derive(Versioned)]` -/

namespace Versioned

variable {Ty : Type}

/-- What the loop over the attributes leaves in `seen`, `version` and `history`. -/
structure Attrs (Ty : Type) where
  seen : Bool
  version : Option Nat
  history : List Ty

/-- `derive`, from the end of that loop on. -/
def derive (name : Ty) (attrs : Attrs Ty) : Except String (RestoreImpl Ty) :=
  if !attrs.seen then
    .error ("missing `#[versioned(...)]` attribute.\n" ++
      "Versioned needs the current version and the retired types.\n" ++
      "Add `#[versioned(version = N, history = [OldV1, …])]`.")
  else
    let version := attrs.version.getD 1
    let history := attrs.history
    -- a retired type decodes as it was stored and migrates forward; `Self` is decoded as it is
    let arms := [⟨version, .current⟩]
    let retired := history.zipIdx.map fun entry =>
      let (start, i) := entry
      let v := i + 1
      ⟨v, .retired v start (history.drop (i + 1))⟩
    let impl := ⟨name, version, arms ++ retired⟩
    if !history.isEmpty then
      let expected := history.length + 1
      if version ≠ expected then
        .error ("version/history mismatch: history lists " ++ toString history.length ++
          " prior version(s), so version must be " ++ toString expected ++ ", but it is " ++
          toString version ++ ".\n" ++
          "`history` is oldest-first and entry i is version i+1; this type is the " ++
          "last version.\n" ++
          "Set `version = " ++ toString expected ++ "` or adjust the history list.")
      else .ok impl
    else if version > 1 then
      .error ("version is greater than 1 but no `history` is declared.\n" ++
        "A higher version needs the retired types so restore can migrate forward.\n" ++
        "Add `history = [OldV1, …]` listing every prior version, oldest first.")
    else .ok impl

end Versioned

end Ironstate
