import Ironstate.Core.Versioned

/-!
# Restore composes the recorded migrations

A declaration lists types, oldest first: version `i + 1` is entry `i`, and the last is the type
itself. Restoring an envelope decodes the payload as the type of its version and migrates it
along the rest of the list, one hop at a time (`Migrated`), whichever of the two derives
generated the code (`restore_composes_migrations`).
-/

namespace Ironstate

variable {Bytes Value : Type} {crate : Crate Bytes Value}

/-- A value taken through a list of types, each reached by the `MigrateFrom` impl from the one
before. -/
inductive Migrated (crate : Crate Bytes Value) :
    (old : crate.Ty) → crate.El old → List crate.Ty → (new : crate.Ty) → crate.El new → Prop where
  | done {ty : crate.Ty} {value : crate.El ty} : Migrated crate ty value [] ty value
  | hop {old next new : crate.Ty} {types : List crate.Ty} {value : crate.El old}
      {result : crate.El new} {migrate : crate.El old → crate.El next}
      (impl : crate.migrate old next = some migrate)
      (later : Migrated crate next (migrate value) types new result) :
      Migrated crate old value (next :: types) new result

/-- The pairs of neighbours, first to last. -/
def hops {Ty : Type} (types : List Ty) : List (Ty × Ty) := types.zip types.tail

/-- Every type of the list can be migrated to the next. -/
def Chained (crate : Crate Bytes Value) (types : List crate.Ty) : Prop :=
  ∀ hop ∈ hops types, (crate.migrate hop.1 hop.2).isSome

theorem Chained.tail {ty : crate.Ty} {types : List crate.Ty} (chained : Chained crate (ty :: types)) :
    Chained crate types := by
  intro hop member
  apply chained
  cases types with
  | nil => cases member
  | cons next types => exact List.mem_cons_of_mem _ member

theorem Chained.drop {types : List crate.Ty} (chained : Chained crate types) (count : Nat) :
    Chained crate (types.drop count) := by
  induction count generalizing types with
  | zero => exact chained
  | succ count ih =>
    cases types with
    | nil => exact chained
    | cons ty types => exact ih chained.tail

/-- The emitted steps run every migration to `Self`, once and in order. -/
theorem migrateSteps_migrated (self : crate.Ty) (steps : List crate.Ty) (old : crate.Ty)
    (value : crate.El old) (chained : Chained crate (old :: steps ++ [self])) :
    ∃ result, Migrated crate old value (steps ++ [self]) self result ∧
      migrateSteps crate self old value steps = some (result, hops (old :: steps ++ [self])) := by
  induction steps generalizing old with
  | nil =>
    obtain ⟨migrate, impl⟩ := Option.isSome_iff_exists.mp (chained (old, self) (by simp [hops]))
    refine ⟨migrate value, .hop impl .done, ?_⟩
    simp [migrateSteps, impl, hops]
  | cons next steps ih =>
    obtain ⟨migrate, impl⟩ := Option.isSome_iff_exists.mp (chained (old, next) (by simp [hops]))
    obtain ⟨result, migrated, ran⟩ := ih next (migrate value) chained.tail
    refine ⟨result, .hop impl migrated, ?_⟩
    simp only [migrateSteps, impl, ran]
    rfl

section Generated

variable {Ty : Type}

/-- The arm of an entry is found by its version, the entry's index and one more. -/
theorem find?_zipIdx (body : Nat → Ty → Body Ty) (version offset : Nat) (history : List Ty) :
    ((history.zipIdx offset).map fun entry => Arm.mk (entry.2 + 1) (body (entry.2 + 1) entry.1)).find?
        (fun arm => arm.version == version) =
      if offset < version then
        history[version - offset - 1]?.map fun start => ⟨version, body version start⟩
      else none := by
  induction history generalizing offset with
  | nil => simp
  | cons start history ih =>
    rw [List.zipIdx_cons, List.map_cons, List.find?_cons, ih]
    by_cases here : offset + 1 = version
    · subst here
      simp
    · have other : (offset + 1 == version) = false := beq_false_of_ne here
      simp only [other]
      by_cases later : offset + 1 < version
      · obtain ⟨index, rfl⟩ : ∃ index, version = offset + 1 + index + 1 :=
          ⟨version - offset - 2, by omega⟩
        have first : offset + 1 + index + 1 - offset - 1 = index + 1 := by omega
        have rest : offset + 1 + index + 1 - (offset + 1) - 1 = index := by omega
        rw [if_pos later, if_pos (by omega), first, rest, List.getElem?_cons_succ]
      · rw [if_neg later, if_neg (by omega)]

/-- Both derives emit the same impl for a declaration with retired types, at the version they
require of it. -/
theorem derive_versioned {config : StateMachine.Config Ty} {variants : List String}
    (accepted : StateMachine.validate config variants = .ok ()) (retired : config.history ≠ [])
    (name : Ty) :
    StateMachine.derive name config variants =
        .ok (some (StateMachine.versionedImpl name (config.history.length + 1) config.history)) ∧
      Versioned.derive name ⟨true, config.version, config.history⟩ =
        .ok (StateMachine.versionedImpl name (config.history.length + 1) config.history) := by
  have listed : config.history.isEmpty = false := by simpa using retired
  have expected : config.version.getD 1 = config.history.length + 1 := by
    unfold StateMachine.validate at accepted
    split at accepted
    · cases accepted
    · split at accepted
      · cases accepted
      · simp only [listed, Bool.not_false, if_true] at accepted
        split at accepted
        · cases accepted
        · rename_i same
          exact Decidable.not_not.mp same
  constructor
  · unfold StateMachine.derive
    simp [accepted, listed, expected]
  · unfold Versioned.derive
    simp only [Bool.not_true, Bool.false_eq_true, if_false, listed, Bool.not_false, if_true, expected,
      ne_eq, not_true_eq_false]
    rfl

end Generated

section Restore

variable {history : List crate.Ty} {name : crate.Ty} {bytes : Bytes} {version : Nat} {payload : Value}

/-- The current version is decoded as it is. -/
theorem restoreVersioned_current
    (env : crate.fromSlice bytes = .ok (history.length + 1, payload)) :
    (StateMachine.versionedImpl name (history.length + 1) history).restoreVersioned crate bytes =
      some (crate.decode name (history.length + 1) payload, []) := by
  unfold RestoreImpl.restoreVersioned Crate.parseEnvelope StateMachine.versionedImpl
  simp [env, Body.run]

/-- A retired version is decoded as its own type and migrated from there. -/
theorem restoreVersioned_retired (env : crate.fromSlice bytes = .ok (version, payload))
    (positive : 0 < version) {start : crate.Ty} (listed : history[version - 1]? = some start) :
    (StateMachine.versionedImpl name (history.length + 1) history).restoreVersioned crate bytes =
      (Body.retired version start (history.drop version)).run crate name version payload := by
  have inside := (List.getElem?_eq_some_iff.mp listed).1
  have other : (history.length + 1 == version) = false := by
    apply beq_false_of_ne
    omega
  have found := find?_zipIdx (fun v start => .retired v start (history.drop v)) version 0 history
  rw [if_pos positive, Nat.sub_zero, listed, Option.map_some] at found
  unfold RestoreImpl.restoreVersioned Crate.parseEnvelope StateMachine.versionedImpl
  simp only [env, List.cons_append, List.nil_append, List.find?_cons, other]
  simp only [found]

/-- Any other version is refused. -/
theorem restoreVersioned_unlisted (env : crate.fromSlice bytes = .ok (version, payload))
    (outside : version = 0 ∨ history.length + 1 < version) :
    (StateMachine.versionedImpl name (history.length + 1) history).restoreVersioned crate bytes =
      if version > history.length + 1 then
        some (.error (.newerThanBinary version (history.length + 1)), [])
      else some (.error (.unknownVersion version), []) := by
  have other : (history.length + 1 == version) = false := by
    apply beq_false_of_ne
    omega
  have found := find?_zipIdx (fun v start => .retired v start (history.drop v)) version 0 history
  have unlisted : (if 0 < version then history[version - 0 - 1]?.map fun start =>
      Arm.mk version (.retired version start (history.drop version)) else none) = none := by
    by_cases positive : 0 < version
    · rw [if_pos positive, List.getElem?_eq_none (by omega), Option.map_none]
    · exact if_neg positive
  rw [unlisted] at found
  unfold RestoreImpl.restoreVersioned Crate.parseEnvelope StateMachine.versionedImpl
  simp only [env, List.cons_append, List.nil_append, List.find?_cons, other]
  simp only [found]

/-- A version the declaration lists decodes as the type recorded for it. -/
theorem restoreVersioned_listed (chained : Chained crate (history ++ [name]))
    (env : crate.fromSlice bytes = .ok (version, payload)) (positive : 0 < version)
    (bound : version ≤ history.length + 1) :
    ∃ ty, (history ++ [name])[version - 1]? = some ty ∧
      match crate.fromValue ty payload with
      | .error source =>
        (StateMachine.versionedImpl name (history.length + 1) history).restoreVersioned crate bytes =
          some (.error (.decode version source), [])
      | .ok value =>
        ∃ result, Migrated crate ty value ((history ++ [name]).drop version) name result ∧
          (StateMachine.versionedImpl name (history.length + 1) history).restoreVersioned crate bytes =
            some (.ok result, hops ((history ++ [name]).drop (version - 1))) := by
  by_cases current : version = history.length + 1
  · subst current
    refine ⟨name, by simp, ?_⟩
    rw [restoreVersioned_current env, Crate.decode]
    cases crate.fromValue name payload with
    | error source => rfl
    | ok value =>
      refine ⟨value, ?_, ?_⟩
      · rw [List.drop_of_length_le (by simp)]
        exact .done
      · rw [Nat.add_sub_cancel, List.drop_left]
        rfl
  · have inside : version - 1 < history.length := by omega
    have listed := List.getElem?_eq_getElem inside
    have ahead : (history ++ [name]).drop version = history.drop version ++ [name] :=
      List.drop_append_of_le_length (by omega)
    have onward : (history ++ [name]).drop (version - 1) =
        history[version - 1] :: (history.drop version ++ [name]) := by
      rw [List.drop_append_of_le_length (by omega), List.drop_eq_getElem_cons inside,
        Nat.sub_add_cancel positive, List.cons_append]
    refine ⟨history[version - 1], ?_, ?_⟩
    · rw [List.getElem?_append_left inside, listed]
    · rw [restoreVersioned_retired env positive listed, Body.run, Crate.decode, ahead, onward]
      cases crate.fromValue history[version - 1] payload with
      | error source => rfl
      | ok value =>
        have rest := chained.drop (version - 1)
        rw [onward] at rest
        obtain ⟨result, migrated, ran⟩ := migrateSteps_migrated name _ _ value rest
        refine ⟨result, migrated, ?_⟩
        simp only [ran]
        rfl

/-- Restoring a value at its version is restoring the migrated one at the next. -/
theorem restoreVersioned_succ {bytes' : Bytes} {payload' : Value} {old new : crate.Ty}
    {migrate : crate.El old → crate.El new} {value : crate.El old}
    (env : crate.fromSlice bytes = .ok (version, payload))
    (env' : crate.fromSlice bytes' = .ok (version + 1, payload')) (positive : 0 < version)
    (listed : (history ++ [name])[version - 1]? = some old)
    (listed' : (history ++ [name])[version]? = some new)
    (impl : crate.migrate old new = some migrate) (decoded : crate.fromValue old payload = .ok value)
    (decoded' : crate.fromValue new payload' = .ok (migrate value)) :
    ((StateMachine.versionedImpl name (history.length + 1) history).restoreVersioned crate bytes).map
        Prod.fst =
      ((StateMachine.versionedImpl name (history.length + 1) history).restoreVersioned crate bytes').map
        Prod.fst := by
  have bound := (List.getElem?_eq_some_iff.mp listed').1
  rw [List.length_append, List.length_singleton] at bound
  have before : history[version - 1]? = some old := by
    rw [← listed, List.getElem?_append_left (by omega)]
  rw [restoreVersioned_retired env positive before, Body.run, Crate.decode]
  by_cases last : version = history.length
  · subst last
    obtain rfl : name = new := by simpa using listed'
    rw [restoreVersioned_current env', Crate.decode, decoded', List.drop_length]
    simp only [decoded, migrateSteps, impl]
    rfl
  · have inside : version < history.length := by omega
    have after : history[version]? = some new := by
      rw [← listed', List.getElem?_append_left inside]
    have next : history.drop version = new :: history.drop (version + 1) := by
      obtain ⟨_, here⟩ := List.getElem?_eq_some_iff.mp after
      rw [List.drop_eq_getElem_cons inside, here]
    rw [restoreVersioned_retired env' (Nat.succ_pos version) after, Body.run, Crate.decode, next]
    simp only [decoded, decoded', migrateSteps, impl]
    cases migrateSteps crate name new (migrate value) (history.drop (version + 1)) with
    | none => rfl
    | some ran => rfl

/-- Either derive generates the function that decodes a payload as the type recorded for its
version and takes it through the rest of the list, and refuses every other version. -/
theorem restore_composes_migrations (config : StateMachine.Config crate.Ty) (variants : List String)
    (accepted : StateMachine.validate config variants = .ok ()) (retired : config.history ≠ [])
    (name : crate.Ty) (chained : Chained crate (config.history ++ [name])) :
    ∃ impl, StateMachine.derive name config variants = .ok (some impl) ∧
      Versioned.derive name ⟨true, config.version, config.history⟩ = .ok impl ∧
      impl.name = name ∧ impl.version = config.history.length + 1 ∧
      (∀ bytes version payload, crate.fromSlice bytes = .ok (version, payload) →
        (0 < version → version ≤ config.history.length + 1 →
          ∃ ty, (config.history ++ [name])[version - 1]? = some ty ∧
            match crate.fromValue ty payload with
            | .error source =>
              impl.restoreVersioned crate bytes = some (.error (.decode version source), [])
            | .ok value =>
              ∃ result, Migrated crate ty value ((config.history ++ [name]).drop version) impl.name
                  result ∧
                impl.restoreVersioned crate bytes =
                  some (.ok result, hops ((config.history ++ [name]).drop (version - 1)))) ∧
        (config.history.length + 1 < version → impl.restoreVersioned crate bytes =
          some (.error (.newerThanBinary version (config.history.length + 1)), [])) ∧
        (version = 0 →
          impl.restoreVersioned crate bytes = some (.error (.unknownVersion 0), []))) ∧
      ∀ bytes bytes' version payload payload' old new migrate (value : crate.El old),
        crate.fromSlice bytes = .ok (version, payload) →
        crate.fromSlice bytes' = .ok (version + 1, payload') → 0 < version →
        (config.history ++ [name])[version - 1]? = some old →
        (config.history ++ [name])[version]? = some new →
        crate.migrate old new = some migrate → crate.fromValue old payload = .ok value →
        crate.fromValue new payload' = .ok (migrate value) →
        (impl.restoreVersioned crate bytes).map Prod.fst =
          (impl.restoreVersioned crate bytes').map Prod.fst := by
  obtain ⟨generated, generated'⟩ := derive_versioned accepted retired name
  refine ⟨_, generated, generated', rfl, rfl, ?_, ?_⟩
  · intro bytes version payload env
    refine ⟨restoreVersioned_listed chained env, ?_, ?_⟩
    · intro newer
      rw [restoreVersioned_unlisted env (.inr newer), if_pos newer]
    · intro zero
      subst zero
      rw [restoreVersioned_unlisted env (.inl rfl), if_neg (by omega)]
  · intro bytes bytes' version payload payload' old new migrate value env env' positive listed
      listed' impl decoded decoded'
    exact restoreVersioned_succ env env' positive listed listed' impl decoded decoded'

end Restore

/-! ## The declaration of `tests/versioned.rs` -/

namespace Doc

/-- The types it names. -/
inductive Ty where
  | docV1
  | docV2
  | doc
  deriving DecidableEq

/-- `enum DocV1`. -/
inductive V1 where
  | draft
  | live
  deriving DecidableEq

/-- `enum DocV2`. -/
inductive V2 where
  | draft
  | live
  | retired
  deriving DecidableEq

/-- `enum Doc`. -/
inductive V3 where
  | draft
  | live
  | retired
  deriving DecidableEq

/-- An envelope is taken as parsed, and a payload is the name of a unit variant. -/
def docs : Crate (Nat × String) String where
  Ty := Ty
  El
    | .docV1 => V1
    | .docV2 => V2
    | .doc => V3
  migrate
    | .docV1, .docV2 => some fun
      | .draft => .draft
      | .live => .live
    | .docV2, .doc => some fun
      | .draft => .draft
      | .live => .live
      | .retired => .retired
    | _, _ => none
  fromSlice env := .ok env
  fromValue
    | .docV1, "Draft" => .ok .draft
    | .docV1, "Live" => .ok .live
    | .docV2, "Draft" => .ok .draft
    | .docV2, "Live" => .ok .live
    | .docV2, "Retired" => .ok .retired
    | .doc, "Draft" => .ok .draft
    | .doc, "Live" => .ok .live
    | .doc, "Retired" => .ok .retired
    | _, payload => .error ("unknown variant `" ++ payload ++ "`")

/-- Its `#[state_machine(..)]`. -/
def config : StateMachine.Config Ty := ⟨"Draft", ["Retired"], some 3, [.docV1, .docV2]⟩

/-- A live `DocV1` goes through the whole chain. -/
theorem restore_composes_migrations_live :
    ∃ impl : RestoreImpl docs.Ty,
      StateMachine.derive Ty.doc config ["Draft", "Live", "Retired"] = .ok (some impl) ∧
        ∃ result, impl.restoreVersioned docs (1, "Live") =
          some (.ok result, [(Ty.docV1, Ty.docV2), (Ty.docV2, Ty.doc)]) := by
  have chained : Chained docs (config.history ++ [Ty.doc]) := by
    intro hop member
    have listed : hop ∈ [(Ty.docV1, Ty.docV2), (Ty.docV2, Ty.doc)] := member
    rcases List.mem_cons.mp listed with rfl | last
    · rfl
    · obtain rfl := List.mem_singleton.mp last
      rfl
  have accepted : StateMachine.validate config ["Draft", "Live", "Retired"] = .ok () := rfl
  have retired : config.history ≠ [] := by decide
  obtain ⟨impl, generated, -, -, -, restores, -⟩ := @restore_composes_migrations _ _
    docs config _ accepted retired Ty.doc chained
  obtain ⟨ty, listed, restored⟩ := (restores (1, "Live") 1 "Live" rfl).1 (by decide) (by decide)
  obtain rfl : Ty.docV1 = ty := Option.some.inj listed
  obtain ⟨result, -, ran⟩ := restored
  exact ⟨impl, generated, result, ran⟩

end Doc

end Ironstate
