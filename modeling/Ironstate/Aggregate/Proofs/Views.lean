import Ironstate.Aggregate.Redaction

/-!
# What a view reveals

Two states look alike to a viewer exactly when they agree, field by field, on what the field's
rule lets the viewer see (`Field.Same`). For a store keyed by principals that is the viewer's
own entry and the residues of the others, whichever order the loop meets the entries in
(`PerPrincipal.foldl_redactEntry`).
-/

namespace Ironstate

namespace PerPrincipal

variable {P : Type} [Ord P] [Std.TransOrd P] [Std.LawfulEqOrd P] [BEq P] [LawfulBEq P]
  {T : Type} [Conceal T]

/-- The loop keeps the viewer's entry apart and collects the residues of all others. -/
theorem foldl_redactEntry (viewer : P) (entries : List (P × T))
    (nodup : (entries.map Prod.fst).Nodup) (mine : Option T) (others : BTreeMap P (Concealed T)) :
    (entries.foldl (redactEntry viewer) (mine, others)).1 =
        ((entries.find? fun entry => entry.1 == viewer).map Prod.snd).or mine ∧
      ∀ key, (entries.foldl (redactEntry viewer) (mine, others)).2[key]? =
        if key == viewer then others[key]?
        else ((entries.find? fun entry => entry.1 == key).map fun entry => conceal entry.2).or
          others[key]? := by
  induction entries generalizing mine others with
  | nil => simp
  | cons entry entries ih =>
    rw [List.map_cons, List.nodup_cons] at nodup
    obtain ⟨absent, nodup⟩ := nodup
    have alone := BTreeMap.find?_absent absent
    rw [List.foldl_cons]
    by_cases own : entry.1 = viewer
    · subst own
      have kept : redactEntry entry.1 (mine, others) entry = (some entry.2, others) :=
        if_pos (beq_self_eq_true entry.1)
      obtain ⟨first, rest⟩ := ih nodup (some entry.2) others
      rw [kept]
      refine ⟨?_, ?_⟩
      · simp [first, alone]
      · intro key
        rw [rest]
        by_cases here : key = entry.1
        · simp [here]
        · simp [here, Ne.symm here]
    · have concealed : redactEntry viewer (mine, others) entry =
          (mine, others.insert entry.1 (conceal entry.2)) := if_neg (by simpa using own)
      obtain ⟨first, rest⟩ := ih nodup mine (others.insert entry.1 (conceal entry.2))
      rw [concealed]
      refine ⟨?_, ?_⟩
      · simp [first, own]
      · intro key
        rw [rest]
        by_cases here : key = entry.1
        · subst here
          rw [BTreeMap.getElem?_insert_self]
          simp [own, alone]
        · rw [BTreeMap.getElem?_insert_ne _ _ here]
          simp [Ne.symm here]

/-- The viewer's own entry, in full. -/
theorem redactFor_mine (store : PerPrincipal P T) (viewer : P) :
    PerPrincipalView.mine (OwnerRedact.redactFor store viewer) = store.get viewer := by
  have loop := foldl_redactEntry viewer store.entries.toList (BTreeMap.nodup_keys _) none ∅
  rw [Option.or_none, BTreeMap.find?_toList] at loop
  exact loop.1

/-- The residues of all other entries, and nothing under the viewer's own key. -/
theorem redactFor_others (store : PerPrincipal P T) (viewer key : P) :
    (PerPrincipalView.others (OwnerRedact.redactFor store viewer))[key]? =
      if key == viewer then none else (store.get key).map conceal := by
  have loop := foldl_redactEntry viewer store.entries.toList (BTreeMap.nodup_keys _) none ∅
  have found := BTreeMap.find?_toList store.entries key
  have here := loop.2 key
  rw [Std.ExtTreeMap.getElem?_empty, Option.or_none] at here
  unfold get
  rw [← found, Option.map_map]
  exact here

/-- The residue of a whole store holds every principal under the residue of its value. -/
theorem residues_eq (store : PerPrincipal P T) (key : P) :
    store.residues[key]? = (store.get key).map conceal := by
  have found := BTreeMap.find?_toList store.entries key
  unfold residues get
  rw [BTreeMap.getElem?_collect _ ?nodup, Std.ExtTreeMap.getElem?_empty, Option.or_none, ← found]
  case nodup => simpa [Function.comp_def] using BTreeMap.nodup_keys store.entries
  rw [List.find?_map, Option.map_map, Option.map_map]
  rfl

/-- What the viewer may tell apart of two stores. -/
structure Same (viewer : P) (s t : PerPrincipal P T) : Prop where
  own : s.get viewer = t.get viewer
  others : ∀ key, key ≠ viewer → (s.get key).map conceal = (t.get key).map conceal

theorem redactFor_eq_iff (viewer : P) (s t : PerPrincipal P T) :
    OwnerRedact.redactFor s viewer = OwnerRedact.redactFor t viewer ↔ Same viewer s t := by
  constructor
  · intro alike
    refine ⟨?_, ?_⟩
    · rw [← redactFor_mine, ← redactFor_mine, alike]
    · intro key other
      have read := congrArg (fun view => (PerPrincipalView.others view)[key]?) alike
      simp only [redactFor_others] at read
      simpa [other] using read
  · rintro ⟨own, others⟩
    have mine := (redactFor_mine s viewer).trans (own.trans (redactFor_mine t viewer).symm)
    have rest : PerPrincipalView.others (OwnerRedact.redactFor s viewer) =
        PerPrincipalView.others (OwnerRedact.redactFor t viewer) := by
      apply Std.ExtTreeMap.ext_getElem?
      intro key
      rw [redactFor_others, redactFor_others]
      by_cases here : key = viewer
      · simp [here]
      · simpa [here] using others key here
    exact PerPrincipalView.ext mine rest

omit [BEq P] [LawfulBEq P] in
/-- The entry of another principal, replaced by one with its residue. -/
theorem Same.insert {viewer other : P} (s : PerPrincipal P T) {held value : T}
    (foreign : other ≠ viewer) (present : s.get other = some held)
    (residue : conceal value = conceal held) : Same viewer s (s.insert other value) := by
  refine ⟨?_, ?_⟩
  · exact (BTreeMap.getElem?_insert_ne _ _ (Ne.symm foreign)).symm
  · intro key _
    by_cases here : key = other
    · subst here
      have replaced : (s.insert key value).get key = some value :=
        BTreeMap.getElem?_insert_self _ _ _
      rw [present, replaced]
      simp [residue]
    · have kept : (s.insert other value).get key = s.get key :=
        BTreeMap.getElem?_insert_ne _ _ here
      rw [kept]

end PerPrincipal

namespace Owned

variable {P : Type} [BEq P] [LawfulBEq P] {T : Type} [Conceal T]

/-- What the viewer may tell apart of two owned values. -/
structure Same (viewer : P) (s t : Owned P T) : Prop where
  owner : s.owner = viewer ↔ t.owner = viewer
  own : s.owner = viewer → s.value = t.value
  others : s.owner ≠ viewer → conceal s.value = conceal t.value

theorem redactFor_own {viewer : P} {owned : Owned P T} (own : owned.owner = viewer) :
    OwnerRedact.redactFor owned viewer = OwnedView.mine owned.value :=
  if_pos (by simpa using own)

theorem redactFor_other {viewer : P} {owned : Owned P T} (other : owned.owner ≠ viewer) :
    OwnerRedact.redactFor owned viewer = OwnedView.concealed (conceal owned.value) :=
  if_neg (by simpa using other)

theorem redactFor_eq_iff (viewer : P) (s t : Owned P T) :
    OwnerRedact.redactFor s viewer = OwnerRedact.redactFor t viewer ↔ Same viewer s t := by
  constructor
  · intro alike
    by_cases ours : s.owner = viewer <;> by_cases theirs : t.owner = viewer
    · rw [redactFor_own ours, redactFor_own theirs] at alike
      exact ⟨by simp [ours, theirs], fun _ => OwnedView.mine.inj alike, fun h => absurd ours h⟩
    · rw [redactFor_own ours, redactFor_other theirs] at alike
      cases alike
    · rw [redactFor_other ours, redactFor_own theirs] at alike
      cases alike
    · rw [redactFor_other ours, redactFor_other theirs] at alike
      exact ⟨by simp [ours, theirs], fun h => absurd h ours,
        fun _ => OwnedView.concealed.inj alike⟩
  · rintro ⟨owner, own, others⟩
    by_cases ours : s.owner = viewer
    · rw [redactFor_own ours, redactFor_own (owner.mp ours), own ours]
    · have theirs : t.owner ≠ viewer := fun h => ours (owner.mpr h)
      rw [redactFor_other ours, redactFor_other theirs, others ours]

end Owned

/-! ## Structs -/

variable {P : Type} [Ord P] [Std.TransOrd P]

/-- What the rule of a field lets the viewer tell apart. -/
def Field.Same (viewer : P) : (field : Field) → field.Val P → field.Val P → Prop
  | .public _, a, b => a = b
  | .hiddenPerPrincipal T _, a, b => PerPrincipal.Same (T := T) viewer a b
  | .hiddenOwned T _, a, b => Owned.Same (T := T) viewer a b
  | .hiddenConceal T _, a, b => conceal (T := T) a = conceal (T := T) b
  | .hiddenAll _, _, _ => True

/-- Two states agree on every field, as far as the viewer may tell. -/
def AllSame (viewer : P) : (fields : List Field) → StateOf P fields → StateOf P fields → Prop
  | [], _, _ => True
  | field :: fields, (a, s), (b, t) => field.Same viewer a b ∧ AllSame viewer fields s t

/-- A change of one field that the viewer must not notice: the entry of another principal is
replaced by one with its residue, or the field is hidden from all. -/
def Field.Unseen (viewer : P) : (field : Field) → field.Val P → field.Val P → Prop
  | .public _, _, _ => False
  | .hiddenPerPrincipal T _, a, b =>
    ∃ other held value, other ≠ viewer ∧ PerPrincipal.get (T := T) a other = some held ∧
      conceal value = conceal held ∧ b = PerPrincipal.insert (T := T) a other value
  | .hiddenOwned T _, a, b =>
    Owned.owner (T := T) a ≠ viewer ∧ Owned.owner (T := T) b = Owned.owner (T := T) a ∧
      conceal (Owned.value (T := T) b) = conceal (Owned.value (T := T) a)
  | .hiddenConceal _ _, _, _ => False
  | .hiddenAll _, _, _ => True

/-- One field changes, unseen; all others stay. -/
def Unseen (viewer : P) : (fields : List Field) → StateOf P fields → StateOf P fields → Prop
  | [], _, _ => False
  | field :: fields, (a, s), (b, t) =>
    field.Unseen viewer a b ∧ t = s ∨ b = a ∧ Unseen viewer fields s t

theorem Field.same_refl (viewer : P) (field : Field) (a : field.Val P) :
    field.Same viewer a a := by
  cases field with
  | «public» T => exact rfl
  | hiddenPerPrincipal T impl => exact ⟨rfl, fun _ _ => rfl⟩
  | hiddenOwned T impl => exact ⟨Iff.rfl, fun _ => rfl, fun _ => rfl⟩
  | hiddenConceal T impl => exact rfl
  | hiddenAll T => exact trivial

theorem allSame_refl (viewer : P) (fields : List Field) (s : StateOf P fields) :
    AllSame viewer fields s s := by
  induction fields with
  | nil => exact trivial
  | cons field fields ih => exact ⟨field.same_refl viewer s.1, ih s.2⟩

variable [Std.LawfulEqOrd P]

theorem Field.Unseen.same {viewer : P} {field : Field} {a b : field.Val P}
    (unseen : field.Unseen viewer a b) : field.Same viewer a b := by
  cases field with
  | «public» T => exact unseen.elim
  | hiddenPerPrincipal T impl =>
    obtain ⟨other, held, value, foreign, present, residue, rfl⟩ := unseen
    exact PerPrincipal.Same.insert a foreign present residue
  | hiddenOwned T impl =>
    obtain ⟨foreign, owner, residue⟩ := unseen
    exact ⟨by rw [owner], fun own => absurd own foreign, fun _ => residue.symm⟩
  | hiddenConceal T impl => exact unseen.elim
  | hiddenAll T => exact trivial

theorem Unseen.allSame {viewer : P} {fields : List Field} {s t : StateOf P fields}
    (unseen : Unseen viewer fields s t) : AllSame viewer fields s t := by
  induction fields with
  | nil => exact unseen.elim
  | cons field fields ih =>
    obtain ⟨a, s⟩ := s
    obtain ⟨b, t⟩ := t
    rcases unseen with ⟨changed, rfl⟩ | ⟨rfl, later⟩
    · exact ⟨changed.same, allSame_refl viewer fields _⟩
    · exact ⟨field.same_refl viewer _, ih later⟩

variable [BEq P] [LawfulBEq P]

/-- Two views are equal when they agree on every field that is not hidden from all. -/
theorem viewFor_eq_iff (viewer : P) (fields : List Field) (s t : StateOf P fields) :
    viewFor viewer fields s = viewFor viewer fields t ↔ AllSame viewer fields s t := by
  induction fields with
  | nil => exact iff_of_true rfl trivial
  | cons field fields ih =>
    obtain ⟨a, s⟩ := s
    obtain ⟨b, t⟩ := t
    cases field with
    | «public» T => exact Prod.ext_iff.trans (and_congr Iff.rfl (ih s t))
    | hiddenPerPrincipal T impl =>
      have field := PerPrincipal.redactFor_eq_iff (T := T) viewer a b
      exact Prod.ext_iff.trans (and_congr field (ih s t))
    | hiddenOwned T impl =>
      have field := Owned.redactFor_eq_iff (T := T) viewer a b
      exact Prod.ext_iff.trans (and_congr field (ih s t))
    | hiddenConceal T impl => exact Prod.ext_iff.trans (and_congr Iff.rfl (ih s t))
    | hiddenAll T => exact (ih s t).trans (iff_of_eq (true_and _).symm)

/-- A view reveals what the rules of the fields declare, and nothing else. -/
theorem view_eq_iff (struct : Redacted P) (viewer : P) (s t : StateOf P struct.fields) :
    (View.viewFor s viewer = View.viewFor t viewer ↔ AllSame viewer struct.fields s t) ∧
      (Unseen viewer struct.fields s t → View.viewFor s viewer = View.viewFor t viewer) := by
  have exact_view := viewFor_eq_iff viewer struct.fields s t
  exact ⟨exact_view, fun unseen => exact_view.mpr unseen.allSame⟩

/-! ## The struct of `tests/redaction.rs` -/

namespace Fixture

/-- `struct Hand` and `struct Deck`: others learn how many cards there are. -/
structure Hand where
  cards : List UInt8

instance : Conceal Hand := ⟨UInt8, fun hand => UInt8.ofNat hand.cards.length⟩

/-- `struct FabricationId`: others learn nothing. -/
structure FabricationId where
  id : UInt32

instance : Conceal FabricationId := ⟨Unit, fun _ => ()⟩

/-- `struct MatchState`. -/
def MatchState : Redacted UInt32 where
  input :=
    { attrs := [⟨"redact", .list [.principal UInt32]⟩]
      data := .named
        [⟨"board", [], .plain (List UInt8)⟩,
          ⟨"hands", [⟨"hidden", .path⟩], .perPrincipal Hand inferInstance⟩,
          ⟨"fabrication", [⟨"hidden", .path⟩], .owned FabricationId inferInstance⟩,
          ⟨"decks", [⟨"hidden", .list [.conceal]⟩], .perPrincipal Hand inferInstance⟩,
          ⟨"private_note", [⟨"hidden", .list [.from "all"]⟩, ⟨"allow", .list [.other]⟩],
            .plain UInt64⟩] }
  rules :=
    [(.public, .plain (List UInt8)), (.hiddenOwner, .perPrincipal Hand inferInstance),
      (.hiddenOwner, .owned FabricationId inferInstance),
      (.hiddenConceal, .perPrincipal Hand inferInstance), (.hiddenAll, .plain UInt64)]
  fields :=
    [.public (List UInt8), .hiddenPerPrincipal Hand inferInstance,
      .hiddenOwned FabricationId inferInstance,
      .hiddenConceal (PerPrincipal UInt32 Hand) inferInstance, .hiddenAll UInt64]
  accepted := rfl
  compiles := rfl

/-- `sample`, with the cards that participant 2 holds. -/
def sample (held : List UInt8) : StateOf UInt32 MatchState.fields :=
  ([100, 101], (PerPrincipal.mk ∅ |>.insert 1 ⟨[10, 11]⟩ |>.insert 2 ⟨held⟩), ⟨1, ⟨7⟩⟩,
    (PerPrincipal.mk ∅ |>.insert 1 ⟨[1, 2, 3, 4]⟩ |>.insert 2 ⟨[5, 6]⟩), (0xDEADBEEF : UInt64), ())

end Fixture

open Fixture in
/-- Participant 1 cannot tell which three cards participant 2 holds, only that there are three. -/
theorem view_eq_iff_dealt :
    View.viewFor (sample [20, 21, 22]) (1 : UInt32) = View.viewFor (sample [20, 21, 23]) 1 ∧
      View.viewFor (sample [20, 21, 22]) (1 : UInt32) ≠ View.viewFor (sample [20, 21]) 1 := by
  refine ⟨(view_eq_iff MatchState 1 _ _).2 ?_, ?_⟩
  · refine .inr ⟨rfl, .inl ⟨⟨2, ⟨[20, 21, 22]⟩, ⟨[20, 21, 23]⟩, ?_, ?_, rfl, ?_⟩, rfl⟩⟩
    · decide
    · exact BTreeMap.getElem?_insert_self _ _ _
    · exact congrArg PerPrincipal.mk (BTreeMap.insert_insert _ _ _ _).symm
  · intro alike
    have hands := ((view_eq_iff MatchState 1 _ _).1.mp alike).2.1.others 2 (by decide)
    unfold PerPrincipal.get PerPrincipal.insert at hands
    rw [BTreeMap.getElem?_insert_self, BTreeMap.getElem?_insert_self] at hands
    have sizes : (3 : UInt8) = 2 := Option.some.inj hands
    exact absurd sizes (by decide)

end Ironstate
