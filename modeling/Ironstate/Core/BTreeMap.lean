import Std.Data.ExtTreeMap

/-!
# `BTreeMap`

`std::collections::BTreeMap` is the standard library's ordered map, equal when the lookups
are. What the source asks of a key's `Ord` is that it is a total order that agrees with `==`.
-/

namespace Ironstate

/-- `std::collections::BTreeMap`. -/
abbrev BTreeMap (K V : Type) [Ord K] := Std.ExtTreeMap K V compare

namespace BTreeMap

variable {K V : Type} [Ord K] [Std.TransOrd K] [Std.LawfulEqOrd K]

theorem getElem?_insert_self (m : BTreeMap K V) (key : K) (v : V) :
    (m.insert key v)[key]? = some v := by
  rw [Std.ExtTreeMap.getElem?_insert, if_pos (by simp)]

theorem getElem?_insert_ne (m : BTreeMap K V) {key other : K} (v : V) (distinct : other ≠ key) :
    (m.insert key v)[other]? = m[other]? := by
  rw [Std.ExtTreeMap.getElem?_insert, if_neg]
  intro same
  exact distinct (Std.LawfulEqCmp.eq_of_compare same).symm

theorem insert_insert (m : BTreeMap K V) (key : K) (v v' : V) :
    (m.insert key v).insert key v' = m.insert key v' := by
  apply Std.ExtTreeMap.ext_getElem?
  intro other
  by_cases same : other = key
  · subst same
    rw [getElem?_insert_self, getElem?_insert_self]
  · rw [getElem?_insert_ne _ _ same, getElem?_insert_ne _ _ same, getElem?_insert_ne _ _ same]

/-- No two entries have one key. -/
theorem nodup_keys (m : BTreeMap K V) : (m.toList.map Prod.fst).Nodup := by
  rw [List.Nodup, List.pairwise_map]
  apply Std.ExtTreeMap.distinct_keys_toList.imp
  intro earlier later distinct same
  exact distinct (same ▸ Std.ReflCmp.compare_self)

/-- A lookup finds the entry with its key. -/
theorem find?_toList [BEq K] [LawfulBEq K] (m : BTreeMap K V) (key : K) :
    (m.toList.find? fun entry => entry.1 == key).map Prod.snd = m[key]? := by
  cases found : m.toList.find? fun entry => entry.1 == key with
  | some entry =>
    have same := List.find?_some found
    have listed : (key, entry.2) ∈ m.toList :=
      beq_iff_eq.mp same ▸ List.mem_of_find?_eq_some found
    exact (Std.ExtTreeMap.mem_toList_iff_getElem?_eq_some.mp listed).symm
  | none =>
    rw [Option.map_none, eq_comm, Option.eq_none_iff_forall_not_mem]
    intro v present
    have listed : (key, v) ∈ m.toList := Std.ExtTreeMap.mem_toList_iff_getElem?_eq_some.mpr present
    exact List.find?_eq_none.mp found _ listed (beq_self_eq_true key)

omit [Ord K] [Std.TransOrd K] [Std.LawfulEqOrd K] in
/-- No entry has a key that is not listed. -/
theorem find?_absent [BEq K] [LawfulBEq K] {entries : List (K × V)} {key : K}
    (absent : key ∉ entries.map Prod.fst) :
    (entries.find? fun entry => entry.1 == key) = none := by
  rw [List.find?_eq_none]
  intro entry member same
  exact absent (List.mem_map.mpr ⟨entry, member, beq_iff_eq.mp same⟩)

/-- `collect`, onto a map that is there already: a later entry wins. -/
theorem getElem?_collect [BEq K] [LawfulBEq K] (entries : List (K × V))
    (nodup : (entries.map Prod.fst).Nodup) (earlier : BTreeMap K V) (key : K) :
    (entries.foldl (fun collected entry => collected.insert entry.1 entry.2) earlier)[key]? =
      ((entries.find? fun entry => entry.1 == key).map Prod.snd).or earlier[key]? := by
  induction entries generalizing earlier with
  | nil => simp
  | cons entry entries ih =>
    rw [List.map_cons, List.nodup_cons] at nodup
    obtain ⟨absent, nodup⟩ := nodup
    rw [List.foldl_cons, ih nodup]
    by_cases here : entry.1 = key
    · subst here
      rw [getElem?_insert_self]
      simp [find?_absent absent]
    · rw [getElem?_insert_ne _ _ (Ne.symm here)]
      simp [here]

end BTreeMap

end Ironstate
