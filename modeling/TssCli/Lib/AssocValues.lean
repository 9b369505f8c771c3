import Mathlib.Data.List.AList
import Mathlib.Data.List.Nodup
import Mathlib.Data.Finset.Card

/-!
# The values of an association map

An `AList` with a constant value type is a finite map.  This file is about the
list of its values: what `insert` does to it at a new key and at an old one, and
when a field of the values determines the key.
-/

namespace AssocValues

variable {κ ν ι : Type}

/-- The values of a map, one per key. -/
def values (m : AList fun _ : κ => ν) : List ν := m.entries.map Sigma.snd

/-- The keys are as many as the values. -/
theorem length_values (m : AList fun _ : κ => ν) : (values m).length = m.keys.length := by
  rw [values, AList.keys, List.keys, List.length_map, List.length_map]

variable [DecidableEq κ] {m : AList fun _ : κ => ν} {k k' : κ} {v v' : ν}

theorem mem_values_iff : v ∈ values m ↔ ∃ k, m.lookup k = some v := by
  constructor
  · intro h
    obtain ⟨⟨k, v'⟩, he, rfl⟩ := List.mem_map.mp h
    exact ⟨k, AList.mem_lookup_iff.mpr he⟩
  · rintro ⟨k, hk⟩
    exact List.mem_map.mpr ⟨⟨k, v⟩, AList.mem_lookup_iff.mp hk, rfl⟩

theorem mem_values_of_lookup (h : m.lookup k = some v) : v ∈ values m :=
  mem_values_iff.mpr ⟨k, h⟩

/-- A new key adds its value. -/
theorem values_insert_new (h : m.lookup k = none) : values (m.insert k v) = v :: values m := by
  rw [values, AList.entries_insert_of_notMem (AList.lookup_eq_none.mp h)]
  rfl

/-- An old key exchanges its value. -/
theorem values_insert_old (h : m.lookup k = some v) :
    ∃ rest, (values m).Perm (v :: rest) ∧ ∀ v', values (m.insert k v') = v' :: rest := by
  have hmem : k ∈ m.entries.keys := AList.lookup_isSome.mp (by rw [h]; rfl)
  obtain ⟨w, l₁, l₂, hk, hm, he⟩ := List.exists_of_kerase hmem
  have hw : m.lookup k = some w := by
    refine AList.mem_lookup_iff.mpr ?_
    rw [hm]
    simp
  obtain rfl : w = v := by rw [hw] at h; exact Option.some.inj h
  refine ⟨(l₁ ++ l₂).map Sigma.snd, ?_, fun v' => ?_⟩
  · rw [values, hm, List.map_append, List.map_append, List.map_cons]
    exact List.perm_middle
  · rw [values, AList.entries_insert, he]
    rfl

/-- The values that pass a test are as many as the keys they are under. -/
theorem length_filter_values {J : Finset κ} (p : ν → Bool)
    (hJ : ∀ k, k ∈ J ↔ ∃ v, m.lookup k = some v ∧ p v = true) :
    ((values m).filter p).length = J.card := by
  set l := (m.entries.filter fun e => p e.2).map Sigma.fst with hl
  have hnodup : l.Nodup := m.keys_nodup.sublist (List.filter_sublist.map Sigma.fst)
  have hmem : l.toFinset = J := by
    ext k
    rw [List.mem_toFinset, hJ, hl, List.mem_map]
    constructor
    · rintro ⟨⟨k', v⟩, he, rfl⟩
      rw [List.mem_filter] at he
      exact ⟨v, AList.mem_lookup_iff.mpr he.1, he.2⟩
    · rintro ⟨v, hv, hp⟩
      exact ⟨⟨k, v⟩, List.mem_filter.mpr ⟨AList.mem_lookup_iff.mp hv, hp⟩, rfl⟩
  have hlen : ((values m).filter p).length = l.length := by
    rw [values, List.filter_map, List.length_map, hl, List.length_map]
    rfl
  rw [hlen, ← List.toFinset_card_of_nodup hnodup, hmem]

/-- The values are as many as the keys. -/
theorem length_values_eq_card {J : Finset κ} (hJ : ∀ k, k ∈ J ↔ ∃ v, m.lookup k = some v) :
    (values m).length = J.card := by
  have hall : (values m).filter (fun _ => true) = values m := List.filter_eq_self.mpr fun _ _ => rfl
  rw [← hall]
  exact length_filter_values _ fun k => by rw [hJ]; simp

/-- A field that no two values share determines the key. -/
theorem key_eq_of_field {f : ν → ι} (hf : ((values m).map f).Nodup)
    (h : m.lookup k = some v) (h' : m.lookup k' = some v') (he : f v = f v') : k = k' := by
  rw [values, List.map_map] at hf
  have heq := List.inj_on_of_nodup_map hf (AList.mem_lookup_iff.mp h) (AList.mem_lookup_iff.mp h') he
  exact congrArg Sigma.fst heq

end AssocValues
