import GraphitBroker.Lib.Sorted

/-!
# The size of a table

What the operations of a map do to the number of its entries.
-/

namespace SortedMap

variable {κ υ : Type*} [LinearOrder κ] {m : SortedMap κ υ} {k : κ} {v : υ}

def size (m : SortedMap κ υ) : Nat := m.entries.length

theorem nodup_keys (m : SortedMap κ υ) : (m.entries.map Prod.fst).Nodup :=
  (List.pairwise_map.mpr (m.sorted.imp fun h => h.ne))

theorem mem_keys_iff : k ∈ m.entries.map Prod.fst ↔ (m.get? k).isSome = true := by
  rw [List.mem_map, Option.isSome_iff_exists]
  constructor
  · rintro ⟨⟨k', v⟩, hmem, rfl⟩
    exact ⟨v, mem_entries_iff.mp hmem⟩
  · rintro ⟨v, hv⟩
    exact ⟨(k, v), mem_entries_iff.mpr hv, rfl⟩

theorem le_size_of_keys {keys : List κ} (hnodup : keys.Nodup)
    (h : ∀ k ∈ keys, (m.get? k).isSome = true) : keys.length ≤ m.size := by
  have hsub : keys ⊆ m.entries.map Prod.fst := fun k hk => mem_keys_iff.mpr (h k hk)
  simpa [size] using (List.subperm_of_subset hnodup hsub).length_le

theorem size_le_of_keys {m' : SortedMap κ υ}
    (h : ∀ k, (m.get? k).isSome = true → (m'.get? k).isSome = true) : m.size ≤ m'.size := by
  simpa [size] using le_size_of_keys m.nodup_keys fun k hk => h k (mem_keys_iff.mp hk)

theorem size_insert_le : (m.insert k v).size ≤ m.size + 1 := by
  have hsub : (m.insert k v).entries.map Prod.fst ⊆ k :: m.entries.map Prod.fst := by
    intro k' hk'
    rw [mem_keys_iff, get?_insert] at hk'
    split_ifs at hk' with heq
    · exact heq ▸ List.mem_cons_self
    · exact List.mem_cons_of_mem _ (mem_keys_iff.mpr hk')
  simpa [size] using (List.subperm_of_subset (nodup_keys _) hsub).length_le

theorem size_insert_of_isSome (h : (m.get? k).isSome = true) : (m.insert k v).size ≤ m.size := by
  refine size_le_of_keys fun k' hk' => ?_
  rw [get?_insert] at hk'
  split_ifs at hk' with heq
  · exact heq ▸ h
  · exact hk'

theorem size_filter_le {p : κ → υ → Bool} : (m.filter p).size ≤ m.size :=
  List.length_filter_le _ _

theorem size_erase_le : (m.erase k).size ≤ m.size := size_filter_le

end SortedMap
