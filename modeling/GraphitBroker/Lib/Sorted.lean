import Mathlib

/-!
# Ordered sets and maps

Ordered collections as strictly increasing lists. The invariant is a field, so iteration order and
the absence of duplicates hold by construction.
-/

@[ext]
structure SortedSet (α : Type*) [LinearOrder α] where
  toList : List α
  sorted : toList.Pairwise (· < ·)

namespace SortedSet

variable {α : Type*} [LinearOrder α]

instance : Membership α (SortedSet α) := ⟨fun s x => x ∈ s.toList⟩

variable {s : SortedSet α}

theorem mem_def {x : α} : x ∈ s ↔ x ∈ s.toList := Iff.rfl

instance (s : SortedSet α) (x : α) : Decidable (x ∈ s) := inferInstanceAs (Decidable (x ∈ s.toList))

def empty : SortedSet α := ⟨[], List.Pairwise.nil⟩

@[simp]
theorem toList_empty : (empty : SortedSet α).toList = [] := rfl

@[simp]
theorem not_mem_empty (x : α) : x ∉ (empty : SortedSet α) := List.not_mem_nil

def insertList (x : α) : List α → List α
  | [] => [x]
  | y :: ys =>
    if x < y then x :: y :: ys
    else if x = y then y :: ys
    else y :: insertList x ys

theorem mem_insertList {x z : α} {xs : List α} : z ∈ insertList x xs ↔ z = x ∨ z ∈ xs := by
  induction xs with
  | nil => simp [insertList]
  | cons y ys ih =>
    rw [insertList]
    split_ifs with hlt heq
    · simp
    · subst heq
      simp
    · simp only [List.mem_cons, ih]
      tauto

theorem sorted_insertList {x : α} {xs : List α} (h : xs.Pairwise (· < ·)) :
    (insertList x xs).Pairwise (· < ·) := by
  induction xs with
  | nil => simp [insertList]
  | cons y ys ih =>
    rw [insertList]
    split_ifs with hlt heq
    · refine List.Pairwise.cons ?_ h
      intro z hz
      rcases List.mem_cons.mp hz with rfl | hz
      · exact hlt
      · exact hlt.trans (List.rel_of_pairwise_cons h hz)
    · exact h
    · refine List.Pairwise.cons ?_ (ih h.of_cons)
      intro z hz
      rcases mem_insertList.mp hz with rfl | hz
      · exact lt_of_le_of_ne (not_lt.mp hlt) (Ne.symm heq)
      · exact List.rel_of_pairwise_cons h hz

def insert (s : SortedSet α) (x : α) : SortedSet α :=
  ⟨insertList x s.toList, sorted_insertList s.sorted⟩

@[simp]
theorem mem_insert {x z : α} : z ∈ s.insert x ↔ z = x ∨ z ∈ s :=
  mem_insertList

def extend (s : SortedSet α) (xs : List α) : SortedSet α :=
  xs.foldl insert s

@[simp]
theorem mem_extend {xs : List α} {z : α} : z ∈ s.extend xs ↔ z ∈ xs ∨ z ∈ s := by
  induction xs generalizing s with
  | nil => simp [extend]
  | cons x xs ih =>
    change z ∈ (s.insert x).extend xs ↔ _
    rw [ih, mem_insert, List.mem_cons]
    tauto

def filter (s : SortedSet α) (p : α → Bool) : SortedSet α :=
  ⟨s.toList.filter p, s.sorted.filter p⟩

@[simp]
theorem mem_filter {p : α → Bool} {z : α} :
    z ∈ s.filter p ↔ z ∈ s ∧ p z = true :=
  List.mem_filter

def size (s : SortedSet α) : Nat := s.toList.length

def popLast (s : SortedSet α) : SortedSet α :=
  ⟨s.toList.dropLast, s.sorted.sublist (List.dropLast_sublist _)⟩

def smallest (n : Nat) (s : SortedSet α) : SortedSet α :=
  ⟨s.toList.take n, s.sorted.sublist (List.take_sublist n _)⟩

theorem take_insertList (x : α) (n : Nat) (xs : List α) :
    (insertList x (xs.take n)).take n = (insertList x xs).take n := by
  induction xs generalizing n with
  | nil => rw [List.take_nil]
  | cons y ys ih =>
    cases n with
    | zero => simp
    | succ n =>
      rw [List.take_succ_cons, insertList, insertList]
      split_ifs
      · rw [List.take_succ_cons, List.take_succ_cons]
        cases n with
        | zero => rfl
        | succ n => simp [List.take_take]
      · rw [List.take_succ_cons, List.take_succ_cons, List.take_take, min_self]
      · rw [List.take_succ_cons, List.take_succ_cons, ih]

theorem length_insertList_le (x : α) (xs : List α) : (insertList x xs).length ≤ xs.length + 1 := by
  induction xs with
  | nil => simp [insertList]
  | cons y ys ih =>
    rw [insertList]
    split_ifs <;> simp only [List.length_cons] at * <;> omega

theorem smallest_insert (n : Nat) (s : SortedSet α) (x : α) :
    (if n < ((s.smallest n).insert x).size then ((s.smallest n).insert x).popLast
      else (s.smallest n).insert x) = (s.insert x).smallest n := by
  have hlength : (insertList x (s.toList.take n)).length ≤ n + 1 :=
    (length_insertList_le x _).trans (by simp)
  apply SortedSet.ext
  show _ = (insertList x s.toList).take n
  rw [← take_insertList x n s.toList]
  split_ifs with hlarge
  · have hfull : (insertList x (s.toList.take n)).length = n + 1 :=
      le_antisymm hlength hlarge
    show (insertList x (s.toList.take n)).dropLast = _
    rw [List.dropLast_eq_take, hfull]
    rfl
  · exact (List.take_of_length_le (not_lt.mp hlarge)).symm

theorem lt_size_smallest_succ (n : Nat) (s : SortedSet α) :
    n < (s.smallest (n + 1)).size ↔ n < s.size := by
  show n < (s.toList.take (n + 1)).length ↔ n < s.toList.length
  rw [List.length_take]
  omega

theorem popLast_smallest_succ (n : Nat) (s : SortedSet α) :
    (if n < s.size then (s.smallest (n + 1)).popLast else s.smallest (n + 1)) = s.smallest n := by
  apply SortedSet.ext
  split_ifs with h
  · have hlength : (s.toList.take (n + 1)).length = n + 1 := by
      rw [List.length_take]
      exact min_eq_left h
    show (s.toList.take (n + 1)).dropLast = s.toList.take n
    rw [List.dropLast_eq_take, hlength, List.take_take, Nat.add_sub_cancel, min_eq_left (Nat.le_succ n)]
  · have hle : s.toList.length ≤ n := not_lt.mp h
    show s.toList.take (n + 1) = s.toList.take n
    rw [List.take_of_length_le hle, List.take_of_length_le (Nat.le_succ_of_le hle)]

theorem ext_mem {s t : SortedSet α} (h : ∀ x, x ∈ s ↔ x ∈ t) : s = t := by
  have hperm : s.toList.Perm t.toList := by
    rw [List.perm_ext_iff_of_nodup (s.sorted.imp ne_of_lt) (t.sorted.imp ne_of_lt)]
    exact h
  exact SortedSet.ext (hperm.eq_of_pairwise (fun a b _ _ hab hba => absurd hab hba.asymm)
    s.sorted t.sorted)

end SortedSet

structure SortedMap (κ : Type*) (υ : Type*) [LinearOrder κ] where
  entries : List (κ × υ)
  sorted : entries.Pairwise (fun a b => a.1 < b.1)

namespace SortedMap

variable {κ υ : Type*} [LinearOrder κ]

def empty : SortedMap κ υ := ⟨[], List.Pairwise.nil⟩

def getList (k : κ) : List (κ × υ) → Option υ
  | [] => none
  | entry :: rest => if entry.1 = k then some entry.2 else getList k rest

def get? (m : SortedMap κ υ) (k : κ) : Option υ := getList k m.entries

@[simp]
theorem get?_empty (k : κ) : (empty : SortedMap κ υ).get? k = none := rfl

def alterList (k : κ) (d : υ) (f : υ → υ) : List (κ × υ) → List (κ × υ)
  | [] => [(k, f d)]
  | entry :: rest =>
    if k < entry.1 then (k, f d) :: entry :: rest
    else if k = entry.1 then (k, f entry.2) :: rest
    else entry :: alterList k d f rest

variable {entries : List (κ × υ)} {f : υ → υ} {k : κ} {m : SortedMap κ υ}

theorem mem_keys_alterList {d : υ} {entry : κ × υ}
    (h : entry ∈ alterList k d f entries) : entry.1 = k ∨ ∃ old ∈ entries, old.1 = entry.1 := by
  induction entries with
  | nil =>
    simp only [alterList, List.mem_singleton] at h
    exact Or.inl (by rw [h])
  | cons head rest ih =>
    rw [alterList] at h
    split_ifs at h with hlt heq
    · rcases List.mem_cons.mp h with rfl | h
      · exact Or.inl rfl
      · exact Or.inr ⟨entry, h, rfl⟩
    · rcases List.mem_cons.mp h with rfl | h
      · exact Or.inl rfl
      · exact Or.inr ⟨entry, List.mem_cons_of_mem _ h, rfl⟩
    · rcases List.mem_cons.mp h with rfl | h
      · exact Or.inr ⟨entry, List.mem_cons_self, rfl⟩
      · rcases ih h with h | ⟨old, hold, hkey⟩
        · exact Or.inl h
        · exact Or.inr ⟨old, List.mem_cons_of_mem _ hold, hkey⟩

theorem sorted_alterList {d : υ} (h : entries.Pairwise (fun a b => a.1 < b.1)) :
    (alterList k d f entries).Pairwise (fun a b => a.1 < b.1) := by
  induction entries with
  | nil => simp [alterList]
  | cons head rest ih =>
    rw [alterList]
    split_ifs with hlt heq
    · refine List.Pairwise.cons ?_ h
      intro entry hentry
      rcases List.mem_cons.mp hentry with rfl | hentry
      · exact hlt
      · exact hlt.trans (List.rel_of_pairwise_cons h hentry)
    · subst heq
      exact List.Pairwise.cons (fun entry hentry => List.rel_of_pairwise_cons h hentry) h.of_cons
    · refine List.Pairwise.cons ?_ (ih h.of_cons)
      intro entry hentry
      rcases mem_keys_alterList hentry with hkey | ⟨old, hold, hkey⟩
      · rw [hkey]
        exact lt_of_le_of_ne (not_lt.mp hlt) (Ne.symm heq)
      · rw [← hkey]
        exact List.rel_of_pairwise_cons h hold

def alter (m : SortedMap κ υ) (k : κ) (d : υ) (f : υ → υ) : SortedMap κ υ :=
  ⟨alterList k d f m.entries, sorted_alterList m.sorted⟩

theorem getList_eq_none (h : ∀ entry ∈ entries, entry.1 ≠ k) :
    getList k entries = none := by
  induction entries with
  | nil => rfl
  | cons head rest ih =>
    rw [getList, if_neg (h head List.mem_cons_self)]
    exact ih fun entry hentry => h entry (List.mem_cons_of_mem _ hentry)

theorem get?_alter (m : SortedMap κ υ) (k k' : κ) (d : υ) (f : υ → υ) :
    (m.alter k d f).get? k' = if k' = k then some (f ((m.get? k).getD d)) else m.get? k' := by
  obtain ⟨entries, hsorted⟩ := m
  change getList k' (alterList k d f entries) =
    if k' = k then some (f ((getList k entries).getD d)) else getList k' entries
  induction entries with
  | nil =>
    by_cases hk : k' = k
    · simp [alterList, getList, hk]
    · simp [alterList, getList, hk, Ne.symm hk]
  | cons head rest ih =>
    have hrest := ih hsorted.of_cons
    rw [alterList]
    by_cases hlt : k < head.1
    · -- `k` is below every key, so it had no entry
      have hnone : getList k (head :: rest) = none := by
        apply getList_eq_none
        intro entry hentry
        rcases List.mem_cons.mp hentry with rfl | hentry
        · exact hlt.ne'
        · exact (hlt.trans (List.rel_of_pairwise_cons hsorted hentry)).ne'
      rw [if_pos hlt, hnone, getList]
      by_cases hk : k' = k
      · simp [hk]
      · simp [hk, Ne.symm hk]
    · rw [if_neg hlt]
      by_cases heq : k = head.1
      · subst heq
        by_cases hk : k' = head.1
        · simp [getList, hk]
        · simp [getList, hk, Ne.symm hk]
      · rw [if_neg heq, getList, hrest, getList, if_neg (Ne.symm heq)]
        by_cases hk : k' = k
        · simp [hk, Ne.symm heq]
        · simp [hk, getList]

theorem mem_entries_iff {v : υ} :
    (k, v) ∈ m.entries ↔ m.get? k = some v := by
  obtain ⟨entries, hsorted⟩ := m
  change (k, v) ∈ entries ↔ getList k entries = some v
  induction entries with
  | nil => simp [getList]
  | cons head rest ih =>
    rw [List.mem_cons, getList]
    split_ifs with hk
    · constructor
      · rintro (rfl | hmem)
        · rfl
        · exact absurd hk (List.rel_of_pairwise_cons hsorted hmem).ne
      · intro hv
        left
        rw [← hk, ← Option.some.inj hv]
    · rw [← ih hsorted.of_cons]
      constructor
      · rintro (rfl | hmem)
        · exact absurd rfl hk
        · exact hmem
      · exact Or.inr

/-- Altering one entry by a union: if `f` adds `Q` to what `P` says of the value at `k`, and `P` says
nothing of the missing value, the map gains exactly `Q`. -/
theorem exists_mem_alter {d : υ} (P : κ → υ → Prop)
    {Q : Prop} (hd : ¬ P k d) (hf : ∀ v, P k (f v) ↔ P k v ∨ Q) :
    (∃ entry ∈ (m.alter k d f).entries, P entry.1 entry.2) ↔
      (∃ entry ∈ m.entries, P entry.1 entry.2) ∨ Q := by
  simp only [Prod.exists, mem_entries_iff, get?_alter]
  constructor
  · rintro ⟨k', v, hget, hP⟩
    split_ifs at hget with hk
    · subst hk
      rw [← Option.some.inj hget, hf] at hP
      refine hP.imp_left fun hP => ?_
      cases hold : m.get? k' with
      | none =>
        rw [hold] at hP
        exact absurd hP hd
      | some old =>
        rw [hold] at hP
        exact ⟨k', old, hold, hP⟩
    · exact Or.inl ⟨k', v, hget, hP⟩
  · rintro (⟨k', v, hget, hP⟩ | hQ)
    · by_cases hk : k' = k
      · subst hk
        exact ⟨k', f v, by rw [if_pos rfl, hget]; rfl, (hf v).mpr (Or.inl hP)⟩
      · exact ⟨k', v, by rw [if_neg hk]; exact hget, hP⟩
    · exact ⟨k, _, if_pos rfl, (hf _).mpr (Or.inr hQ)⟩

theorem mem_alter {d : υ} {entry : κ × υ}
    (h : entry ∈ (m.alter k d f).entries) : entry.1 = k ∨ entry ∈ m.entries := by
  obtain ⟨k', v⟩ := entry
  rw [mem_entries_iff, get?_alter] at h
  split_ifs at h with hk
  · exact Or.inl hk
  · exact Or.inr (mem_entries_iff.mpr h)

def insert (m : SortedMap κ υ) (k : κ) (v : υ) : SortedMap κ υ := m.alter k v fun _ => v

@[simp]
theorem get?_insert (m : SortedMap κ υ) (k k' : κ) (v : υ) :
    (m.insert k v).get? k' = if k' = k then some v else m.get? k' :=
  get?_alter m k k' v _

def filter (m : SortedMap κ υ) (p : κ → υ → Bool) : SortedMap κ υ :=
  ⟨m.entries.filter fun entry => p entry.1 entry.2, m.sorted.filter _⟩

@[simp]
theorem get?_filter (m : SortedMap κ υ) (p : κ → υ → Bool) (k : κ) :
    (m.filter p).get? k = (m.get? k).filter (p k) := by
  ext v
  rw [← mem_entries_iff, Option.filter_eq_some_iff, ← mem_entries_iff]
  exact List.mem_filter

def erase (m : SortedMap κ υ) (k : κ) : SortedMap κ υ := m.filter fun k' _ => k' ≠ k

@[simp]
theorem get?_erase (m : SortedMap κ υ) (k k' : κ) :
    (m.erase k).get? k' = if k' = k then none else m.get? k' := by
  rw [erase, get?_filter]
  split_ifs with h
  · cases m.get? k' <;> simp [h]
  · cases m.get? k' <;> simp [h]

def mapValues (m : SortedMap κ υ) (f : κ → υ → υ) : SortedMap κ υ :=
  ⟨m.entries.map fun entry => (entry.1, f entry.1 entry.2), List.pairwise_map.mpr m.sorted⟩

@[simp]
theorem get?_mapValues (m : SortedMap κ υ) (f : κ → υ → υ) (k : κ) :
    (m.mapValues f).get? k = (m.get? k).map (f k) := by
  obtain ⟨entries, hsorted⟩ := m
  change getList k (entries.map _) = (getList k entries).map (f k)
  clear hsorted
  induction entries with
  | nil => rfl
  | cons entry rest ih =>
    rw [List.map_cons, getList, getList, ih]
    by_cases hk : entry.1 = k
    · simp [hk]
    · simp [hk]

end SortedMap
