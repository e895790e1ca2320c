import Mathlib

/-!
# Separator-bounded prefixes

A key lies below a root when it is the root, or continues it right after a separator. The relation
is the path order on separated words: `ab` does not lie below `a`, although `a` is a prefix of it.
-/

namespace SepPath

variable {α : Type*} {sep : α}

def Below (sep : α) (root key : List α) : Prop :=
  key = root ∨ ∃ rest, key = root ++ sep :: rest

@[refl]
theorem Below.refl (root : List α) : Below sep root root := Or.inl rfl

theorem below_append (root rest : List α) : Below sep root (root ++ sep :: rest) :=
  Or.inr ⟨rest, rfl⟩

theorem Below.trans {a b c : List α} (hab : Below sep a b) (hbc : Below sep b c) : Below sep a c := by
  rcases hab with rfl | ⟨rest, rfl⟩
  · exact hbc
  · rcases hbc with rfl | ⟨rest', rfl⟩
    · exact below_append a rest
    · exact Or.inr ⟨rest ++ sep :: rest', by simp⟩

variable {root key : List α}

theorem Below.isPrefix (h : Below sep root key) : root <+: key := by
  rcases h with rfl | ⟨rest, rfl⟩
  · exact List.prefix_refl _
  · exact List.prefix_append _ _

theorem Below.length_le (h : Below sep root key) : root.length ≤ key.length :=
  h.isPrefix.length_le

theorem Below.of_length_le {a b key : List α} (ha : Below sep a key) (hb : Below sep b key)
    (hle : a.length ≤ b.length) : Below sep a b := by
  obtain ⟨rest, hrest⟩ := List.prefix_of_prefix_length_le ha.isPrefix hb.isPrefix hle
  subst hrest
  cases rest with
  | nil => exact Or.inl (List.append_nil a)
  | cons c rest =>
    rcases ha with rfl | ⟨tail, rfl⟩
    · have := hb.length_le
      simp only [List.length_append, List.length_cons] at this
      omega
    · obtain ⟨more, hmore⟩ := hb.isPrefix
      rw [List.append_assoc] at hmore
      have hcons := List.append_cancel_left hmore
      rw [List.cons_append, List.cons.injEq] at hcons
      rw [hcons.1]
      exact below_append a rest

theorem Below.comparable {a b key : List α} (ha : Below sep a key) (hb : Below sep b key) :
    Below sep a b ∨ Below sep b a := by
  rcases Nat.le_total a.length b.length with hle | hle
  · exact Or.inl (ha.of_length_le hb hle)
  · exact Or.inr (hb.of_length_le ha hle)

theorem below_iff_prefix :
    Below sep root key ↔ key = root ∨ root ++ [sep] <+: key := by
  constructor
  · rintro (heq | ⟨rest, heq⟩)
    · exact Or.inl heq
    · exact Or.inr ⟨rest, by simp [heq]⟩
  · rintro (heq | ⟨rest, heq⟩)
    · exact Or.inl heq
    · exact Or.inr ⟨rest, by simp [← heq]⟩

instance [DecidableEq α] (root key : List α) : Decidable (Below sep root key) :=
  decidable_of_iff _ below_iff_prefix.symm

theorem below_append_sep_iff (hroot : ∀ init, root ≠ init ++ [sep]) :
    Below sep root (key ++ [sep]) ↔ Below sep root key := by
  constructor
  · rintro (heq | ⟨rest, hrest⟩)
    · exact absurd heq.symm (hroot key)
    · cases hlast : rest.reverse with
      | nil =>
        obtain rfl : rest = [] := List.reverse_eq_nil_iff.mp hlast
        exact Or.inl (List.append_inj_left' hrest rfl)
      | cons c init =>
        obtain rfl : rest = init.reverse ++ [c] := by
          rw [← List.reverse_reverse rest, hlast, List.reverse_cons]
        refine Or.inr ⟨init.reverse, ?_⟩
        rw [← List.cons_append, ← List.append_assoc] at hrest
        exact List.append_inj_left' hrest rfl
  · intro h
    exact h.trans (below_append key [])

section Words

variable [DecidableEq α]

theorem splitOn_append_sep (a b : List α) :
    (a ++ sep :: b).splitOn sep = a.splitOn sep ++ b.splitOn sep :=
  List.splitOnP_append_cons a b (by simp)

theorem splitOn_of_notMem {a : List α} (h : sep ∉ a) : a.splitOn sep = [a] := by
  have := @List.splitOn_intercalate _ [a] _ _ sep (by simpa using h) (by simp)
  simpa using this

theorem splitOn_ne_nil (a : List α) : a.splitOn sep ≠ [] := by
  simp [List.splitOn, List.splitOnP_ne_nil]

theorem splitOn_injective : Function.Injective (List.splitOn sep) := by
  intro a b hab
  rw [← @List.intercalate_splitOn _ a _ _ sep, ← @List.intercalate_splitOn _ b _ _ sep, hab]

omit [DecidableEq α] in
theorem intercalate_append {xs ys : List (List α)} (hxs : xs ≠ []) (hys : ys ≠ []) :
    [sep].intercalate (xs ++ ys) = [sep].intercalate xs ++ sep :: [sep].intercalate ys := by
  induction xs with
  | nil => exact absurd rfl hxs
  | cons x xs ih =>
    cases xs with
    | nil =>
      obtain ⟨y, ys, rfl⟩ := List.exists_cons_of_ne_nil hys
      simp [List.intercalate, List.intersperse]
    | cons x' xs =>
      have := ih (by simp)
      simp only [List.intercalate, List.cons_append, List.intersperse_cons_cons, List.flatten_cons,
        List.append_assoc] at this ⊢
      rw [this]

theorem below_iff_splitOn {root key : List α} :
    Below sep root key ↔ root.splitOn sep <+: key.splitOn sep := by
  constructor
  · rintro (rfl | ⟨rest, rfl⟩)
    · exact List.prefix_refl _
    · rw [splitOn_append_sep]
      exact List.prefix_append _ _
  · rintro ⟨words, hwords⟩
    have hkey := @List.intercalate_splitOn _ key _ _ sep
    rw [← hwords] at hkey
    by_cases hnil : words = []
    · left
      rw [hnil, List.append_nil] at hwords
      exact (splitOn_injective hwords).symm
    · right
      rw [intercalate_append (splitOn_ne_nil root) hnil, List.intercalate_splitOn] at hkey
      exact ⟨_, hkey.symm⟩

theorem not_below_of_words {a b key : List α} (hab : ¬ a.splitOn sep <+: b.splitOn sep)
    (hba : ¬ b.splitOn sep <+: a.splitOn sep) (ha : Below sep a key) : ¬ Below sep b key := by
  intro hb
  rcases ha.comparable hb with h | h
  · exact hab (below_iff_splitOn.mp h)
  · exact hba (below_iff_splitOn.mp h)

theorem exists_mem_splitOn {s : List α} {c : α} (hc : c ∈ s) (hne : c ≠ sep) :
    ∃ word ∈ s.splitOn sep, c ∈ word := by
  induction hlen : s.length using Nat.strong_induction_on generalizing s with
  | _ n ih =>
    by_cases hsep : sep ∈ s
    · obtain ⟨a, b, rfl⟩ := List.append_of_mem hsep
      have hlengths : a.length + (b.length + 1) = n := by simpa using hlen
      rw [splitOn_append_sep]
      rcases List.mem_append.mp hc with ha | hb
      · obtain ⟨word, hword, hmem⟩ := ih a.length (by omega) ha rfl
        exact ⟨word, List.mem_append_left _ hword, hmem⟩
      · have hb : c ∈ b := (List.mem_cons.mp hb).resolve_left hne
        obtain ⟨word, hword, hmem⟩ := ih b.length (by omega) hb rfl
        exact ⟨word, List.mem_append_right _ hword, hmem⟩
    · exact ⟨s, by rw [splitOn_of_notMem hsep]; exact List.mem_singleton_self s, hc⟩

theorem notMem_of_mem_splitOn {s word : List α} (h : word ∈ s.splitOn sep) : sep ∉ word := by
  induction hlen : s.length using Nat.strong_induction_on generalizing s with
  | _ n ih =>
    by_cases hsep : sep ∈ s
    · obtain ⟨a, b, rfl⟩ := List.append_of_mem hsep
      have hlengths : a.length + (b.length + 1) = n := by simpa using hlen
      rw [splitOn_append_sep] at h
      rcases List.mem_append.mp h with ha | hb
      · exact ih a.length (by omega) ha rfl
      · exact ih b.length (by omega) hb rfl
    · rw [splitOn_of_notMem hsep] at h
      rwa [List.mem_singleton.mp h]

theorem eq_of_splitOn_append {root key word : List α}
    (h : key.splitOn sep = root.splitOn sep ++ [word]) : key = root ++ sep :: word := by
  rw [← @List.intercalate_splitOn _ key _ _ sep, h,
    intercalate_append (splitOn_ne_nil root) (List.cons_ne_nil _ _), List.intercalate_splitOn]
  simp [List.intercalate]

theorem eq_of_splitOn_singleton {key word : List α} (h : key.splitOn sep = [word]) : key = word := by
  rw [← @List.intercalate_splitOn _ key _ _ sep, h]
  simp [List.intercalate]

theorem length_splitOn_le {s : List α} (h : ∀ word ∈ s.splitOn sep, word ≠ []) :
    (s.splitOn sep).length ≤ s.length := by
  induction hlen : s.length using Nat.strong_induction_on generalizing s with
  | _ n ih =>
    by_cases hsep : sep ∈ s
    · obtain ⟨a, b, rfl⟩ := List.append_of_mem hsep
      have hlengths : a.length + (b.length + 1) = n := by simpa using hlen
      rw [splitOn_append_sep] at h ⊢
      have ha := ih a.length (by omega) (fun w hw => h w (List.mem_append_left _ hw)) rfl
      have hb := ih b.length (by omega) (fun w hw => h w (List.mem_append_right _ hw)) rfl
      rw [List.length_append]
      omega
    · rw [splitOn_of_notMem hsep] at h ⊢
      have hpos := List.length_pos_of_ne_nil (h s (List.mem_singleton_self s))
      rw [List.length_singleton]
      omega

end Words

section Heading

variable [DecidableEq α]

def heading (sep : α) (pre key : List α) : List α :=
  pre ++ (key.drop pre.length).takeWhile (· ≠ sep)

theorem heading_append (pre rest : List α) :
    heading sep pre (pre ++ rest) = pre ++ rest.takeWhile (· ≠ sep) := by
  rw [heading, List.drop_left]

theorem isPrefix_heading (pre key : List α) : pre <+: heading sep pre key := List.prefix_append _ _

theorem below_heading {pre key : List α} (h : pre <+: key) : Below sep (heading sep pre key) key := by
  obtain ⟨rest, rfl⟩ := h
  rw [heading_append]
  have hsplit := List.takeWhile_append_dropWhile (p := fun c => decide (c ≠ sep)) (l := rest)
  cases htail : rest.dropWhile (fun c => decide (c ≠ sep)) with
  | nil =>
    rw [htail, List.append_nil] at hsplit
    exact Or.inl (by rw [hsplit])
  | cons c tail =>
    have hsep : c = sep := by
      have hhead := @List.head_dropWhile_not _ (fun c => decide (c ≠ sep)) rest
        (by rw [htail]; exact List.cons_ne_nil c tail)
      simp only [htail, List.head_cons] at hhead
      simpa using hhead
    subst hsep
    refine Or.inr ⟨tail, ?_⟩
    rw [List.append_assoc, ← htail, hsplit]

theorem heading_of_below {pre root key : List α} (hpre : pre <+: root) (h : Below sep root key) :
    heading sep pre key = heading sep pre root := by
  obtain ⟨rest, rfl⟩ := hpre
  rcases h with rfl | ⟨tail, rfl⟩
  · rfl
  · rw [List.append_assoc, heading_append, heading_append, List.takeWhile_append]
    split_ifs with hall
    · rw [List.takeWhile_cons_of_neg (by simp), List.append_nil]
      exact congrArg (pre ++ ·) ((List.takeWhile_prefix _).eq_of_length hall).symm
    · rfl

theorem heading_eq_self {pre key : List α} (hpre : pre <+: key) (h : sep ∉ key.drop pre.length) :
    heading sep pre key = key := by
  obtain ⟨rest, rfl⟩ := hpre
  rw [List.drop_left] at h
  rw [heading_append, List.takeWhile_eq_self_iff.mpr]
  intro c hc
  exact decide_eq_true fun heq => h (heq ▸ hc)

theorem heading_of_not_isPrefix {pre root word : List α} (hpre : pre <+: root ++ sep :: word)
    (hroot : ¬ pre <+: root) (hword : sep ∉ word) :
    heading sep pre (root ++ sep :: word) = root ++ sep :: word := by
  have hlength : root.length < pre.length := by
    by_contra hle
    exact hroot (List.prefix_of_prefix_length_le hpre (List.prefix_append _ _) (not_lt.mp hle))
  refine heading_eq_self hpre fun hmem => hword ?_
  obtain ⟨n, hn⟩ := Nat.exists_eq_add_of_lt hlength
  rw [hn, show root.length + n + 1 = root.length + (n + 1) by omega, ← List.drop_drop,
    List.drop_left, List.drop_succ_cons] at hmem
  exact List.mem_of_mem_drop hmem

end Heading

end SepPath
