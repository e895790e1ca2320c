import Mathlib

/-!
# Fallible loops

Inversion of `Except` programs that succeed: a bind has a successful first part, a `mapM` relates its
lists elementwise, and a `foldlM` keeps what every successful step keeps.
-/

namespace ExceptList

variable {ε α β σ : Type}

theorem bind_eq_ok {x : Except ε α} {f : α → Except ε β} {b : β} :
    (x >>= f) = .ok b ↔ ∃ a, x = .ok a ∧ f a = .ok b := by
  cases x with
  | error e =>
    constructor
    · intro h
      cases h
    · rintro ⟨a, h, _⟩
      cases h
  | ok a =>
    constructor
    · exact fun h => ⟨a, rfl, h⟩
    · rintro ⟨a', h, hf⟩
      cases h
      exact hf

theorem exists_ok_of_isOk {x : Except ε α} (h : x.isOk = true) : ∃ a, x = .ok a := by
  cases x with
  | error e => cases h
  | ok a => exact ⟨a, rfl⟩

theorem eq_ok_of_isOk {x : Except ε Unit} (h : x.isOk = true) : x = .ok () := by
  obtain ⟨_, hx⟩ := exists_ok_of_isOk h
  exact hx

def failIf (p : Prop) [Decidable p] (e : ε) : Except ε Unit := if p then .error e else .ok ()

@[simp]
theorem failIf_eq_ok {p : Prop} [Decidable p] {e : ε} {u : Unit} : failIf p e = .ok u ↔ ¬p := by
  unfold failIf
  split_ifs with h <;> simp [h]

def checkIf (p : Prop) [Decidable p] (x : Except ε Unit) : Except ε Unit := if p then x else .ok ()

@[simp]
theorem checkIf_eq_ok {p : Prop} [Decidable p] {x : Except ε Unit} {u : Unit} :
    checkIf p x = .ok u ↔ (p → x = .ok ()) := by
  unfold checkIf
  split_ifs with h <;> simp [h]

theorem mapError_eq_ok {ε' : Type} {x : Except ε α} {g : ε → ε'} {a : α} :
    x.mapError g = .ok a ↔ x = .ok a := by
  cases x <;> simp [Except.mapError]

theorem map_eq_ok {x : Except ε α} {g : α → β} {b : β} :
    x.map g = .ok b ↔ ∃ a, x = .ok a ∧ g a = b := by
  cases x with
  | error e => simp [Except.map]
  | ok a => simp [Except.map]

theorem mapM_eq_some_iff {f : α → Option β} {l : List α} {r : List β} :
    l.mapM f = some r ↔ List.Forall₂ (fun a b => f a = some b) l r := by
  induction l generalizing r with
  | nil => cases r <;> simp
  | cons a rest ih =>
    rw [List.mapM_cons]
    simp only [Option.bind_eq_bind, Option.bind_eq_some_iff, ih]
    constructor
    · rintro ⟨b, hb, rest', hrest, h⟩
      obtain rfl := Option.some.inj h
      exact .cons hb hrest
    · intro h
      obtain ⟨b, rest', hb, hrest, rfl⟩ := List.forall₂_cons_left_iff.mp h
      exact ⟨b, hb, rest', hrest, rfl⟩

theorem mapM_eq_ok_iff {f : α → Except ε β} {xs : List α} {ys : List β} :
    xs.mapM f = .ok ys ↔ List.Forall₂ (fun x y => f x = .ok y) xs ys := by
  induction xs generalizing ys with
  | nil =>
    rw [List.mapM_nil, List.forall₂_nil_left_iff]
    constructor
    · intro h
      cases h
      rfl
    · rintro rfl
      rfl
  | cons x xs ih =>
    rw [List.mapM_cons, bind_eq_ok, List.forall₂_cons_left_iff]
    constructor
    · rintro ⟨y, hy, h⟩
      rw [bind_eq_ok] at h
      obtain ⟨ys', hys', h⟩ := h
      cases h
      exact ⟨y, ys', hy, ih.mp hys', rfl⟩
    · rintro ⟨y, ys', hy, hys', rfl⟩
      refine ⟨y, hy, ?_⟩
      rw [bind_eq_ok]
      exact ⟨ys', ih.mpr hys', rfl⟩

theorem length_of_mapM_eq_ok {f : α → Except ε β} {xs : List α} {ys : List β}
    (h : xs.mapM f = .ok ys) : ys.length = xs.length :=
  (mapM_eq_ok_iff.mp h).length_eq.symm

theorem exists_mem_forall₂ {R : α → β → Prop} {xs : List α} {ys : List β} {P : β → Prop}
    {Q : α → Prop} (h : List.Forall₂ R xs ys) (hPQ : ∀ x y, R x y → (P y ↔ Q x)) :
    (∃ y ∈ ys, P y) ↔ ∃ x ∈ xs, Q x := by
  induction h with
  | nil => simp
  | cons hxy _ ih => simp [ih, hPQ _ _ hxy]

theorem exists_mem_mapM {f : α → Except ε β} {xs : List α} {ys : List β}
    (h : xs.mapM f = .ok ys) (P : β → Prop) :
    (∃ y ∈ ys, P y) ↔ ∃ x ∈ xs, ∃ y, f x = .ok y ∧ P y := by
  apply exists_mem_forall₂ (mapM_eq_ok_iff.mp h)
  intro x y hxy
  simp [hxy]

theorem forall₂_zip_iff {γ : Type} {R : α → β → Prop} {S : α → γ → Prop} {xs : List α}
    {ys : List β} {zs : List γ} (hlen : ys.length = zs.length) :
    List.Forall₂ (fun x p => R x p.1 ∧ S x p.2) xs (ys.zip zs) ↔
      List.Forall₂ R xs ys ∧ List.Forall₂ S xs zs := by
  induction ys generalizing xs zs with
  | nil =>
    obtain rfl : zs = [] := List.length_eq_zero_iff.mp hlen.symm
    simp
  | cons y ys ih =>
    obtain ⟨z, zs, rfl⟩ := List.exists_cons_of_length_pos (Nat.lt_of_lt_of_eq (Nat.succ_pos _) hlen)
    cases xs with
    | nil => simp
    | cons x xs =>
      simp only [List.zip_cons_cons, List.forall₂_cons, ih (Nat.succ.inj hlen)]
      tauto

theorem foldlM_cons_eq_ok {f : σ → α → Except ε σ} {x : α} {xs : List α} {s s' : σ} :
    (x :: xs).foldlM f s = .ok s' ↔ ∃ t, f s x = .ok t ∧ xs.foldlM f t = .ok s' := by
  rw [List.foldlM_cons, bind_eq_ok]

theorem foldlM_accumulates {f : σ → α → Except ε σ} (Holds : σ → Prop) (P : α → Prop)
    {xs : List α}
    (hstep : ∀ x ∈ xs, ∀ s t, f s x = .ok t → (Holds t ↔ Holds s ∨ P x))
    {s s' : σ} (h : xs.foldlM f s = .ok s') :
    Holds s' ↔ Holds s ∨ ∃ x ∈ xs, P x := by
  induction xs generalizing s with
  | nil =>
    rw [List.foldlM_nil] at h
    cases h
    simp
  | cons x xs ih =>
    obtain ⟨t, ht, hrest⟩ := foldlM_cons_eq_ok.mp h
    rw [ih (fun y hy => hstep y (List.mem_cons_of_mem _ hy)) hrest,
      hstep x List.mem_cons_self s t ht]
    simp only [List.exists_mem_cons_iff, or_assoc]

theorem foldlM_invariant {f : σ → α → Except ε σ} (Inv : σ → Prop) {xs : List α}
    (hstep : ∀ s x t, Inv s → f s x = .ok t → Inv t) {s s' : σ} (hs : Inv s)
    (h : xs.foldlM f s = .ok s') : Inv s' := by
  induction xs generalizing s with
  | nil =>
    cases h
    exact hs
  | cons x xs ih =>
    obtain ⟨t, ht, hrest⟩ := foldlM_cons_eq_ok.mp h
    exact ih (hstep s x t hs ht) hrest

theorem foldlM_perm {f : σ → α → Except ε σ}
    (hcomm : ∀ s x y t s', f s x = .ok t → f t y = .ok s' →
      ∃ t', f s y = .ok t' ∧ f t' x = .ok s')
    {xs ys : List α} (hperm : xs.Perm ys) {s s' : σ} (h : xs.foldlM f s = .ok s') :
    ys.foldlM f s = .ok s' := by
  induction hperm generalizing s with
  | nil => exact h
  | cons x _ ih =>
    obtain ⟨t, ht, hrest⟩ := foldlM_cons_eq_ok.mp h
    exact foldlM_cons_eq_ok.mpr ⟨t, ht, ih hrest⟩
  | swap x y l =>
    obtain ⟨t, ht, hrest⟩ := foldlM_cons_eq_ok.mp h
    obtain ⟨u, hu, hrest⟩ := foldlM_cons_eq_ok.mp hrest
    obtain ⟨t', ht', hu'⟩ := hcomm s y x t u ht hu
    exact foldlM_cons_eq_ok.mpr ⟨t', ht', foldlM_cons_eq_ok.mpr ⟨u, hu', hrest⟩⟩
  | trans _ _ ih₁ ih₂ => exact ih₂ (ih₁ h)

end ExceptList
