import Mathlib.Logic.Function.Basic
import Mathlib.Tactic.SplitIfs

/-!
# A lock and one thing kept under it

`Exclusive` says of the parties to a lock that whoever stands in the critical section is the holder.
`Custody` follows numbered things that are started one after the other: each is kept in one place or is
gone, and no two are kept at the same time.
-/

namespace Locks

variable {P L : Type*}

/-- A step that is possible in some states only. -/
def guarded {σ : Type*} (p : Prop) [Decidable p] (s : σ) : Option σ := if p then some s else none

theorem guarded_eq_some {σ : Type*} {p : Prop} [Decidable p] {s s' : σ} :
    guarded p s = some s' ↔ p ∧ s = s' := by
  simp only [guarded]
  split_ifs with h <;> simp [h]

def Exclusive (holds : P → Bool) (holder : Option P) : Prop :=
  ∀ p, holds p = true → holder = some p

namespace Exclusive

variable {holds : P → Bool} {holder : Option P} {p q : P} {b : Bool}

theorem unique (h : Exclusive holds holder) (hp : holds p = true) (hq : holds q = true) : p = q :=
  Option.some.inj ((h p hp).symm.trans (h q hq))

theorem not_holds (h : Exclusive holds holder) (hp : holds p = true) (hne : q ≠ p) :
    holds q = false := by
  cases hq : holds q with
  | false => rfl
  | true => exact absurd (h.unique hq hp) hne

variable [DecidableEq P]

theorem acquire (h : Exclusive holds none) (p : P) (b : Bool) :
    Exclusive (Function.update holds p b) (some p) := by
  intro q hq
  by_cases hqp : q = p
  · rw [hqp]
  · rw [Function.update_of_ne hqp] at hq
    exact absurd (h q hq) (by simp)

theorem release (h : Exclusive holds holder) (hp : holds p = true) (holder' : Option P) :
    Exclusive (Function.update holds p false) holder' := by
  intro q hq
  by_cases hqp : q = p
  · simp [hqp] at hq
  · rw [Function.update_of_ne hqp, h.not_holds hp hqp] at hq
    cases hq

theorem keep (h : Exclusive holds holder) (hb : b = true → holds p = true) :
    Exclusive (Function.update holds p b) holder := by
  intro q hq
  by_cases hqp : q = p
  · subst hqp
    exact h q (hb (by simpa using hq))
  · exact h q (by rwa [Function.update_of_ne hqp] at hq)

theorem pass (h : Exclusive holds holder) (hp : holds p = true) (q : P) :
    Exclusive (Function.update (Function.update holds p false) q true) (some q) :=
  (h.release hp none).acquire q true

end Exclusive

/-- `kept` says what each place keeps. Of the things started so far each one is gone or is kept, and at
most one is kept. -/
structure Custody (kept : L → Option Nat) (started : Nat) (gone : List Nat) : Prop where
  known : ∀ l w, kept l = some w → w < started
  live : ∀ l w, kept l = some w → w ∉ gone
  alone : ∀ l l' w w', kept l = some w → kept l' = some w' → l = l'
  accounted : ∀ w < started, w ∈ gone ∨ ∃ l, kept l = some w
  gone : ∀ w ∈ gone, w < started

namespace Custody

variable {kept : L → Option Nat} {started w : Nat} {gone : List Nat} {l : L}

theorem none_of_ne (h : Custody kept started gone) (hl : kept l = some w) {m : L} (hne : m ≠ l) :
    kept m = none := by
  cases hm : kept m with
  | none => rfl
  | some v => exact absurd (h.alone m l v w hm hl) hne

theorem unique (h : Custody kept started gone) {w' : Nat} (hw : w < started) (hw' : w' < started)
    (hlive : w ∉ gone) (hlive' : w' ∉ gone) : w = w' := by
  obtain ⟨l, hl⟩ := (h.accounted w hw).resolve_left hlive
  obtain ⟨l', hl'⟩ := (h.accounted w' hw').resolve_left hlive'
  obtain rfl := h.alone l l' w w' hl hl'
  exact Option.some.inj (hl.symm.trans hl')

variable [DecidableEq L]

theorem same (h : Custody kept started gone) {o : Option Nat} (ho : kept l = o) :
    Custody (Function.update kept l o) started gone := by
  rwa [← ho, Function.update_eq_self]

theorem start (h : Custody kept started gone) (hempty : ∀ l, kept l = none) (l : L) :
    Custody (Function.update kept l (some started)) (started + 1) gone := by
  have honly : ∀ l' w, Function.update kept l (some started) l' = some w → l' = l ∧ w = started := by
    intro l' w hw
    by_cases hl : l' = l
    · subst hl
      exact ⟨rfl, by simpa using hw.symm⟩
    · rw [Function.update_of_ne hl, hempty] at hw
      cases hw
  constructor
  · intro l' w hw
    have := (honly l' w hw).2
    omega
  · intro l' w hw hgone
    have hlt := h.gone w hgone
    have := (honly l' w hw).2
    omega
  · intro l₁ l₂ w₁ w₂ h₁ h₂
    rw [(honly l₁ w₁ h₁).1, (honly l₂ w₂ h₂).1]
  · intro w hw
    rcases Nat.lt_succ_iff_lt_or_eq.mp hw with hlt | rfl
    · refine (h.accounted w hlt).imp_right ?_
      rintro ⟨l', hl'⟩
      simp [hempty] at hl'
    · exact .inr ⟨l, by simp⟩
  · intro w hw
    exact Nat.lt_succ_of_lt (h.gone w hw)

theorem retire (h : Custody kept started gone) (hl : kept l = some w) :
    Custody (Function.update kept l none) started (w :: gone) := by
  have hempty : ∀ l', Function.update kept l none l' = none := by
    intro l'
    by_cases hne : l' = l
    · simp [hne]
    · rw [Function.update_of_ne hne, h.none_of_ne hl hne]
  constructor
  · simp [hempty]
  · simp [hempty]
  · simp [hempty]
  · intro w' hw'
    refine .inl ?_
    rcases h.accounted w' hw' with hgone | ⟨l', hl'⟩
    · exact List.mem_cons_of_mem w hgone
    · obtain rfl := h.alone l l' w w' hl hl'
      obtain rfl : w' = w := Option.some.inj (hl'.symm.trans hl)
      exact List.mem_cons_self
  · intro w' hw'
    rcases List.mem_cons.mp hw' with rfl | hgone
    · exact h.known l w' hl
    · exact h.gone w' hgone

theorem move (h : Custody kept started gone) (hl : kept l = some w) (l' : L) :
    Custody (Function.update (Function.update kept l none) l' (some w)) started gone := by
  have honly : ∀ k v, Function.update (Function.update kept l none) l' (some w) k = some v →
      k = l' ∧ v = w := by
    intro k v hv
    by_cases hk : k = l'
    · subst hk
      exact ⟨rfl, by simpa using hv.symm⟩
    · rw [Function.update_of_ne hk] at hv
      by_cases hkl : k = l
      · simp [hkl] at hv
      · rw [Function.update_of_ne hkl, h.none_of_ne hl hkl] at hv
        cases hv
  constructor
  · intro k v hv
    rw [(honly k v hv).2]
    exact h.known l w hl
  · intro k v hv
    rw [(honly k v hv).2]
    exact h.live l w hl
  · intro k₁ k₂ v₁ v₂ h₁ h₂
    rw [(honly k₁ v₁ h₁).1, (honly k₂ v₂ h₂).1]
  · intro v hv
    refine (h.accounted v hv).imp_right ?_
    rintro ⟨k, hk⟩
    obtain rfl := h.alone l k w v hl hk
    obtain rfl : v = w := Option.some.inj (hk.symm.trans hl)
    exact ⟨l', by simp⟩
  · exact h.gone

end Custody

end Locks
