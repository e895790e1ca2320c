import Mathlib.Data.List.Basic

/-!
# Serialized transactions

A transaction reads and writes one state and may fail on the way, which rolls it back. A commit can fail
too, and then the writes may or may not have been made.
-/

namespace Transactions

variable {σ ε α ι : Type}

/-- The result of a transaction and the state after it. The error of a commit says whether the writes
have been made. -/
def transact (body : σ → Except ε (α × σ)) (commit : Except (ε × Bool) Unit) (d : σ) :
    Except ε α × σ :=
  match body d with
  | .error e => (.error e, d)
  | .ok (a, d') =>
    match commit with
    | .ok () => (.ok a, d')
    | .error (e, made) => (.error e, if made then d' else d)

variable {body : σ → Except ε (α × σ)} {commit : Except (ε × Bool) Unit} {d : σ}

theorem transact_of_error {e : ε} (h : body d = .error e) : transact body commit d = (.error e, d) := by
  rw [transact, h]

theorem transact_snd (body : σ → Except ε (α × σ)) (commit : Except (ε × Bool) Unit) (d : σ) :
    (transact body commit d).2 = d ∨ ∃ a, body d = .ok (a, (transact body commit d).2) := by
  unfold transact
  cases body d with
  | error e => exact Or.inl rfl
  | ok made =>
    cases commit with
    | ok u => exact Or.inr ⟨made.1, rfl⟩
    | error failure =>
      obtain ⟨e, written⟩ := failure
      cases written with
      | true => exact Or.inr ⟨made.1, rfl⟩
      | false => exact Or.inl rfl

theorem transact_fst_ok {a : α} (h : (transact body commit d).1 = .ok a) :
    body d = .ok (a, (transact body commit d).2) := by
  unfold transact at h ⊢
  cases hbody : body d with
  | error e =>
    rw [hbody] at h
    cases h
  | ok made =>
    cases hcommit : commit with
    | ok u =>
      rw [hbody, hcommit] at h
      obtain rfl : made.1 = a := Except.ok.inj h
      rfl
    | error e =>
      rw [hbody, hcommit] at h
      cases h

theorem foldl_keeps {P : σ → Prop} {step : σ → ι → σ} (hstep : ∀ d i, P d → P (step d i)) (h : P d)
    (ops : List ι) : P (ops.foldl step d) := by
  induction ops generalizing d with
  | nil => exact h
  | cons op rest ih => exact ih (hstep d op h)

end Transactions
