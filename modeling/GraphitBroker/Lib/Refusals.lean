import Mathlib

/-!
# Runs without what is refused

A machine answers timed events and refuses some of them for a reason of its own, such as a table that
is full. A second machine that lacks the reason is given the other events; the time of an event that
is left out passes before the next one.
-/

namespace Refusals

variable {σ τ ε α : Type}

def run (step : σ → Nat → ε → α × σ) (s : σ) : List (Nat × ε) → List α × σ
  | [] => ([], s)
  | (elapsed, event) :: rest =>
    let r := step s elapsed event
    let rs := run step r.2 rest
    (r.1 :: rs.1, rs.2)

/-- The events whose answers are no refusals, with the time that has passed since the last of them. -/
def unrefused (refused : α → Bool) : Nat → List (Nat × ε) → List α → List (Nat × ε)
  | lag, (elapsed, event) :: events, answer :: answers =>
    if refused answer then unrefused refused (lag + elapsed) events answers
    else (lag + elapsed, event) :: unrefused refused 0 events answers
  | _, _, _ => []

/-- The second machine lags behind by the time of the refusals since its last event. A refusal keeps
the relation, and any other answer is also the second machine's. -/
structure Simulates (step : σ → Nat → ε → α × σ) (step' : τ → Nat → ε → α × τ) (refused : α → Bool)
    (R : Nat → σ → τ → Prop) : Prop where
  refuse : ∀ lag s t elapsed event, R lag s t → refused (step s elapsed event).1 = true →
    R (lag + elapsed) (step s elapsed event).2 t
  follow : ∀ lag s t elapsed event, R lag s t → refused (step s elapsed event).1 = false →
    (step' t (lag + elapsed) event).1 = (step s elapsed event).1 ∧
      R 0 (step s elapsed event).2 (step' t (lag + elapsed) event).2

variable {step : σ → Nat → ε → α × σ} {step' : τ → Nat → ε → α × τ} {refused : α → Bool}
  {R : Nat → σ → τ → Prop} {lag : Nat} {s : σ} {t : τ}

theorem Simulates.run (h : Simulates step step' refused R) (hR : R lag s t)
    (events : List (Nat × ε)) :
    (run step' t (unrefused refused lag events (run step s events).1)).1 =
      (Refusals.run step s events).1.filter fun answer => !refused answer := by
  induction events generalizing lag s t with
  | nil => rfl
  | cons first rest ih =>
    obtain ⟨elapsed, event⟩ := first
    rw [Refusals.run]
    dsimp only
    rw [unrefused, List.filter_cons]
    cases hrefused : refused (step s elapsed event).1 with
    | true => exact ih (h.refuse lag s t elapsed event hR hrefused)
    | false =>
      obtain ⟨hanswer, hnext⟩ := h.follow lag s t elapsed event hR hrefused
      rw [if_neg Bool.false_ne_true, Refusals.run, hanswer]
      exact congrArg (_ :: ·) (ih hnext)

end Refusals
