import Mathlib

/-!
# Failures counted in windows

A counter of failures starts a window with the first failure at least a given time after the start of
the window before. If a failure that reaches the limit delays the next one, many failures in less than
a window contain such a delay.
-/

namespace FailureWindows

def record (window : Nat) (state : Option (Nat × Nat)) (t : Nat) : Nat × Nat :=
  match state with
  | none => (t, 1)
  | some (start, failures) => if window ≤ t - start then (t, 1) else (start, failures + 1)

theorem record_of_le {window t : Nat} {state : Nat × Nat} (h : window ≤ t - state.1) :
    record window (some state) t = (t, 1) :=
  if_pos h

theorem record_of_not_le {window t : Nat} {state : Nat × Nat} (h : ¬window ≤ t - state.1) :
    record window (some state) t = (state.1, state.2 + 1) :=
  if_neg h

def count (window : Nat) (times : List Nat) : Option (Nat × Nat) :=
  times.foldl (fun state t => some (record window state t)) none

theorem count_append (window : Nat) (times : List Nat) (t : Nat) :
    count window (times ++ [t]) = some (record window (count window times) t) := by
  rw [count, List.foldl_append]
  rfl

def Paced (window limit delay : Nat) (times : List Nat) : Prop :=
  ∀ before t t' after, times = before ++ t :: t' :: after →
    (∀ start failures, count window (before ++ [t]) = some (start, failures) → limit ≤ failures →
      t + delay ≤ t')

theorem paced_nil {window limit delay : Nat} : Paced window limit delay [] := by
  intro before t t' after h
  simp at h

theorem Paced.append {window limit delay t : Nat} {times : List Nat}
    (h : Paced window limit delay times)
    (hlast : ∀ before last, times = before ++ [last] → ∀ start failures,
      count window times = some (start, failures) → limit ≤ failures → last + delay ≤ t) :
    Paced window limit delay (times ++ [t]) := by
  intro before u u' after heq start failures hcount hlimit
  rcases List.eq_nil_or_concat after with rfl | ⟨rest, last, rfl⟩
  · have hsplit : times ++ [t] = (before ++ [u]) ++ [u'] := by simpa using heq
    obtain ⟨hbefore, hu⟩ := List.append_inj' hsplit rfl
    obtain rfl : t = u' := List.singleton_inj.mp hu
    exact hlast before u hbefore start failures (hbefore ▸ hcount) hlimit
  · have hsplit : times ++ [t] = (before ++ u :: u' :: rest) ++ [last] := by simpa using heq
    obtain ⟨hbefore, -⟩ := List.append_inj' hsplit rfl
    exact h before u u' rest hbefore start failures hcount hlimit

theorem exists_limit_reached {window limit : Nat} {b start failures : Nat → Nat} (hlimit : 0 < limit)
    (hfirst : 1 ≤ failures 0)
    (hstep : ∀ k, k + 1 < 2 * limit →
      (start (k + 1) = start k ∧ failures (k + 1) = failures k + 1) ∨
      (window ≤ b (k + 1) - start k ∧ start (k + 1) = b (k + 1) ∧ failures (k + 1) = 1))
    (hspan : ∀ i k, i ≤ k → k < 2 * limit → b k - b i < window) :
    ∃ k, k + 1 < 2 * limit ∧ limit ≤ failures k := by
  -- Either no window has started since the first failure, or exactly one has, at failure `i`.
  have hcount : ∀ k, k < 2 * limit → (∀ j ≤ k, j + 1 ≤ failures j) ∨
      ∃ i, 1 ≤ i ∧ i ≤ k ∧ start k = b i ∧ failures k + i = k + 1 ∧ ∀ j < i, j + 1 ≤ failures j := by
    intro k
    induction k with
    | zero =>
      intro _
      refine .inl fun j hj => ?_
      obtain rfl : j = 0 := by omega
      exact hfirst
    | succ k ih =>
      intro hk
      rcases ih (by omega) with hall | ⟨i, hi, hik, hstart, hfailures, hbefore⟩
      · rcases hstep k hk with ⟨-, hnext⟩ | ⟨-, hstart, hnext⟩
        · refine .inl fun j hj => ?_
          rcases Nat.lt_or_ge j (k + 1) with hlt | hge
          · exact hall j (by omega)
          · obtain rfl : j = k + 1 := by omega
            have := hall k (le_refl _)
            omega
        · exact .inr ⟨k + 1, by omega, le_refl _, hstart, by omega, fun j hj => hall j (by omega)⟩
      · rcases hstep k hk with ⟨hsame, hnext⟩ | ⟨hnew, -⟩
        · exact .inr ⟨i, hi, by omega, hsame.trans hstart, by omega, hbefore⟩
        · have := hspan i (k + 1) (by omega) hk
          rw [hstart] at hnew
          omega
  rcases hcount (2 * limit - 2) (by omega) with hall | ⟨i, -, -, -, hfailures, hbefore⟩
  · have := hall (2 * limit - 2) (le_refl _)
    exact ⟨2 * limit - 2, by omega, by omega⟩
  · rcases Nat.lt_or_ge i limit with hlt | hge
    · exact ⟨2 * limit - 2, by omega, by omega⟩
    · have := hbefore (limit - 1) (by omega)
      exact ⟨limit - 1, by omega, by omega⟩

theorem take_succ_eq {times : List Nat} {k : Nat} (h : k < times.length) :
    times.take (k + 1) = times.take k ++ [times.getD k 0] := by
  rw [List.take_add_one, List.getElem?_eq_getElem h, List.getD_eq_getElem _ _ h]
  rfl

theorem count_step (window : Nat) (times : List Nat) (t t' : Nat) :
    ∃ state state' : Nat × Nat, count window (times ++ [t]) = some state ∧
      count window (times ++ [t] ++ [t']) = some state' ∧ 1 ≤ state.2 ∧
      ((state'.1 = state.1 ∧ state'.2 = state.2 + 1) ∨
        (window ≤ t' - state.1 ∧ state'.1 = t' ∧ state'.2 = 1)) := by
  have hpos : 1 ≤ (record window (count window times) t).2 := by
    unfold record
    split
    · exact le_refl _
    · split_ifs
      · exact le_refl _
      · exact Nat.le_add_left 1 _
  refine ⟨_, record window (some (record window (count window times) t)) t', count_append window times t,
    by rw [count_append, count_append], hpos, ?_⟩
  by_cases hnew : window ≤ t' - (record window (count window times) t).1
  · rw [record_of_le hnew]
    exact .inr ⟨hnew, rfl, rfl⟩
  · rw [record_of_not_le hnew]
    exact .inl ⟨rfl, rfl⟩

theorem Paced.exists_delay {window limit delay : Nat} {times before burst after : List Nat}
    (h : Paced window limit delay times) (heq : times = before ++ burst ++ after) (hlimit : 0 < limit)
    (hlength : burst.length = 2 * limit) (hspan : ∀ t ∈ burst, ∀ t' ∈ burst, t' - t < window) :
    ∃ front t t' back, burst = front ++ t :: t' :: back ∧ t + delay ≤ t' := by
  let b : Nat → Nat := fun k => burst.getD k 0
  let state : Nat → Nat × Nat := fun k => (count window (before ++ burst.take (k + 1))).getD (0, 0)
  have hmem : ∀ k, k < 2 * limit → b k ∈ burst := by
    intro k hk
    have hk' : k < burst.length := by omega
    show burst.getD k 0 ∈ burst
    rw [List.getD_eq_getElem _ _ hk']
    exact List.getElem_mem hk'
  have htake : ∀ k, k < 2 * limit → before ++ burst.take (k + 1) = before ++ burst.take k ++ [b k] := by
    intro k hk
    rw [take_succ_eq (by omega), List.append_assoc]
  have hstep : ∀ k, k + 1 < 2 * limit → 1 ≤ (state k).2 ∧
      (((state (k + 1)).1 = (state k).1 ∧ (state (k + 1)).2 = (state k).2 + 1) ∨
      (window ≤ b (k + 1) - (state k).1 ∧ (state (k + 1)).1 = b (k + 1) ∧ (state (k + 1)).2 = 1)) := by
    intro k hk
    obtain ⟨found, found', hfirst, hsecond, hpos, hcases⟩ :=
      count_step window (before ++ burst.take k) (b k) (b (k + 1))
    have hstate : state k = found := by
      show (count window (before ++ burst.take (k + 1))).getD (0, 0) = _
      rw [htake k (by omega), hfirst, Option.getD_some]
    have hstate' : state (k + 1) = found' := by
      show (count window (before ++ burst.take (k + 1 + 1))).getD (0, 0) = _
      rw [htake (k + 1) hk, htake k (by omega), hsecond, Option.getD_some]
    rw [hstate, hstate']
    exact ⟨hpos, hcases⟩
  obtain ⟨k, hk, hfull⟩ := @exists_limit_reached window limit b (fun k => (state k).1)
    (fun k => (state k).2) hlimit (hstep 0 (by omega)).1 (fun k hk => (hstep k hk).2)
    (fun i k hik hk => hspan _ (hmem i (by omega)) _ (hmem k hk))
  have hsplit : burst = burst.take k ++ b k :: b (k + 1) :: burst.drop (k + 2) := by
    calc burst = burst.take (k + 1 + 1) ++ burst.drop (k + 2) := (List.take_append_drop _ _).symm
      _ = burst.take k ++ b k :: b (k + 1) :: burst.drop (k + 2) := by
        rw [take_succ_eq (by omega), take_succ_eq (by omega)]
        simp [b]
  refine ⟨_, _, _, _, hsplit, ?_⟩
  obtain ⟨⟨start, failures⟩, -, hcount, -⟩ :=
    count_step window (before ++ burst.take k) (b k) (b (k + 1))
  refine h (before ++ burst.take k) (b k) (b (k + 1)) (burst.drop (k + 2) ++ after) ?_ start failures
    hcount ?_
  · rw [heq]
    conv_lhs => rw [hsplit]
    simp
  · have hstate : state k = (start, failures) := by
      show (count window (before ++ burst.take (k + 1))).getD (0, 0) = _
      rw [htake k (by omega), hcount, Option.getD_some]
    simpa [hstate] using hfull

end FailureWindows
