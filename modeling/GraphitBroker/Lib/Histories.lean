import GraphitBroker.Lib.Transactions

/-!
# Runs with a history

Transactions that also say what they have written. The history of a run is what its transactions have
written, the latest first, whether or not their callers were told.
-/

namespace Transactions

variable {σ ε α ι η : Type}

/-- The result and the state of a transaction whose writes were made. -/
def written (body : σ → Except ε (α × σ)) (commit : Except (ε × Bool) Unit) (d : σ) : Option (α × σ) :=
  match body d, commit with
  | .ok made, .ok () => some made
  | .ok made, .error (_, true) => some made
  | _, _ => none

theorem body_of_written {body : σ → Except ε (α × σ)} {commit : Except (ε × Bool) Unit} {d : σ}
    {made : α × σ} (h : written body commit d = some made) : body d = .ok made := by
  unfold written at h
  split at h
  · next hbody => rw [hbody, Option.some.inj h]
  · next hbody => rw [hbody, Option.some.inj h]
  · cases h

/-- The state after a transaction, with the events of its history. -/
def record (events : α → List η) (body : σ → Except ε (α × σ)) (commit : Except (ε × Bool) Unit) (d : σ) :
    List η × σ :=
  match written body commit d with
  | none => ([], d)
  | some made => (events made.1, made.2)

/-- Nothing is recorded that was not written. -/
theorem record_cases {events : α → List η} {body : σ → Except ε (α × σ)}
    {commit : Except (ε × Bool) Unit} {d : σ} {P : List η → σ → Prop} (hkept : P [] d)
    (hmade : ∀ a d', body d = .ok (a, d') → P (events a) d') :
    P (record events body commit d).1 (record events body commit d).2 := by
  unfold record
  cases h : written body commit d with
  | none => exact hkept
  | some made => exact hmade _ _ (body_of_written h)

/-- The history and the state after some steps. -/
def historyFrom (step : ι → σ → List η × σ) (s : List η × σ) (ops : List ι) : List η × σ :=
  ops.foldl (fun s op => ((step op s.2).1 ++ s.1, (step op s.2).2)) s

theorem historyFrom_keeps {step : ι → σ → List η × σ} {P : List η → σ → Prop} {ops : List ι}
    (hstep : ∀ op ∈ ops, ∀ h d, P h d → P ((step op d).1 ++ h) (step op d).2)
    {s : List η × σ} (hs : P s.1 s.2) :
    P (historyFrom step s ops).1 (historyFrom step s ops).2 := by
  induction ops generalizing s with
  | nil => exact hs
  | cons op rest ih =>
    exact ih (fun op hop => hstep op (List.mem_cons_of_mem _ hop))
      (hstep op List.mem_cons_self s.1 s.2 hs)

/-! ### Counting -/

/-- Of what the events `made`, some was `spent` and `n` are left. -/
def Tallied (made spent : η → Bool) (history : List η) (n : Nat) : Prop :=
  history.countP spent + n ≤ history.countP made

variable {made spent : η → Bool} {history : List η} {n m : Nat}

theorem Tallied.mono (h : Tallied made spent history n) (hle : m ≤ n) :
    Tallied made spent history m :=
  Nat.le_trans (Nat.add_le_add_left hle _) h

theorem Tallied.cons {e : η} (h : Tallied made spent history n)
    (hle : m + (spent e).toNat ≤ n + (made e).toNat) : Tallied made spent (e :: history) m := by
  unfold Tallied at h ⊢
  rw [List.countP_cons, List.countP_cons]
  cases hs : spent e <;> cases hm : made e <;> simp [hs, hm] at hle ⊢ <;> omega

/-- A step uses only what is there, and leaves only what was there or is made. -/
theorem toNat_add_toNat_le {before after used made : Bool} (hused : used = true → before = true)
    (hleft : after = true → made = true ∨ used = false ∧ before = true) :
    after.toNat + used.toNat ≤ before.toNat + made.toNat := by
  revert before after used made
  decide

/-- How many of one satisfy a test. -/
def held {β : Type} (p : β → Bool) (o : Option β) : Nat := (o.any p).toNat

theorem held_mono {β : Type} {p : β → Bool} {o o' : Option β}
    (h : ∀ x, o' = some x → p x = true → ∃ y, o = some y ∧ p y = true) : held p o' ≤ held p o := by
  cases o' with
  | none => exact Nat.zero_le _
  | some x =>
    cases hx : p x with
    | false => simp [held, hx]
    | true =>
      obtain ⟨y, rfl, hy⟩ := h x rfl hx
      simp [held, hx, hy]

end Transactions
