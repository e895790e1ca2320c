import Mathlib

/-!
# Programs of atomic steps

A program is a tree of steps of an interface `Op`, each answered by a value or an error. What a step
does on a shared state is given by a `Machine`: the answer, the mutation of the state it performs,
and the locks it takes and gives back.
-/

namespace Steps

inductive Prog (Op : Type → Type) (ε : Type) (α : Type) : Type 1 where
  | pure (value : α)
  | throw (error : ε)
  | step {β : Type} (op : Op β) (next : Except ε β → Prog Op ε α)

namespace Prog

variable {Op : Type → Type} {ε α β γ : Type}

def bind : Prog Op ε α → (α → Prog Op ε β) → Prog Op ε β
  | .pure value, f => f value
  | .throw error, _ => .throw error
  | .step op next, f => .step op fun answer => bind (next answer) f

instance : Monad (Prog Op ε) where
  pure := Prog.pure
  bind := Prog.bind

def ofExcept : Except ε α → Prog Op ε α
  | .ok value => .pure value
  | .error error => .throw error

def perform (op : Op α) : Prog Op ε α := .step op ofExcept

def attempt : Prog Op ε α → Prog Op ε (Except ε α)
  | .pure value => .pure (.ok value)
  | .throw error => .pure (.error error)
  | .step op next => .step op fun answer => attempt (next answer)

def mapError (f : ε → ε) (p : Prog Op ε α) : Prog Op ε α :=
  bind (attempt p) fun outcome => ofExcept (outcome.mapError f)

@[simp]
theorem pure_eq (value : α) : (Pure.pure value : Prog Op ε α) = .pure value := rfl

@[simp]
theorem bind_eq (p : Prog Op ε α) (f : α → Prog Op ε β) : p >>= f = p.bind f := rfl

theorem bind_assoc (p : Prog Op ε α) (f : α → Prog Op ε β) (g : β → Prog Op ε γ) :
    (p.bind f).bind g = p.bind fun value => (f value).bind g := by
  induction p with
  | pure value => rfl
  | throw error => rfl
  | step op next ih =>
    simp only [bind]
    congr 1
    funext answer
    exact ih answer

end Prog

structure Machine (Op : Type → Type) (ε σ L M : Type) where
  Choice : Type
  exec : {β : Type} → Op β → Choice → σ → Except ε β × Option M
  mutate : M → σ → σ
  acquires : {β : Type} → Op β → Option L
  releases : {β : Type} → Op β → Option L

structure Local (L M : Type) where
  held : List L
  done : List M

namespace Machine

variable {Op : Type → Type} {ε σ L M α β : Type} (mc : Machine Op ε σ L M)

def apply (s : σ) (mutation : Option M) : σ := mutation.elim s fun m => mc.mutate m s

def replay (s : σ) (mutations : List M) : σ := mutations.foldl (fun s m => mc.mutate m s) s

theorem replay_append (s : σ) (xs ys : List M) :
    mc.replay s (xs ++ ys) = mc.replay (mc.replay s xs) ys :=
  List.foldl_append

theorem apply_eq_replay (s : σ) (mutation : Option M) :
    mc.apply s mutation = mc.replay s mutation.toList := by
  cases mutation <;> rfl

variable [LinearOrder L]

def heldAfter (op : Op β) (answer : Except ε β) (held : List L) : List L :=
  match mc.acquires op with
  | some l => if answer.isOk then l :: held else held
  | none =>
    match mc.releases op with
    | some l => held.erase l
    | none => held

def after (op : Op β) (outcome : Except ε β × Option M) (loc : Local L M) : Local L M where
  held := mc.heldAfter op outcome.1 loc.held
  done := loc.done ++ outcome.2.toList

structure Outcome (ε σ L M α : Type) where
  result : Except ε α
  loc : Local L M
  state : σ

def run : Prog Op ε α → (Nat → mc.Choice) → Local L M → σ → Outcome ε σ L M α
  | .pure value, _, loc, s => ⟨.ok value, loc, s⟩
  | .throw error, _, loc, s => ⟨.error error, loc, s⟩
  | .step op next, choices, loc, s =>
    run (next (mc.exec op (choices 0) s).1) (fun n => choices (n + 1))
      (mc.after op (mc.exec op (choices 0) s) loc) (mc.apply s (mc.exec op (choices 0) s).2)

variable (rely : List L → σ → σ → Prop) (guar : Local L M → σ → M → Prop)

def wp : Prog Op ε α → (Except ε α → Local L M → σ → Prop) → Local L M → σ → Prop
  | .pure value, Q, loc, s => Q (.ok value) loc s
  | .throw error, Q, loc, s => Q (.error error) loc s
  | .step op next, Q, loc, s => ∀ s', rely loc.held s s' →
      (∀ l, mc.acquires op = some l → ∀ h ∈ loc.held, h < l) ∧
      ∀ choice, (∀ m, (mc.exec op choice s').2 = some m → guar loc s' m) ∧
        wp (next (mc.exec op choice s').1) Q (mc.after op (mc.exec op choice s') loc)
          (mc.apply s' (mc.exec op choice s').2)

variable {mc rely guar} {loc : Local L M} {s s' : σ}

variable {p : Prog Op ε α} {Q : Except ε α → Local L M → σ → Prop}

theorem wp_mono {Q Q' : Except ε α → Local L M → σ → Prop}
    (hQ : ∀ r loc s, Q r loc s → Q' r loc s) (h : mc.wp rely guar p Q loc s) :
    mc.wp rely guar p Q' loc s := by
  induction p generalizing loc s with
  | pure value => exact hQ _ _ _ h
  | throw error => exact hQ _ _ _ h
  | step op next ih =>
    intro s' hrely
    obtain ⟨horder, hstep⟩ := h s' hrely
    exact ⟨horder, fun choice => ⟨(hstep choice).1, ih _ (hstep choice).2⟩⟩

theorem wp_bind {f : α → Prog Op ε β} {Q : Except ε β → Local L M → σ → Prop} :
    mc.wp rely guar (p.bind f) Q loc s ↔
      mc.wp rely guar p (fun r loc s =>
        match r with
        | .ok value => mc.wp rely guar (f value) Q loc s
        | .error error => Q (.error error) loc s) loc s := by
  induction p generalizing loc s with
  | pure value => rfl
  | throw error => rfl
  | step op next ih => simp only [Prog.bind, wp, ih]

theorem wp_attempt {Q : Except ε (Except ε α) → Local L M → σ → Prop} :
    mc.wp rely guar p.attempt Q loc s ↔
      mc.wp rely guar p (fun r loc s => Q (.ok r) loc s) loc s := by
  induction p generalizing loc s with
  | pure value => rfl
  | throw error => rfl
  | step op next ih => simp only [Prog.attempt, wp, ih]

theorem wp_ofExcept {r : Except ε α} :
    mc.wp rely guar (Prog.ofExcept r) Q loc s ↔ Q r loc s := by
  cases r <;> rfl

theorem wp_mapError {f : ε → ε} :
    mc.wp rely guar (p.mapError f) Q loc s ↔
      mc.wp rely guar p (fun r loc s => Q (r.mapError f) loc s) loc s := by
  rw [Prog.mapError, wp_bind, wp_attempt]
  simp only [wp_ofExcept]

theorem wp_rely (htrans : ∀ held s₁ s₂ s₃, rely held s₁ s₂ → rely held s₂ s₃ → rely held s₁ s₃)
    (hQ : ∀ r loc s s', rely loc.held s s' → Q r loc s → Q r loc s')
    (hrely : rely loc.held s s') (h : mc.wp rely guar p Q loc s) : mc.wp rely guar p Q loc s' := by
  cases p with
  | pure value => exact hQ _ _ _ _ hrely h
  | throw error => exact hQ _ _ _ _ hrely h
  | step op next => exact fun s'' hrely' => h s'' (htrans _ _ _ _ hrely hrely')

theorem run_sound (hrefl : ∀ held s, rely held s s) (h : mc.wp rely guar p Q loc s)
    (choices : Nat → mc.Choice) :
    Q (mc.run p choices loc s).result (mc.run p choices loc s).loc
      (mc.run p choices loc s).state := by
  induction p generalizing choices loc s with
  | pure value => exact h
  | throw error => exact h
  | step op next ih => exact ih _ ((h s (hrefl _ s)).2 (choices 0)).2 _

theorem run_permitted (hrefl : ∀ held s, rely held s s) (h : mc.wp rely guar p Q loc s)
    (choices : Nat → mc.Choice) :
    ∃ new, (mc.run p choices loc s).loc.done = loc.done ++ new ∧
      (mc.run p choices loc s).state = mc.replay s new ∧
      ∀ front m back, new = front ++ m :: back → ∃ loc', guar loc' (mc.replay s front) m := by
  induction p generalizing choices loc s with
  | pure value =>
    refine ⟨[], (List.append_nil _).symm, rfl, fun front m back hnew => ?_⟩
    simp at hnew
  | throw error =>
    refine ⟨[], (List.append_nil _).symm, rfl, fun front m back hnew => ?_⟩
    simp at hnew
  | step op next ih =>
    obtain ⟨hguar, hnext⟩ := (h s (hrefl _ s)).2 (choices 0)
    obtain ⟨new, hdone, hstate, hpermitted⟩ := ih _ hnext fun n => choices (n + 1)
    refine ⟨(mc.exec op (choices 0) s).2.toList ++ new, ?_, ?_, ?_⟩
    · rw [run, hdone, after, List.append_assoc]
    · rw [run, hstate, apply_eq_replay, replay_append]
    · intro front m back hsplit
      cases hm : (mc.exec op (choices 0) s).2 with
      | none =>
        rw [hm] at hsplit hpermitted
        exact hpermitted front m back hsplit
      | some first =>
        rw [hm] at hsplit hpermitted
        cases front with
        | nil =>
          obtain rfl : first = m := (List.cons.inj hsplit).1
          exact ⟨loc, hguar first hm⟩
        | cons head rest =>
          obtain ⟨rfl, hrest⟩ := List.cons.inj hsplit
          exact hpermitted rest m back hrest

end Machine

end Steps
