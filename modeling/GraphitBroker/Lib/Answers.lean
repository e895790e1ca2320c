import GraphitBroker.Lib.Steps

/-!
# Programs with one answer

Among the choices of the environment some may be ruled out: a failure, a clock past a deadline.
`Gives` says that whatever the environment still chooses, a program changes nothing and ends with one
and the same outcome.
-/

namespace Steps

namespace Machine

variable {Op : Type → Type} {ε σ L M α β : Type} (mc : Machine Op ε σ L M)
  (allowed : mc.Choice → Prop)

def Gives : Prog Op ε α → σ → Except ε α → Prop
  | .pure value, _, r => r = .ok value
  | .throw error, _, r => r = .error error
  | .step op next, s, r => ∀ choice, allowed choice →
      (mc.exec op choice s).2 = none ∧ Gives (next (mc.exec op choice s).1) s r

variable {mc allowed} {s : σ} {r : Except ε β}

theorem gives_pure (value : α) : mc.Gives allowed (.pure value) s (.ok value) := rfl

theorem gives_throw (error : ε) :
    mc.Gives allowed (.throw error : Prog Op ε α) s (.error error) := rfl

variable {f : α → Prog Op ε β} {p : Prog Op ε α} {r' : Except ε α}

theorem Gives.then {value : α}
    (hp : mc.Gives allowed p s (.ok value)) (hf : mc.Gives allowed (f value) s r) :
    mc.Gives allowed (p.bind f) s r := by
  induction p with
  | pure value' =>
    obtain rfl : value = value' := Except.ok.inj hp
    exact hf
  | throw error => cases hp
  | step op next ih =>
    intro choice hchoice
    obtain ⟨hsilent, hnext⟩ := hp choice hchoice
    exact ⟨hsilent, ih _ hnext⟩

theorem Gives.stop {error : ε}
    (hp : mc.Gives allowed p s (.error error)) : mc.Gives allowed (p.bind f) s (.error error) := by
  induction p with
  | pure value => cases hp
  | throw error' => exact congrArg Except.error (Except.error.inj hp)
  | step op next ih =>
    intro choice hchoice
    obtain ⟨hsilent, hnext⟩ := hp choice hchoice
    exact ⟨hsilent, ih _ hnext⟩

theorem gives_attempt (hp : mc.Gives allowed p s r') :
    mc.Gives allowed p.attempt s (.ok r') := by
  induction p with
  | pure value => exact congrArg Except.ok hp
  | throw error => exact congrArg Except.ok hp
  | step op next ih =>
    intro choice hchoice
    obtain ⟨hsilent, hnext⟩ := hp choice hchoice
    exact ⟨hsilent, ih _ hnext⟩

theorem gives_ofExcept (r' : Except ε α) : mc.Gives allowed (.ofExcept r') s r' := by
  cases r' <;> rfl

theorem gives_ofExcept_eq {r₁ r₂ : Except ε α} (h : r₁ = r₂) :
    mc.Gives allowed (.ofExcept r₁) s r₂ := by
  rw [← h]
  exact gives_ofExcept r₁

theorem gives_mapError {f : ε → ε}
    (hp : mc.Gives allowed p s r') : mc.Gives allowed (p.mapError f) s (r'.mapError f) :=
  Gives.then (gives_attempt hp) (gives_ofExcept _)

theorem gives_perform {op : Op α}
    (h : ∀ choice, allowed choice → mc.exec op choice s = (r', none)) :
    mc.Gives allowed (.perform op) s r' := by
  intro choice hchoice
  rw [h choice hchoice]
  exact ⟨rfl, gives_ofExcept r'⟩

theorem gives_step {op : Op α}
    (h : ∀ choice, allowed choice → ∃ value, mc.exec op choice s = (.ok value, none) ∧
      mc.Gives allowed (f value) s r) :
    mc.Gives allowed ((Prog.perform op).bind f) s r := by
  intro choice hchoice
  obtain ⟨value, hexec, hf⟩ := h choice hchoice
  rw [hexec]
  exact ⟨rfl, hf⟩

variable [LinearOrder L]

theorem Gives.run (hp : mc.Gives allowed p s r')
    {choices : Nat → mc.Choice} (hchoices : ∀ n, allowed (choices n)) (loc : Local L M) :
    (mc.run p choices loc s).result = r' ∧ (mc.run p choices loc s).state = s := by
  induction p generalizing choices loc with
  | pure value => exact ⟨Eq.symm hp, rfl⟩
  | throw error => exact ⟨Eq.symm hp, rfl⟩
  | step op next ih =>
    obtain ⟨hsilent, hnext⟩ := hp (choices 0) (hchoices 0)
    have hstate : mc.apply s (mc.exec op (choices 0) s).2 = s := by rw [hsilent]; rfl
    rw [Machine.run, hstate]
    exact ih _ hnext (fun n => hchoices (n + 1)) _

-- unification stops here: programs are taken apart by the rules above
attribute [irreducible] Gives

end Machine

end Steps
