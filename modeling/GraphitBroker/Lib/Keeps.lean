import GraphitBroker.Lib.Steps

/-!
# Programs that keep what matters

Long stretches of a program only look at the state or perform mutations that nobody minds, such as
making a directory.
-/

namespace Steps

namespace Machine

variable {Op : Type → Type} {ε σ L M α β : Type} [LinearOrder L] (mc : Machine Op ε σ L M)
  (rely : List L → σ → σ → Prop) (guar : Local L M → σ → M → Prop) (minor : M → Prop)

structure Kept (held : List L) (done : List M) (s : σ) (loc : Local L M) (s' : σ) : Prop where
  held_eq : loc.held = held
  moved : rely held s s'
  added : ∃ new, (∀ m ∈ new, minor m) ∧ loc.done = done ++ new

def Keeps (p : Prog Op ε α) (held : List L) (s : σ) (F : Except ε α → σ → Prop) : Prop :=
  ∀ done, mc.wp rely guar p
    (fun r loc s' => Kept rely minor held done s loc s' ∧ F r s') ⟨held, done⟩ s

variable {mc rely guar minor} {held : List L} {done : List M} {s s' : σ} {loc : Local L M}

omit [LinearOrder L] in
theorem Kept.refl (hrefl : ∀ held s, rely held s s) : Kept rely minor held done s ⟨held, done⟩ s :=
  ⟨rfl, hrefl held s, [], fun _ hm => absurd hm List.not_mem_nil, (List.append_nil done).symm⟩

omit [LinearOrder L] in
theorem Kept.trans (htrans : ∀ held s₁ s₂ s₃, rely held s₁ s₂ → rely held s₂ s₃ → rely held s₁ s₃)
    {s₁ s₂ s₃ : σ} {loc₂ loc₃ : Local L M} (h₁ : Kept rely minor held done s₁ loc₂ s₂)
    (h₂ : Kept rely minor held loc₂.done s₂ loc₃ s₃) : Kept rely minor held done s₁ loc₃ s₃ := by
  obtain ⟨new, hnew, hdone⟩ := h₁.added
  obtain ⟨new', hnew', hdone'⟩ := h₂.added
  refine ⟨h₂.held_eq, htrans _ _ _ _ h₁.moved h₂.moved, new ++ new', ?_, ?_⟩
  · intro m hm
    exact (List.mem_append.mp hm).elim (hnew m) (hnew' m)
  · rw [hdone', hdone, List.append_assoc]

variable {p : Prog Op ε α} {F : Except ε α → σ → Prop}

theorem Keeps.mono {F G : Except ε α → σ → Prop} (h : mc.Keeps rely guar minor p held s F)
    (hFG : ∀ r s', rely held s s' → F r s' → G r s') : mc.Keeps rely guar minor p held s G :=
  fun done => wp_mono (fun r _ s' hr => ⟨hr.1, hFG r s' hr.1.moved hr.2⟩) (h done)

theorem keeps_pure (hrefl : ∀ held s, rely held s s) {value : α}
    (hF : F (.ok value) s) : mc.Keeps rely guar minor (.pure value) held s F :=
  fun _ => ⟨Kept.refl hrefl, hF⟩

theorem keeps_throw (hrefl : ∀ held s, rely held s s) {error : ε}
    (hF : F (.error error) s) : mc.Keeps rely guar minor (.throw error) held s F :=
  fun _ => ⟨Kept.refl hrefl, hF⟩

theorem Keeps.bind (htrans : ∀ held s₁ s₂ s₃, rely held s₁ s₂ → rely held s₂ s₃ → rely held s₁ s₃)
    {f : α → Prog Op ε β}
    {G : Except ε β → σ → Prop} (hp : mc.Keeps rely guar minor p held s F)
    (hok : ∀ value s', rely held s s' → F (.ok value) s' →
      mc.Keeps rely guar minor (f value) held s' G)
    (herror : ∀ error s', rely held s s' → F (.error error) s' → G (.error error) s') :
    mc.Keeps rely guar minor (p.bind f) held s G := by
  intro done
  rw [wp_bind]
  refine wp_mono (fun r loc s' hr => ?_) (hp done)
  obtain ⟨hkept, hF⟩ := hr
  obtain ⟨locHeld, locDone⟩ := loc
  obtain rfl : locHeld = held := hkept.held_eq
  cases r with
  | ok value =>
    refine wp_mono (fun r' _ s'' hr' => ?_) (hok value s' hkept.moved hF locDone)
    exact ⟨hkept.trans htrans hr'.1, hr'.2⟩
  | error error => exact ⟨hkept, herror error s' hkept.moved hF⟩

theorem keeps_attempt {F : Except ε (Except ε α) → σ → Prop}
    (h : mc.Keeps rely guar minor p held s fun r s' => F (.ok r) s') :
    mc.Keeps rely guar minor p.attempt held s F :=
  fun done => wp_attempt.mpr (h done)

theorem Keeps.attempt_bind
    (htrans : ∀ held s₁ s₂ s₃, rely held s₁ s₂ → rely held s₂ s₃ → rely held s₁ s₃)
    {f : Except ε α → Prog Op ε β}
    {G : Except ε β → σ → Prop} (hp : mc.Keeps rely guar minor p held s F)
    (hf : ∀ r s', rely held s s' → F r s' → mc.Keeps rely guar minor (f r) held s' G) :
    mc.Keeps rely guar minor (p.attempt.bind f) held s G := by
  have hattempt : mc.Keeps rely guar minor p.attempt held s fun r s' =>
      ∃ outcome, r = .ok outcome ∧ F outcome s' :=
    keeps_attempt (hp.mono fun r s' _ hr => ⟨r, rfl, hr⟩)
  refine hattempt.bind htrans ?_ ?_
  · rintro value s' hmoved ⟨outcome, houtcome, hF⟩
    obtain rfl : value = outcome := Except.ok.inj houtcome
    exact hf value s' hmoved hF
  · rintro error s' _ ⟨outcome, houtcome, _⟩
    cases houtcome

theorem keeps_mapError {f : ε → ε}
    (h : mc.Keeps rely guar minor p held s fun r s' => F (r.mapError f) s') :
    mc.Keeps rely guar minor (p.mapError f) held s F :=
  fun done => wp_mapError.mpr (h done)

theorem keeps_perform {op : Op α}
    (htrans : ∀ held s₁ s₂ s₃, rely held s₁ s₂ → rely held s₂ s₃ → rely held s₁ s₃)
    (hacquires : mc.acquires op = none) (hreleases : mc.releases op = none)
    (hminor : ∀ choice s' m, (mc.exec op choice s').2 = some m →
      minor m ∧ (∀ loc, guar loc s' m) ∧ rely held s' (mc.mutate m s'))
    (hF : ∀ choice s', rely held s s' →
      F (mc.exec op choice s').1 (mc.apply s' (mc.exec op choice s').2)) :
    mc.Keeps rely guar minor (.perform op) held s F := by
  intro done s' hmoved
  refine ⟨fun l hl => by simp [hacquires] at hl, fun choice => ⟨fun m hm => ?_, ?_⟩⟩
  · exact (hminor choice s' m hm).2.1 _
  · rw [wp_ofExcept]
    refine ⟨⟨?_, ?_, (mc.exec op choice s').2.toList, ?_, rfl⟩, hF choice s' hmoved⟩
    · simp [after, heldAfter, hacquires, hreleases]
    · cases hm : (mc.exec op choice s').2 with
      | none => exact hmoved
      | some m => exact htrans _ _ _ _ hmoved (hminor choice s' m hm).2.2
    · intro m hm
      exact (hminor choice s' m (Option.mem_toList.mp hm)).1

theorem wp_of_keeps
    {Q : Except ε α → Local L M → σ → Prop} (h : mc.Keeps rely guar minor p held s F)
    (hQ : ∀ r s' new, rely held s s' → (∀ m ∈ new, minor m) → F r s' →
      Q r ⟨held, done ++ new⟩ s') : mc.wp rely guar p Q ⟨held, done⟩ s := by
  refine wp_mono (fun r loc s' hr => ?_) (h done)
  obtain ⟨locHeld, locDone⟩ := loc
  obtain ⟨⟨hheld, hmoved, new, hnew, hdone⟩, hF⟩ := hr
  simp only at hheld hdone
  subst hheld hdone
  exact hQ r s' new hmoved hnew hF

end Machine

end Steps
