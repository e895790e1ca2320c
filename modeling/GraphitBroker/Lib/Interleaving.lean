import GraphitBroker.Lib.Steps

/-!
# Interleaved programs

Any number of programs take their steps in any order; a lock that some program holds cannot be
taken.
-/

namespace Steps

structure Event (ι M σ : Type) where
  thread : ι
  mutation : M
  before : σ

structure Config (Op : Type → Type) (ε σ L M α ι : Type) : Type 1 where
  prog : ι → Prog Op ε α
  loc : ι → Local L M
  state : σ
  trace : List (Event ι M σ)

variable {Op : Type → Type} {ε σ L M α ι : Type}

def Config.start (prog : ι → Prog Op ε α) (s : σ) : Config Op ε σ L M α ι where
  prog := prog
  loc := fun _ => ⟨[], []⟩
  state := s
  trace := []

namespace Machine

variable [LinearOrder L] [DecidableEq ι] (mc : Machine Op ε σ L M)

def advance (cfg : Config Op ε σ L M α ι) (i : ι) {β : Type} (op : Op β)
    (next : Except ε β → Prog Op ε α) (choice : mc.Choice) : Config Op ε σ L M α ι where
  prog := Function.update cfg.prog i (next (mc.exec op choice cfg.state).1)
  loc := Function.update cfg.loc i (mc.after op (mc.exec op choice cfg.state) (cfg.loc i))
  state := mc.apply cfg.state (mc.exec op choice cfg.state).2
  trace := cfg.trace ++
    ((mc.exec op choice cfg.state).2.map fun m => ⟨i, m, cfg.state⟩).toList

inductive Step (cfg : Config Op ε σ L M α ι) : Config Op ε σ L M α ι → Prop where
  | mk (i : ι) {β : Type} (op : Op β) (next : Except ε β → Prog Op ε α) (choice : mc.Choice)
      (hprog : cfg.prog i = .step op next)
      (hfree : ∀ l, mc.acquires op = some l → (mc.exec op choice cfg.state).1.isOk = true →
        ∀ j, l ∉ (cfg.loc j).held) :
      Step cfg (mc.advance cfg i op next choice)

def Reaches (prog : ι → Prog Op ε α) (s : σ) (cfg : Config Op ε σ L M α ι) : Prop :=
  Relation.ReflTransGen mc.Step (Config.start prog s) cfg

def tick [Fintype ι] (cfg : Config Op ε σ L M α ι) (i : ι) (choice : mc.Choice) :
    Config Op ε σ L M α ι :=
  match cfg.prog i with
  | .step op next =>
    match mc.acquires op with
    | some l =>
      if ∀ j, l ∉ (cfg.loc j).held then mc.advance cfg i op next choice else cfg
    | none => mc.advance cfg i op next choice
  | _ => cfg

def schedule [Fintype ι] (cfg : Config Op ε σ L M α ι) (turns : List (ι × mc.Choice)) :
    Config Op ε σ L M α ι :=
  turns.foldl (fun cfg turn => mc.tick cfg turn.1 turn.2) cfg

variable {mc} in
theorem Reaches.tick [Fintype ι] {prog : ι → Prog Op ε α} {s : σ} {cfg : Config Op ε σ L M α ι}
    (h : mc.Reaches prog s cfg) (i : ι) (choice : mc.Choice) :
    mc.Reaches prog s (mc.tick cfg i choice) := by
  unfold Machine.tick
  split
  · rename_i op next hprog
    split
    · rename_i l hacquires
      split_ifs with hfree
      · refine h.tail (.mk i op next choice hprog fun l' hl' _ => ?_)
        obtain rfl : l = l' := Option.some.inj (hacquires.symm.trans hl')
        exact hfree
      · exact h
    · rename_i hacquires
      refine h.tail (.mk i op next choice hprog fun l hl => ?_)
      rw [hacquires] at hl
      cases hl
  · exact h

variable {mc} in
theorem Reaches.schedule [Fintype ι] {prog : ι → Prog Op ε α} {s : σ}
    {cfg : Config Op ε σ L M α ι} (h : mc.Reaches prog s cfg) (turns : List (ι × mc.Choice)) :
    mc.Reaches prog s (mc.schedule cfg turns) := by
  induction turns generalizing cfg with
  | nil => exact h
  | cons turn rest ih => exact ih (h.tick turn.1 turn.2)

def Wants (cfg : Config Op ε σ L M α ι) (i : ι) (l : L) : Prop :=
  ∃ (β : Type) (op : Op β) (next : Except ε β → Prog Op ε α),
    cfg.prog i = .step op next ∧ mc.acquires op = some l

def WaitsFor (cfg : Config Op ε σ L M α ι) (i j : ι) : Prop :=
  ∃ l, mc.Wants cfg i l ∧ l ∈ (cfg.loc j).held

/-- What a run maintains: the programs that remain meet their specification, no lock has two holders,
and the trace is the history of the state and of every program. -/
structure Sound (rely : List L → σ → σ → Prop) (guar : ι → Local L M → σ → M → Prop)
    (Q : ι → Except ε α → Local L M → Prop) (s₀ : σ) (cfg : Config Op ε σ L M α ι) : Prop where
  programs : ∀ i, mc.wp rely (guar i) (cfg.prog i) (fun r loc _ => Q i r loc) (cfg.loc i) cfg.state
  exclusive : ∀ i j, i ≠ j → ∀ l ∈ (cfg.loc i).held, l ∉ (cfg.loc j).held
  state : cfg.state = mc.replay s₀ (cfg.trace.map (·.mutation))
  own : ∀ i, (cfg.loc i).done = (cfg.trace.filter (·.thread = i)).map (·.mutation)
  permitted : ∀ front event back, cfg.trace = front ++ event :: back →
    event.before = mc.replay s₀ (front.map (·.mutation)) ∧
      ∃ loc : Local L M, guar event.thread loc event.before event.mutation

variable {mc} {rely : List L → σ → σ → Prop} {guar : ι → Local L M → σ → M → Prop}
  {Q : ι → Except ε α → Local L M → Prop} {s₀ : σ} {cfg cfg' : Config Op ε σ L M α ι}

theorem Sound.start {prog : ι → Prog Op ε α}
    (hprog : ∀ i, mc.wp rely (guar i) (prog i) (fun r loc _ => Q i r loc) ⟨[], []⟩ s₀) :
    mc.Sound rely guar Q s₀ (Config.start prog s₀) where
  programs := hprog
  exclusive := fun _ _ _ _ hl => absurd hl List.not_mem_nil
  state := rfl
  own := fun _ => rfl
  permitted := fun front event back h => by
    have hlen := congrArg List.length h
    simp [Config.start] at hlen

theorem mem_heldAfter {β : Type} {op : Op β} {answer : Except ε β} {held : List L} {l : L}
    (h : l ∈ mc.heldAfter op answer held) :
    l ∈ held ∨ (mc.acquires op = some l ∧ answer.isOk = true) := by
  unfold heldAfter at h
  split at h
  · rename_i l' hacquires
    split_ifs at h with hok
    · rcases List.mem_cons.mp h with rfl | h
      · exact Or.inr ⟨hacquires, hok⟩
      · exact Or.inl h
    · exact Or.inl h
  · split at h
    · exact Or.inl (List.mem_of_mem_erase h)
    · exact Or.inl h

section Soundness

variable (hrefl : ∀ held s, rely held s s)
  (htrans : ∀ held s₁ s₂ s₃, rely held s₁ s₂ → rely held s₂ s₃ → rely held s₁ s₃)
  (hcompat : ∀ i loc s m held, guar i loc s m → (∀ l ∈ held, l ∉ loc.held) →
    rely held s (mc.mutate m s))

include hrefl htrans hcompat in
theorem Sound.step (h : mc.Sound rely guar Q s₀ cfg) (hstep : mc.Step cfg cfg') :
    mc.Sound rely guar Q s₀ cfg' := by
  obtain ⟨i, op, next, choice, hprog, hfree⟩ := hstep
  have hwp := h.programs i
  rw [hprog] at hwp
  obtain ⟨_, hchoice⟩ := hwp cfg.state (hrefl _ _)
  obtain ⟨hguar, hnext⟩ := hchoice choice
  refine ⟨?_, ?_, ?_, ?_, ?_⟩
  · intro j
    by_cases hji : j = i
    · subst hji
      simpa [advance] using hnext
    · -- the others may rely on the mutation
      have hrely : rely (cfg.loc j).held cfg.state
          (mc.apply cfg.state (mc.exec op choice cfg.state).2) := by
        cases hm : (mc.exec op choice cfg.state).2 with
        | none => exact hrefl _ _
        | some m => exact hcompat i _ _ m _ (hguar m hm) (h.exclusive j i hji)
      have hother := wp_rely htrans (fun r loc s s' _ hQ => hQ) hrely (h.programs j)
      simpa [advance, Function.update_of_ne hji] using hother
  · intro j k hjk l hj hk
    simp only [advance] at hj hk
    by_cases hji : j = i
    · subst hji
      rw [Function.update_self] at hj
      rw [Function.update_of_ne (Ne.symm hjk)] at hk
      rcases mem_heldAfter hj with hj | ⟨hacquires, hok⟩
      · exact h.exclusive j k hjk l hj hk
      · exact hfree l hacquires hok k hk
    · rw [Function.update_of_ne hji] at hj
      by_cases hki : k = i
      · subst hki
        rw [Function.update_self] at hk
        rcases mem_heldAfter hk with hk | ⟨hacquires, hok⟩
        · exact h.exclusive j k hjk l hj hk
        · exact hfree l hacquires hok j hj
      · rw [Function.update_of_ne hki] at hk
        exact h.exclusive j k hjk l hj hk
  · have hmutations : ((mc.exec op choice cfg.state).2.map fun m =>
        (⟨i, m, cfg.state⟩ : Event ι M σ)).toList.map (·.mutation) =
          (mc.exec op choice cfg.state).2.toList := by
      cases (mc.exec op choice cfg.state).2 <;> rfl
    simp only [advance, List.map_append, hmutations, replay_append, ← h.state, apply_eq_replay]
  · intro j
    simp only [advance, List.filter_append, List.map_append]
    by_cases hji : j = i
    · subst hji
      rw [Function.update_self, after, h.own]
      cases (mc.exec op choice cfg.state).2 <;> simp
    · rw [Function.update_of_ne hji, h.own]
      cases (mc.exec op choice cfg.state).2 <;> simp [Ne.symm hji]
  · intro front event back htrace
    simp only [advance] at htrace
    cases hm : (mc.exec op choice cfg.state).2 with
    | none =>
      rw [hm] at htrace
      exact h.permitted front event back (by simpa using htrace)
    | some m =>
      rw [hm] at htrace
      simp only [Option.map_some, Option.toList_some] at htrace
      rcases List.eq_nil_or_concat back with rfl | ⟨back', last, rfl⟩
      · obtain ⟨rfl, heq⟩ := List.append_inj' htrace rfl
        obtain rfl := (List.cons.inj heq).1
        exact ⟨h.state, _, hguar m hm⟩
      · rw [List.concat_eq_append, ← List.cons_append, ← List.append_assoc] at htrace
        exact h.permitted front event back' (List.append_inj' htrace rfl).1

include hrefl htrans hcompat in
theorem Reaches.sound {prog : ι → Prog Op ε α}
    (hprog : ∀ i, mc.wp rely (guar i) (prog i) (fun r loc _ => Q i r loc) ⟨[], []⟩ s₀)
    (h : mc.Reaches prog s₀ cfg) : mc.Sound rely guar Q s₀ cfg := by
  induction h with
  | refl => exact Sound.start hprog
  | tail _ hstep ih => exact ih.step hrefl htrans hcompat hstep

include hrefl in
theorem Sound.lt_of_wants (h : mc.Sound rely guar Q s₀ cfg) {i : ι} {l held : L}
    (hwants : mc.Wants cfg i l) (hheld : held ∈ (cfg.loc i).held) : held < l := by
  obtain ⟨β, op, next, hprog, hacquires⟩ := hwants
  have hwp := h.programs i
  rw [hprog] at hwp
  exact (hwp cfg.state (hrefl _ _)).1 l hacquires held hheld

include hrefl in
theorem Sound.not_waitsFor_cycle (h : mc.Sound rely guar Q s₀ cfg) (i : ι) :
    ¬ Relation.TransGen (mc.WaitsFor cfg) i i := by
  have hchain : ∀ j, Relation.TransGen (mc.WaitsFor cfg) i j →
      ∃ l held, mc.Wants cfg i l ∧ held ∈ (cfg.loc j).held ∧ l ≤ held := by
    intro j hij
    induction hij with
    | single hwaits =>
      obtain ⟨l, hwants, hheld⟩ := hwaits
      exact ⟨l, l, hwants, hheld, le_refl l⟩
    | tail _ hwaits ih =>
      obtain ⟨l, held, hwants, hheld, hle⟩ := ih
      obtain ⟨l', hwants', hheld'⟩ := hwaits
      exact ⟨l, l', hwants, hheld', hle.trans (h.lt_of_wants hrefl hwants' hheld).le⟩
  intro hcycle
  obtain ⟨l, held, hwants, hheld, hle⟩ := hchain i hcycle
  exact absurd (h.lt_of_wants hrefl hwants hheld) (not_lt.mpr hle)

end Soundness

end Machine

end Steps
