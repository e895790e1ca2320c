import GraphitBroker.LocalModel
import Mathlib.Tactic.SplitIfs

/-!
# One worker, never leaked

Invariants of the local model over every interleaving: at most one worker is resident, and none is
left behind.
-/

namespace GraphitBroker.LocalModel

open Locks

def Call.holds : Call → Bool
  | .locked | .checked => true
  | _ => false

def Operation.holds : Operation → Bool
  | .absent | .done => false
  | _ => true

def Timer.holds : Timer → Bool
  | .observing | .checking | .unloading _ => true
  | _ => false

def Shutdown.holds : Shutdown → Bool
  | .locked | .closing _ | .closed => true
  | _ => false

def holds (calls : Nat → Call) (operations : Nat → Operation) (timers : Nat → Timer)
    (shutdowns : Nat → Shutdown) : Party → Bool
  | .call i => (calls i).holds
  | .operation i => (operations i).holds
  | .timer t => (timers t).holds
  | .shutdown k => (shutdowns k).holds

def Operation.worker : Operation → Option Nat
  | .starting w => some w
  | _ => none

def Timer.worker : Timer → Option Nat
  | .unloading w => some w
  | _ => none

def Shutdown.worker : Shutdown → Option Nat
  | .closing w | .dropped (some w) => some w
  | _ => none

inductive Place where
  | resident
  | operation (i : Nat)
  | timer (t : Nat)
  | shutdown (k : Nat)
  deriving DecidableEq

def kept (worker : Option Nat) (operations : Nat → Operation) (timers : Nat → Timer)
    (shutdowns : Nat → Shutdown) : Place → Option Nat
  | .resident => worker
  | .operation i => (operations i).worker
  | .timer t => (timers t).worker
  | .shutdown k => (shutdowns k).worker

abbrev Model.held (s : Model) : Party → Bool := holds s.calls s.operations s.timers s.shutdowns

abbrev Model.keeps (s : Model) : Place → Option Nat :=
  kept s.worker s.operations s.timers s.shutdowns

section Updates

variable {calls : Nat → Call} {operations : Nat → Operation} {timers : Nat → Timer}
  {shutdowns : Nat → Shutdown} {worker : Option Nat}

theorem holds_call (i : Nat) (c : Call) :
    holds (Function.update calls i c) operations timers shutdowns =
      Function.update (holds calls operations timers shutdowns) (.call i) c.holds := by
  funext p
  cases p <;> simp only [holds, Function.update_apply] <;> grind

theorem holds_operation (i : Nat) (o : Operation) :
    holds calls (Function.update operations i o) timers shutdowns =
      Function.update (holds calls operations timers shutdowns) (.operation i) o.holds := by
  funext p
  cases p <;> simp only [holds, Function.update_apply] <;> grind

theorem holds_timer (t : Nat) (p : Timer) :
    holds calls operations (Function.update timers t p) shutdowns =
      Function.update (holds calls operations timers shutdowns) (.timer t) p.holds := by
  funext p
  cases p <;> simp only [holds, Function.update_apply] <;> grind

theorem holds_shutdown (k : Nat) (p : Shutdown) :
    holds calls operations timers (Function.update shutdowns k p) =
      Function.update (holds calls operations timers shutdowns) (.shutdown k) p.holds := by
  funext p
  cases p <;> simp only [holds, Function.update_apply] <;> grind

theorem kept_resident (worker w : Option Nat) :
    kept w operations timers shutdowns =
      Function.update (kept worker operations timers shutdowns) .resident w := by
  funext l
  cases l <;> simp [kept]

theorem kept_operation (i : Nat) (o : Operation) :
    kept worker (Function.update operations i o) timers shutdowns =
      Function.update (kept worker operations timers shutdowns) (.operation i) o.worker := by
  funext l
  cases l <;> simp only [kept, Function.update_apply] <;> grind

theorem kept_timer (t : Nat) (p : Timer) :
    kept worker operations (Function.update timers t p) shutdowns =
      Function.update (kept worker operations timers shutdowns) (.timer t) p.worker := by
  funext l
  cases l <;> simp only [kept, Function.update_apply] <;> grind

theorem kept_shutdown (k : Nat) (p : Shutdown) :
    kept worker operations timers (Function.update shutdowns k p) =
      Function.update (kept worker operations timers shutdowns) (.shutdown k) p.worker := by
  funext l
  cases l <;> simp only [kept, Function.update_apply] <;> grind

end Updates

def Call.early : Call → Bool
  | .absent | .entered | .waiting | .locked | .checked => true
  | _ => false

def Shutdown.past : Shutdown → Bool
  | .unlocked | .joining _ | .returned | .dropped (some _) => true
  | _ => false

/-- Nothing is resident, nothing runs, and nothing will: no call is between its look at `stop` and its
operation. -/
structure Quiet (s : Model) : Prop where
  stop : s.stop = true
  worker : s.worker = none
  call : ∀ i, s.calls i ≠ .checked
  operation : ∀ i, (s.operations i).holds = false
  timer : ∀ t, (s.timers t).worker = none
  shutdown : ∀ k w, s.shutdowns k ≠ .closing w

structure Orderly (s : Model) : Prop where
  exclusive : Exclusive (s.held) s.holder
  custody : Custody (s.keeps) s.started s.gone
  running : ∀ i w, s.operations i = .running w → s.worker = some w
  clock : ∀ c ∈ s.completions, c ≤ s.now
  latest : ∀ f, s.completed = some f → ∀ c ∈ s.completions, c ≤ f
  early : ∀ i, (s.calls i).early = true → s.operations i = .absent
  late : ∀ i, s.late i = true → s.stop = true ∧ s.operations i = .absent ∧
    (s.calls i = .entered ∨ s.calls i = .ended)
  closed : ∀ k, s.shutdowns k = .closed → s.worker = none
  stopped : ∀ k, s.shutdowns k ≠ .absent → s.stop = true
  timers : ∀ t, s.timersStarted ≤ t → s.timers t = .absent

structure Inv (s : Model) : Prop extends Orderly s where
  quiet : ∀ k, (s.shutdowns k).past = true → Quiet s

theorem Inv.new : Inv Model.new where
  exclusive := by rintro (p | p | p | p) h <;> cases h
  custody := by
    have hempty : ∀ l, Model.new.keeps l = none := by
      rintro (_ | _ | _ | _) <;> rfl
    refine ⟨?_, ?_, ?_, ?_, ?_⟩
    · simp [hempty]
    · simp [hempty]
    · simp [hempty]
    · intro w hw
      cases hw
    · intro w hw
      cases hw
  running := by simp [Model.new]
  clock := by simp [Model.new]
  latest := by simp [Model.new]
  early := fun _ _ => rfl
  late := by simp [Model.new]
  closed := fun _ _ => rfl
  stopped := by simp [Model.new]
  timers := fun _ _ => rfl
  quiet := by simp [Model.new, Shutdown.past]

variable {s s' : Model} {idle : Nat}

theorem Quiet.setCall (hs : Quiet s) (i : Nat) {c : Call} (hc : c ≠ .checked) :
    Quiet (s.setCall i c) :=
  { hs with
    call := by
      intro j
      by_cases hj : j = i
      · simpa [Model.setCall, hj] using hc
      · simpa [Model.setCall, hj] using hs.call j }

theorem Quiet.setTimer (hs : Quiet s) (t : Nat) {p : Timer} (hp : p.worker = none) :
    Quiet (s.setTimer t p) :=
  { hs with
    timer := by
      intro u
      by_cases hu : u = t
      · simpa [Model.setTimer, hu] using hp
      · simpa [Model.setTimer, hu] using hs.timer u }

theorem Quiet.setShutdown (hs : Quiet s) (k : Nat) {p : Shutdown} (hp : ∀ w, p ≠ .closing w) :
    Quiet (s.setShutdown k p) :=
  { hs with
    shutdown := by
      intro j
      by_cases hj : j = k
      · simpa [Model.setShutdown, hj] using hp
      · simpa [Model.setShutdown, hj] using hs.shutdown j }

variable {i : Nat} {k : Nat}

theorem Quiet.not_active (hs : Quiet s) {o : Operation} (h : s.operations i = o)
    (ho : o.holds = true) : False := by
  rw [← h, hs.operation] at ho
  cases ho

theorem Quiet.not_unloading (hs : Quiet s) {t w : Nat} (h : s.timers t = .unloading w) : False := by
  have := hs.timer t
  rw [h] at this
  cases this

theorem Quiet.step (hs : Quiet s) {a : Action} (h : step idle s a = some s') :
    Quiet s' ∧ s'.started = s.started := by
  cases a <;> simp only [LocalModel.step, guarded_eq_some] at h
  case tick =>
    cases h
    exact ⟨{ hs with }, rfl⟩
  case stop =>
    cases h
    exact ⟨{ hs with stop := rfl }, rfl⟩
  case begin i | leave i | lock i | refuse i =>
    obtain ⟨-, rfl⟩ := h
    exact ⟨{ hs.setCall i (c := _) (by simp) with }, rfl⟩
  case enter i =>
    obtain ⟨-, rfl⟩ := h
    exact ⟨hs.setCall i (by simp [hs.stop]), rfl⟩
  case check i =>
    -- with `stop` set the call ends here
    obtain ⟨-, rfl⟩ := h
    rw [if_pos hs.stop]
    exact ⟨{ hs.setCall i (c := .ended) (by simp) with }, rfl⟩
  case spawn i => exact absurd h.1 (hs.call i)
  case load i | reply i => exact (hs.not_active h.1 rfl).elim
  case loaded i | loadFailed i | complete i =>
    split at h
    · exact (hs.not_active ‹_› rfl).elim
    · cases h
  case timerLock t | timerObserve t | timerRelock t =>
    obtain ⟨-, rfl⟩ := h
    exact ⟨{ hs.setTimer t (p := _) rfl with }, rfl⟩
  case timerStop t | timerNotified t | timerExpire t =>
    split at h
    · obtain ⟨-, rfl⟩ := guarded_eq_some.mp h
      exact ⟨{ hs.setTimer t (p := _) rfl with }, rfl⟩
    · cases h
  case timerCheck t =>
    obtain ⟨-, rfl⟩ := h
    rw [hs.worker]
    split_ifs <;> exact ⟨{ hs.setTimer t (p := .looping) rfl with }, rfl⟩
  case timerUnloaded t =>
    split at h
    · exact (hs.not_unloading ‹_›).elim
    · cases h
  case shutdown k =>
    obtain ⟨-, rfl⟩ := h
    exact ⟨{ hs.setShutdown k (p := .waiting) (by simp) with stop := rfl }, rfl⟩
  case shutdownLock k | shutdownUnlock k | shutdownTimer k =>
    obtain ⟨-, rfl⟩ := h
    exact ⟨{ hs.setShutdown k (p := _) (by simp) with }, rfl⟩
  case shutdownTake k =>
    obtain ⟨-, rfl⟩ := h
    rw [hs.worker]
    exact ⟨hs.setShutdown k (by simp), rfl⟩
  case shutdownClosed k =>
    split at h
    · exact absurd ‹_› (hs.shutdown k _)
    · cases h
      exact ⟨{ hs.setShutdown k (p := .dropped none) (by simp) with }, rfl⟩
    · cases h
  case shutdownReturn k =>
    split at h
    · cases h
      exact ⟨hs.setShutdown k (by simp), rfl⟩
    · obtain ⟨-, rfl⟩ := guarded_eq_some.mp h
      exact ⟨hs.setShutdown k (by simp), rfl⟩
    · cases h
  case shutdownDrop k =>
    split at h
    · cases h
      exact ⟨hs.setShutdown k (by simp), rfl⟩
    · cases h
      exact ⟨hs.setShutdown k (by simp), rfl⟩
    · exact absurd ‹_› (hs.shutdown k _)
    · cases h

theorem Orderly.operation_idle (hs : Orderly s) {p : Party}
    (hp : s.held p = true) (i : Nat)
    (hne : .operation i ≠ p) : (s.operations i).holds = false :=
  hs.exclusive.not_holds hp hne

theorem Orderly.not_running (hs : Orderly s) {p : Party}
    (hp : s.held p = true) {i w : Nat}
    (hne : .operation i ≠ p) : s.operations i ≠ .running w := by
  intro hi
  have hidle := hs.operation_idle hp i hne
  rw [hi] at hidle
  cases hidle

theorem Orderly.setCall (hs : Orderly s) (i : Nat) (c : Call) (holder : Option Party)
    (hexclusive : Exclusive
      (Function.update (s.held) (.call i) c.holds) holder)
    (hearly : c.early = true → (s.calls i).early = true) (hlate : s.late i = true → c = .ended) :
    Orderly { s.setCall i c with holder := holder } :=
  { hs with
    exclusive := by
      rw [← holds_call] at hexclusive
      exact hexclusive
    early := by
      intro j hj
      by_cases hji : j = i
      · subst hji
        exact hs.early j (hearly (by simpa [Model.setCall] using hj))
      · exact hs.early j (by simpa [Model.setCall, hji] using hj)
    late := by
      intro j hj
      obtain ⟨hstop, hoperation, hcall⟩ := hs.late j hj
      refine ⟨hstop, hoperation, ?_⟩
      by_cases hji : j = i
      · subst hji
        exact .inr (by simpa [Model.setCall] using hlate hj)
      · simpa [Model.setCall, hji] using hcall }

theorem Orderly.setTimer (hs : Orderly s) (t : Nat) (p : Timer) (holder : Option Party)
    (worker : Option Nat) (gone : List Nat)
    (hstarted : s.timers t ≠ .absent)
    (hexclusive : Exclusive
      (Function.update (s.held) (.timer t) p.holds) holder)
    (hcustody : Custody (kept worker s.operations (Function.update s.timers t p) s.shutdowns)
      s.started gone)
    (hworker : worker = s.worker ∨ worker = none ∧ (s.timers t).holds = true) :
    Orderly { s.setTimer t p with holder := holder, worker := worker, gone := gone } :=
  { hs with
    exclusive := by
      rw [← holds_timer] at hexclusive
      exact hexclusive
    custody := hcustody
    running := by
      intro i w hi
      rcases hworker with rfl | ⟨-, ht⟩
      · exact hs.running i w hi
      · exact absurd hi (hs.not_running (p := .timer t) ht (by simp))
    closed := by
      intro k hk
      rcases hworker with rfl | ⟨hnone, -⟩
      · exact hs.closed k hk
      · exact hnone
    timers := by
      intro u hu
      by_cases hut : u = t
      · subst hut
        exact absurd (hs.timers u hu) hstarted
      · simpa [Model.setTimer, hut] using hs.timers u hu }

theorem Orderly.setShutdown (hs : Orderly s) (k : Nat) (p : Shutdown) (holder : Option Party)
    (worker : Option Nat) (gone : List Nat)
    (hstop : s.stop = true)
    (hexclusive : Exclusive
      (Function.update (s.held) (.shutdown k) p.holds) holder)
    (hcustody : Custody (kept worker s.operations s.timers (Function.update s.shutdowns k p))
      s.started gone)
    (hworker : worker = s.worker ∨ worker = none ∧ (s.shutdowns k).holds = true)
    (hclosed : p = .closed → worker = none) :
    Orderly { s.setShutdown k p with holder := holder, worker := worker, gone := gone } :=
  { hs with
    exclusive := by
      rw [← holds_shutdown] at hexclusive
      exact hexclusive
    custody := hcustody
    running := by
      intro i w hi
      rcases hworker with rfl | ⟨-, hk⟩
      · exact hs.running i w hi
      · exact absurd hi (hs.not_running (p := .shutdown k) hk (by simp))
    closed := by
      intro j hj
      by_cases hjk : j = k
      · subst hjk
        exact hclosed (by simpa [Model.setShutdown] using hj)
      · rcases hworker with rfl | ⟨hnone, -⟩
        · exact hs.closed j (by simpa [Model.setShutdown, hjk] using hj)
        · exact hnone
    stopped := fun _ _ => hstop }

theorem Orderly.setOperation (hs : Orderly s) (i : Nat) (o : Operation) (holder : Option Party)
    (worker : Option Nat) (started : Nat) (gone : List Nat)
    (hactive : (s.operations i).holds = true)
    (hexclusive : Exclusive
      (Function.update (s.held) (.operation i) o.holds) holder)
    (hcustody : Custody (kept worker (Function.update s.operations i o) s.timers s.shutdowns)
      started gone)
    (hrunning : ∀ w, o = .running w → worker = some w) :
    Orderly { s.setOperation i o with
      holder := holder, worker := worker, started := started, gone := gone } :=
  { hs with
    exclusive := by
      rw [← holds_operation] at hexclusive
      exact hexclusive
    custody := hcustody
    running := by
      intro j w hj
      by_cases hji : j = i
      · subst hji
        exact hrunning w (by simpa [Model.setOperation] using hj)
      · have hj' : s.operations j = .running w := by simpa [Model.setOperation, hji] using hj
        exact absurd hj' (hs.not_running (p := .operation i) hactive (by simpa using hji))
    early := by
      intro j hj
      have habsent := hs.early j hj
      by_cases hji : j = i
      · subst hji
        rw [habsent] at hactive
        cases hactive
      · simpa [Model.setOperation, hji] using habsent
    late := by
      intro j hj
      obtain ⟨hstop, habsent, hcall⟩ := hs.late j hj
      refine ⟨hstop, ?_, hcall⟩
      by_cases hji : j = i
      · subst hji
        rw [habsent] at hactive
        cases hactive
      · simpa [Model.setOperation, hji] using habsent
    closed := by
      intro k hk
      -- `shutdown` would hold the lock that the operation holds
      have hheld : s.held (.shutdown k) = true := by
        simp only [holds]
        rw [show s.shutdowns k = .closed from hk]
        rfl
      have := hs.operation_idle hheld i (by simp)
      rw [hactive] at this
      cases this }

/-! Most steps leave every worker where it is. -/

theorem Orderly.passTimer (hs : Orderly s) (t : Nat) (p : Timer) (holder : Option Party)
    (hstarted : s.timers t ≠ .absent)
    (hexclusive : Exclusive
      (Function.update (s.held) (.timer t) p.holds) holder)
    (hworker : (s.timers t).worker = p.worker) : Orderly { s.setTimer t p with holder := holder } := by
  refine hs.setTimer t p holder s.worker s.gone hstarted hexclusive ?_ (.inl rfl)
  rw [kept_timer]
  exact hs.custody.same hworker

theorem Orderly.passShutdown (hs : Orderly s) (k : Nat) (p : Shutdown) (holder : Option Party)
    (hstop : s.stop = true)
    (hexclusive : Exclusive
      (Function.update (s.held) (.shutdown k) p.holds) holder)
    (hworker : (s.shutdowns k).worker = p.worker) (hclosed : p = .closed → s.worker = none) :
    Orderly { s.setShutdown k p with holder := holder } := by
  refine hs.setShutdown k p holder s.worker s.gone hstop hexclusive ?_ (.inl rfl) hclosed
  rw [kept_shutdown]
  exact hs.custody.same hworker

theorem Orderly.passOperation (hs : Orderly s) (i : Nat) (o : Operation) (holder : Option Party)
    (hactive : (s.operations i).holds = true)
    (hexclusive : Exclusive
      (Function.update (s.held) (.operation i) o.holds) holder)
    (hworker : (s.operations i).worker = o.worker) (hrunning : ∀ w, o = .running w → s.worker = some w) :
    Orderly { s.setOperation i o with holder := holder } := by
  refine hs.setOperation i o holder s.worker s.started s.gone hactive hexclusive ?_ hrunning
  rw [kept_operation]
  exact hs.custody.same hworker

theorem Orderly.setStop (hs : Orderly s) : Orderly { s with stop := true } :=
  { hs with
    late := fun i hi => ⟨rfl, (hs.late i hi).2⟩
    stopped := fun _ _ => rfl }

theorem Inv.kept_none (hs : Inv s) (hi : s.operations i = .opened)
    (hworker : s.worker = none) (l : Place) :
    s.keeps l = none := by
  have hheld : s.held (.operation i) = true := by
    simp [holds, hi, Operation.holds]
  cases l with
  | resident => exact hworker
  | operation j =>
    by_cases hj : j = i
    · simp [kept, hj, hi, Operation.worker]
    · have hidle := hs.operation_idle hheld j (by simpa using hj)
      simp only [kept]
      cases hphase : s.operations j <;> simp_all [Operation.holds, Operation.worker]
  | timer t =>
    have hidle : (s.timers t).holds = false :=
      hs.exclusive.not_holds hheld (q := Party.timer t) (by simp)
    simp only [kept]
    cases hphase : s.timers t <;> simp_all [Timer.holds, Timer.worker]
  | shutdown k =>
    have hidle : (s.shutdowns k).holds = false :=
      hs.exclusive.not_holds hheld (q := Party.shutdown k) (by simp)
    -- a shutdown that was dropped with a worker leaves no operation behind
    have hpast : (s.shutdowns k).past ≠ true := by
      intro hpast
      exact (hs.quiet k hpast).not_active hi rfl
    simp only [kept]
    cases hphase : s.shutdowns k with
    | dropped w => cases w <;> simp_all [Shutdown.past, Shutdown.worker]
    | _ => simp_all [Shutdown.holds, Shutdown.worker]

theorem Orderly.quiet_of_critical (hs : Orderly s) (hk : (s.shutdowns k).holds = true)
    (hworker : s.worker = none) {p : Shutdown} (hp : ∀ w, p ≠ .closing w) :
    Quiet (s.setShutdown k p) where
  stop := hs.stopped k (by intro h; rw [h] at hk; cases hk)
  worker := hworker
  call := by
    intro i
    have hidle : (s.calls i).holds = false :=
      hs.exclusive.not_holds (p := Party.shutdown k) hk (q := Party.call i) (by simp)
    intro hi
    rw [show s.calls i = .checked from hi] at hidle
    cases hidle
  operation := fun i => hs.operation_idle (p := .shutdown k) hk i (by simp)
  timer := by
    intro t
    have hidle : (s.timers t).holds = false :=
      hs.exclusive.not_holds (p := Party.shutdown k) hk (q := Party.timer t) (by simp)
    simp only [Model.setShutdown]
    cases hphase : s.timers t <;> simp_all [Timer.holds, Timer.worker]
  shutdown := by
    intro j w
    by_cases hj : j = k
    · simpa [Model.setShutdown, hj] using hp w
    · have hidle : (s.shutdowns j).holds = false :=
        hs.exclusive.not_holds (p := Party.shutdown k) hk (q := Party.shutdown j) (by simpa using hj)
      simp only [Model.setShutdown, Function.update_of_ne hj]
      intro hphase
      rw [hphase] at hidle
      cases hidle

@[simp] theorem startIdleTimer_calls : s.startIdleTimer.calls = s.calls := by
  unfold Model.startIdleTimer
  split <;> rfl

@[simp] theorem startIdleTimer_shutdowns : s.startIdleTimer.shutdowns = s.shutdowns := by
  unfold Model.startIdleTimer
  split <;> rfl

theorem Orderly.startIdleTimer (hs : Orderly s) : Orderly s.startIdleTimer := by
  unfold Model.startIdleTimer
  split
  · exact hs
  · have hfresh : s.timers s.timersStarted = .absent := hs.timers _ (Nat.le_refl _)
    refine { hs with exclusive := ?_, custody := ?_, timers := ?_ }
    · dsimp only [Model.setTimer, Model.held, Model.keeps]
      rw [holds_timer]
      exact hs.exclusive.keep (by simp [Timer.holds])
    · dsimp only [Model.setTimer, Model.held, Model.keeps]
      rw [kept_timer]
      exact hs.custody.same (by simp [kept, hfresh, Timer.worker])
    · intro t ht
      have hne : t ≠ s.timersStarted := by
        dsimp only at ht
        omega
      simpa [Model.setTimer, hne] using hs.timers t (by dsimp only at ht; omega)

theorem Orderly.spawn (hs : Orderly s) (hi : s.calls i = .checked) :
    Orderly { (s.setCall i .spawned).setOperation i .opened with holder := some (.operation i) } := by
  have habsent : s.operations i = .absent := hs.early i (by rw [hi]; rfl)
  have hheld : s.held (.call i) = true := by
    simp [holds, hi, Call.holds]
  refine { hs with exclusive := ?_, custody := ?_, running := ?_, early := ?_, late := ?_ }
  · dsimp only [Model.setCall, Model.setOperation, Model.held, Model.keeps]
    rw [holds_operation, holds_call]
    exact hs.exclusive.pass hheld _
  · dsimp only [Model.setCall, Model.setOperation, Model.held, Model.keeps]
    rw [kept_operation]
    exact hs.custody.same (by simp [kept, habsent, Operation.worker])
  · intro j w hj
    by_cases hji : j = i
    · simp [Model.setOperation, Model.setCall, hji] at hj
    · exact hs.running j w (by simpa [Model.setOperation, Model.setCall, hji] using hj)
  · intro j hj
    by_cases hji : j = i
    · simp [Model.setOperation, Model.setCall, hji, Call.early] at hj
    · simpa [Model.setOperation, Model.setCall, hji] using
        hs.early j (by simpa [Model.setOperation, Model.setCall, hji] using hj)
  · intro j hj
    have hlate := hs.late j hj
    by_cases hji : j = i
    · simp [hji, hi] at hlate
    · simpa [Model.setOperation, Model.setCall, hji] using hlate

theorem Orderly.not_late (hs : Orderly s) {c : Call} (hi : s.calls i = c)
    (hentered : c ≠ .entered) (hended : c ≠ .ended) (h : s.late i = true) {P : Prop} : P := by
  subst hi
  exact ((hs.late i h).2.2.elim hentered hended).elim

theorem quiet_update {p : Shutdown} (hquiet : ∀ j, (s.shutdowns j).past = true → Quiet s')
    (hp : p.past = true → Quiet s') (j : Nat)
    (hj : (Function.update s.shutdowns k p j).past = true) : Quiet s' := by
  by_cases hjk : j = k
  · subst hjk
    exact hp (by simpa using hj)
  · exact hquiet j (by simpa [hjk] using hj)

theorem Inv.quiet_step (hs : Inv s) {a : Action} (h : step idle s a = some s') (k : Nat)
    (hk : (s.shutdowns k).past = true) : Quiet s' :=
  ((hs.quiet k hk).step h).1

theorem Inv.begin (hs : Inv s) (h : LocalModel.step idle s (.begin i) = some s') :
    Inv s' := by
  have hquiet := hs.quiet_step h
  simp only [LocalModel.step, guarded_eq_some] at h
  obtain ⟨hi, rfl⟩ := h
  have hbase := hs.setCall i .entered s.holder
    (hs.exclusive.keep (by simp [Call.holds])) (by simp [hi, Call.early])
    (fun hlate => hs.not_late hi (by simp) (by simp) hlate)
  refine { hbase with quiet := hquiet, late := ?_ }
  intro j hj
  by_cases hji : j = i
  · subst hji
    refine ⟨by simpa [Model.setCall] using hj, hs.early j (by rw [hi]; rfl), .inl ?_⟩
    simp [Model.setCall]
  · exact hbase.late j (by simpa [Model.setCall, hji] using hj)

theorem Inv.check (hs : Inv s) (h : LocalModel.step idle s (.check i) = some s') :
    Inv s' := by
  have hquiet := hs.quiet_step h
  simp only [LocalModel.step, guarded_eq_some] at h
  obtain ⟨hi, h⟩ := h
  have hheld : (s.calls i).holds = true := by rw [hi]; rfl
  split_ifs at h with hstop
  · subst h
    refine { hs.setCall i .ended none (hs.exclusive.release (p := Party.call i) hheld none) ?_ ?_
      with quiet := hquiet }
    · simp [Call.early]
    · simp
  · subst h
    refine { hs.setCall i .checked s.holder ?_ ?_ ?_ with quiet := hquiet }
    · exact hs.exclusive.keep (fun _ => hheld)
    · simp [hi, Call.early]
    · exact fun hlate => hs.not_late hi (by simp) (by simp) hlate

theorem Inv.spawn (hs : Inv s) (h : LocalModel.step idle s (.spawn i) = some s') :
    Inv s' := by
  have hquiet := hs.quiet_step h
  simp only [LocalModel.step, guarded_eq_some] at h
  obtain ⟨hi, rfl⟩ := h
  refine { hs.startIdleTimer.spawn (i := i) (by simpa using hi) with quiet := ?_ }
  intro k hk
  exact hquiet k (by simpa [Model.setCall, Model.setOperation] using hk)

theorem Inv.load (hs : Inv s) (h : LocalModel.step idle s (.load i) = some s') :
    Inv s' := by
  have hquiet := hs.quiet_step h
  simp only [LocalModel.step, guarded_eq_some] at h
  obtain ⟨hi, h⟩ := h
  have hheld : (s.operations i).holds = true := by rw [hi]; rfl
  cases hworker : s.worker with
  | some w =>
    simp only [hworker] at h
    subst h
    refine { hs.passOperation i (.running w) s.holder hheld (hs.exclusive.keep fun _ => hheld)
      (by rw [hi]; rfl) ?_ with quiet := hquiet }
    rintro v ⟨⟩
    exact hworker
  | none =>
    simp only [hworker] at h
    subst h
    refine { hs.setOperation i (.starting s.started) s.holder s.worker (s.started + 1) s.gone
      hheld (hs.exclusive.keep fun _ => hheld) ?_ ?_ with quiet := hquiet }
    · rw [kept_operation]
      exact hs.custody.start (hs.kept_none hi hworker) _
    · simp

theorem Inv.loaded (hs : Inv s) (h : LocalModel.step idle s (.loaded i) = some s') :
    Inv s' := by
  have hquiet := hs.quiet_step h
  simp only [LocalModel.step] at h
  split at h
  · rename_i w hi
    cases h
    have hheld : (s.operations i).holds = true := by rw [hi]; rfl
    refine { hs.setOperation i (.running w) s.holder (some w) s.started s.gone hheld
      (hs.exclusive.keep fun _ => hheld) ?_ ?_ with quiet := hquiet }
    · rw [kept_resident s.worker, kept_operation]
      exact hs.custody.move (by simp [kept, hi, Operation.worker]) _
    · rintro v ⟨⟩
      rfl
  · cases h

theorem Inv.loadFailed (hs : Inv s) (h : LocalModel.step idle s (.loadFailed i) = some s') :
    Inv s' := by
  have hquiet := hs.quiet_step h
  simp only [LocalModel.step] at h
  split at h
  · rename_i w hi
    cases h
    have hheld : (s.operations i).holds = true := by rw [hi]; rfl
    refine { hs.setOperation i .finished s.holder s.worker s.started (w :: s.gone) hheld
      (hs.exclusive.keep fun _ => hheld) ?_ ?_ with quiet := hquiet }
    · rw [kept_operation]
      exact hs.custody.retire (by simp [kept, hi, Operation.worker])
    · simp
  · cases h

theorem Inv.complete (hs : Inv s) (h : LocalModel.step idle s (.complete i) = some s') :
    Inv s' := by
  have hquiet := hs.quiet_step h
  simp only [LocalModel.step] at h
  split at h
  · rename_i w hi
    cases h
    have hheld : (s.operations i).holds = true := by rw [hi]; rfl
    have hbase := hs.passOperation i .finished s.holder hheld (hs.exclusive.keep fun _ => hheld)
      (by rw [hi]; rfl) (by simp)
    refine { hbase with quiet := hquiet, clock := ?_, latest := ?_ }
    · intro c hc
      rcases List.mem_cons.mp hc with rfl | hc
      · exact Nat.le_refl _
      · exact hs.clock c hc
    · rintro f ⟨⟩ c hc
      rcases List.mem_cons.mp hc with rfl | hc
      · exact Nat.le_refl _
      · exact hs.clock c hc
  · cases h

theorem Inv.timerCheck (hs : Inv s) {t : Nat} (h : LocalModel.step idle s (.timerCheck t) = some s') :
    Inv s' := by
  have hquiet := hs.quiet_step h
  simp only [LocalModel.step, guarded_eq_some] at h
  obtain ⟨ht, h⟩ := h
  have hheld : (s.timers t).holds = true := by rw [ht]; rfl
  have hloop := hs.passTimer t .looping none (by simp [ht])
    (hs.exclusive.release (p := Party.timer t) hheld none) (by rw [ht]; rfl)
  split_ifs at h
  · cases hworker : s.worker with
    | some w =>
      simp only [hworker] at h
      subst h
      refine { hs.setTimer t (.unloading w) s.holder none s.gone (by simp [ht])
        (hs.exclusive.keep fun _ => hheld) ?_ (.inr ⟨rfl, hheld⟩) with quiet := hquiet }
      rw [kept_timer, kept_resident s.worker]
      exact hs.custody.move (by simp [kept, hworker]) _
    | none =>
      simp only [hworker] at h
      subst h
      exact { hloop with quiet := hquiet, latest := by simp }
  · subst h
    exact { hloop with quiet := hquiet }

theorem Inv.timerUnloaded (hs : Inv s) {t : Nat} (h : LocalModel.step idle s (.timerUnloaded t) = some s') :
    Inv s' := by
  have hquiet := hs.quiet_step h
  simp only [LocalModel.step] at h
  split at h
  · rename_i w ht
    cases h
    have hheld : (s.timers t).holds = true := by rw [ht]; rfl
    refine { hs.setTimer t .looping none s.worker (w :: s.gone) (by simp [ht])
      (hs.exclusive.release (p := Party.timer t) hheld none) ?_ (.inl rfl) with
      quiet := hquiet, latest := by simp }
    rw [kept_timer]
    exact hs.custody.retire (by simp [kept, ht, Timer.worker])
  · cases h

theorem Inv.shutdownTake (hs : Inv s) (h : LocalModel.step idle s (.shutdownTake k) = some s') :
    Inv s' := by
  have hquiet := hs.quiet_step h
  simp only [LocalModel.step, guarded_eq_some] at h
  obtain ⟨hk, h⟩ := h
  have hheld : (s.shutdowns k).holds = true := by rw [hk]; rfl
  have hstop : s.stop = true := hs.stopped k (by simp [hk])
  cases hworker : s.worker with
  | some w =>
    simp only [hworker] at h
    subst h
    refine { hs.setShutdown k (.closing w) s.holder none s.gone hstop
      (hs.exclusive.keep fun _ => hheld) ?_ (.inr ⟨rfl, hheld⟩) (by simp) with
      quiet := quiet_update hquiet (by simp [Shutdown.past]) }
    rw [kept_shutdown, kept_resident s.worker]
    exact hs.custody.move (by simp [kept, hworker]) _
  | none =>
    simp only [hworker] at h
    subst h
    exact { hs.passShutdown k .closed s.holder hstop (hs.exclusive.keep fun _ => hheld)
      (by rw [hk]; rfl) (fun _ => hworker) with
      quiet := quiet_update hquiet (by simp [Shutdown.past]) }

theorem Inv.shutdownClosed (hs : Inv s) (h : LocalModel.step idle s (.shutdownClosed k) = some s') :
    Inv s' := by
  have hquiet := hs.quiet_step h
  simp only [LocalModel.step] at h
  split at h
  · rename_i w hk
    cases h
    have hkept : s.keeps (.shutdown k) = some w := by
      simp [kept, hk, Shutdown.worker]
    have hheld : (s.shutdowns k).holds = true := by rw [hk]; rfl
    refine { hs.setShutdown k .closed s.holder s.worker (w :: s.gone) (hs.stopped k (by simp [hk]))
      (hs.exclusive.keep fun _ => hheld) ?_ (.inl rfl) ?_ with
      quiet := quiet_update hquiet (by simp [Shutdown.past]) }
    · rw [kept_shutdown]
      exact hs.custody.retire hkept
    · exact fun _ => hs.custody.none_of_ne hkept (m := Place.resident) (by simp)
  · rename_i w hk
    cases h
    refine { hs.setShutdown k (.dropped none) s.holder s.worker (w :: s.gone)
      (hs.stopped k (by simp [hk])) (hs.exclusive.keep (by simp [Shutdown.holds])) ?_ (.inl rfl)
      (by simp) with quiet := quiet_update hquiet (by simp [Shutdown.past]) }
    rw [kept_shutdown]
    exact hs.custody.retire (by simp [kept, hk, Shutdown.worker])
  · cases h

theorem Inv.shutdownUnlock (hs : Inv s) (h : LocalModel.step idle s (.shutdownUnlock k) = some s') :
    Inv s' := by
  have hquiet := hs.quiet_step h
  simp only [LocalModel.step, guarded_eq_some] at h
  obtain ⟨hk, rfl⟩ := h
  have hheld : (s.shutdowns k).holds = true := by rw [hk]; rfl
  have hnow := hs.quiet_of_critical hheld (hs.closed k hk) (p := .unlocked) (by simp)
  exact { hs.passShutdown k .unlocked none (hs.stopped k (by simp [hk]))
    (hs.exclusive.release (p := Party.shutdown k) hheld none) (by rw [hk]; rfl) (by simp) with
    quiet := fun _ _ => { hnow with }, latest := by simp }

theorem Inv.shutdownReturn (hs : Inv s) (h : LocalModel.step idle s (.shutdownReturn k) = some s') :
    Inv s' := by
  have hquiet := hs.quiet_step h
  simp only [LocalModel.step] at h
  have hreturned : ∀ j, s.shutdowns k = .joining j → s' = s.setShutdown k .returned → Inv s' := by
    rintro j hk rfl
    exact { hs.passShutdown k .returned s.holder (hs.stopped k (by simp [hk]))
      (hs.exclusive.keep (by simp [Shutdown.holds])) (by rw [hk]; rfl) (by simp) with
      quiet := quiet_update hquiet (fun _ => hquiet k (by rw [hk]; rfl)) }
  split at h
  · cases h
    exact hreturned _ ‹_› rfl
  · obtain ⟨-, rfl⟩ := guarded_eq_some.mp h
    exact hreturned _ ‹_› rfl
  · cases h

theorem Inv.shutdownDrop (hs : Inv s) (h : LocalModel.step idle s (.shutdownDrop k) = some s') :
    Inv s' := by
  have hquiet := hs.quiet_step h
  simp only [LocalModel.step] at h
  have hdropped : s.shutdowns k ≠ .absent → (s.shutdowns k).worker = none →
      s' = s.setShutdown k (.dropped none) → Inv s' := by
    rintro hk hnone rfl
    exact { hs.passShutdown k (.dropped none) s.holder (hs.stopped k hk)
      (hs.exclusive.keep (by simp [Shutdown.holds])) hnone (by simp) with
      quiet := quiet_update hquiet (by simp [Shutdown.past]) }
  split at h
  · rename_i hk
    cases h
    exact hdropped (by simp [hk]) (by rw [hk]; rfl) rfl
  · rename_i hk
    cases h
    exact hdropped (by simp [hk]) (by rw [hk]; rfl) rfl
  · rename_i w hk
    cases h
    have hheld : (s.shutdowns k).holds = true := by rw [hk]; rfl
    have hkept : s.keeps (.shutdown k) = some w := by
      simp [kept, hk, Shutdown.worker]
    have hnow := hs.quiet_of_critical hheld (hs.custody.none_of_ne hkept (m := Place.resident) (by simp))
      (p := .dropped (some w)) (by simp)
    exact { hs.passShutdown k (.dropped (some w)) none (hs.stopped k (by simp [hk]))
      (hs.exclusive.release (p := Party.shutdown k) hheld none) (by rw [hk]; rfl) (by simp) with
      quiet := fun _ _ => { hnow with } }
  · cases h

theorem Inv.step (hs : Inv s) {a : Action} (h : step idle s a = some s') : Inv s' := by
  have hquiet := hs.quiet_step h
  have hlock : s.holder = none → Exclusive s.held none := fun hfree => hfree ▸ hs.exclusive
  cases a
  case begin i => exact hs.begin h
  case check i => exact hs.check h
  case spawn i => exact hs.spawn h
  case load i => exact hs.load h
  case loaded i => exact hs.loaded h
  case loadFailed i => exact hs.loadFailed h
  case complete i => exact hs.complete h
  case timerCheck t => exact hs.timerCheck h
  case timerUnloaded t => exact hs.timerUnloaded h
  case shutdownTake k => exact hs.shutdownTake h
  case shutdownClosed k => exact hs.shutdownClosed h
  case shutdownUnlock k => exact hs.shutdownUnlock h
  case shutdownReturn k => exact hs.shutdownReturn h
  case shutdownDrop k => exact hs.shutdownDrop h
  case tick n =>
    cases h
    exact { hs with
      quiet := hquiet
      clock := fun c hc => Nat.le_add_right_of_le (hs.clock c hc) }
  case stop =>
    cases h
    exact { hs.setStop with quiet := hquiet }
  case enter i =>
    simp only [LocalModel.step, guarded_eq_some] at h
    obtain ⟨hi, rfl⟩ := h
    refine { hs.setCall i (if s.stop then .ended else .waiting) s.holder ?_ ?_ ?_
      with quiet := hquiet }
    · exact hs.exclusive.keep (by split_ifs <;> simp [Call.holds])
    · simp [hi, Call.early]
    · intro hlate
      rw [if_pos (hs.late i hlate).1]
  case leave i =>
    simp only [LocalModel.step, guarded_eq_some] at h
    obtain ⟨hi, rfl⟩ := h
    refine { hs.setCall i .ended s.holder ?_ ?_ ?_ with quiet := hquiet }
    · exact hs.exclusive.keep (by simp [Call.holds])
    · simp [Call.early]
    · simp
  case lock i =>
    simp only [LocalModel.step, guarded_eq_some] at h
    obtain ⟨⟨hi, hfree⟩, rfl⟩ := h
    refine { hs.setCall i .locked _ ((hlock hfree).acquire _ _) ?_ ?_ with quiet := hquiet }
    · simp [hi, Call.early]
    · exact fun hlate => hs.not_late hi (by simp) (by simp) hlate
  case refuse i =>
    simp only [LocalModel.step, guarded_eq_some] at h
    obtain ⟨hi, rfl⟩ := h
    have hheld : (s.calls i).holds = true := by rw [hi]; rfl
    refine { hs.setCall i .ended none (hs.exclusive.release (p := Party.call i) hheld none) ?_ ?_
      with quiet := hquiet }
    · simp [Call.early]
    · simp
  case reply i =>
    simp only [LocalModel.step, guarded_eq_some] at h
    obtain ⟨hi, rfl⟩ := h
    have hheld : (s.operations i).holds = true := by rw [hi]; rfl
    exact { hs.passOperation i .done none hheld
      (hs.exclusive.release (p := Party.operation i) hheld none) (by rw [hi]; rfl) (by simp) with
      quiet := hquiet }
  case timerLock t | timerRelock t =>
    simp only [LocalModel.step, guarded_eq_some] at h
    obtain ⟨⟨ht, hfree⟩, rfl⟩ := h
    exact { hs.passTimer t _ _ (by simp [ht]) ((hlock hfree).acquire _ _) (by rw [ht]; rfl) with
      quiet := hquiet }
  case timerObserve t =>
    simp only [LocalModel.step, guarded_eq_some] at h
    obtain ⟨ht, rfl⟩ := h
    have hheld : (s.timers t).holds = true := by rw [ht]; rfl
    exact { hs.passTimer t (.waiting _) none (by simp [ht])
      (hs.exclusive.release (p := Party.timer t) hheld none) (by rw [ht]; rfl) with quiet := hquiet }
  case timerStop t | timerNotified t | timerExpire t =>
    simp only [LocalModel.step] at h
    split at h
    · rename_i ht
      obtain ⟨-, rfl⟩ := guarded_eq_some.mp h
      exact { hs.passTimer t _ s.holder (by simp [ht]) (hs.exclusive.keep (by simp [Timer.holds]))
        (by rw [ht]; rfl) with quiet := hquiet }
    · cases h
  case shutdown k =>
    simp only [LocalModel.step, guarded_eq_some] at h
    obtain ⟨hk, rfl⟩ := h
    exact { hs.setStop.passShutdown k .waiting s.holder rfl
      (hs.exclusive.keep (by simp [Shutdown.holds])) (by rw [hk]; rfl) (by simp) with
      quiet := quiet_update hquiet (by simp [Shutdown.past]) }
  case shutdownLock k =>
    simp only [LocalModel.step, guarded_eq_some] at h
    obtain ⟨⟨hk, hfree⟩, rfl⟩ := h
    exact { hs.passShutdown k .locked _ (hs.stopped k (by simp [hk])) ((hlock hfree).acquire _ _)
      (by rw [hk]; rfl) (by simp) with quiet := quiet_update hquiet (by simp [Shutdown.past]) }
  case shutdownTimer k =>
    simp only [LocalModel.step, guarded_eq_some] at h
    obtain ⟨hk, rfl⟩ := h
    exact { hs.passShutdown k (.joining _) s.holder (hs.stopped k (by simp [hk]))
      (hs.exclusive.keep (by simp [Shutdown.holds])) (by rw [hk]; rfl) (by simp) with
      quiet := quiet_update hquiet (fun _ => hquiet k (by rw [hk]; rfl)) }

theorem Inv.run (hs : Inv s) {as : List Action} (h : run idle s as = some s') : Inv s' := by
  induction as generalizing s with
  | nil =>
    cases h
    exact hs
  | cons a as ih =>
    obtain ⟨s₁, h₁, hrest⟩ := Option.bind_eq_some_iff.mp h
    exact ih (hs.step h₁) hrest

theorem Quiet.run (hs : Quiet s) {as : List Action} (h : run idle s as = some s') :
    Quiet s' ∧ s'.started = s.started := by
  induction as generalizing s with
  | nil =>
    cases h
    exact ⟨hs, rfl⟩
  | cons a as ih =>
    obtain ⟨s₁, h₁, hrest⟩ := Option.bind_eq_some_iff.mp h
    obtain ⟨hquiet, hstarted⟩ := hs.step h₁
    obtain ⟨hend, hsame⟩ := ih hquiet hrest
    exact ⟨hend, hsame.trans hstarted⟩

theorem startIdleTimer_unloading {t w : Nat} (ht : s.startIdleTimer.timers t = .unloading w) :
    s.timers t = .unloading w := by
  unfold Model.startIdleTimer at ht
  split at ht
  · exact ht
  · by_cases hu : t = s.timersStarted
    · simp [Model.setTimer, hu] at ht
    · simpa [Model.setTimer, hu] using ht

theorem unloading_of_step {a : Action} (h : step idle s a = some s') {t w : Nat}
    (ht : s'.timers t = .unloading w) :
    s.timers t = .unloading w ∨ ∃ f, s.completed = some f ∧ f + idle ≤ s.now := by
  have hset : ∀ u p, p.worker = none → (s.setTimer u p).timers t = .unloading w →
      s.timers t = .unloading w := by
    intro u p hp ht
    by_cases hu : t = u
    · subst hu
      rw [show p = .unloading w by simpa [Model.setTimer] using ht] at hp
      cases hp
    · simpa [Model.setTimer, hu] using ht
  cases a <;> simp only [LocalModel.step, guarded_eq_some] at h
  case timerCheck u =>
    obtain ⟨-, h⟩ := h
    split_ifs at h with hold
    · cases hcompleted : s.completed with
      | none => simp [hcompleted] at hold
      | some f => exact .inr ⟨f, rfl, by simpa [hcompleted] using hold⟩
    · subst h
      exact .inl (hset u .looping rfl ht)
  case timerLock u | timerObserve u | timerRelock u =>
    obtain ⟨-, rfl⟩ := h
    exact .inl (hset u _ rfl ht)
  case timerStop u | timerNotified u | timerExpire u =>
    split at h
    · obtain ⟨-, rfl⟩ := guarded_eq_some.mp h
      exact .inl (hset u _ rfl ht)
    · cases h
  case timerUnloaded u =>
    split at h
    · cases h
      exact .inl (hset u _ rfl ht)
    · cases h
  case spawn i =>
    obtain ⟨-, rfl⟩ := h
    exact .inl (startIdleTimer_unloading ht)
  case tick | stop =>
    cases h
    exact .inl ht
  case load i | shutdownTake k | check i =>
    obtain ⟨-, h⟩ := h
    split at h <;> (subst h; exact .inl ht)
  case loaded i | loadFailed i | complete i =>
    split at h <;> cases h
    exact .inl ht
  case shutdownClosed k | shutdownDrop k =>
    split at h <;> cases h <;> exact .inl ht
  case shutdownReturn k =>
    split at h
    · cases h
      exact .inl ht
    · obtain ⟨-, rfl⟩ := guarded_eq_some.mp h
      exact .inl ht
    · cases h
  all_goals
    obtain ⟨-, rfl⟩ := h
    exact .inl ht

def Model.alive (s : Model) (w : Nat) : Prop :=
  w < s.started ∧ w ∉ s.gone

/-- A timer or a `shutdown`, whether or not its caller still waits for it, is shutting the worker down. -/
def Model.shutting (s : Model) (w : Nat) : Prop :=
  (∃ t, s.timers t = .unloading w) ∨ (∃ k, s.shutdowns k = .closing w) ∨
    ∃ k, s.shutdowns k = .dropped (some w)

theorem shutting_of_kept {w : Nat} {l : Place}
    (h : s.keeps l = some w) :
    s.worker = some w ∨ (∃ i, s.operations i = .starting w) ∨ s.shutting w := by
  cases l with
  | resident => exact .inl h
  | operation i =>
    refine .inr (.inl ⟨i, ?_⟩)
    simp only [kept] at h
    cases hi : s.operations i <;> simp_all [Operation.worker]
  | timer t =>
    refine .inr (.inr (.inl ⟨t, ?_⟩))
    simp only [kept] at h
    cases ht : s.timers t <;> simp_all [Timer.worker]
  | shutdown k =>
    refine .inr (.inr (.inr ?_))
    simp only [kept] at h
    cases hk : s.shutdowns k with
    | closing v =>
      refine .inl ⟨k, ?_⟩
      simp_all [Shutdown.worker]
    | dropped v =>
      refine .inr ⟨k, ?_⟩
      cases v <;> simp_all [Shutdown.worker]
    | _ => simp_all [Shutdown.worker]

theorem kept_of_shutting {w : Nat} (h : s.shutting w) :
    ∃ l, l ≠ .resident ∧ s.keeps l = some w := by
  rcases h with ⟨t, ht⟩ | ⟨k, hk⟩ | ⟨k, hk⟩
  · exact ⟨.timer t, by simp, by simp [kept, ht, Timer.worker]⟩
  · exact ⟨.shutdown k, by simp, by simp [kept, hk, Shutdown.worker]⟩
  · exact ⟨.shutdown k, by simp, by simp [kept, hk, Shutdown.worker]⟩

structure Residency (idle : Nat) (s : Model) : Prop where
  /-- At most one native worker exists. -/
  one : ∀ w w', s.alive w → s.alive w' → w = w'
  /-- A request runs on the resident worker, which nobody is shutting down. -/
  undisturbed : ∀ i w, s.operations i = .running w →
    s.worker = some w ∧ s.alive w ∧ ¬ s.shutting w
  /-- A timer that begins to unload does so `idle` after every completion. -/
  rested : ∀ a s' t w, step idle s a = some s' → s'.timers t = .unloading w →
    s.timers t = .unloading w ∨ ∀ c ∈ s.completions, c + idle ≤ s.now
  /-- With no operation in progress a worker that was started is resident or has been shut down, or its
  shutdown is what goes on. -/
  settled : (∀ i, s.operations i = .absent ∨ s.operations i = .done) →
    ∀ w < s.started, s.worker = some w ∨ w ∈ s.gone ∨ s.shutting w
  failed : ∀ i s', step idle s (.loadFailed i) = some s' → s'.worker = none
  /-- After `shutdown` nothing is resident and nothing is started again; the one worker that may still
  exist is that of another `shutdown`, dropped by its caller while it closed it. -/
  closed : ∀ k, s.shutdowns k = .returned → ∀ as s', run idle s as = some s' →
    s'.worker = none ∧ s'.started = s.started ∧
      ∀ w, s'.alive w → ∃ k', s'.shutdowns k' = .dropped (some w)
  /-- A call that began after `stop` has no operation. -/
  late : ∀ i, s.late i = true → s.operations i = .absent

theorem Inv.running_undisturbed (hs : Inv s) {i w : Nat} (hi : s.operations i = .running w) :
    s.worker = some w ∧ s.alive w ∧ ¬ s.shutting w := by
  have hworker := hs.running i w hi
  have hkept : s.keeps .resident = some w := hworker
  refine ⟨hworker, ⟨hs.custody.known _ w hkept, hs.custody.live _ w hkept⟩, ?_⟩
  intro hshutting
  obtain ⟨l, hne, hl⟩ := kept_of_shutting hshutting
  exact hne (hs.custody.alone l .resident w w hl hkept)

theorem Inv.load_failed (hs : Inv s) (h : LocalModel.step idle s (.loadFailed i) = some s') :
    s'.worker = none := by
  simp only [LocalModel.step] at h
  split at h
  · rename_i w hi
    cases h
    exact hs.custody.none_of_ne (l := .operation i) (w := w) (by simp [kept, hi, Operation.worker])
      (m := Place.resident) (by simp)
  · cases h

theorem Inv.dropped_of_quiet (hs : Inv s) (hquiet : Quiet s) {w : Nat} (hw : s.alive w) :
    ∃ k, s.shutdowns k = .dropped (some w) := by
  obtain ⟨l, hl⟩ := (hs.custody.accounted w hw.1).resolve_left hw.2
  rcases shutting_of_kept hl with hworker | ⟨i, hi⟩ | ⟨t, ht⟩ | ⟨k, hk⟩ | hdropped
  · rw [hquiet.worker] at hworker
    cases hworker
  · exact (hquiet.not_active hi rfl).elim
  · exact (hquiet.not_unloading ht).elim
  · exact absurd hk (hquiet.shutdown k w)
  · exact hdropped

theorem residency (idle : Nat) (as : List Action) (s : Model) (h : run idle .new as = some s) :
    Residency idle s := by
  have hs : Inv s := Inv.new.run h
  constructor
  · rintro w w' ⟨hw, hlive⟩ ⟨hw', hlive'⟩
    exact hs.custody.unique hw hw' hlive hlive'
  · intro i w hi
    exact hs.running_undisturbed hi
  · intro a s' t w hstep ht
    refine (unloading_of_step hstep ht).imp_right ?_
    rintro ⟨f, hcompleted, hold⟩ c hc
    have := hs.latest f hcompleted c hc
    omega
  · intro hdone w hw
    rcases hs.custody.accounted w hw with hgone | ⟨l, hl⟩
    · exact .inr (.inl hgone)
    · rcases shutting_of_kept hl with hworker | ⟨i, hi⟩ | hshutting
      · exact .inl hworker
      · rcases hdone i with h | h <;> simp [h] at hi
      · exact .inr (.inr hshutting)
  · intro i s' hfailed
    exact hs.load_failed hfailed
  · intro k hk as s' hrun
    obtain ⟨hquiet, hstarted⟩ := (hs.quiet k (by rw [hk]; rfl)).run hrun
    exact ⟨hquiet.worker, hstarted, fun w hw => (hs.run hrun).dropped_of_quiet hquiet hw⟩
  · intro i hi
    exact (hs.late i hi).2.1

/-- The first caller leaves while its worker starts; the timer unloads the worker that stayed. -/
def droppedDuringStart : List Action :=
  [.begin 0, .enter 0, .lock 0, .check 0, .spawn 0, .load 0, .leave 0, .loaded 0, .tick 3, .complete 0,
    .reply 0, .timerLock 0, .timerObserve 0, .tick 5, .timerExpire 0, .timerRelock 0, .timerCheck 0,
    .timerUnloaded 0]

theorem residency_dropped_during_start : ∃ s, run 5 .new droppedDuringStart = some s ∧
    s.completions = [3] ∧ s.gone = [0] ∧ Residency 5 s :=
  ⟨_, rfl, rfl, rfl, residency 5 droppedDuringStart _ rfl⟩

end GraphitBroker.LocalModel
