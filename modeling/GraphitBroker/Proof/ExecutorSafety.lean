import GraphitBroker.SqliteExecutor
import Mathlib.Tactic.SplitIfs

/-!
# Cancelled writes are not done

Invariants of the executor over every interleaving: an operation holds the owner until its handle is
cleared, and a cancel and the commit race for one transition of its phase.
-/

namespace GraphitBroker.SqliteExecutor

open Locks

variable {s s' : Executor} {a : Nat} {action : Action} {actions : List Action}

def Worker.holds : Worker → Bool
  | .absent | .released => false
  | _ => true

def Caller.holds : Caller → Bool
  | .acquired | .installed | .admitted | .published => true
  | _ => false

def Caller.early : Caller → Bool
  | .idle | .waiting | .acquired | .installed | .admitted | .published => true
  | _ => false

def Worker.transacts : Worker → Bool
  | .closure | .checked | .committing | .returned => true
  | _ => false

/-- What the locks say of one operation: what it holds, it holds as the owner, and its job runs as the
active operation. -/
structure Orderly (owner active : Option Nat) (a : Nat) (o : Operation) : Prop where
  early : o.caller.early → o.worker = .absent
  caller : o.caller.holds → owner = some a
  worker : o.worker.holds → owner = some a
  handle : o.interrupt → owner = some a
  active : o.caller = .published ∨ o.worker.holds → active = some a
  cleared : o.worker = .finished → o.interrupt = false

structure Owned (s : Executor) : Prop where
  orderly : ∀ a, Orderly s.owner s.active a (s.ops a)
  transaction : s.connection = some .inTransaction →
    ∃ a, s.owner = some a ∧ (s.ops a).worker.transacts

theorem Owned.of_step (hs : Owned s) (a : Nat) (hothers : ∀ b, b ≠ a → s'.ops b = s.ops b)
    (howner : s'.owner = s.owner ∧ s'.active = s.active ∨ s.owner = none ∨ s.owner = some a)
    (ha : Orderly s'.owner s'.active a (s'.ops a))
    (htransaction : s'.connection = some .inTransaction →
      ∃ a, s'.owner = some a ∧ (s'.ops a).worker.transacts) : Owned s' := by
  refine ⟨fun b => ?_, htransaction⟩
  by_cases hb : b = a
  · exact hb ▸ ha
  rw [hothers b hb]
  have horderly := hs.orderly b
  rcases howner with ⟨ho, hactive⟩ | howner
  · rw [ho, hactive]
    exact horderly
  · have hnot : s.owner ≠ some b := by grind
    refine ⟨horderly.early, fun h => absurd (horderly.caller h) hnot,
      fun h => absurd (horderly.worker h) hnot, fun h => absurd (horderly.handle h) hnot, ?_,
      horderly.cleared⟩
    rintro (h | h)
    · exact absurd (horderly.caller (by rw [h]; rfl)) hnot
    · exact absurd (horderly.worker h) hnot

theorem Owned.of_same (hs : Owned s) (howner : s'.owner = s.owner) (hactive : s'.active = s.active)
    (hconnection : s'.connection = some .inTransaction → s.connection = some .inTransaction)
    (hops : ∀ a, (s'.ops a).caller = (s.ops a).caller ∧ (s'.ops a).worker = (s.ops a).worker ∧
      (s'.ops a).interrupt = (s.ops a).interrupt) : Owned s' := by
  constructor
  · intro a
    obtain ⟨hcaller, hworker, hinterrupt⟩ := hops a
    obtain ⟨h1, h2, h3, h4, h5, h6⟩ := hs.orderly a
    rw [howner, hactive]
    constructor <;> simpa only [hcaller, hworker, hinterrupt]
  · intro hopen
    obtain ⟨a, ha, hworker⟩ := hs.transaction (hconnection hopen)
    exact ⟨a, howner.trans ha, by rwa [(hops a).2.1]⟩

attribute [grind =] Worker.holds Caller.holds Caller.early Worker.transacts Executor.setCaller
  Executor.setWorker
attribute [grind cases] Orderly
attribute [grind →] Owned.transaction

@[grind →]
theorem Caller.early_of_holds {p : Caller} (h : p.holds = true) : p.early = true := by
  cases p <;> first | rfl | exact h

theorem Owned.leave (hs : Owned s) (a : Nat) (ha : (s.ops a).caller.holds = true) :
    Owned (s.leave a) := by
  have horderly := hs.orderly a
  have howner := horderly.caller ha
  have habsent : (s.ops a).worker = .absent := horderly.early (Caller.early_of_holds ha)
  refine hs.of_step a (fun b hb => by simp [Executor.leave, hb]) (.inr (.inr howner)) ?_ ?_
  · constructor <;> simp [Executor.leave, habsent, Caller.early, Caller.holds, Worker.holds]
  · intro hopen
    obtain ⟨b, hb, hworker⟩ := hs.transaction hopen
    obtain rfl : a = b := by simpa [howner] using hb
    simp [habsent, Worker.transacts] at hworker

theorem Owned.of_worker (hs : Owned s) (a : Nat)
    (hheld : (s.ops a).worker.holds = true) (hothers : ∀ b, b ≠ a → s'.ops b = s.ops b)
    (howner : s'.owner = s.owner) (hactive : s'.active = s.active)
    (hcaller : (s'.ops a).caller = (s.ops a).caller)
    (hcleared : (s'.ops a).worker = .finished → (s'.ops a).interrupt = false)
    (hconnection : s'.connection = some .inTransaction → (s'.ops a).worker.transacts = true ∨
      s.connection = some .inTransaction ∧ (s.ops a).worker.transacts = false) : Owned s' := by
  obtain ⟨hearly, -, hworker, -, hrunning, -⟩ := hs.orderly a
  have ha := hworker hheld
  have hlate : (s.ops a).caller.early ≠ true := by
    intro h
    rw [hearly h] at hheld
    cases hheld
  refine hs.of_step a hothers (.inl ⟨howner, hactive⟩) ?_ fun hopen => ?_
  · rw [howner, hactive]
    exact ⟨fun h => absurd (hcaller ▸ h) hlate, fun _ => ha, fun _ => ha, fun _ => ha,
      fun _ => hrunning (.inr hheld), hcleared⟩
  · rcases hconnection hopen with htransacts | ⟨hbefore, hnot⟩
    · exact ⟨a, howner.trans ha, htransacts⟩
    · obtain ⟨b, hb, htransacts⟩ := hs.transaction hbefore
      obtain rfl : a = b := Option.some.inj (ha.symm.trans hb)
      rw [hnot] at htransacts
      cases htransacts

theorem Owned.install (hs : Owned s) (h : s.install a = some s') :
    Owned s' := by
  simp only [Executor.install, guarded_eq_some] at h
  obtain ⟨hcaller, rfl⟩ := h
  split
  · exact hs.leave a (by rw [hcaller]; rfl)
  · have ha := hs.orderly a
    refine hs.of_step a (by grind) (by grind) ?_ (by grind)
    constructor <;> grind

theorem Owned.admission (hs : Owned s) (h : s.admission a = some s') :
    Owned s' := by
  simp only [Executor.admission, guarded_eq_some] at h
  obtain ⟨hcaller, rfl⟩ := h
  split
  · have ha := hs.orderly a
    refine hs.of_step a (by grind) (by grind) ?_ (by grind)
    constructor <;> grind
  · exact hs.leave a (by rw [hcaller]; rfl)

theorem Owned.commit {result : CommitResult} (hs : Owned s)
    (h : s.commit a result = some s') : Owned s' := by
  simp only [Executor.commit, guarded_eq_some] at h
  obtain ⟨hg, rfl⟩ := h
  cases result <;> apply hs.of_worker a <;> grind

theorem Owned.resolve (hs : Owned s) (h : s.resolve a = some s') :
    Owned s' := by
  unfold Executor.resolve at h
  split at h
  · obtain ⟨hg, rfl⟩ := guarded_eq_some.mp h
    have ha := hs.orderly a
    refine hs.of_step a (by grind) (by grind) ?_ (by grind)
    constructor <;> grind
  · cases h

theorem Owned.release (hs : Owned s) (h : s.release a = some s') :
    Owned s' := by
  unfold Executor.release at h
  split at h
  · obtain ⟨hg, rfl⟩ := guarded_eq_some.mp h
    have ha := hs.orderly a
    refine hs.of_step a (by grind) (by grind) ?_ (by grind)
    constructor <;> grind
  · cases h

theorem Owned.waiting (hs : Owned s)
    (haction : action = .call a ∨ action = .acquire a ∨ action = .giveUp a ∨ action = .abandon a)
    (h : s.step action = some s') : Owned s' := by
  rcases haction with rfl | rfl | rfl | rfl
  all_goals
    simp only [Executor.step, Executor.call, Executor.acquire, Executor.giveUp, Executor.abandon,
      guarded_eq_some] at h
    obtain ⟨hg, rfl⟩ := h
    have ha := hs.orderly a
    refine hs.of_step a (by grind) (by grind) ?_ (by grind)
    constructor <;> grind

theorem Owned.handing (hs : Owned s)
    (haction : action = .publish a ∨ action = .spawn a) (h : s.step action = some s') : Owned s' := by
  rcases haction with rfl | rfl
  all_goals
    simp only [Executor.step, Executor.publish, Executor.spawn, guarded_eq_some] at h
    obtain ⟨hg, rfl⟩ := h
    have ha := hs.orderly a
    refine hs.of_step a (by grind) (by grind) ?_ (by grind)
    constructor <;> grind

theorem Owned.ending (hs : Owned s)
    (haction : action = .take a ∨ action = .timeout a ∨ action = .dropFuture a)
    (h : s.step action = some s') : Owned s' := by
  rcases haction with rfl | rfl | rfl
  all_goals
    simp only [Executor.step, Executor.take, Executor.timeout, Executor.dropFuture,
      guarded_eq_some] at h
    obtain ⟨hg, rfl⟩ := h
    have ha := hs.orderly a
    refine hs.of_step a (by grind) (by grind) ?_ (by grind)
    constructor <;> grind

theorem Owned.step (hs : Owned s) (h : s.step action = some s') : Owned s' := by
  cases action with
  | call a | acquire a | giveUp a | abandon a => exact hs.waiting (a := a) (by simp) h
  | publish a | spawn a => exact hs.handing (a := a) (by simp) h
  | take a | timeout a | dropFuture a => exact hs.ending (a := a) (by simp) h
  | enter a | refuse a | begin a | statement a | commitCheck a | commitSwap a | commitStore a
  | closureReturn a | settle a | clear a | rollback a done =>
    simp only [Executor.step, Executor.enter, Executor.refuse, Executor.begin, Executor.statement,
      Executor.commitCheck, Executor.commitSwap, Executor.commitStore, Executor.closureReturn,
      Executor.settle, Executor.clear, Executor.rollback, guarded_eq_some] at h
    obtain ⟨hg, rfl⟩ := h
    apply hs.of_worker a <;> grind
  | install a => exact hs.install h
  | admission a => exact hs.admission h
  | commit a result => exact hs.commit h
  | resolve a => exact hs.resolve h
  | release a => exact hs.release h
  | expire a =>
    obtain rfl := Option.some.inj h
    exact hs.of_same rfl rfl id (by grind)
  | stop n | drain =>
    simp only [Executor.step, Executor.stop, Executor.drain, guarded_eq_some] at h
    obtain ⟨hg, rfl⟩ := h
    exact hs.of_same rfl rfl (by grind) (by grind)
  | dropRunning a | stopRead n upgraded =>
    simp only [Executor.step, Executor.dropRunning, Executor.stopRead] at h
    split at h <;> first | cases h | skip
    all_goals
      obtain ⟨hg, rfl⟩ := guarded_eq_some.mp h
      exact hs.of_same rfl rfl id (by grind)
  | cancelStore c | cancelSwap c | cancelInterrupt c | cancelReturn c =>
    simp only [Executor.step, Executor.cancelStore, Executor.cancelSwap, Executor.cancelInterrupt,
      Executor.cancelReturn] at h
    split at h
    · obtain rfl := Option.some.inj h
      exact hs.of_same rfl rfl id (by grind)
    · cases h

/-- Everything that a step taken in `s` can do to the phase of operation `a`, to the part of its job that
commits, and to what is durable. -/
inductive Moves (s : Executor) (a : Nat) (o o' : Operation) : Prop where
  | keep (hphase : o'.phase = o.phase) (hdurable : o'.durable = o.durable)
      (hworker : o'.worker = o.worker ∨
        o'.worker ≠ .checked ∧ o'.worker ≠ .committing ∧ o'.worker ≠ .committed)
  | check (hcheck : s.check a = none) (hphase : o'.phase = o.phase) (hdurable : o'.durable = o.durable)
      (hworker : o'.worker = .checked)
  | swap (hchecked : o.worker = .checked) (hrunning : o.phase = .running)
      (hphase : o'.phase = .committing) (hdurable : o'.durable = o.durable)
      (hworker : o'.worker = .committing)
  | commit (hcommitting : o.worker = .committing) (hphase : o'.phase = o.phase)
      (hdurable : o.durable → o'.durable) (hworker : o'.worker = .committed ∨ o'.worker = .closure)
  | store (hcommitted : o.worker = .committed) (hphase : o'.phase = .committed)
      (hdurable : o'.durable = o.durable) (hworker : o'.worker = .closure)
  | cancel (hphase : o'.phase = if o.phase = .running then .cancelled else o.phase)
      (hdurable : o'.durable = o.durable) (hworker : o'.worker = o.worker)

theorem Moves.refl (s : Executor) (a : Nat) (o : Operation) : Moves s a o o := .keep rfl rfl (.inl rfl)

theorem step_moves (h : s.step action = some s') (b : Nat) :
    Moves s b (s.ops b) (s'.ops b) := by
  cases action with
  | commitCheck a | commitSwap a | commitStore a =>
    simp only [Executor.step, Executor.commitCheck, Executor.commitSwap, Executor.commitStore,
      guarded_eq_some] at h
    obtain ⟨hg, rfl⟩ := h
    by_cases hb : b = a
    · subst hb
      grind [Moves]
    · grind [Moves]
  | commit a result =>
    simp only [Executor.step, Executor.commit, guarded_eq_some] at h
    obtain ⟨hg, rfl⟩ := h
    by_cases hb : b = a
    · subst hb
      cases result <;> exact .commit hg (by simp) (by simp +contextual) (by simp)
    · cases result <;> simpa [hb] using Moves.refl s b _
  | call a | acquire a | giveUp a | abandon a | install a | admission a | publish a | spawn a | enter a
  | refuse a | begin a | statement a | rollback a _ | closureReturn a | settle a | clear a | take a
  | timeout a | dropFuture a | stop n | drain =>
    simp only [Executor.step, Executor.call, Executor.acquire, Executor.giveUp, Executor.abandon,
      Executor.install, Executor.admission, Executor.publish, Executor.spawn, Executor.enter,
      Executor.refuse, Executor.begin, Executor.statement, Executor.rollback, Executor.closureReturn,
      Executor.settle, Executor.clear, Executor.take, Executor.timeout, Executor.dropFuture,
      Executor.stop, Executor.drain, guarded_eq_some] at h
    obtain ⟨hg, rfl⟩ := h
    apply Moves.keep <;> grind
  | resolve a | release a | dropRunning a | stopRead n upgraded =>
    simp only [Executor.step, Executor.resolve, Executor.release, Executor.dropRunning,
      Executor.stopRead] at h
    split at h <;> first | cases h | skip
    all_goals
      obtain ⟨hg, rfl⟩ := guarded_eq_some.mp h
      apply Moves.keep <;> grind
  | expire a =>
    obtain rfl := Option.some.inj h
    apply Moves.keep <;> grind
  | cancelStore c | cancelSwap c | cancelInterrupt c | cancelReturn c =>
    simp only [Executor.step, Executor.cancelStore, Executor.cancelSwap, Executor.cancelInterrupt,
      Executor.cancelReturn] at h
    split at h
    · obtain rfl := Option.some.inj h
      grind [Moves]
    · cases h

inductive Progress (s s' : Executor) (c : Canceller) : Prop where
  | keep (h : s'.cancels c = s.cancels c)
  | start (a : Nat) (hc : c = .finish a ∨ c = .drop a) (h : s'.cancels c = .targeted a)
  | close (n : Nat) (hc : c = .stop n) (hidle : s.cancels c = .idle) (hclosed : s'.closed)
      (h : s'.cancels c = .closing)
  | read (a : Nat) (hclosing : s.cancels c = .closing) (hops : s'.ops = s.ops)
      (hactive : s.active = some a) (h : s'.cancels c = .targeted a)
  | miss (hclosing : s.cancels c = .closing) (hops : s'.ops = s.ops)
      (hactive : ∀ a, s.active = some a → s.alive a = false) (h : s'.cancels c = .returned none)
  | store (a : Nat) (htargeted : s.cancels c = .targeted a) (h : s'.cancels c = .stored a)
  | swap (a : Nat) (hstored : s.cancels c = .stored a) (hphase : (s'.ops a).phase ≠ .running)
      (hcancelled : (s.ops a).phase = .running → (s'.ops a).phase = .cancelled)
      (h : s'.cancels c = .swapped a (s.ops a).phase)
  | interrupt (a : Nat) (previous : Phase) (hswapped : s.cancels c = .swapped a previous)
      (h : s'.cancels c = .interrupted a previous)
  | finish (a : Nat) (previous : Phase) (hinterrupted : s.cancels c = .interrupted a previous)
      (h : s'.cancels c = .returned (some (s.cancelError previous)))

theorem step_progress (h : s.step action = some s') (c : Canceller) : Progress s s' c := by
  cases action with
  | call a | acquire a | giveUp a | abandon a | install a | admission a | publish a | spawn a | enter a
  | refuse a | begin a | statement a | rollback a _ | commitCheck a | commitSwap a
  | commitStore a | closureReturn a | settle a | clear a | take a | drain =>
    simp only [Executor.step, Executor.call, Executor.acquire, Executor.giveUp, Executor.abandon,
      Executor.install, Executor.admission, Executor.publish, Executor.spawn, Executor.enter,
      Executor.refuse, Executor.begin, Executor.statement, Executor.rollback, Executor.commitCheck,
      Executor.commitSwap, Executor.commitStore, Executor.closureReturn,
      Executor.settle, Executor.clear, Executor.take, Executor.drain, guarded_eq_some] at h
    obtain ⟨hg, rfl⟩ := h
    apply Progress.keep
    grind
  | expire a =>
    obtain rfl := Option.some.inj h
    exact .keep rfl
  | commit a result =>
    simp only [Executor.step, Executor.commit, guarded_eq_some] at h
    obtain ⟨hg, rfl⟩ := h
    cases result <;> exact .keep rfl
  | timeout a | dropFuture a =>
    simp only [Executor.step, Executor.timeout, Executor.dropFuture, guarded_eq_some] at h
    obtain ⟨hg, rfl⟩ := h
    by_cases hc : c = .finish a ∨ c = .drop a
    · grind [Progress.start a hc, Progress.keep]
    · apply Progress.keep
      grind
  | stop n =>
    simp only [Executor.step, Executor.stop, guarded_eq_some] at h
    obtain ⟨hg, rfl⟩ := h
    by_cases hc : c = .stop n
    · exact .close n hc (by rw [hc, hg]) rfl (by simp [hc])
    · exact .keep (by simp [hc])
  | resolve a | release a | dropRunning a | stopRead n upgraded =>
    simp only [Executor.step, Executor.resolve, Executor.release, Executor.dropRunning,
      Executor.stopRead] at h
    split at h <;> first | cases h | skip
    all_goals
      obtain ⟨hg, rfl⟩ := guarded_eq_some.mp h
      grind [Progress, Executor.setCancel]
  | cancelStore c' | cancelSwap c' | cancelInterrupt c' | cancelReturn c' =>
    simp only [Executor.step, Executor.cancelStore, Executor.cancelSwap, Executor.cancelInterrupt,
      Executor.cancelReturn] at h
    split at h
    · obtain rfl := Option.some.inj h
      grind [Progress]
    · cases h

/-- What one step records: a cancelled token stays cancelled, and an outcome is only changed to what the
cancellation of its own call has returned. -/
structure Recorded (s s' : Executor) : Prop where
  closed : s.closed = true → s'.closed = true
  outcome : ∀ a, (s'.ops a).outcome = (s.ops a).outcome ∨
    s.cancels (.finish a) = .returned (s'.ops a).outcome

theorem step_recorded (h : s.step action = some s') :
    Recorded s s' := by
  cases action with
  | expire a =>
    obtain rfl := Option.some.inj h
    constructor <;> grind
  | resolve a | release a | dropRunning a | stopRead n upgraded =>
    simp only [Executor.step, Executor.resolve, Executor.release, Executor.dropRunning,
      Executor.stopRead] at h
    split at h <;> first | cases h | skip
    all_goals
      obtain ⟨hg, rfl⟩ := guarded_eq_some.mp h
      constructor <;> grind
  | cancelStore c' | cancelSwap c' | cancelInterrupt c' | cancelReturn c' =>
    simp only [Executor.step, Executor.cancelStore, Executor.cancelSwap, Executor.cancelInterrupt,
      Executor.cancelReturn] at h
    split at h
    · obtain rfl := Option.some.inj h
      constructor <;> grind
    · cases h
  | commit a result =>
    simp only [Executor.step, Executor.commit, guarded_eq_some] at h
    obtain ⟨hg, rfl⟩ := h
    cases result <;> constructor <;> grind
  | _ =>
    simp only [Executor.step, Executor.call, Executor.acquire, Executor.giveUp, Executor.abandon,
      Executor.install, Executor.admission, Executor.publish, Executor.spawn, Executor.enter,
      Executor.refuse, Executor.begin, Executor.statement, Executor.rollback, Executor.commitCheck,
      Executor.commitSwap, Executor.commitStore, Executor.closureReturn,
      Executor.settle, Executor.clear, Executor.take, Executor.timeout, Executor.dropFuture,
      Executor.stop, Executor.drain, guarded_eq_some] at h
    obtain ⟨hg, rfl⟩ := h
    constructor <;> grind

structure Committed (o : Operation) : Prop where
  phase : o.worker = .committing ∨ o.worker = .committed → o.phase = .committing
  durable : o.durable → o.phase = .committing ∨ o.phase = .committed

theorem Moves.committed {o o' : Operation} (h : Moves s a o o') (ho : Committed o) : Committed o' := by
  obtain ⟨hphase, hdurable⟩ := ho
  cases h <;> constructor <;> grind

theorem Moves.cancelled {o o' : Operation} (h : Moves s a o o')
    (ho : Committed o) (hcancelled : o.phase = .cancelled) : o'.phase = .cancelled := by
  have hphase := ho.phase
  cases h <;> grind

def NotDone (error : SqliteControlError) : Prop := error = .closed ∨ error = .deadline

theorem cancelError_notDone {previous : Phase}
    (h : NotDone (s.cancelError previous)) : previous = .running ∨ previous = .cancelled := by
  cases previous <;> simp_all [NotDone, Executor.cancelError]

/-- A call of `cancel` that found its operation running or cancelled left it cancelled; that of
`finish` is about the operation that awaits. -/
structure Cancelled (s : Executor) : Prop where
  committed : ∀ a, Committed (s.ops a)
  swapped : ∀ c a previous, s.cancels c = .swapped a previous ∨ s.cancels c = .interrupted a previous →
    previous = .running ∨ previous = .cancelled → (s.ops a).phase = .cancelled
  target : ∀ a b previous, s.cancels (.finish a) = .targeted b ∨ s.cancels (.finish a) = .stored b ∨
    s.cancels (.finish a) = .swapped b previous ∨ s.cancels (.finish a) = .interrupted b previous →
      a = b
  fresh : ∀ a, s.cancels (.finish a) ≠ .closing
  returned : ∀ a error, s.cancels (.finish a) = .returned (some error) → NotDone error →
    (s.ops a).phase = .cancelled
  outcome : ∀ a error, (s.ops a).outcome = some error → NotDone error → (s.ops a).phase = .cancelled

theorem Cancelled.step (hs : Cancelled s) (h : s.step action = some s') : Cancelled s' := by
  have hmoves := step_moves h
  have hkeeps : ∀ a, (s.ops a).phase = .cancelled → (s'.ops a).phase = .cancelled :=
    fun a => (hmoves a).cancelled (hs.committed a)
  refine ⟨fun a => (hmoves a).committed (hs.committed a), fun c a previous hc hprevious => ?_,
    fun a b previous hc => ?_, fun a hc => ?_, fun a error hc hnotDone => ?_,
    fun a error hc hnotDone => ?_⟩
  · -- The one step that enters `swapped` cancels a running operation.
    have hswapped := hs.swapped c
    cases step_progress h c <;> grind
  · have htarget := hs.target a
    have hfresh := hs.fresh a
    cases step_progress h (.finish a) <;> grind
  · have hfresh := hs.fresh a
    cases step_progress h (.finish a) <;> grind
  · cases step_progress h (.finish a) with
    | keep hsame => exact hkeeps a (hs.returned a error (hsame ▸ hc) hnotDone)
    | finish b previous hinterrupted hreturned =>
      obtain rfl := hs.target a b previous (.inr (.inr (.inr hinterrupted)))
      have herror : s.cancelError previous = error := by grind
      exact hkeeps a (hs.swapped _ a previous (.inr hinterrupted)
        (cancelError_notDone (herror ▸ hnotDone)))
    | _ => grind
  · rcases (step_recorded h).outcome a with hsame | hreturned
    · exact hkeeps a (hs.outcome a error (hsame ▸ hc) hnotDone)
    · exact hkeeps a (hs.returned a error (hc ▸ hreturned) hnotDone)

/-- A `stop` that has read the active operation leaves no other one that has passed its last check, and
one that has cancelled it leaves none. -/
structure Stopped (s : Executor) : Prop where
  closed : ∀ n, s.cancels (.stop n) ≠ .idle → s.closed = true
  target : ∀ n a b, s.cancels (.stop n) = .targeted a ∨ s.cancels (.stop n) = .stored a →
    (s.ops b).worker = .checked → (s.ops b).phase = .running → a = b
  swapped : ∀ n a b previous, s.cancels (.stop n) = .swapped a previous ∨
    s.cancels (.stop n) = .interrupted a previous →
      (s.ops b).worker = .checked → (s.ops b).phase ≠ .running
  returned : ∀ n b error, s.cancels (.stop n) = .returned error →
    (s.ops b).worker = .checked → (s.ops b).phase ≠ .running

theorem Moves.checked {o o' : Operation} (h : Moves s a o o')
    (hclosed : s.closed = true) (hchecked : o'.worker = .checked) (hrunning : o'.phase = .running) :
    o.worker = .checked ∧ o.phase = .running := by
  cases h with
  | check hcheck => simp [Executor.check, hclosed] at hcheck
  | _ => grind

theorem Stopped.step (hs : Stopped s) (howned : Owned s) (h : s.step action = some s') : Stopped s' := by
  have hmoves := step_moves h
  have hactive : ∀ b, (s.ops b).worker = .checked → s.active = some b ∧ s.alive b = true :=
    fun b hb => ⟨(howned.orderly b).active (.inr (by rw [hb]; rfl)),
      by simp [Executor.alive, hb, Worker.keepsWork]⟩
  refine ⟨fun n hn => ?_, fun n a b hn hchecked hrunning => ?_,
    fun n a b previous hn hchecked hrunning => ?_, fun n b error hn hchecked hrunning => ?_⟩
  · have hclosed := hs.closed n
    have hkeeps := (step_recorded h).closed
    cases step_progress h (.stop n) <;> grind
  all_goals
    have hclosed := hs.closed n
    have hbefore := fun hidle : s.cancels (.stop n) ≠ .idle =>
      (hmoves b).checked (hclosed hidle) hchecked hrunning
    have htarget := fun a => hs.target n a b
    have hswapped := fun a => hs.swapped n a b
    have hreturned := hs.returned n b
    cases step_progress h (.stop n) <;> grind

theorem run_keeps {P : Executor → Prop}
    (hstep : ∀ {s s' : Executor} {action : Action}, P s → s.step action = some s' → P s') :
    ∀ {actions : List Action} {s s' : Executor}, P s → s.run actions = some s' → P s'
  | [], s, s', hs, h => Option.some.inj h ▸ hs
  | action :: rest, s, s', hs, h => by
    obtain ⟨next, hnext, hrest⟩ := Option.bind_eq_some_iff.mp h
    exact run_keeps hstep (hstep hs hnext) hrest

structure Safe (s : Executor) : Prop where
  owned : Owned s
  cancelled : Cancelled s
  stopped : Stopped s

theorem Safe.opened : Safe Executor.opened := by
  refine ⟨⟨fun a => ?_, ?_⟩, ?_, ?_⟩
  · constructor <;> simp [Executor.opened, Operation.new, Caller.holds, Worker.holds]
  · simp [Executor.opened]
  · constructor
    · intro a
      constructor <;> simp [Executor.opened, Operation.new]
    all_goals simp [Executor.opened, Operation.new]
  · constructor <;> simp [Executor.opened]

theorem Safe.step (hs : Safe s) (h : s.step action = some s') :
    Safe s' :=
  ⟨hs.owned.step h, hs.cancelled.step h, hs.stopped.step hs.owned h⟩

theorem Safe.run (hs : Safe s) (h : s.run actions = some s') : Safe s' :=
  run_keeps Safe.step hs h

theorem Safe.not_durable (hs : Safe s)
    (hcancelled : (s.ops a).phase = .cancelled) : (s.ops a).durable = false := by
  have hdurable := (hs.cancelled.committed a).durable
  grind

theorem Safe.run_cancelled (hs : Safe s)
    (hcancelled : (s.ops a).phase = .cancelled) (h : s.run actions = some s') :
    (s'.ops a).phase = .cancelled :=
  (run_keeps (P := fun s => Safe s ∧ (s.ops a).phase = .cancelled)
    (fun hs h => ⟨hs.1.step h, (step_moves h a).cancelled (hs.1.cancelled.committed a) hs.2⟩)
    ⟨hs, hcancelled⟩ h).2

theorem run_durable (hdurable : (s.ops a).durable = true) (h : s.run actions = some s') :
    (s'.ops a).durable = true := by
  refine run_keeps (P := fun s => (s.ops a).durable = true) (fun hs h => ?_) hdurable h
  cases step_moves h a <;> grind

theorem Safe.run_stopped (hs : Safe s) {n a : Nat}
    {error : Option SqliteControlError} (hstop : s.cancels (.stop n) = .returned error)
    (hcommitting : (s.ops a).phase ≠ .committing) (hcommitted : (s.ops a).phase ≠ .committed)
    (h : s.run actions = some s') : s'.closed = true ∧ (s'.ops a).durable = false := by
  have hall := run_keeps (P := fun s => Safe s ∧ s.cancels (.stop n) = .returned error ∧
    (s.ops a).phase ≠ .committing ∧ (s.ops a).phase ≠ .committed) (fun hs h => ?_)
    ⟨hs, hstop, hcommitting, hcommitted⟩ h
  · obtain ⟨hsafe, hreturned, hnot⟩ := hall
    have hdurable := (hsafe.cancelled.committed a).durable
    exact ⟨hsafe.stopped.closed n (by simp [hreturned]), by grind⟩
  · obtain ⟨hsafe, hreturned, hnot⟩ := hs
    refine ⟨hsafe.step h, ?_, ?_⟩
    · cases step_progress h (.stop n) <;> grind
    · have hrunning := hsafe.stopped.returned n a error hreturned
      have hphase := (hsafe.cancelled.committed a).phase
      cases step_moves h a <;> grind

structure CancelSafety (s : Executor) : Prop where
  /-- An operation whose `execute` resolved with an error of `cancel` that says that nothing was done
  was not committed before, and is not later. -/
  notDone : ∀ later s', s.run later = some s' → ∀ a error,
    (s.ops a).outcome = some error ∨ (s'.ops a).outcome = some error → NotDone error →
      (s.ops a).durable = false ∧ (s'.ops a).durable = false
  /-- No `COMMIT` starts after a cancel that found the operation running. -/
  noCommit : ∀ c a s₁, s.cancels c = .stored a → (s.ops a).phase = .running →
    s.step (.cancelSwap c) = some s₁ → ∀ later s', s₁.run later = some s' →
      ∀ result, s'.step (.commit a result) = none
  /-- An interrupt is delivered while its own operation owns the connection. -/
  interrupt : ∀ c a, s.interrupts c = some a → s.owner = some a
  /-- A connection is handed over outside of transactions. -/
  handed : ∀ a s', s.step (.acquire a) = some s' → s.connection ≠ some .inTransaction
  /-- After `stop` no closure starts, and what had not reached `committing` is not committed. -/
  stopped : ∀ n error, s.cancels (.stop n) = .returned error → ∀ later s', s.run later = some s' →
    (∀ a, s'.step (.enter a) = none) ∧ ∀ a, (s.ops a).phase ≠ .committing →
      (s.ops a).phase ≠ .committed → (s'.ops a).durable = false

theorem Safe.notDone {later : List Action} (hs : Safe s)
    (h : s.run later = some s') {error : SqliteControlError}
    (houtcome : (s.ops a).outcome = some error ∨ (s'.ops a).outcome = some error)
    (hnotDone : NotDone error) : (s.ops a).durable = false ∧ (s'.ops a).durable = false := by
  have hcancelled : (s'.ops a).phase = .cancelled := by
    rcases houtcome with houtcome | houtcome
    · exact hs.run_cancelled (hs.cancelled.outcome a error houtcome hnotDone) h
    · exact (hs.run h).cancelled.outcome a error houtcome hnotDone
  have hafter := (hs.run h).not_durable hcancelled
  refine ⟨?_, hafter⟩
  by_contra hbefore
  rw [run_durable (by simpa using hbefore) h] at hafter
  cases hafter

theorem Safe.noCommit {s s₁ s' : Executor} {later : List Action} (hs : Safe s) {c : Canceller}
    (hstored : s.cancels c = .stored a) (hrunning : (s.ops a).phase = .running)
    (hswap : s.step (.cancelSwap c) = some s₁) (h : s₁.run later = some s') (result : CommitResult) :
    s'.step (.commit a result) = none := by
  have hsafe := hs.step hswap
  have hcancelled : (s₁.ops a).phase = .cancelled := by
    simp only [Executor.step, Executor.cancelSwap, hstored, Option.some.injEq] at hswap
    simp [← hswap, hrunning]
  have hphase := ((hsafe.run h).cancelled.committed a).phase
  rw [hsafe.run_cancelled hcancelled h] at hphase
  simp only [Executor.step, Executor.commit, guarded]
  rw [if_neg]
  intro hworker
  cases hphase (.inl hworker)

theorem Safe.handed (hs : Safe s) (h : s.step (.acquire a) = some s') :
    s.connection ≠ some .inTransaction := by
  intro hopen
  obtain ⟨b, hb, -⟩ := hs.owned.transaction hopen
  simp only [Executor.step, Executor.acquire, guarded_eq_some] at h
  simp [h.1.2] at hb

theorem enter_of_closed (h : s.closed = true) (a : Nat) :
    s.step (.enter a) = none := by
  simp [Executor.step, Executor.enter, guarded, Executor.check, h]

theorem cancelled_writes_not_done (actions : List Action) (s : Executor)
    (h : Executor.opened.run actions = some s) : CancelSafety s := by
  have hs : Safe s := Safe.opened.run h
  refine ⟨fun later s' h a error => hs.notDone h,
    fun c a s₁ hstored hrunning hswap later s' h => hs.noCommit hstored hrunning hswap h,
    fun c a hc => ?_, fun a s' => hs.handed,
    fun n error hstop later s' h => ⟨fun a => ?_, fun a hne hne' => ?_⟩⟩
  · apply (hs.owned.orderly a).handle
    grind [Executor.interrupts]
  · have hclosed := hs.stopped.closed n (by simp [hstop])
    exact enter_of_closed (run_keeps (P := fun s => s.closed = true)
      (fun hs h => (step_recorded h).closed hs) hclosed h) a
  · exact (hs.run_stopped hstop hne hne' h).2

/-- A run in which a second operation waits while the first is cancelled inside its transaction, and a
`stop` comes before its `COMMIT`. -/
def Sample.cancelledRun : List Action :=
  [.call 0, .acquire 0, .call 1, .install 0, .admission 0, .publish 0, .spawn 0, .enter 0, .begin 0,
    .commitCheck 0, .expire 0, .stop 0, .stopRead 0 true, .timeout 0, .cancelStore (.finish 0),
    .cancelSwap (.finish 0), .commitSwap 0, .cancelInterrupt (.finish 0), .cancelReturn (.finish 0),
    .rollback 0 false, .closureReturn 0, .settle 0, .clear 0]

theorem cancelled_writes_not_done_sample :
    ∃ h : (Executor.opened.run Sample.cancelledRun).isSome = true,
      CancelSafety ((Executor.opened.run Sample.cancelledRun).get h) :=
  ⟨by decide, cancelled_writes_not_done Sample.cancelledRun _ (by simp)⟩

end GraphitBroker.SqliteExecutor
