import GraphitBroker.Lib.Locks

/-!
# Residency of the local models

`LocalModel` of `local_model.rs`: one native worker is kept between requests, loaded by the first call
that needs it, unloaded by an idle timer and by `shutdown`. A step is one access of one party to what
the parties share: the lock of the resident worker, the stop flag, the permit of `changed`, the slot of
the timer's handle. Steps of all parties interleave in any order, and time passes between any two.

The start, the call and the shutdown of a native worker are steps that end at any time and with any
result; a start that fails leaves no native worker behind. What a request asks of the worker and what it
answers are not modelled. A party that waits in a `select!` may take any branch that is ready, whatever
the order the source prefers.
-/

namespace GraphitBroker.LocalModel

open Locks

/-- The future of `execute`. -/
inductive Call where
  | absent
  | entered
  /-- It waits for the lock. -/
  | waiting
  | locked
  /-- It has the lock and saw that `stop` was not cancelled. -/
  | checked
  /-- The operation is spawned, the reply is awaited. -/
  | spawned
  | ended
  deriving DecidableEq

/-- The task that `execute` spawns. It owns the guard of the lock from its first step to its last. -/
inductive Operation where
  | absent
  | opened
  | starting (worker : Nat)
  | running (worker : Nat)
  | finished
  | done
  deriving DecidableEq

/-- The task of `start_idle_timer`. -/
inductive Timer where
  | absent
  /-- The head of the loop, where the lock is awaited for the first time. -/
  | looping
  | observing
  | waiting (deadline : Option Nat)
  /-- The deadline has passed, the lock is awaited for the second time. -/
  | expired
  | checking
  | unloading (worker : Nat)
  | done
  deriving DecidableEq

/-- The future of `shutdown`. -/
inductive Shutdown where
  | absent
  | waiting
  | locked
  | closing (worker : Nat)
  | closed
  /-- The lock is dropped, the handle of the timer is not yet taken. -/
  | unlocked
  | joining (timer : Option Nat)
  | returned
  /-- Its caller dropped it; the shutdown of a worker it had taken goes on without it. -/
  | dropped (worker : Option Nat)
  deriving DecidableEq

inductive Party where
  | call (i : Nat)
  | operation (i : Nat)
  | timer (t : Nat)
  | shutdown (k : Nat)
  deriving DecidableEq

/-- The shared state and where every party stands. Workers and timers are numbered in the order of their
starts; the operation that call `i` spawns is operation `i`. -/
structure Model where
  /-- Whose guard locks `state`. -/
  holder : Option Party
  worker : Option Nat
  completed : Option Nat
  stop : Bool
  /-- The permit that `notify_one` leaves for the next `notified`. -/
  changed : Bool
  /-- The handle in `timer`. -/
  timer : Option Nat
  now : Nat
  calls : Nat → Call
  operations : Nat → Operation
  timers : Nat → Timer
  timersStarted : Nat
  shutdowns : Nat → Shutdown
  /-- How many native workers were ever started. -/
  started : Nat
  /-- The workers that were shut down or whose start failed. -/
  gone : List Nat
  /-- When operations completed on a worker. -/
  completions : List Nat
  /-- The calls that began after `stop`. -/
  late : Nat → Bool

def Model.new : Model where
  holder := none
  worker := none
  completed := none
  stop := false
  changed := false
  timer := none
  now := 0
  calls := fun _ => .absent
  operations := fun _ => .absent
  timers := fun _ => .absent
  timersStarted := 0
  shutdowns := fun _ => .absent
  started := 0
  gone := []
  completions := []
  late := fun _ => false

namespace Model

def setCall (s : Model) (i : Nat) (c : Call) : Model :=
  { s with calls := Function.update s.calls i c }

def setOperation (s : Model) (i : Nat) (o : Operation) : Model :=
  { s with operations := Function.update s.operations i o }

def setTimer (s : Model) (t : Nat) (p : Timer) : Model :=
  { s with timers := Function.update s.timers t p }

def setShutdown (s : Model) (k : Nat) (p : Shutdown) : Model :=
  { s with shutdowns := Function.update s.shutdowns k p }

/-- `start_idle_timer`. -/
def startIdleTimer (s : Model) : Model :=
  match s.timer with
  | some _ => s
  | none =>
    { s.setTimer s.timersStarted .looping with
      timer := some s.timersStarted, timersStarted := s.timersStarted + 1 }

end Model

inductive Action where
  | tick (elapsed : Nat)
  /-- `stop`, and the drop of the model. -/
  | stop
  | begin (i : Nat)
  /-- The first look at `stop`. -/
  | enter (i : Nat)
  /-- The caller is cancelled, times out or drops the future, or `execute` returns to it. -/
  | leave (i : Nat)
  | lock (i : Nat)
  /-- `context.check` fails under the lock. -/
  | refuse (i : Nat)
  /-- The second look at `stop`, under the lock. -/
  | check (i : Nat)
  | spawn (i : Nat)
  /-- The operation finds the resident worker or begins to load one. -/
  | load (i : Nat)
  | loaded (i : Nat)
  | loadFailed (i : Nat)
  | complete (i : Nat)
  /-- The operation replies and drops its guard. -/
  | reply (i : Nat)
  | timerLock (t : Nat)
  | timerObserve (t : Nat)
  | timerStop (t : Nat)
  | timerNotified (t : Nat)
  | timerExpire (t : Nat)
  | timerRelock (t : Nat)
  | timerCheck (t : Nat)
  | timerUnloaded (t : Nat)
  | shutdown (k : Nat)
  | shutdownLock (k : Nat)
  | shutdownTake (k : Nat)
  | shutdownClosed (k : Nat)
  | shutdownUnlock (k : Nat)
  | shutdownTimer (k : Nat)
  | shutdownReturn (k : Nat)
  | shutdownDrop (k : Nat)

/-- One step, `none` where the party is not at the point the action is about. -/
def step (idle : Nat) (s : Model) : Action → Option Model
  | .tick elapsed => some { s with now := s.now + elapsed }
  | .stop => some { s with stop := true }
  | .begin i =>
    guarded (s.calls i = .absent)
      { s.setCall i .entered with late := Function.update s.late i s.stop }
  | .enter i =>
    guarded (s.calls i = .entered) (s.setCall i (if s.stop then .ended else .waiting))
  | .leave i =>
    -- once the operation is spawned it does not end with its caller
    guarded (s.calls i = .entered ∨ s.calls i = .waiting ∨ s.calls i = .spawned)
      (s.setCall i .ended)
  | .lock i =>
    guarded (s.calls i = .waiting ∧ s.holder = none)
      { s.setCall i .locked with holder := some (.call i) }
  | .refuse i =>
    guarded (s.calls i = .locked) { s.setCall i .ended with holder := none }
  | .check i =>
    guarded (s.calls i = .locked)
      (if s.stop then { s.setCall i .ended with holder := none } else s.setCall i .checked)
  | .spawn i =>
    guarded (s.calls i = .checked)
      { ((s.startIdleTimer).setCall i .spawned).setOperation i .opened with
        holder := some (.operation i) }
  | .load i =>
    guarded (s.operations i = .opened)
      (match s.worker with
      | some w => s.setOperation i (.running w)
      | none => { s.setOperation i (.starting s.started) with started := s.started + 1 })
  | .loaded i =>
    match s.operations i with
    | .starting w => some { s.setOperation i (.running w) with worker := some w }
    | _ => none
  | .loadFailed i =>
    match s.operations i with
    | .starting w => some { s.setOperation i .finished with gone := w :: s.gone }
    | _ => none
  | .complete i =>
    match s.operations i with
    | .running _ =>
      some { s.setOperation i .finished with
        completed := some s.now, changed := true, completions := s.now :: s.completions }
    | _ => none
  | .reply i =>
    guarded (s.operations i = .finished) { s.setOperation i .done with holder := none }
  | .timerLock t =>
    guarded (s.timers t = .looping ∧ s.holder = none)
      { s.setTimer t .observing with holder := some (.timer t) }
  | .timerObserve t =>
    guarded (s.timers t = .observing)
      { s.setTimer t (.waiting (s.completed.map (· + idle))) with holder := none }
  | .timerStop t =>
    match s.timers t with
    | .waiting _ => guarded (s.stop = true) (s.setTimer t .done)
    | _ => none
  | .timerNotified t =>
    match s.timers t with
    | .waiting _ => guarded (s.changed = true) { s.setTimer t .looping with changed := false }
    | _ => none
  | .timerExpire t =>
    match s.timers t with
    | .waiting (some deadline) => guarded (deadline ≤ s.now) (s.setTimer t .expired)
    | _ => none
  | .timerRelock t =>
    guarded (s.timers t = .expired ∧ s.holder = none)
      { s.setTimer t .checking with holder := some (.timer t) }
  | .timerCheck t =>
    guarded (s.timers t = .checking)
      (if s.completed.any (fun finished => decide (finished + idle ≤ s.now)) then
        match s.worker with
        | some w => { s.setTimer t (.unloading w) with worker := none }
        | none => { s.setTimer t .looping with completed := none, holder := none }
      else { s.setTimer t .looping with holder := none })
  | .timerUnloaded t =>
    match s.timers t with
    | .unloading w =>
      some { s.setTimer t .looping with gone := w :: s.gone, completed := none, holder := none }
    | _ => none
  | .shutdown k =>
    guarded (s.shutdowns k = .absent) { s.setShutdown k .waiting with stop := true }
  | .shutdownLock k =>
    guarded (s.shutdowns k = .waiting ∧ s.holder = none)
      { s.setShutdown k .locked with holder := some (.shutdown k) }
  | .shutdownTake k =>
    guarded (s.shutdowns k = .locked)
      (match s.worker with
      | some w => { s.setShutdown k (.closing w) with worker := none }
      | none => s.setShutdown k .closed)
  | .shutdownClosed k =>
    match s.shutdowns k with
    | .closing w => some { s.setShutdown k .closed with gone := w :: s.gone }
    | .dropped (some w) => some { s.setShutdown k (.dropped none) with gone := w :: s.gone }
    | _ => none
  | .shutdownUnlock k =>
    guarded (s.shutdowns k = .closed)
      { s.setShutdown k .unlocked with completed := none, holder := none }
  | .shutdownTimer k =>
    guarded (s.shutdowns k = .unlocked) { s.setShutdown k (.joining s.timer) with timer := none }
  | .shutdownReturn k =>
    match s.shutdowns k with
    | .joining none => some (s.setShutdown k .returned)
    | .joining (some t) => guarded (s.timers t = .done) (s.setShutdown k .returned)
    | _ => none
  | .shutdownDrop k =>
    -- the future is dropped where it waits: for the lock, for the worker or for the timer
    match s.shutdowns k with
    | .waiting | .joining _ => some (s.setShutdown k (.dropped none))
    | .closing w => some { s.setShutdown k (.dropped (some w)) with holder := none }
    | _ => none

def run (idle : Nat) (s : Model) : List Action → Option Model
  | [] => some s
  | a :: as => (step idle s a).bind fun s' => run idle s' as

end GraphitBroker.LocalModel
