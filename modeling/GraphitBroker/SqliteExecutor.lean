import GraphitBroker.Lib.Locks

/-!
# The SQLite executor

`Executor` of `sqlite/executor.rs`: operations queue for one connection, run on a blocking thread, and
are cancelled by their deadline, by the drop of the caller's future and by `stop`. A step is one access
to what the parties share: the token, the flags and the phase of a `Work`, its interrupt handle, the
lock of the owner, the connection. Steps of all parties interleave in any order.

The closure of an operation returns and does not panic. What its statements write is not modelled, only
whether the transaction they are in was committed.
-/

namespace GraphitBroker.SqliteExecutor

open Locks

inductive SqliteControlError where
  | configuration
  | privateFile
  | connection
  | schemaRejected
  | storage
  | clock
  | deadline
  | closed
  | outcomeUncertain
  | flowExists
  | invalidFlow
  | unavailable
  | expired
  | corruptFlow
  deriving DecidableEq

inductive Phase where
  | running
  | committing
  | committed
  | cancelled
  deriving DecidableEq

/-- How far `execute` has come for its caller. -/
inductive Caller where
  | idle
  | waiting
  | acquired
  | installed
  | admitted
  | published
  | awaiting
  | cancelling
  | resolved
  deriving DecidableEq

/-- How far the blocking thread has come. `released` is the state after the owner was let go. -/
inductive Worker where
  | absent
  | spawned
  | closure
  | checked
  | committing
  | committed
  | returned
  | settled
  | finished
  | released
  deriving DecidableEq

/-- Between the publication of the `Work` and the end of `Running`. -/
def Caller.keepsWork : Caller → Bool
  | .published | .awaiting | .cancelling => true
  | _ => false

def Worker.keepsWork : Worker → Bool
  | .absent | .finished | .released => false
  | _ => true

/-- One operation: its `Work` (`stopped`, `phase`, whether `interrupt` holds a handle, whether `end` has
passed), the two parties that run it, whether its transaction was committed, and the error of
`Work::cancel` that `execute` resolved with. -/
structure Operation where
  caller : Caller
  worker : Worker
  expired : Bool
  stopped : Bool
  phase : Phase
  interrupt : Bool
  durable : Bool
  outcome : Option SqliteControlError
  deriving DecidableEq

def Operation.new : Operation := ⟨.idle, .absent, false, false, .running, false, false, none⟩

/-- Who calls `Work::cancel`: `Running::finish`, the drop of `Running`, a call of `stop`. -/
inductive Canceller where
  | finish (a : Nat)
  | drop (a : Nat)
  | stop (n : Nat)
  deriving DecidableEq

/-- How far a call of `Work::cancel` has come. A `stop` is `closing` once it has cancelled the token. -/
inductive Cancel where
  | idle
  | closing
  | targeted (a : Nat)
  | stored (a : Nat)
  | swapped (a : Nat) (previous : Phase)
  | interrupted (a : Nat) (previous : Phase)
  | returned (error : Option SqliteControlError)
  deriving DecidableEq

inductive Connection where
  | autocommit
  | inTransaction
  deriving DecidableEq

structure Executor where
  closed : Bool
  active : Option Nat
  owner : Option Nat
  connection : Option Connection
  ops : Nat → Operation
  cancels : Canceller → Cancel

namespace Executor

/-- The executor that `open` returns. -/
def opened : Executor := ⟨false, none, none, some .autocommit, fun _ => .new, fun _ => .idle⟩

variable (s : Executor)

def setOp (a : Nat) (o : Operation) : Executor := { s with ops := Function.update s.ops a o }

def setCancel (c : Canceller) (p : Cancel) : Executor :=
  { s with cancels := Function.update s.cancels c p }

@[simp, grind =] theorem setOp_ops (a b : Nat) (o : Operation) :
    (s.setOp a o).ops b = if b = a then o else s.ops b := Function.update_apply s.ops a o b

@[simp, grind =] theorem setOp_closed (a : Nat) (o : Operation) :
    (s.setOp a o).closed = s.closed := rfl

@[simp, grind =] theorem setOp_active (a : Nat) (o : Operation) :
    (s.setOp a o).active = s.active := rfl

@[simp, grind =] theorem setOp_owner (a : Nat) (o : Operation) : (s.setOp a o).owner = s.owner := rfl

@[simp, grind =] theorem setOp_connection (a : Nat) (o : Operation) :
    (s.setOp a o).connection = s.connection := rfl

@[simp, grind =] theorem setOp_cancels (a : Nat) (o : Operation) (c : Canceller) :
    (s.setOp a o).cancels c = s.cancels c := rfl

@[simp, grind =] theorem setCancel_cancels (c c' : Canceller) (p : Cancel) :
    (s.setCancel c p).cancels c' = if c' = c then p else s.cancels c' :=
  Function.update_apply s.cancels c p c'

@[simp, grind =] theorem setCancel_closed (c : Canceller) (p : Cancel) :
    (s.setCancel c p).closed = s.closed := rfl

@[simp, grind =] theorem setCancel_active (c : Canceller) (p : Cancel) :
    (s.setCancel c p).active = s.active := rfl

@[simp, grind =] theorem setCancel_owner (c : Canceller) (p : Cancel) :
    (s.setCancel c p).owner = s.owner := rfl

@[simp, grind =] theorem setCancel_connection (c : Canceller) (p : Cancel) :
    (s.setCancel c p).connection = s.connection := rfl

@[simp, grind =] theorem setCancel_ops (c : Canceller) (p : Cancel) (a : Nat) :
    (s.setCancel c p).ops a = s.ops a := rfl

def setCaller (a : Nat) (p : Caller) : Executor := s.setOp a { s.ops a with caller := p }

def setWorker (a : Nat) (p : Worker) : Executor := s.setOp a { s.ops a with worker := p }

/-- The error of `Work::check`; none if it passes. -/
def check (a : Nat) : Option SqliteControlError :=
  if s.closed then some .closed
  else if (s.ops a).stopped || (s.ops a).expired then some .deadline
  else none

/-- Whether some party still keeps the `Work` of an operation. -/
def alive (a : Nat) : Bool := (s.ops a).caller.keepsWork || (s.ops a).worker.keepsWork

/-- The error that `Work::cancel` computes from the phase it found. -/
def cancelError (previous : Phase) : SqliteControlError :=
  if previous = .committing ∨ previous = .committed then .outcomeUncertain
  else if s.closed then .closed
  else .deadline

end Executor

/-- What became of a `COMMIT`: confirmed, or an error after which the transaction may be committed or
not, and open or not. -/
inductive CommitResult where
  | confirmed
  | failed (durable : Bool) (connection : Connection)
  deriving DecidableEq

inductive Action where
  | call (a : Nat)
  | expire (a : Nat)
  | acquire (a : Nat)
  | giveUp (a : Nat)
  | abandon (a : Nat)
  | install (a : Nat)
  | admission (a : Nat)
  | publish (a : Nat)
  | spawn (a : Nat)
  | enter (a : Nat)
  | refuse (a : Nat)
  | begin (a : Nat)
  | statement (a : Nat)
  | rollback (a : Nat) (done : Bool)
  | commitCheck (a : Nat)
  | commitSwap (a : Nat)
  | commit (a : Nat) (result : CommitResult)
  | commitStore (a : Nat)
  | closureReturn (a : Nat)
  | settle (a : Nat)
  | clear (a : Nat)
  | take (a : Nat)
  | timeout (a : Nat)
  | dropFuture (a : Nat)
  | dropRunning (a : Nat)
  | resolve (a : Nat)
  | release (a : Nat)
  | stop (n : Nat)
  | stopRead (n : Nat) (upgraded : Bool)
  | cancelStore (c : Canceller)
  | cancelSwap (c : Canceller)
  | cancelInterrupt (c : Canceller)
  | cancelReturn (c : Canceller)
  | drain
  deriving DecidableEq

namespace Executor

/-! ### Steps of `execute` before the job is spawned -/

def call (s : Executor) (a : Nat) : Option Executor :=
  guarded ((s.ops a).caller = .idle) (s.setCaller a (if s.closed then .resolved else .waiting))

def acquire (s : Executor) (a : Nat) : Option Executor :=
  guarded ((s.ops a).caller = .waiting ∧ s.owner = none)
    { s.setCaller a .acquired with owner := some a }

def giveUp (s : Executor) (a : Nat) : Option Executor :=
  guarded ((s.ops a).caller = .waiting ∧ ((s.ops a).expired ∨ s.closed)) (s.setCaller a .resolved)

def abandon (s : Executor) (a : Nat) : Option Executor :=
  guarded ((s.ops a).caller = .waiting) (s.setCaller a .resolved)

/-- Return before the job exists: the owner is let go and the `Work`, which no one else has, is
dropped. -/
def leave (s : Executor) (a : Nat) : Executor :=
  { s.setOp a { s.ops a with caller := .resolved, interrupt := false } with owner := none }

@[simp, grind =] theorem leave_ops (s : Executor) (a b : Nat) :
    (s.leave a).ops b =
      if b = a then { s.ops a with caller := .resolved, interrupt := false } else s.ops b :=
  Function.update_apply s.ops a _ b

@[simp, grind =] theorem leave_cancels (s : Executor) (a : Nat) (c : Canceller) :
    (s.leave a).cancels c = s.cancels c := rfl

@[simp, grind =] theorem leave_closed (s : Executor) (a : Nat) : (s.leave a).closed = s.closed := rfl

def install (s : Executor) (a : Nat) : Option Executor :=
  guarded ((s.ops a).caller = .acquired)
    (if s.connection = none then s.leave a
    else s.setOp a { s.ops a with caller := .installed, interrupt := true })

/-- The check at the end of `Work::install`. -/
def admission (s : Executor) (a : Nat) : Option Executor :=
  guarded ((s.ops a).caller = .installed)
    (if s.check a = none then s.setCaller a .admitted else s.leave a)

def publish (s : Executor) (a : Nat) : Option Executor :=
  guarded ((s.ops a).caller = .admitted) { s.setCaller a .published with active := some a }

def spawn (s : Executor) (a : Nat) : Option Executor :=
  guarded ((s.ops a).caller = .published)
    (s.setOp a { s.ops a with caller := .awaiting, worker := .spawned })

/-! ### Steps of the blocking thread -/

def enter (s : Executor) (a : Nat) : Option Executor :=
  guarded ((s.ops a).worker = .spawned ∧ s.check a = none) (s.setWorker a .closure)

def refuse (s : Executor) (a : Nat) : Option Executor :=
  guarded ((s.ops a).worker = .spawned ∧ s.check a ≠ none) (s.setWorker a .returned)

/-- `State::begin`, once its first check has passed. -/
def begin (s : Executor) (a : Nat) : Option Executor :=
  guarded ((s.ops a).worker = .closure ∧ s.connection = some .autocommit ∧ s.check a = none)
    { s with connection := some .inTransaction }

def statement (s : Executor) (a : Nat) : Option Executor :=
  guarded ((s.ops a).worker = .closure) s

def rollback (s : Executor) (a : Nat) (done : Bool) : Option Executor :=
  guarded ((s.ops a).worker = .closure ∧ s.connection = some .inTransaction)
    (if done then { s with connection := some .autocommit } else s)

/-- The check of `Work::commit` passes. -/
def commitCheck (s : Executor) (a : Nat) : Option Executor :=
  guarded ((s.ops a).worker = .closure ∧ s.connection = some .inTransaction ∧ s.check a = none)
    (s.setWorker a .checked)

def commitSwap (s : Executor) (a : Nat) : Option Executor :=
  guarded ((s.ops a).worker = .checked)
    (if (s.ops a).phase = .running then
      s.setOp a { s.ops a with phase := .committing, worker := .committing }
    else s.setWorker a .closure)

/-- `COMMIT` runs. -/
def commit (s : Executor) (a : Nat) (result : CommitResult) : Option Executor :=
  guarded ((s.ops a).worker = .committing)
    (match result with
    | .confirmed =>
      { s.setOp a { s.ops a with durable := true, worker := .committed } with
        connection := some .autocommit }
    | .failed durable connection =>
      { s.setOp a { s.ops a with durable := (s.ops a).durable || durable, worker := .closure } with
        connection := some connection })

def commitStore (s : Executor) (a : Nat) : Option Executor :=
  guarded ((s.ops a).worker = .committed)
    (s.setOp a { s.ops a with phase := .committed, worker := .closure })

def closureReturn (s : Executor) (a : Nat) : Option Executor :=
  guarded ((s.ops a).worker = .closure) (s.setWorker a .returned)

def settle (s : Executor) (a : Nat) : Option Executor :=
  guarded ((s.ops a).worker = .returned)
    { s.setWorker a .settled with
      connection := if s.connection = some .inTransaction then none else s.connection }

/-- The drop of `ClearHandle`. -/
def clear (s : Executor) (a : Nat) : Option Executor :=
  guarded ((s.ops a).worker = .settled)
    (s.setOp a { s.ops a with interrupt := false, worker := .finished })

/-! ### How the caller's future ends -/

def take (s : Executor) (a : Nat) : Option Executor :=
  guarded ((s.ops a).caller = .awaiting ∧ (s.ops a).worker = .finished)
    { s.setOp a { s.ops a with caller := .resolved, worker := .released } with owner := none }

/-- The deadline passed or the token was cancelled: `Running::finish` calls `cancel`. -/
def timeout (s : Executor) (a : Nat) : Option Executor :=
  guarded ((s.ops a).caller = .awaiting ∧ ((s.ops a).expired ∨ s.closed))
    ((s.setCaller a .cancelling).setCancel (.finish a) (.targeted a))

/-- The future is dropped while it awaits the job: the drop of `Running` calls `cancel`. -/
def dropFuture (s : Executor) (a : Nat) : Option Executor :=
  guarded ((s.ops a).caller = .awaiting)
    ((s.setCaller a .cancelling).setCancel (.drop a) (.targeted a))

/-- `finish` is about to return the error of `cancel`, and `Running` is dropped, still armed. -/
def dropRunning (s : Executor) (a : Nat) : Option Executor :=
  match s.cancels (.finish a) with
  | .returned _ => guarded (s.cancels (.drop a) = .idle) (s.setCancel (.drop a) (.targeted a))
  | _ => none

/-- `execute` resolves with the error that the cancel of `finish` computed. -/
def resolve (s : Executor) (a : Nat) : Option Executor :=
  match s.cancels (.finish a), s.cancels (.drop a) with
  | .returned error, .returned _ =>
    guarded ((s.ops a).caller = .cancelling)
      (s.setOp a { s.ops a with caller := .resolved, outcome := error })
  | _, _ => none

def release (s : Executor) (a : Nat) : Option Executor :=
  match s.cancels (.drop a) with
  | .returned _ =>
    guarded ((s.ops a).worker = .finished) { s.setWorker a .released with owner := none }
  | _ => none

/-! ### `stop` and `Work::cancel` -/

def stop (s : Executor) (n : Nat) : Option Executor :=
  guarded (s.cancels (.stop n) = .idle) { s.setCancel (.stop n) .closing with closed := true }

/-- `stop` reads the active operation, under the lock that it keeps until `cancel` returns. An upgrade
fails only when nobody keeps the `Work`. -/
def stopRead (s : Executor) (n : Nat) (upgraded : Bool) : Option Executor :=
  match s.active with
  | none => guarded (s.cancels (.stop n) = .closing) (s.setCancel (.stop n) (.returned none))
  | some a =>
    guarded (s.cancels (.stop n) = .closing ∧ (upgraded ∨ s.alive a = false))
      (s.setCancel (.stop n) (if upgraded then .targeted a else .returned none))

def cancelStore (s : Executor) (c : Canceller) : Option Executor :=
  match s.cancels c with
  | .targeted a => some ((s.setOp a { s.ops a with stopped := true }).setCancel c (.stored a))
  | _ => none

def cancelSwap (s : Executor) (c : Canceller) : Option Executor :=
  match s.cancels c with
  | .stored a =>
    some ((s.setOp a { s.ops a with
        phase := if (s.ops a).phase = .running then .cancelled else (s.ops a).phase }).setCancel c
      (.swapped a (s.ops a).phase))
  | _ => none

/-- The handle is read and interrupted under one lock, so an interrupt is delivered in this step or, if
the handle was cleared, not at all. -/
def cancelInterrupt (s : Executor) (c : Canceller) : Option Executor :=
  match s.cancels c with
  | .swapped a previous => some (s.setCancel c (.interrupted a previous))
  | _ => none

def interrupts (s : Executor) (c : Canceller) : Option Nat :=
  match s.cancels c with
  | .swapped a _ => if (s.ops a).interrupt then some a else none
  | _ => none

def cancelReturn (s : Executor) (c : Canceller) : Option Executor :=
  match s.cancels c with
  | .interrupted _ previous => some (s.setCancel c (.returned (some (s.cancelError previous))))
  | _ => none

/-- `shutdown` takes the connection once it has the owner. -/
def drain (s : Executor) : Option Executor :=
  guarded (s.closed ∧ s.owner = none) { s with connection := none }

def step (s : Executor) : Action → Option Executor
  | .call a => s.call a
  | .expire a => some (s.setOp a { s.ops a with expired := true })
  | .acquire a => s.acquire a
  | .giveUp a => s.giveUp a
  | .abandon a => s.abandon a
  | .install a => s.install a
  | .admission a => s.admission a
  | .publish a => s.publish a
  | .spawn a => s.spawn a
  | .enter a => s.enter a
  | .refuse a => s.refuse a
  | .begin a => s.begin a
  | .statement a => s.statement a
  | .rollback a done => s.rollback a done
  | .commitCheck a => s.commitCheck a
  | .commitSwap a => s.commitSwap a
  | .commit a result => s.commit a result
  | .commitStore a => s.commitStore a
  | .closureReturn a => s.closureReturn a
  | .settle a => s.settle a
  | .clear a => s.clear a
  | .take a => s.take a
  | .timeout a => s.timeout a
  | .dropFuture a => s.dropFuture a
  | .dropRunning a => s.dropRunning a
  | .resolve a => s.resolve a
  | .release a => s.release a
  | .stop n => s.stop n
  | .stopRead n upgraded => s.stopRead n upgraded
  | .cancelStore c => s.cancelStore c
  | .cancelSwap c => s.cancelSwap c
  | .cancelInterrupt c => s.cancelInterrupt c
  | .cancelReturn c => s.cancelReturn c
  | .drain => s.drain

def run (s : Executor) : List Action → Option Executor
  | [] => some s
  | action :: rest => (s.step action).bind fun s' => s'.run rest

end Executor

end GraphitBroker.SqliteExecutor
