import GraphitBroker.Text
import GraphitBroker.Lib.TableSize

/-!
# Admission of password work

The shared limits on LOCAL password work (`local_password_admission.rs`): a number of leases, and for
each username a count of failures in a window, with a lockout. Every operation is one critical section
under the clock of its process; entries of usernames that are idle are evicted by the next admission.
-/

namespace GraphitBroker

/-- `TRACKED_USERNAMES`. -/
def trackedUsernames : Nat := 4096

/-- The policy; `capacity` is the number of workers times the saturation multiplier. -/
structure PasswordAdmissionPolicy where
  maxFailures : Nat
  window : Nat
  lockout : Nat
  capacity : Nat

inductive PasswordAdmissionError where
  | deadline
  | closed
  | configuration
  | rateLimited (wait : Nat)
  | capacity
  deriving DecidableEq, Repr

structure PasswordAttempt where
  windowStart : Nat
  failures : Nat
  blockedUntil : Option Nat
  lastSeen : Nat
  active : Nat

namespace PasswordAttempt

def fresh (now : Nat) : PasswordAttempt := ⟨now, 0, none, now, 0⟩

/-- `refresh_window`: a lockout that has not ended is kept. -/
def refreshWindow (attempt : PasswordAttempt) (now window : Nat) : PasswordAttempt :=
  if window ≤ now - attempt.windowStart then
    { attempt with
      windowStart := now
      failures := 0
      blockedUntil := attempt.blockedUntil.filter fun u => now < u }
  else attempt

def blocked (attempt : PasswordAttempt) (now : Nat) : Option Nat :=
  (attempt.blockedUntil.filter fun u => now < u).map fun u => u - now

/-- The condition of `retain`. -/
def retained (policy : PasswordAdmissionPolicy) (now : Nat) (attempt : PasswordAttempt) : Bool :=
  attempt.active != 0 || attempt.blockedUntil.any (fun u => now < u) ||
    now - attempt.lastSeen ≤ policy.window + policy.lockout

end PasswordAttempt

/-- The state behind the mutex, the clock, and the leases that have not been dropped. -/
structure PasswordAdmissionState where
  clock : Nat
  closed : Bool
  occupied : Nat
  attempts : SortedMap Str PasswordAttempt
  leases : List (Nat × Option Str)
  nextLease : Nat

namespace PasswordAdmissionState

variable (policy : PasswordAdmissionPolicy)

def initial : PasswordAdmissionState := ⟨0, false, 0, .empty, [], 0⟩

def checkOpen (s : PasswordAdmissionState) (original : Nat) : Except PasswordAdmissionError Unit :=
  if original ≤ s.clock then .error .deadline
  else if s.closed then .error .closed
  else .ok ()

/-- The eviction of `admit`. -/
def sweep (s : PasswordAdmissionState) : PasswordAdmissionState :=
  { s with attempts := s.attempts.filter fun _ attempt => attempt.retained policy s.clock }

def lease (s : PasswordAdmissionState) (username : Option Str) :
    Except PasswordAdmissionError Nat × PasswordAdmissionState :=
  (.ok (s.occupied + 1), { s with
    occupied := s.occupied + 1
    leases := (s.nextLease, username) :: s.leases
    nextLease := s.nextLease + 1 })

/-- The part of `admit` on the entry of a username. -/
def admitEntry (s : PasswordAdmissionState) (name : Str) :
    Except PasswordAdmissionError Nat × PasswordAdmissionState :=
  let attempt := (s.attempts.get? name).getD (.fresh s.clock)
  match attempt.blocked s.clock with
  | some wait => (.error (.rateLimited wait), s)
  | none =>
    let attempt := attempt.refreshWindow s.clock policy.window
    let admitted := { attempt with active := attempt.active + 1, lastSeen := s.clock }
    { s with attempts := s.attempts.insert name admitted }.lease (some name)

/-- The part of `admit` for a username: eviction, then the limit of the table, then its entry. -/
def admitNamed (s : PasswordAdmissionState) (name : Str) :
    Except PasswordAdmissionError Nat × PasswordAdmissionState :=
  let s := s.sweep policy
  if (s.attempts.get? name).isNone && s.attempts.size == trackedUsernames then (.error .capacity, s)
  else s.admitEntry policy name

/-- `admit`, given how a username is admitted. -/
def admitWith
    (named : PasswordAdmissionState → Str → Except PasswordAdmissionError Nat × PasswordAdmissionState)
    (s : PasswordAdmissionState) (username : Option Str) (original : Nat) :
    Except PasswordAdmissionError Nat × PasswordAdmissionState :=
  match s.checkOpen original with
  | .error e => (.error e, s)
  | .ok () =>
    if s.occupied = policy.capacity then (.error (.rateLimited 1), s)
    else
      match username with
      | none => s.lease none
      | some name => named s name

def recheckAttempt (s : PasswordAdmissionState) (username : Option Str) (original : Nat) :
    Except PasswordAdmissionError Unit :=
  match s.checkOpen original with
  | .error e => .error e
  | .ok () =>
    match (username.bind s.attempts.get?).bind fun attempt => attempt.blocked s.clock with
    | some wait => .error (.rateLimited wait)
    | none => .ok ()

def recordFailure (attempt : PasswordAttempt) (now : Nat) : PasswordAttempt :=
  let attempt := attempt.refreshWindow now policy.window
  let failures := attempt.failures + 1
  { attempt with
    failures
    lastSeen := now
    blockedUntil :=
      if policy.maxFailures ≤ failures then some (now + policy.lockout) else attempt.blockedUntil }

/-- The part of `incorrect` and `succeeded` on the entry of the lease. -/
def updateEntry (s : PasswordAdmissionState) (username : Option Str) (original : Nat)
    (update : PasswordAttempt → PasswordAttempt) :
    Except PasswordAdmissionError Unit × PasswordAdmissionState :=
  match s.checkOpen original with
  | .error e => (.error e, s)
  | .ok () =>
    match username with
    | none => (.error .configuration, s)
    | some name =>
      match s.attempts.get? name with
      | none => (.error .configuration, s)
      | some attempt => (.ok (), { s with attempts := s.attempts.insert name (update attempt) })

def incorrect (s : PasswordAdmissionState) (username : Option Str) (original : Nat) :
    Except PasswordAdmissionError Unit × PasswordAdmissionState :=
  s.updateEntry username original fun attempt => recordFailure policy attempt s.clock

/-- `succeeded`, with a proof for the username of the lease. -/
def succeeded (s : PasswordAdmissionState) (username : Option Str) (original : Nat) :
    Except PasswordAdmissionError Unit × PasswordAdmissionState :=
  s.updateEntry username original fun attempt => { attempt with
    failures := 0
    blockedUntil := none
    windowStart := s.clock
    lastSeen := s.clock }

def release (attempts : SortedMap Str PasswordAttempt) (name : Str) : SortedMap Str PasswordAttempt :=
  match attempts.get? name with
  | none => attempts
  | some attempt =>
    if attempt.active - 1 = 0 ∧ attempt.failures = 0 ∧ attempt.blockedUntil = none then
      attempts.erase name
    else attempts.insert name { attempt with active := attempt.active - 1 }

/-- `Drop` of a lease. -/
def drop (s : PasswordAdmissionState) (id : Nat) (username : Option Str) : PasswordAdmissionState :=
  { s with
    occupied := s.occupied - 1
    leases := s.leases.filter fun lease => lease.1 != id
    attempts := username.elim s.attempts (release s.attempts) }

end PasswordAdmissionState

/-! ### Runs -/

inductive LeaseOperation where
  | recheckAttempt (original : Nat)
  | incorrect (original : Nat)
  | succeeded (original : Nat)
  | drop
  deriving DecidableEq, Repr

inductive PasswordAdmissionEvent where
  | admission (username : Option Str) (original : Nat)
  | lease (id : Nat) (operation : LeaseOperation)
  | close

inductive PasswordAdmissionAnswer where
  | admitted (answer : Except PasswordAdmissionError Nat)
  | answered (answer : Except PasswordAdmissionError Unit)
  | done

namespace PasswordAdmissionState

variable (policy : PasswordAdmissionPolicy)
  (named : PasswordAdmissionState → Str → Except PasswordAdmissionError Nat × PasswordAdmissionState)

def leaseStep (s : PasswordAdmissionState) (id : Nat) (username : Option Str) :
    LeaseOperation → PasswordAdmissionAnswer × PasswordAdmissionState
  | .recheckAttempt original => (.answered (s.recheckAttempt username original), s)
  | .incorrect original =>
    let r := s.incorrect policy username original
    (.answered r.1, r.2)
  | .succeeded original =>
    let r := s.succeeded username original
    (.answered r.1, r.2)
  | .drop => (.done, s.drop id username)

def step (s : PasswordAdmissionState) (elapsed : Nat) (event : PasswordAdmissionEvent) :
    PasswordAdmissionAnswer × PasswordAdmissionState :=
  let s := { s with clock := s.clock + elapsed }
  match event with
  | .admission username original =>
    let r := s.admitWith policy named username original
    (.admitted r.1, r.2)
  | .lease id operation =>
    match s.leases.find? fun lease => lease.1 == id with
    | some (_, username) => s.leaseStep policy id username operation
    | none => (.done, s)
  | .close => (.done, { s with closed := true })

def runFrom (s : PasswordAdmissionState) :
    List (Nat × PasswordAdmissionEvent) → List PasswordAdmissionAnswer × PasswordAdmissionState
  | [] => ([], s)
  | (elapsed, event) :: rest =>
    let r := s.step policy named elapsed event
    let rs := runFrom r.2 rest
    (r.1 :: rs.1, rs.2)

def run (events : List (Nat × PasswordAdmissionEvent)) :
    List PasswordAdmissionAnswer × PasswordAdmissionState :=
  runFrom policy (admitNamed policy) initial events

def runUnbounded (events : List (Nat × PasswordAdmissionEvent)) :
    List PasswordAdmissionAnswer × PasswordAdmissionState :=
  runFrom policy (admitEntry policy) initial events

end PasswordAdmissionState

end GraphitBroker
