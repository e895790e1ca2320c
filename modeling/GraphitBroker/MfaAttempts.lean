import GraphitBroker.LocalAuth
import GraphitBroker.Lib.TableSize

/-!
# Attempts at a second factor

The limiter of MFA attempts (`local_auth.rs`): one attempt of a subject at a time, a count of failures
in a window with a lockout, and a bounded table whose stale entries make room for new subjects. The
end of `complete_mfa` is modelled with the operations it makes on its attempt.
-/

namespace GraphitBroker

/-- The largest count of failures, a `u32`. -/
def maxFailureCount : Nat := 2 ^ 32 - 1

/-- `LocalMfaAttemptPolicy`, as `new` accepts it. -/
structure LocalMfaAttemptPolicy where
  maxFailures : Nat
  window : Nat
  lockout : Nat
  maxTracked : Nat
  maxFailures_pos : 0 < maxFailures
  maxFailures_le : maxFailures ≤ maxFailureCount
  window_pos : 0 < window
  lockout_pos : 0 < lockout
  maxTracked_pos : 0 < maxTracked

def LocalMfaAttemptPolicy.staleAfter (policy : LocalMfaAttemptPolicy) : Nat :=
  policy.window + policy.lockout

inductive MfaAttemptError where
  | mfaRateLimited (wait : Nat)
  | mfaBusy
  | mfaCapacity
  | mfaUnavailable
  deriving DecidableEq, Repr

def MfaAttemptError.toLocalAuth : MfaAttemptError → LocalAuthError
  | .mfaRateLimited _ => .mfaRateLimited
  | .mfaBusy => .mfaBusy
  | .mfaCapacity => .mfaCapacity
  | .mfaUnavailable => .mfaUnavailable

structure MfaRateEntry where
  windowStart : Nat
  failures : Nat
  blockUntil : Option Nat
  lastSeen : Nat
  inFlight : Bool

namespace MfaRateEntry

def fresh (now : Nat) : MfaRateEntry := ⟨now, 0, none, now, false⟩

def blocked (entry : MfaRateEntry) (now : Nat) : Option Nat :=
  entry.blockUntil.filter fun u => now < u

/-- The condition of `retain`. -/
def retained (policy : LocalMfaAttemptPolicy) (now : Nat) (entry : MfaRateEntry) : Bool :=
  entry.inFlight || entry.blockUntil.any (fun u => now < u) ||
    now - entry.lastSeen ≤ policy.staleAfter

def restarts (policy : LocalMfaAttemptPolicy) (entry : MfaRateEntry) (now : Nat) : Bool :=
  entry.failures == 0 || policy.window ≤ now - entry.windowStart

/-- What `failure_at` writes to the entry. -/
def failureAt (policy : LocalMfaAttemptPolicy) (entry : MfaRateEntry) (now : Nat) : MfaRateEntry :=
  let failures :=
    min ((if entry.restarts policy now then 0 else entry.failures) + 1) maxFailureCount
  { entry with
    windowStart := if entry.restarts policy now then now else entry.windowStart
    failures
    blockUntil := if policy.maxFailures ≤ failures then some (now + policy.lockout)
      else entry.blockUntil
    lastSeen := now }

end MfaRateEntry

structure LocalMfaAttempt where
  subject : Str
  failed : Bool
  deriving DecidableEq

inductive MfaRecord where
  | failure (subject : Str) (time : Nat)
  | success (subject : Str)
  deriving DecidableEq

structure LocalMfaAttemptLimiter where
  clock : Nat
  entries : SortedMap Str MfaRateEntry
  attempts : SortedMap Nat LocalMfaAttempt
  nextAttempt : Nat
  records : List MfaRecord

namespace LocalMfaAttemptLimiter

variable (policy : LocalMfaAttemptPolicy)

def initial : LocalMfaAttemptLimiter := ⟨0, .empty, .empty, 0, []⟩

def tick (s : LocalMfaAttemptLimiter) (elapsed : Nat) : LocalMfaAttemptLimiter :=
  { s with clock := s.clock + elapsed }

/-- The `retain` of `admit_at`. -/
def sweep (s : LocalMfaAttemptLimiter) : LocalMfaAttemptLimiter :=
  { s with entries := s.entries.filter fun _ entry => entry.retained policy s.clock }

def admitted (s : LocalMfaAttemptLimiter) (subject : Str) (entry : MfaRateEntry) :
    LocalMfaAttemptLimiter :=
  let entry := { entry with inFlight := true, lastSeen := s.clock }
  { s with
    entries := s.entries.insert subject entry
    attempts := s.attempts.insert s.nextAttempt ⟨subject, false⟩
    nextAttempt := s.nextAttempt + 1 }

/-- The part of `admit_at` on the entry of the subject. -/
def admitEntry (s : LocalMfaAttemptLimiter) (subject : Str) (entry : MfaRateEntry) :
    Except MfaAttemptError Nat × LocalMfaAttemptLimiter :=
  if entry.inFlight then (.error .mfaBusy, s)
  else
    match entry.blocked s.clock with
    | some u => (.error (.mfaRateLimited (u - s.clock)), s)
    | none => (.ok s.nextAttempt, s.admitted subject entry)

/-- The part of `admit_at` for a subject without an entry, once there is room. -/
def admitNew (s : LocalMfaAttemptLimiter) (subject : Str) :
    Except MfaAttemptError Nat × LocalMfaAttemptLimiter :=
  admitEntry { s with entries := s.entries.insert subject (.fresh s.clock) } subject (.fresh s.clock)

/-- The room that `admit_at` makes in a full table. -/
def makeRoom (s : LocalMfaAttemptLimiter) : LocalMfaAttemptLimiter :=
  if policy.maxTracked ≤ s.entries.size then s.sweep policy else s

def admitAt (s : LocalMfaAttemptLimiter) (subject : Str) :
    Except MfaAttemptError Nat × LocalMfaAttemptLimiter :=
  match s.entries.get? subject with
  | some entry => s.admitEntry subject entry
  | none =>
    if policy.maxTracked ≤ (s.makeRoom policy).entries.size then
      (.error .mfaCapacity, s.makeRoom policy)
    else (s.makeRoom policy).admitNew subject

def admitUnbounded (s : LocalMfaAttemptLimiter) (subject : Str) :
    Except MfaAttemptError Nat × LocalMfaAttemptLimiter :=
  match s.entries.get? subject with
  | some entry => s.admitEntry subject entry
  | none => s.admitNew subject

def failureAt (s : LocalMfaAttemptLimiter) (id : Nat) (subject : Str) :
    Except MfaAttemptError Unit × LocalMfaAttemptLimiter :=
  match s.entries.get? subject with
  | none => (.error .mfaUnavailable, s)
  | some entry =>
    (.ok (), { s with
      entries := s.entries.insert subject (entry.failureAt policy s.clock)
      attempts := s.attempts.insert id ⟨subject, true⟩
      records := s.records ++ [.failure subject s.clock] })

def success (s : LocalMfaAttemptLimiter) (id : Nat) (subject : Str) : LocalMfaAttemptLimiter :=
  { s with
    entries := s.entries.erase subject
    attempts := s.attempts.erase id
    records := s.records ++ [.success subject] }

/-- What `Drop` does to the entry of the subject. -/
def released (entries : SortedMap Str MfaRateEntry) (subject : Str) : SortedMap Str MfaRateEntry :=
  match entries.get? subject with
  | none => entries
  | some entry =>
    if entry.failures = 0 then entries.erase subject
    else entries.insert subject { entry with inFlight := false }

/-- `Drop` of an attempt that is not finished. -/
def drop (s : LocalMfaAttemptLimiter) (id : Nat) (subject : Str) : LocalMfaAttemptLimiter :=
  { s with
    entries := released s.entries subject
    attempts := s.attempts.erase id }

end LocalMfaAttemptLimiter

/-! ### Runs -/

inductive MfaOperation where
  | failure
  | success
  | drop
  deriving DecidableEq

inductive MfaEvent where
  | admission (subject : Str)
  | attempt (id : Nat) (operation : MfaOperation)
  deriving DecidableEq

inductive MfaAnswer where
  | admitted (answer : Except MfaAttemptError Nat)
  | answered (answer : Except MfaAttemptError Unit)
  | done

namespace LocalMfaAttemptLimiter

variable (policy : LocalMfaAttemptPolicy)
  (admission : LocalMfaAttemptLimiter → Str → Except MfaAttemptError Nat × LocalMfaAttemptLimiter)

def operate (s : LocalMfaAttemptLimiter) (id : Nat) (subject : Str) :
    MfaOperation → MfaAnswer × LocalMfaAttemptLimiter
  | .failure => ((.answered (s.failureAt policy id subject).1), (s.failureAt policy id subject).2)
  | .success => (.answered (.ok ()), s.success id subject)
  | .drop => (.done, s.drop id subject)

def act (s : LocalMfaAttemptLimiter) : MfaEvent → MfaAnswer × LocalMfaAttemptLimiter
  | .admission subject => (.admitted (admission s subject).1, (admission s subject).2)
  | .attempt id operation =>
    match s.attempts.get? id with
    | some attempt => s.operate policy id attempt.subject operation
    | none => (.done, s)

def step (s : LocalMfaAttemptLimiter) (elapsed : Nat) (event : MfaEvent) :
    MfaAnswer × LocalMfaAttemptLimiter :=
  (s.tick elapsed).act policy admission event

def runFrom (s : LocalMfaAttemptLimiter) :
    List (Nat × MfaEvent) → List MfaAnswer × LocalMfaAttemptLimiter
  | [] => ([], s)
  | (elapsed, event) :: rest =>
    let r := s.step policy admission elapsed event
    let rs := runFrom r.2 rest
    (r.1 :: rs.1, rs.2)

def run (events : List (Nat × MfaEvent)) : List MfaAnswer × LocalMfaAttemptLimiter :=
  runFrom policy (admitAt policy) initial events

def runUnbounded (events : List (Nat × MfaEvent)) : List MfaAnswer × LocalMfaAttemptLimiter :=
  runFrom policy admitUnbounded initial events

def streak (s : LocalMfaAttemptLimiter) (subject : Str) : List Nat :=
  s.records.foldl (fun times record =>
    match record with
    | .failure other time => if other = subject then times ++ [time] else times
    | .success other => if other = subject then [] else times) []

/-- An attempt that has recorded a failure is only dropped, as in `complete_mfa`. -/
def usedOnce (s : LocalMfaAttemptLimiter) : MfaEvent → Bool
  | .attempt id .failure | .attempt id .success =>
    !((s.attempts.get? id).any LocalMfaAttempt.failed)
  | _ => true

def Disciplined (s : LocalMfaAttemptLimiter) : List (Nat × MfaEvent) → Prop
  | [] => True
  | (elapsed, event) :: rest =>
    s.usedOnce event = true ∧ Disciplined (s.step policy (admitAt policy) elapsed event).2 rest

end LocalMfaAttemptLimiter

/-! ### The end of `complete_mfa` -/

/-- The parts of `complete_mfa` that may fail after the admission. -/
inductive MfaCallPart where
  /-- The clock, the check of the code and the first gate. -/
  | verify
  /-- The writes for an accepted code. -/
  | change
  /-- The enrollment that is shown again. -/
  | load
  | gate
  | commit
  /-- The gate after the commit. -/
  | gateAfter
  /-- The time of the login. -/
  | observe
  /-- The binding of the login and the gate outside the transaction. -/
  | report
  deriving DecidableEq

/-- A call of `complete_mfa`, from its admission. -/
structure MfaCall where
  enrolling : Bool
  verified : Bool
  /-- Time between the admission and what is recorded. -/
  elapsed : Nat
  fails : MfaCallPart → Option LocalAuthError

inductive MfaCallOutcome where
  | complete
  | pending
  deriving DecidableEq

/-- The answer of a call, whether its transaction was committed, and the limiter after it. -/
structure MfaCallResult where
  outcome : Except LocalAuthError MfaCallOutcome
  committed : Bool
  limiter : LocalMfaAttemptLimiter

namespace MfaCall

variable (policy : LocalMfaAttemptPolicy) (call : MfaCall)

/-- `attempt.failure()`, if the stage asks for it here. -/
def record (s : LocalMfaAttemptLimiter) (id : Nat) (subject : Str) (here : Bool) :
    Option LocalAuthError × LocalMfaAttemptLimiter :=
  if here then
    match s.failureAt policy id subject with
    | (.error e, s) => (some e.toLocalAuth, s)
    | (.ok (), s) => (none, s)
  else (none, s)

def rightCode (s : LocalMfaAttemptLimiter) (id : Nat) (subject : Str) : MfaCallResult :=
  match call.fails .change <|> call.fails .gate <|> call.fails .commit with
  | some e => ⟨.error e, false, s.drop id subject⟩
  | none =>
    match call.fails .gateAfter <|> call.fails .observe with
    | some e => ⟨.error e, true, s.drop id subject⟩
    | none =>
      match call.fails .report with
      | some e => ⟨.error e, true, s.success id subject⟩
      | none => ⟨.ok .complete, true, s.success id subject⟩

def wrongCode (s : LocalMfaAttemptLimiter) (id : Nat) (subject : Str) : MfaCallResult :=
  let early := record policy s id subject call.enrolling
  let load := if call.enrolling then call.fails .load else none
  match early.1 <|> load <|> call.fails .gate <|> call.fails .commit with
  | some e => ⟨.error e, false, early.2.drop id subject⟩
  | none =>
    match call.fails .gateAfter with
    | some e => ⟨.error e, true, early.2.drop id subject⟩
    | none =>
      let late := record policy early.2 id subject (!call.enrolling)
      match late.1 <|> call.fails .report with
      | some e => ⟨.error e, true, late.2.drop id subject⟩
      | none => ⟨.ok .pending, true, late.2.drop id subject⟩

/-- `complete_mfa` after the admission of its attempt. -/
def finish (s : LocalMfaAttemptLimiter) (id : Nat) (subject : Str) : MfaCallResult :=
  let s := s.tick call.elapsed
  match call.fails .verify with
  | some e => ⟨.error e, false, s.drop id subject⟩
  | none => if call.verified then call.rightCode s id subject else call.wrongCode policy s id subject

/-- `complete_mfa` from the admission on. -/
def complete (s : LocalMfaAttemptLimiter) (subject : Str) : MfaCallResult :=
  match s.admitAt policy subject with
  | (.error e, s) => ⟨.error e.toLocalAuth, false, s⟩
  | (.ok id, s) => call.finish policy s id subject

end MfaCall

end GraphitBroker
