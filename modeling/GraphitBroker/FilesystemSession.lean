import GraphitBroker.StoragePolicy

/-!
# Filesystem sessions

The session of the filesystem driver (`filesystem_session.rs`): canonical object keys, the liveness
check, and the authority a session carries for its four operations. A session is only built by the
token verifier, which checks that every root is a canonical key.
-/

namespace GraphitBroker

def keyChar (c : Char) : Bool :=
  decide (0x20 ≤ c.toNat ∧ c.toNat ≤ 0x7e) && c != '\\' && c != '\"'

def keyPart (part : Str) : Bool := !part.isEmpty && part != ".".toList && part != "..".toList

/-- `key`, which the store imports as `valid_key`. -/
def validKey (s : Str) : Bool :=
  !s.isEmpty && decide (byteLen s ≤ 1024) && s.all keyChar && (s.splitOn '/').all keyPart

inductive FilesystemSessionError where
  | invalidToken
  | expired
  | deadline
  deriving DecidableEq, Repr

/-- The readings of one liveness check: the monotonic clock, the seconds since the epoch (none before
it), and the monotonic clock again. -/
structure SessionClock where
  instant : Nat
  utc : Option Nat
  later : Nat

structure VerifiedFilesystemSession where
  bucket : Str
  access : StorageOperation → List Str
  expiresAt : Nat
  deadline : Nat
  canonical : ∀ op, ∀ root ∈ access op, validKey root = true

namespace VerifiedFilesystemSession

def check (session : VerifiedFilesystemSession) (clock : SessionClock) (originalDeadline : Nat) :
    Except FilesystemSessionError Unit :=
  if session.deadline ≤ clock.instant then .error .expired
  else
    match clock.utc with
    | none => .error .invalidToken
    | some seconds =>
      if session.expiresAt ≤ seconds then .error .expired
      else if originalDeadline ≤ clock.later then .error .deadline
      else .ok ()

def covered (session : VerifiedFilesystemSession) (operations : List StorageOperation)
    (target : Str) : Bool :=
  operations.any fun op => (session.access op).any fun root => atOrBelow root target

def implying : StorageOperation → List StorageOperation
  | .read => [.read, .write, .publish]
  | .write => [.write, .publish]
  | .publish => [.publish]
  | .delete => [.publish, .delete]

def allows (session : VerifiedFilesystemSession) (op : StorageOperation) (target : Str)
    (clock : SessionClock) : Bool :=
  if !validKey target || !(session.check clock session.deadline).isOk then false
  else session.covered (implying op) target

def allowsList (session : VerifiedFilesystemSession) (listed : Str) (clock : SessionClock) : Bool :=
  session.allows .read ((stripSuffixChar '/' listed).getD listed) clock

end VerifiedFilesystemSession

end GraphitBroker
