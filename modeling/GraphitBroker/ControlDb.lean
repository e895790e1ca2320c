import GraphitBroker.Lib.Sorted
import GraphitBroker.Lib.Transactions
import GraphitBroker.Text

/-!
# The control database

The tables of the broker's control store that accounts, roles, sessions and tokens live in. A table is a
map from its primary key, so a key has one row; other unique columns are checked where rows are inserted.
A JSON column holds the value that its text encodes, unless a reader parses the text itself.
-/

namespace GraphitBroker

inductive ControlError where
  | invalidRole
  | invalidIdentity
  | corruptIdentity
  | corruptRbac
  | identityLimitExceeded
  | sessionUnavailable
  | sessionExpired
  | invalidSession
  | corruptSession
  | sessionExists
  | configuration
  | ambientConfiguration
  | connection
  | schemaRejected
  | storage
  | flowExists
  | unavailable
  | expired
  | corruptFlow
  | invalidFlow
  | clock
  | deadline
  | closed
  | outcomeUncertain
  | privateFile
  deriving DecidableEq

/-! ### Rows -/

/-- A row of `local_users`; the key is the user name. -/
structure LocalUser where
  subject : Str
  kind : Str
  phc : Str
  name : Str
  email : Str
  organization : Str
  teams : List Str
  enabled : Int
  change : Int
  revision : Int
  createdAt : Int
  updatedAt : Int
  deriving DecidableEq

structure TokenPrincipal where
  issuer : Str
  subject : Str
  username : Str
  authMethod : Str
  revision : Int
  deriving DecidableEq

/-- A row of `local_tokens`; the key is the hash of the token. -/
structure LocalToken where
  id : Str
  kind : Str
  subject : Str
  oidcSubject : Str
  principal : TokenPrincipal
  client : Str
  audience : Str
  resource : Str
  scopes : List Str
  revision : Int
  family : Str
  authTime : Int
  expiresAt : Int
  revokedAt : Option Int
  consumedAt : Option Int
  lastUsedAt : Option Int
  createdAt : Int
  deriving DecidableEq

/-- A row of `oidc_auth_requests`; the key is the hash of the request. -/
structure AuthRequestRow where
  identitySubject : Str
  requestJson : Str
  codeHash : Option Str
  expiresAt : Int
  createdAt : Int
  deriving DecidableEq

/-- A row of `local_auth_challenges`; the key is the hash of the challenge. -/
structure LocalChallenge where
  subject : Str
  revision : Int
  purpose : Str
  bindingHash : Str
  stage : Str
  secret : Str
  expiresAt : Int
  createdAt : Int
  deriving DecidableEq

/-- A row of `oauth_device_codes`; the key is the hash of the device code. -/
structure DeviceCodeRow where
  userHash : Str
  client : Str
  scopes : List Str
  subject : Str
  revision : Int
  status : Str
  interval : Int
  lastPollAt : Option Int
  expiresAt : Int
  createdAt : Int
  deriving DecidableEq

/-- A row of `admin_sessions`, with the issuer of its principal if it has one. -/
structure AdminSessionRow where
  subject : Str
  issuer : Option Str
  deriving DecidableEq

structure ControlDb where
  users : SortedMap Str LocalUser
  roles : SortedMap Str Int
  /-- The actions of each role. -/
  permissions : SortedSet (Str ×ₗ Str)
  /-- When each subject was given each of its roles. -/
  assignments : SortedMap (Str ×ₗ Str) Int
  tokens : SortedMap Str LocalToken
  requests : SortedMap Str AuthRequestRow
  challenges : SortedMap Str LocalChallenge
  devices : SortedMap Str DeviceCodeRow
  sessions : SortedMap Str AdminSessionRow
  /-- The subjects that have confirmed a second factor. -/
  mfa : SortedSet Str
  /-- Subjects and the hashes of their recovery codes. -/
  recoveryCodes : SortedSet (Str ×ₗ Str)

/-! ### Identities -/

def safeIdentitySegment (value : Str) (cap : Nat) : Bool :=
  decide (byteLen value ≤ cap) && segmentText value

def validIdentitySubject (value : Str) (cap : Nat) : Bool :=
  !value.isEmpty && decide (byteLen value ≤ cap) && decide (byteLen value ≤ 512) &&
    decide (trim value = value) && !value.contains (Char.ofNat 0)

/-- `char::is_control`. -/
def isControl (c : Char) : Bool := decide (c.toNat < 32 ∨ (127 ≤ c.toNat ∧ c.toNat < 160))

def localSubject (subject : Str) : Str := "local|".toList ++ subject

/-! ### What the environment decides -/

def refuse {ε ε' : Type} (g : ε → ε') : Option ε → Except ε' Unit
  | none => .ok ()
  | some e => .error (g e)

/-- Everything that a transaction takes from outside the database: checks of its deadline and faults of
its statements, by the place in the code and the round of the loop there, and readings of the clock. -/
structure TxEnv where
  fault : Nat → Nat → Option ControlError
  now : Nat → Except ControlError Int
  /-- `preserve_federated_request`: whether a request survives the invalidation of its local subject. -/
  federated : Str → Except ControlError Bool

namespace TxEnv

variable (env : TxEnv)

def check (site round : Nat) : Except ControlError Unit := refuse id (env.fault site round)

end TxEnv

namespace ControlDb

variable (env : TxEnv)

def dropRequests (subject : Str) : Nat → List (Str × AuthRequestRow) → ControlDb →
    Except ControlError ControlDb
  | _, [], d => .ok d
  | round, (hash, row) :: rest, d => do
    env.check 101 round
    if row.identitySubject ≠ subject then dropRequests subject (round + 1) rest d
    else do
      let preserve ← env.federated row.requestJson
      env.check 102 round
      if preserve then dropRequests subject (round + 1) rest d
      else do
        env.check 103 round
        dropRequests subject (round + 1) rest { d with requests := d.requests.erase hash }

/-- `invalidate_local_user`. -/
def invalidateLocalUser (subject : Str) (preserveDevice : Bool) (now : Int) (d : ControlDb) :
    Except ControlError ControlDb := do
  env.check 100 0
  let d := { d with tokens := d.tokens.mapValues fun _ t =>
    if t.subject = subject ∧ 1 ≤ t.revision ∧ t.revokedAt = none then { t with revokedAt := some now }
    else t }
  let d ← dropRequests env subject 0 d.requests.entries d
  env.check 104 0
  let d := { d with challenges := d.challenges.filter fun _ c => c.subject ≠ subject }
  if preserveDevice then return d
  else do
    env.check 105 0
    return { d with devices := d.devices.filter fun _ c => c.subject ≠ subject }

end ControlDb

end GraphitBroker
