import GraphitBroker.AdminAccounts
import GraphitBroker.StoragePolicy
import GraphitBroker.Lib.Transactions

/-!
# Administration of grants

`mutate` of `admin_grants.rs` on SQLite, with the normalization and validation of
`admin_grants/validation.rs` and `decode_snapshot` of `resource_grants.rs`. A request is one transaction
that carries the revision of the access lists it was made for, and the whole snapshot that it leaves is
validated before the commit. The JSON in which SQLite hands a snapshot over is read back as it was
written; only its length is kept. The answer to the caller, which reads the snapshot again after the
commit, is left out.
-/

namespace GraphitBroker

open ExceptList Transactions

inductive AdminGrantError where
  | authorization (error : AdminBrokerSessionError)
  | csrfFailed
  | preconditionRequired
  | revisionConflict
  | invalidGrant
  | writeFailed
  | readFailed
  deriving DecidableEq

structure AdminGrantInput where
  id : Str
  name : Str
  access : Str
  principal : Str
  capabilities : List Str
  projects : List Str
  s3Operations : List Str
  s3Prefixes : List Str
  s3Route : Str
  deriving DecidableEq

inductive AdminGrantRequest where
  | create (grant : AdminGrantInput)
  | update (id : Str) (grant : AdminGrantInput)
  | delete (id : Str)

structure AdminGrantRoutes where
  names : SortedSet Str
  default : Str

/-! ### Tables -/

/-- A row of `resource_grants`; the key is the identifier. -/
structure GrantRow where
  name : Str
  accessKind : Str
  principal : Str
  s3Route : Str
  createdAt : Int
  updatedAt : Int

structure GrantDb where
  /-- The revision and the time of the last change; none if the row is missing. -/
  acl : Option (Int × Int)
  grants : SortedMap Str GrantRow
  capabilities : SortedMap Str (SortedSet Str)
  projects : SortedMap Str (SortedSet Str)
  s3Operations : SortedMap Str (SortedSet Str)
  s3Prefixes : SortedMap Str (SortedSet Str)

/-! ### Snapshots -/

inductive ResourceGrantReadError where
  | invalidLimits
  | readLimitExceeded
  | malformedStored
  | control (error : ControlError)
  deriving DecidableEq

structure StoredRule where
  id : Str
  name : Str
  rule : ResourceGrantRule
  createdAt : Int
  updatedAt : Int

structure StoredSnapshot where
  revision : Int
  updatedAt : Int
  rules : List StoredRule

def StoredSnapshot.policy (snapshot : StoredSnapshot) : ResourceGrantSnapshot :=
  ⟨snapshot.rules.map (·.rule)⟩

def ordered (values : List Str) : Except ResourceGrantReadError Unit :=
  failIf (¬ values.Pairwise (· < ·)) .malformedStored

def decodeRule (r : StoredRule) : Except ResourceGrantReadError StoredRule := do
  ordered r.rule.capabilities
  ordered r.rule.projects
  ordered r.rule.s3Operations
  ordered r.rule.s3Prefixes
  failIf (r.createdAt < 0 ∨ r.updatedAt < 0) .malformedStored
  return r

def decodeSnapshot (revision updatedAt : Int) (stored : List StoredRule) :
    Except ResourceGrantReadError StoredSnapshot := do
  failIf (revision < 1 ∨ updatedAt < 0) .malformedStored
  ordered (stored.map (·.id))
  let rules ← stored.mapM decodeRule
  return ⟨revision, updatedAt, rules⟩

namespace GrantDb

def values (table : SortedMap Str (SortedSet Str)) (id : Str) : List Str :=
  (table.get? id).elim [] (·.toList)

def storedRule (d : GrantDb) (entry : Str × GrantRow) : StoredRule where
  id := entry.1
  name := entry.2.name
  rule :=
    { accessKind := entry.2.accessKind, principal := entry.2.principal, s3Route := entry.2.s3Route
      capabilities := values d.capabilities entry.1, projects := values d.projects entry.1
      s3Operations := values d.s3Operations entry.1, s3Prefixes := values d.s3Prefixes entry.1 }
  createdAt := entry.2.createdAt
  updatedAt := entry.2.updatedAt

/-- The rows that `SELECT_SNAPSHOT` puts together. -/
def stored (d : GrantDb) : List StoredRule := d.grants.entries.map d.storedRule

def decode (d : GrantDb) : Except ResourceGrantReadError StoredSnapshot :=
  match d.acl with
  | none => .error .malformedStored
  | some (revision, updatedAt) => decodeSnapshot revision updatedAt d.stored

def revision (d : GrantDb) : Int := (d.acl.map (·.1)).getD 0

end GrantDb

/-! ### The policy of principals -/

inductive Selector where
  | global
  | anonymous
  | authenticated
  | user (value : Str → Bool)
  | team (value : Str → Bool)
  | organization (value : Str → Bool)
  | subject (value : Str → Bool)

structure CompiledRule where
  selector : Selector
  capabilities : List (Str → Bool)
  projects : List Str

structure ResourcePolicy where
  rules : List CompiledRule

section Policy

variable (vendor : Vendor)

def Selector.compile (accessKind principal : Str) : Except ResourcePolicyError Selector :=
  let kind := toAsciiLowercase (trim accessKind)
  if kind = "global".toList then .ok .global
  else if kind = "anonymous".toList then .ok .anonymous
  else if kind = "authenticated".toList then .ok .authenticated
  else if kind = "user".toList then (pattern vendor principal).map .user
  else if kind = "team".toList then (pattern vendor principal).map .team
  else if kind = "organization".toList then (pattern vendor principal).map .organization
  else if kind = "subject".toList then (pattern vendor principal).map .subject
  else .error .invalidPolicy

def CompiledRule.compile (rule : ResourceGrantRule) : Except ResourcePolicyError CompiledRule := do
  let selector ← Selector.compile vendor rule.accessKind rule.principal
  failIf (rule.capabilities = [] ∨
    ∃ p ∈ rule.projects, p ≠ "*".toList ∧ canonicalProjectId vendor p = false) .invalidPolicy
  let capabilities ← rule.capabilities.mapM (pattern vendor)
  return ⟨selector, capabilities, rule.projects⟩

def ResourcePolicy.compile (snapshot : ResourceGrantSnapshot) :
    Except ResourcePolicyError ResourcePolicy := do
  let rules ← snapshot.rules.mapM (CompiledRule.compile vendor)
  return ⟨rules⟩

end Policy

/-! ### Normalization and validation -/

structure GrantEnv where
  /-- Faults of statements and passed deadlines, by the place in the code. -/
  fails : Nat → Option AdminGrantError
  now : Except ControlError Int
  /-- The bytes of the JSON of a snapshot, and the largest number that is read. -/
  jsonBytes : List StoredRule → Nat
  limit : Nat
  commit : Except (AdminGrantError × Bool) Unit

def GrantEnv.step (env : GrantEnv) (site : Nat) : Except AdminGrantError Unit :=
  refuse id (env.fails site)

def AdminGrantError.control (error : ControlError) : AdminGrantError := .authorization (.control error)

def grantText (value : Str) (max : Nat) (required : Bool) : Except AdminGrantError Unit :=
  failIf ((required = true ∧ value = []) ∨ max < value.length ∨ ∃ c ∈ value, isControl c = true)
    .invalidGrant

def grantSet (values : List Str) (max : Nat) : Except AdminGrantError (SortedSet Str) := do
  let kept := (values.map trim).filter fun value => !value.isEmpty
  let _ ← kept.mapM fun value => grantText value max true
  return SortedSet.empty.extend kept

structure NormalizedGrant where
  id : Str
  name : Str
  access : Str
  principal : Str
  capabilities : SortedSet Str
  projects : SortedSet Str
  s3Operations : SortedSet Str
  s3Prefixes : SortedSet Str
  s3Route : Str

def accessWithout : List Str := ["global".toList, "anonymous".toList, "authenticated".toList]

def accessWith : List Str :=
  ["user".toList, "team".toList, "organization".toList, "subject".toList]

def validAccess (access principal : Str) : Bool :=
  if principal.isEmpty then accessWithout.contains access else accessWith.contains access

def checkAccess (access principal : Str) : Except AdminGrantError Unit :=
  failIf (validAccess access principal = false) .invalidGrant

def normalized (input : AdminGrantInput) (id : Str) : Except AdminGrantError NormalizedGrant := do
  let capabilities ← grantSet input.capabilities 128
  let projects ← grantSet input.projects 256
  let s3Operations ← grantSet input.s3Operations 32
  let s3Prefixes ← grantSet input.s3Prefixes 512
  let grant : NormalizedGrant :=
    ⟨trim id, trim input.name, toAsciiLowercase (trim input.access), trim input.principal,
      capabilities, projects, s3Operations, s3Prefixes, trim input.s3Route⟩
  failIf (safeIdentitySegment grant.id 128 = false ∨ grant.capabilities.toList = []) .invalidGrant
  grantText grant.name 256 true
  grantText grant.principal 512 false
  grantText grant.s3Route 128 false
  checkAccess grant.access grant.principal
  return grant

section Validation

variable (vendor : Vendor) (routes : AdminGrantRoutes)

def coversStorage (matches_ : Str → Bool) : Bool :=
  matches_ "s3".toList ||
    StorageOperation.all.any fun op => matches_ ("s3:".toList ++ op.name.toList)

def validateCapability (route capability : Str) : Except AdminGrantError Unit := do
  let compiled ← (pattern vendor capability).mapError fun _ => AdminGrantError.invalidGrant
  failIf (coversStorage compiled = true ∧ route = [] ∧ routes.default ∉ routes.names) .invalidGrant

def validateRule (r : StoredRule) : Except AdminGrantError Unit := do
  failIf (safeIdentitySegment r.id 128 = false ∨ r.rule.capabilities = []) .invalidGrant
  grantText r.name 256 true
  grantText r.rule.principal 512 false
  checkAccess r.rule.accessKind r.rule.principal
  failIf (r.rule.s3Route ≠ [] ∧ r.rule.s3Route ∉ routes.names) .invalidGrant
  let _ ← r.rule.capabilities.mapM (validateCapability vendor routes r.rule.s3Route)
  return ()

def validateSnapshot (snapshot : StoredSnapshot) : Except AdminGrantError Unit := do
  let _ ← (ResourcePolicy.compile vendor snapshot.policy).mapError fun _ => AdminGrantError.invalidGrant
  let _ ← (StoragePolicy.compile vendor snapshot.policy).mapError fun _ => AdminGrantError.invalidGrant
  let _ ← snapshot.rules.mapM (validateRule vendor routes)
  return ()

/-- `From<ResourceGrantReadError>`. -/
def ResourceGrantReadError.toGrant : ResourceGrantReadError → AdminGrantError
  | .control .deadline => .control .deadline
  | .control .closed => .control .closed
  | .control .outcomeUncertain => .control .outcomeUncertain
  | _ => .readFailed

def observeSnapshot (env : GrantEnv) (d : GrantDb) : Except AdminGrantError StoredSnapshot := do
  env.step 10
  failIf (env.limit < env.jsonBytes d.stored) .readFailed
  d.decode.mapError ResourceGrantReadError.toGrant

/-! ### The transaction -/

def currentRevision (env : GrantEnv) (expected : Nat) (d : GrantDb) : Except AdminGrantError Int := do
  env.step 1
  failIf (expected = 0) .preconditionRequired
  env.step 2
  match d.acl with
  | none => .error .writeFailed
  | some (revision, _) => do
    failIf (revision ≤ 0) .writeFailed
    failIf (revision ≠ expected) .revisionConflict
    failIf (2 ^ 63 ≤ revision + 1) .writeFailed
    return revision

def GrantDb.writeGrant (grant : NormalizedGrant) (createdAt now : Int) (d : GrantDb) : GrantDb :=
  let row : GrantRow := ⟨grant.name, grant.access, grant.principal, grant.s3Route, createdAt, now⟩
  { d with
    grants := d.grants.insert grant.id row
    capabilities := d.capabilities.insert grant.id grant.capabilities
    projects := d.projects.insert grant.id grant.projects
    s3Operations := d.s3Operations.insert grant.id grant.s3Operations
    s3Prefixes := d.s3Prefixes.insert grant.id grant.s3Prefixes }

def GrantDb.deleteGrant (id : Str) (d : GrantDb) : GrantDb :=
  { d with
    grants := d.grants.erase id
    capabilities := d.capabilities.erase id
    projects := d.projects.erase id
    s3Operations := d.s3Operations.erase id
    s3Prefixes := d.s3Prefixes.erase id }

def applyGrant (env : GrantEnv) (now : Int) (d : GrantDb) :
    AdminGrantRequest → Except AdminGrantError GrantDb
  | .create input => do
    let grant ← normalized input input.id
    env.step 4
    failIf ((d.grants.get? grant.id).isSome = true) .writeFailed
    env.step 5
    return d.writeGrant grant now now
  | .update id input => do
    let grant ← normalized input id
    env.step 4
    match d.grants.get? grant.id with
    | none => .error .writeFailed
    | some row => do
      env.step 5
      return d.writeGrant grant row.createdAt now
  | .delete id => do
    failIf (safeIdentitySegment (trim id) 128 = false) .invalidGrant
    env.step 6
    failIf ((d.grants.get? (trim id)).isNone = true) .writeFailed
    return d.deleteGrant (trim id)

def mutateGrants (env : GrantEnv) (request : AdminGrantRequest) (expected : Nat) (d : GrantDb) :
    Except AdminGrantError (Unit × GrantDb) := do
  let revision ← currentRevision env expected d
  let now ← env.now.mapError AdminGrantError.control
  let d ← applyGrant env now d request
  env.step 8
  let d := { d with acl := some (revision + 1, now) }
  let snapshot ← observeSnapshot env d
  validateSnapshot vendor routes snapshot
  env.step 9
  return ((), d)

def adminGrants (env : GrantEnv) (request : AdminGrantRequest) (expected : Nat) (d : GrantDb) :
    Except AdminGrantError Unit × GrantDb :=
  transact (mutateGrants vendor routes env request expected) env.commit d

end Validation

end GraphitBroker
