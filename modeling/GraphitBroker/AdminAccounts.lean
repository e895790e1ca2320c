import GraphitBroker.ControlDb
import GraphitBroker.Lib.ExceptList

/-!
# Administration of users and roles

`data.rs` of the administrative users and `admin_rbac.rs`, on SQLite. Each request is one transaction: the
check that the caller may make it, the statements of the request, the commit. The listing of service
credentials, which writes nothing, is left out.
-/

namespace GraphitBroker

open ExceptList

inductive BrokerAccessError where
  | invalidConfiguration
  | invalidToken
  | expired
  | insufficientScope
  | deadline
  deriving DecidableEq

inductive AdminBrokerSessionError where
  | authentication (error : BrokerAccessError)
  | control (error : ControlError)
  | forbidden
  | entropy
  deriving DecidableEq

inductive AdminUsersError where
  | authorization (error : AdminBrokerSessionError)
  | csrfFailed
  | createFailed
  | updateFailed
  | deleteFailed
  | mfaResetFailed
  | serviceIdentityNotFound
  | invalidCredential
  | credentialCreateFailed
  | credentialGenerationFailed
  | credentialRevokeFailed
  deriving DecidableEq

inductive AdminRbacError where
  | authorization (error : AdminBrokerSessionError)
  | csrfFailed
  | invalidRole
  | roleDeleteFailed
  | assignmentFailed
  deriving DecidableEq

def AdminUsersError.control (error : ControlError) : AdminUsersError := .authorization (.control error)

def AdminRbacError.control (error : ControlError) : AdminRbacError := .authorization (.control error)

structure AdminUserInput where
  username : Str
  subject : Str
  kind : Str
  password : Str
  name : Str
  email : Str
  organization : Str
  teams : List Str
  roles : List Str
  enabled : Option Bool
  passwordChangeRequired : Bool

structure AdminServiceCredentialInput where
  clientId : Str
  scopes : List Str
  expiresIn : Int

inductive AdminUsersRequest where
  | create (user : AdminUserInput)
  | update (username : Str) (user : AdminUserInput)
  | delete (username : Str)
  | resetMfa (username : Str)
  | issueCredential (username : Str) (input : AdminServiceCredentialInput)
  | revokeCredential (username id : Str)

inductive AdminRbacRequest where
  | setRole (name : Str) (permissions : List Str)
  | deleteRole (name : Str)
  | assign (subject role : Str)
  | revoke (subject role : Str)

structure AdminEnv extends TxEnv where
  /-- Whether the caller is authenticated and allowed to make the request. -/
  observe : ControlDb → Option AdminBrokerSessionError
  csrf : Bool
  /-- The password hash, made before the transaction. -/
  hash : Option Str
  /-- Which of the rows that match the query of `another_admin` it returns. -/
  pick : Nat
  /-- `SystemPermission::stored`. -/
  storedPermission : Str → Option Str
  /-- The largest lifetime of a service credential in seconds, and its audience. -/
  maxTtl : Nat
  audience : Str
  /-- A new service credential: its identifier and its hash. -/
  credential : Option (Str × Str)
  /-- The text of an expiry, and whether the response fits its limit. -/
  timestamp : Int → Except ControlError Str
  encodes : Bool
  /-- The outcome of the commit; on failure, whether the writes were made. -/
  commit : Except (ControlError × Bool) Unit

def adminRole : Str := "admin".toList

def userRole : Str := "user".toList

def human : Str := "human".toList

def service : Str := "service".toList

def critical {ε : Type} (control : ControlError → ε) (fallback : ε) : ControlError → ε
  | .deadline => control .deadline
  | .closed => control .closed
  | .outcomeUncertain => control .outcomeUncertain
  | _ => fallback

/-! ### Validation -/

structure UserValues where
  username : Str
  subject : Str
  kind : Str
  name : Str
  email : Str
  organization : Str
  teams : SortedSet Str
  roles : SortedSet Str
  enabled : Bool

def validNewPassword (password : Str) : Bool :=
  decide (byteLen password ≤ 4096) && decide (15 ≤ password.length)

def values (input : AdminUserInput) (kind : Str) (creating : Bool) (error : AdminUsersError) :
    Except AdminUsersError UserValues := do
  let username := trim input.username
  let subject := trim input.subject
  let roles := SortedSet.empty.extend
    ((input.roles.map trim).filter fun s => !s.isEmpty && s != userRole)
  failIf (safeIdentitySegment username 128 = false ∨ validIdentitySubject subject 512 = false ∨
    subject.any isControl = true ∨ (kind ≠ human ∧ kind ≠ service) ∨
    roles.toList.any (fun s => !safeIdentitySegment s 128) = true ∨
    [input.name, input.email, input.organization].any (fun s =>
      decide (512 < (trim s).length) || s.contains (Char.ofNat 0)) = true) error
  failIf ((kind = service ∧ input.password ≠ []) ∨
    (kind = human ∧ (creating = true ∨ input.password ≠ []) ∧
      validNewPassword input.password = false)) error
  return ⟨username, subject, kind, trim input.name, trim input.email, trim input.organization,
    SortedSet.empty.extend ((input.teams.map trim).filter fun s => !s.isEmpty), roles,
    input.enabled.getD true⟩

def validCredentialId (value : Str) : Bool :=
  safeIdentitySegment value 128 ||
    (decide (byteLen value = 16) && value.all fun c => c.isAlphanum || c == '-' || c == '_')

def assignmentValues (subject role : Str) : Except AdminRbacError (Str × Str) := do
  let subject := trim subject
  let role := trim role
  failIf (subject = [] ∨ 512 < subject.length ∨ subject.any isControl = true ∨
    safeIdentitySegment role 128 = false) .assignmentFailed
  return (subject, role)

namespace ControlDb

variable (env : AdminEnv)

/-! ### Administrators -/

/-- The rows of the query for enabled local administrators other than `target`. -/
def localAdmins (d : ControlDb) (target : Str) : List (Str × LocalUser) :=
  d.users.entries.filter fun entry =>
    (d.assignments.get? (toLex (localSubject entry.2.subject, adminRole))).isSome &&
      localSubject entry.2.subject != target && entry.2.enabled == 1

/-- The checks that a row of `local_users` decodes to an identity. -/
def identityRow (username : Str) (u : LocalUser) : Bool :=
  safeIdentitySegment username 128 && validIdentitySubject u.subject 512 &&
    (u.kind == human || u.kind == service) && decide (1 ≤ u.revision)

/-- `another_admin`: someone else than `target` is an administrator. -/
def anotherAdmin (d : ControlDb) (target : Str) : Except AdminRbacError Unit := do
  (env.check 1 0).mapError .control
  (env.check 2 0).mapError (critical .control .assignmentFailed)
  let external := d.assignments.entries.any fun entry =>
    (ofLex entry.1).2 == adminRole && (ofLex entry.1).1 != target &&
      !"local|".toList.isPrefixOf (ofLex entry.1).1
  (env.check 3 0).mapError .control
  if external then return ()
  else do
    (env.check 4 0).mapError (critical .control .assignmentFailed)
    match (d.localAdmins target)[env.pick % (d.localAdmins target).length]? with
    | none => throw .assignmentFailed
    | some entry =>
      (env.check 5 0).mapError .control
      failIf (identityRow entry.1 entry.2 = false) (.control .corruptIdentity)

/-- `last_admin`: a local administrator is not the last one. -/
def lastAdmin (d : ControlDb) (subject : Str) (error : AdminUsersError) :
    Except AdminUsersError Unit := do
  (env.check 6 0).mapError .control
  checkIf ((d.assignments.get? (toLex (localSubject subject, adminRole))).isSome)
    ((d.anotherAdmin env (localSubject subject)).mapError fun e =>
      match e with
      | .authorization e => .authorization e
      | _ => error)

/-- `parent`: the role of administrators exists. -/
def parent (d : ControlDb) : Except ControlError Unit := do
  env.check 7 0
  failIf ((d.roles.get? adminRole).isNone) .corruptRbac

/-! ### Users -/

def target (d : ControlDb) (username : Str) (error : AdminUsersError) :
    Except AdminUsersError (Str × LocalUser) := do
  let username := trim username
  failIf (safeIdentitySegment username 128 = false) error
  (env.check 8 0).mapError .control
  match d.users.get? username with
  | none => throw error
  | some u =>
    failIf (identityRow username u = false ∨ 512 < byteLen u.phc ∨ (u.enabled ≠ 0 ∧ u.enabled ≠ 1) ∨
      (u.change ≠ 0 ∧ u.change ≠ 1) ∨ (u.kind = service ∧ (u.phc ≠ [] ∨ u.change = 1)))
      (.control .corruptIdentity)
    return (username, u)

/-- The insertions of `replace_roles`. A role that does not exist violates the foreign key. -/
def insertRoles (subject : Str) (now : Int) (error : AdminUsersError) :
    Nat → List Str → ControlDb → Except AdminUsersError ControlDb
  | _, [], d => .ok d
  | round, role :: rest, d => do
    (env.check 10 round).mapError .control
    (env.check 11 round).mapError (critical .control error)
    failIf ((d.roles.get? role).isNone) error
    insertRoles subject now error (round + 1) rest
      { d with assignments := d.assignments.insert (toLex (localSubject subject, role)) now }

def replaceRoles (subject : Str) (roles : SortedSet Str) (now : Int) (error : AdminUsersError)
    (d : ControlDb) : Except AdminUsersError ControlDb := do
  (env.check 9 0).mapError (critical .control error)
  insertRoles env subject now error 0 roles.toList
    { d with assignments := d.assignments.filter fun k _ => (ofLex k).1 ≠ localSubject subject }

def subjectTaken (d : ControlDb) (subject : Str) : Bool :=
  d.users.entries.any fun entry => entry.2.subject == subject

def newPhc (kind : Str) (error : AdminUsersError) : Except AdminUsersError Str :=
  if kind = human then
    match env.hash with
    | some phc => .ok phc
    | none => .error error
  else .ok []

def createUser (input : AdminUserInput) (d : ControlDb) : Except AdminUsersError (Nat × ControlDb) := do
  let error := AdminUsersError.createFailed
  let kind := if input.kind = [] then human else input.kind
  let u ← values input kind true error
  let phc ← newPhc env kind error
  let now ← (env.now 0).mapError .control
  (env.check 12 0).mapError (critical .control error)
  failIf ((d.users.get? u.username).isSome ∨ d.subjectTaken u.subject = true) error
  let row : LocalUser := ⟨u.subject, kind, phc, u.name, u.email, u.organization, u.teams.toList,
    if u.enabled then 1 else 0, if kind = human then 1 else 0, 1, now, now⟩
  let d ← replaceRoles env u.subject u.roles now error { d with users := d.users.insert u.username row }
  return (201, d)

/-- The `UPDATE` of a user, who may be renamed. -/
def writeUser (d : ControlDb) (old new : Str) (row : LocalUser) (error : AdminUsersError) :
    Except AdminUsersError ControlDb := do
  (env.check 13 0).mapError (critical .control error)
  failIf (new ≠ old ∧ (d.users.get? new).isSome) error
  return { d with users := (d.users.erase old).insert new row }

def invalidate (subject : Str) (now : Int) (d : ControlDb) : Except AdminUsersError ControlDb :=
  (invalidateLocalUser env.toTxEnv subject false now d).mapError .control

def nextRevision (revision : Int) (error : AdminUsersError) : Except AdminUsersError Int :=
  if revision + 1 < 2 ^ 63 then .ok (revision + 1) else .error error

def updateUser (username : Str) (input : AdminUserInput) (d : ControlDb) :
    Except AdminUsersError (Nat × ControlDb) := do
  let error := AdminUsersError.updateFailed
  let current ← d.target env username error
  let kind := if input.kind = [] then current.2.kind else input.kind
  let u ← values input kind false error
  failIf (u.subject ≠ current.2.subject ∨ u.kind ≠ current.2.kind) error
  checkIf (u.enabled = false ∨ adminRole ∉ u.roles) (d.lastAdmin env current.2.subject error)
  let revision ← nextRevision current.2.revision error
  let now ← (env.now 0).mapError .control
  let row : LocalUser := { current.2 with
    phc := env.hash.getD current.2.phc
    name := u.name
    email := u.email
    organization := u.organization
    teams := u.teams.toList
    enabled := if u.enabled then 1 else 0
    change := if kind = human ∧ (current.2.change = 1 ∨ input.passwordChangeRequired = true ∨
      env.hash.isSome) then 1 else 0
    revision := revision
    updatedAt := now }
  let d ← d.writeUser env current.1 u.username row error
  let d ← replaceRoles env current.2.subject u.roles now error d
  let d ← invalidate env current.2.subject now d
  return (204, d)

def dropUserRows (d : ControlDb) (username : Str) (u : LocalUser) : ControlDb :=
  { d with
    sessions := d.sessions.filter fun _ s => ¬(s.subject = u.subject ∧ s.issuer = some "local".toList)
    tokens := d.tokens.filter fun _ t => ¬(t.subject = u.subject ∧ 1 ≤ t.revision)
    assignments := d.assignments.filter fun k _ => (ofLex k).1 ≠ localSubject u.subject
    mfa := d.mfa.filter (· ≠ u.subject)
    recoveryCodes := d.recoveryCodes.filter fun k => (ofLex k).1 ≠ u.subject
    challenges := d.challenges.filter fun _ c => c.subject ≠ u.subject
    users := d.users.erase username }

def deleteUser (username : Str) (d : ControlDb) : Except AdminUsersError (Nat × ControlDb) := do
  let error := AdminUsersError.deleteFailed
  let current ← d.target env username error
  d.lastAdmin env current.2.subject error
  let now ← (env.now 0).mapError .control
  let d ← invalidate env current.2.subject now d
  (env.check 14 0).mapError (critical .control error)
  return (204, d.dropUserRows current.1 current.2)

def resetMfa (username : Str) (d : ControlDb) : Except AdminUsersError (Nat × ControlDb) := do
  let error := AdminUsersError.mfaResetFailed
  let current ← d.target env username error
  failIf (current.2.kind ≠ human) error
  let revision ← nextRevision current.2.revision error
  let now ← (env.now 0).mapError .control
  (env.check 15 0).mapError (critical .control error)
  let d := { d with
    mfa := d.mfa.filter (· ≠ current.2.subject)
    recoveryCodes := d.recoveryCodes.filter fun k => (ofLex k).1 ≠ current.2.subject }
  let d ← d.writeUser env current.1 current.1
    { current.2 with revision := revision, updatedAt := now } error
  let d ← invalidate env current.2.subject now d
  return (204, d)

def credentialSeconds (expiresIn : Int) : Except AdminUsersError Int :=
  let seconds : Int := if expiresIn = 0 then min env.maxTtl (90 * 86400) else expiresIn
  if seconds < 3600 ∨ (env.maxTtl : Int) < seconds then .error .invalidCredential else .ok seconds

def issueCredential (username : Str) (input : AdminServiceCredentialInput) (d : ControlDb) :
    Except AdminUsersError (Nat × ControlDb) := do
  let error := AdminUsersError.credentialCreateFailed
  let current ← d.target env username .serviceIdentityNotFound
  failIf (current.2.kind ≠ service) .serviceIdentityNotFound
  failIf (current.2.enabled ≠ 1) error
  let client := if trim input.clientId = [] then current.1 else trim input.clientId
  failIf (safeIdentitySegment client 128 = false) .invalidCredential
  let seconds ← credentialSeconds env input.expiresIn
  let now ← (env.now 0).mapError .control
  let expires := now + seconds * 1000000
  failIf (2 ^ 63 ≤ expires) .invalidCredential
  let _ ← (env.timestamp expires).mapError .control
  let scopes := SortedSet.empty.extend ((input.scopes.map trim).filter fun s => !s.isEmpty)
  match env.credential with
  | none => throw .credentialGenerationFailed
  | some (id, digest) =>
    (env.check 16 0).mapError (critical .control error)
    failIf ((d.tokens.get? digest).isSome ∨
      d.tokens.entries.any (fun entry => entry.2.id == id) = true) error
    failIf (env.encodes = false) error
    let principal : TokenPrincipal := ⟨"local".toList, current.2.subject, current.1,
      "service-credential".toList, current.2.revision⟩
    let row : LocalToken := ⟨id, service, current.2.subject, [], principal, client, env.audience, [],
      scopes.toList, current.2.revision, [], now, expires, none, none, none, now⟩
    return (201, { d with tokens := d.tokens.insert digest row })

def revokeCredential (username id : Str) (d : ControlDb) : Except AdminUsersError (Nat × ControlDb) := do
  let error := AdminUsersError.credentialRevokeFailed
  let current ← d.target env username .serviceIdentityNotFound
  failIf (current.2.kind ≠ service) .serviceIdentityNotFound
  failIf (validCredentialId id = false) error
  let now ← (env.now 0).mapError .control
  (env.check 17 0).mapError (critical .control error)
  let live (t : LocalToken) : Bool := t.subject == current.2.subject && t.kind == service && t.id == id &&
    decide (1 ≤ t.revision) && t.revokedAt.isNone
  failIf ((d.tokens.entries.filter fun entry => live entry.2).length ≠ 1) error
  let tokens := d.tokens.mapValues fun _ t => if live t then { t with revokedAt := some now } else t
  return (204, { d with tokens := tokens })

/-- `apply`, with the status of the response. -/
def applyUsers (request : AdminUsersRequest) (d : ControlDb) :
    Except AdminUsersError (Nat × ControlDb) := do
  (env.check 0 0).mapError .control
  match request with
  | .create user => createUser env user d
  | .update username user => updateUser env username user d
  | .delete username => deleteUser env username d
  | .resetMfa username => resetMfa env username d
  | .issueCredential username input => issueCredential env username input d
  | .revokeCredential username id => revokeCredential env username id d

def usersBody (request : AdminUsersRequest) (d : ControlDb) :
    Except AdminUsersError (Nat × ControlDb) := do
  (d.parent env).mapError .control
  refuse .authorization (env.observe d)
  failIf (env.csrf = false) .csrfFailed
  let result ← applyUsers env request d
  (env.check 18 0).mapError .control
  return result

def adminUsers (request : AdminUsersRequest) (d : ControlDb) : Except AdminUsersError Nat × ControlDb :=
  Transactions.transact (usersBody env request)
    (env.commit.mapError fun e => (.control e.1, e.2)) d

/-! ### Roles -/

def roleActions (permissions : List Str) : Except AdminRbacError (List Str) := do
  let actions ← permissions.mapM fun p =>
    match env.storedPermission p with
    | some action => .ok action
    | none => .error .invalidRole
  failIf (actions = []) .invalidRole
  return actions.dedup

def setRole (name : Str) (permissions : List Str) (d : ControlDb) :
    Except AdminRbacError ControlDb := do
  let name := trim name
  failIf (name = adminRole ∨ name = userRole) .invalidRole
  let actions ← roleActions env permissions
  failIf (safeIdentitySegment name 128 = false) .invalidRole
  (env.check 20 0).mapError (critical .control .invalidRole)
  let now ← (env.now 0).mapError (critical .control .invalidRole)
  return { d with
    roles := if (d.roles.get? name).isSome then d.roles else d.roles.insert name now
    permissions := (d.permissions.filter fun k => (ofLex k).1 ≠ name).extend
      (actions.map fun action => toLex (name, action)) }

def deleteRole (name : Str) (d : ControlDb) : Except AdminRbacError ControlDb := do
  let name := trim name
  failIf (safeIdentitySegment name 128 = false ∨ name = adminRole ∨ name = userRole) .roleDeleteFailed
  (env.check 21 0).mapError (critical .control .roleDeleteFailed)
  failIf ((d.roles.get? name).isNone) .roleDeleteFailed
  return { d with
    roles := d.roles.erase name
    permissions := d.permissions.filter fun k => (ofLex k).1 ≠ name
    assignments := d.assignments.filter fun k _ => (ofLex k).2 ≠ name }

def assign (subject role : Str) (d : ControlDb) : Except AdminRbacError ControlDb := do
  let (subject, role) ← assignmentValues subject role
  (env.check 22 0).mapError (critical .control .assignmentFailed)
  failIf ((d.roles.get? role).isNone) .assignmentFailed
  let now ← (env.now 0).mapError .control
  if (d.assignments.get? (toLex (subject, role))).isSome then return d
  else return { d with assignments := d.assignments.insert (toLex (subject, role)) now }

def revoke (subject role : Str) (d : ControlDb) : Except AdminRbacError ControlDb := do
  let (subject, role) ← assignmentValues subject role
  (env.check 23 0).mapError (critical .control .assignmentFailed)
  if (d.assignments.get? (toLex (subject, role))).isNone then return d
  else do
    checkIf (role = adminRole) (d.anotherAdmin env subject)
    (env.check 24 0).mapError (critical .control .assignmentFailed)
    return { d with assignments := d.assignments.erase (toLex (subject, role)) }

def applyRbac (request : AdminRbacRequest) (d : ControlDb) : Except AdminRbacError ControlDb :=
  match request with
  | .setRole name permissions => setRole env name permissions d
  | .deleteRole name => deleteRole env name d
  | .assign subject role => assign env subject role d
  | .revoke subject role => revoke env subject role d

def mutate (request : AdminRbacRequest) (d : ControlDb) : Except AdminRbacError ControlDb := do
  (env.check 19 0).mapError .control
  let d ← applyRbac env request d
  (env.check 25 0).mapError .control
  return d

def rbacBody (request : AdminRbacRequest) (d : ControlDb) : Except AdminRbacError (Unit × ControlDb) := do
  (d.parent env).mapError .control
  refuse .authorization (env.observe d)
  failIf (env.csrf = false) .csrfFailed
  let d ← mutate env request d
  (env.check 26 0).mapError .control
  return ((), d)

def adminRbac (request : AdminRbacRequest) (d : ControlDb) : Except AdminRbacError Unit × ControlDb :=
  Transactions.transact (rbacBody env request)
    (env.commit.mapError fun e => (.control e.1, e.2)) d

end ControlDb

end GraphitBroker
