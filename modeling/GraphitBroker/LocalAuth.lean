import GraphitBroker.AdminAccounts
import GraphitBroker.OidcAuthorization

/-!
# Logins of local users

The stages of a local login (`local_auth.rs`) and the transactions that take the proof of one:
`begin` takes a verified password, the completion of an authorization, the preparation of a device
consent and the issue of an administrator's cookie take a completed login. A proof is held in memory
between transactions and is compared with the row of its user when it is used. Cryptography, faults,
deadlines and the parts that read no account are decided by the environment, by the place in the
code; the checks that follow a commit are left out.
-/

namespace GraphitBroker

open ExceptList Transactions

inductive LocalAuthError where
  | unauthenticated
  | invalidChallenge
  | invalidPolicy
  | passwordUnchanged
  | invalidMfaCode
  | mfaRateLimited
  | mfaBusy
  | mfaCapacity
  | mfaUnavailable
  | password
  | credential
  | mfa
  | control (error : ControlError)
  deriving DecidableEq

inductive DeviceError where
  | authorizationPending
  | slowDown
  | accessDenied
  | expiredToken
  | protocol (error : OidcTokenExchangeError)
  deriving DecidableEq

inductive AdminCookieSessionError where
  | malformedCookie
  | unauthorized
  | forbidden
  | csrfFailed
  | entropy
  | control (error : ControlError)
  deriving DecidableEq

inductive LocalAuthPurpose where
  | adminLogin
  | oauthAuthorize
  | deviceApprove
  deriving DecidableEq

/-- `purpose_sql`. -/
def LocalAuthPurpose.sql : LocalAuthPurpose → Str
  | .adminLogin => "admin-login".toList
  | .oauthAuthorize => "oauth-authorize".toList
  | .deviceApprove => "device-approve".toList

inductive LocalAuthStage where
  | passwordChange
  | mfa
  | enrollment
  deriving DecidableEq

def LocalAuthStage.sql : LocalAuthStage → Str
  | .passwordChange => "password-change".toList
  | .mfa => "mfa".toList
  | .enrollment => "mfa-enrollment".toList

structure VerifiedLocalPassword where
  username : Str
  subject : Str
  revision : Int
  verifiedAt : Int

structure CompletedLocalLogin where
  username : Str
  subject : Str
  revision : Int
  observedAt : Int
  purpose : LocalAuthPurpose
  bindingHash : Str
  factorVerified : Bool
  recoveryCodes : Option (List Str)

inductive LocalAuthStep where
  | complete (login : CompletedLocalLogin)
  | pending (stage : LocalAuthStage) (challenge : Str)

structure ServiceEnv (ε : Type) extends TxEnv where
  /-- Faults, deadlines and failed computations, by the place in the code. -/
  fails : Nat → Option ε
  /-- A new secret and its hash. -/
  secret : Option (Str × Str)
  commit : Except (ε × Bool) Unit

namespace ServiceEnv

variable {ε : Type} (env : ServiceEnv ε)

def step (site : Nat) : Except ε Unit := refuse id (env.fails site)

def clock (site : Nat) (control : ControlError → ε) : Except ε Int :=
  (env.now site).mapError control

def draw (error : ε) : Except ε (Str × Str) :=
  match env.secret with
  | none => .error error
  | some secret => .ok secret

end ServiceEnv

/-! ### The row of a user -/

def ControlDb.userBySubject (d : ControlDb) (subject : Str) : Option (Str × LocalUser) :=
  d.users.entries.find? fun entry => entry.2.subject == subject

/-- The checks of `User::decode`. -/
def loginRow (entry : Str × LocalUser) : Bool :=
  safeIdentitySegment entry.1 128 && validIdentitySubject entry.2.subject 512 &&
    entry.2.kind == human && entry.2.enabled == 1 && (entry.2.change == 0 || entry.2.change == 1) &&
    decide (1 ≤ entry.2.revision)

/-- `user`. -/
def ControlDb.loginUser (d : ControlDb) (subject : Str) : Option (Str × LocalUser) :=
  (d.userBySubject subject).filter loginRow

/-- `CurrentPassword::decode` of a row, which has the whole row here. -/
def passwordRow (entry : Str × LocalUser) : Bool :=
  loginRow entry && decide (byteLen entry.2.phc ≤ 512)

structure CurrentPassword where
  username : Str
  subject : Str
  hash : Str
  revision : Int
  changeRequired : Bool
  deriving DecidableEq

def currentPassword (entry : Str × LocalUser) : Option CurrentPassword :=
  if passwordRow entry then
    some ⟨entry.1, entry.2.subject, entry.2.phc, entry.2.revision, entry.2.change == 1⟩
  else none

/-! ### Verification of a password -/

/-- `load_current`: the row under a user name. -/
def loadCurrent (username : Str) (d : ControlDb) : Option CurrentPassword :=
  (d.users.get? username).bind fun u => currentPassword (username, u)

/-- `finish_current`: the row that the password was checked against is still the same. -/
def finishCurrent (initial : CurrentPassword) (now : Int) (d : ControlDb) :
    Except LocalAuthError VerifiedLocalPassword :=
  match (d.userBySubject initial.subject).bind currentPassword with
  | none => .error .unauthenticated
  | some current =>
    if current = initial then .ok ⟨current.username, current.subject, current.revision, now⟩
    else .error .unauthenticated

/-! ### The stages of a login -/

structure LoginEnv extends ServiceEnv LocalAuthError where
  required : Bool
  challengeTtl : Int
  bindingHash : Str
  /-- The encrypted secret of a new enrollment. -/
  cipher : Str
  /-- `Challenge::decode` and `Input::validate` on a stored challenge. -/
  validates : Str → LocalChallenge → Option LocalAuthError
  /-- The code is accepted as a second factor, or it is the recovery code with a hash. -/
  totp : Bool
  recovery : Option Str
  /-- The recovery codes of an enrollment and their hashes. -/
  newCodes : List (Str × Str)

section Stages

variable (env : LoginEnv)

def nextStage (change factor : Bool) : Option LocalAuthStage :=
  if change then some .passwordChange
  else if !env.required then none
  else if factor then some .mfa
  else some .enrollment

def newChallenge (stage : LocalAuthStage) (u : LocalUser) (purpose : LocalAuthPurpose) (now : Int)
    (d : ControlDb) : Except LocalAuthError (LocalAuthStep × ControlDb) := do
  let expires := now + env.challengeTtl
  failIf (2 ^ 63 ≤ expires) (.control .clock)
  env.step 2
  let (raw, hash) ← env.draw .mfa
  env.step 3
  let challenges := d.challenges.filter fun _ c =>
    ¬(c.subject = u.subject ∧ c.purpose = purpose.sql)
  failIf ((challenges.get? hash).isSome) (.control .storage)
  let row : LocalChallenge := ⟨u.subject, u.revision, purpose.sql, env.bindingHash, stage.sql,
    if stage = .enrollment then env.cipher else [], expires, now⟩
  return (.pending stage raw, { d with challenges := challenges.insert hash row })

def advance (username : Str) (u : LocalUser) (factor : Bool) (purpose : LocalAuthPurpose)
    (d : ControlDb) : Except LocalAuthError (LocalAuthStep × ControlDb) := do
  let now ← env.clock 1 .control
  env.step 1
  match nextStage env (u.change == 1) factor with
  | none =>
    let login : CompletedLocalLogin :=
      ⟨username, u.subject, u.revision, now, purpose, env.bindingHash, false, none⟩
    return (.complete login, d)
  | some stage => newChallenge env stage u purpose now d

/-- The transaction of `begin`. -/
def beginBody (proof : VerifiedLocalPassword) (purpose : LocalAuthPurpose) (d : ControlDb) :
    Except LocalAuthError (LocalAuthStep × ControlDb) := do
  env.step 0
  match d.loginUser proof.subject with
  | none => throw .unauthenticated
  | some (username, u) => do
    failIf (username ≠ proof.username ∨ u.subject ≠ proof.subject ∨ u.revision ≠ proof.revision)
      .unauthenticated
    let result ← advance env username u (decide (u.subject ∈ d.mfa)) purpose d
    env.step 4
    return result

def storedChallenge (hash : Str) (d : ControlDb) : Except LocalAuthError LocalChallenge :=
  match d.challenges.get? hash with
  | none => .error .invalidChallenge
  | some row => do
    refuse id (env.validates hash row)
    return row

def checkedRevision (revision : Int) : Except LocalAuthError Int :=
  if revision + 1 < 2 ^ 63 then .ok (revision + 1) else .error .invalidChallenge

/-- The second transaction of `complete_password_change`, for the challenge and the row that the
first one has read. -/
def changeBody (hash newHash : Str) (purpose : LocalAuthPurpose) (initial : LocalChallenge)
    (password : CurrentPassword) (d : ControlDb) :
    Except LocalAuthError (LocalAuthStep × ControlDb) := do
  env.step 5
  let row ← storedChallenge env hash d
  match d.userBySubject row.subject with
  | none => throw .invalidChallenge
  | some (username, u) => do
    failIf (row ≠ initial ∨ currentPassword (username, u) ≠ some password ∨
      password.changeRequired = false) .invalidChallenge
    let next ← checkedRevision u.revision
    let now ← env.clock 6 .control
    env.step 6
    let u' := { u with phc := newHash, change := 0, revision := next, updatedAt := now }
    let d := { d with users := d.users.insert username u' }
    let d ← (ControlDb.invalidateLocalUser env.toTxEnv u.subject (purpose == .deviceApprove) now
      d).mapError .control
    let result ← advance env username u' (decide (u.subject ∈ d.mfa)) purpose d
    env.step 7
    return result

def enroll (username : Str) (u : LocalUser) (purpose : LocalAuthPurpose) (now : Int)
    (d : ControlDb) : Except LocalAuthError (LocalUser × ControlDb) := do
  let next ← checkedRevision u.revision
  env.step 11
  let u' := { u with revision := next, updatedAt := now }
  let d := { d with
    users := d.users.insert username u'
    mfa := d.mfa.insert u.subject
    recoveryCodes := d.recoveryCodes.extend
      (env.newCodes.map fun code => toLex (u.subject, code.2)) }
  let d ← (ControlDb.invalidateLocalUser env.toTxEnv u.subject (purpose == .deviceApprove) now
    d).mapError .control
  return (u', d)

def retry (row : LocalChallenge) (raw : Str) : LocalAuthStep :=
  .pending (if row.stage = LocalAuthStage.enrollment.sql then .enrollment else .mfa) raw

/-- The transaction of `complete_mfa`. -/
def mfaBody (raw hash : Str) (purpose : LocalAuthPurpose) (d : ControlDb) :
    Except LocalAuthError (LocalAuthStep × ControlDb) := do
  env.step 8
  let row ← storedChallenge env hash d
  failIf (row.stage = LocalAuthStage.passwordChange.sql) .invalidChallenge
  match d.loginUser row.subject with
  | none => throw .invalidChallenge
  | some (username, u) => do
    failIf (u.change = 1 ∨ u.subject ≠ row.subject ∨ u.revision ≠ row.revision) .invalidChallenge
    let enrolling := row.stage == LocalAuthStage.enrollment.sql
    failIf (enrolling = decide (u.subject ∈ d.mfa)) .invalidChallenge
    -- recovery codes without a factor
    failIf (enrolling = true ∧ ∃ code ∈ d.recoveryCodes.toList, (ofLex code).1 = u.subject)
      .invalidChallenge
    let now ← env.clock 9 .control
    env.step 9
    let login (u : LocalUser) (codes : Option (List Str)) : LocalAuthStep :=
      .complete ⟨username, u.subject, u.revision, now, purpose, env.bindingHash, true, codes⟩
    if enrolling then
      if env.totp then do
        let (u', d) ← enroll env username u purpose now d
        env.step 12
        return (login u' (some (env.newCodes.map (·.1))), d)
      else return (retry row raw, d)
    else do
      let used := env.recovery.filter fun code =>
        decide (toLex (u.subject, code) ∈ d.recoveryCodes)
      if env.totp || used.isSome then do
        env.step 12
        return (login u none,
          { d with
            challenges := d.challenges.erase hash
            recoveryCodes := d.recoveryCodes.filter fun k =>
              env.totp = true ∨ some k ≠ used.map fun code => toLex (u.subject, code) })
      else return (retry row raw, d)

end Stages

/-! ### The uses of a completed login -/

structure LocalPrincipal where
  subject : Str
  username : Str
  revision : Int
  name : Str
  email : Str
  organization : Str
  teams : List Str
  roles : List Str

def cleanTeams (teams : List Str) : List Str :=
  ((teams.map trim).filter (!·.isEmpty)).reverse.dedup.reverse

/-- The roles of a local subject in their order; everyone has the role `user`. -/
def ControlDb.rolesOf (d : ControlDb) (subject : Str) : List Str :=
  (SortedSet.empty.extend (userRole :: (d.assignments.entries.filter fun entry =>
    (ofLex entry.1).1 == localSubject subject).map fun entry => (ofLex entry.1).2)).toList

def validRole (role : Str) : Bool :=
  !role.isEmpty && trim role == role && decide (role.length ≤ 128) && !role.contains (Char.ofNat 0)

/-- `current_principal`; the environment decides the limits on the size of teams and roles. -/
def currentPrincipal (fails : Nat → Option OidcAuthorizationError) (subject username : Str)
    (revision : Int) (d : ControlDb) : Except OidcAuthorizationError LocalPrincipal := do
  refuse id (fails 100)
  match d.userBySubject subject with
  | none => throw .invalidLogin
  | some (name, u) => do
    failIf (safeIdentitySegment name 128 = false ∨ validIdentitySubject u.subject 512 = false ∨
      name ≠ username ∨ u.subject ≠ subject ∨ u.revision ≠ revision ∨ u.revision < 1 ∨
      u.kind ≠ human ∨ u.enabled ≠ 1 ∨ u.change ≠ 0) .invalidLogin
    failIf (512 < u.name.length ∨ 512 < u.email.length ∨ 512 < u.organization.length)
      .malformedStored
    refuse id (fails 101)
    failIf (∃ role ∈ d.rolesOf u.subject, validRole role = false) .malformedStored
    return ⟨u.subject, name, u.revision, u.name, u.email, u.organization, cleanTeams u.teams,
      d.rolesOf u.subject⟩

structure CompletionEnv extends ServiceEnv OidcAuthorizationError where
  crates : UriCrates
  policy : OidcAuthorizationPolicy
  late : Look → Bool
  parsePending : Str → Option PendingFields
  client : Str → Except OidcAuthorizationError ClientData
  /-- The text of the completed request. -/
  payload : PendingFields → LocalPrincipal → Str

/-- The transaction of `complete`, for a login that is bound to the request. -/
def completeBody (env : CompletionEnv) (hash : Str) (login : CompletedLocalLogin) (d : ControlDb) :
    Except OidcAuthorizationError (LocalPrincipal × ControlDb) := do
  env.step 0
  match d.requests.get? hash with
  | none => throw .invalidRequest
  | some row => do
    failIf (row.identitySubject ≠ [] ∨ row.codeHash.isSome) .invalidRequest
    env.step 1
    let now ← env.clock 1 .control
    failIf (row.createdAt ≤ 0 ∨ now < row.createdAt ∨
      row.expiresAt - row.createdAt ≠ env.policy.ttlMicros) .malformedStored
    failIf (login.observedAt < row.createdAt ∨ login.observedAt ≤ 0 ∨ now < login.observedAt)
      .invalidLogin
    match env.parsePending row.requestJson with
    | none => throw .malformedStored
    | some fields => do
      let principal ← currentPrincipal env.fails login.subject login.username login.revision d
      let client ← env.client fields.clientId
      OidcAuthorizationPolicy.revalidate env.crates env.policy env.late fields client
      let (_, codeHash) ← env.draw .random
      env.step 2
      let row := { row with
        identitySubject := principal.subject
        requestJson := env.payload
          { fields with phase := OidcAuthorizationPolicy.authorizedPhase } principal
        codeHash := some codeHash }
      return (principal, { d with requests := d.requests.insert hash row })

/-- `?` on the result of `current_principal` in the device flow. -/
def OidcAuthorizationError.toExchange : OidcAuthorizationError → OidcTokenExchangeError
  | .control error => .control error
  | .readLimitExceeded => .readLimitExceeded
  | .malformedStored => .malformedStored
  | _ => .invalidGrant

structure DeviceEnv extends ServiceEnv DeviceError where
  principalFails : Nat → Option OidcAuthorizationError
  /-- The device code with a hash of its user code, as far as `read` accepts it. -/
  decodes : Str → DeviceCodeRow → Option DeviceError
  bindingHash : Str

/-- The transaction of `prepare`, for a login that is bound to the user code. -/
def prepareBody (env : DeviceEnv) (userHash : Str) (login : CompletedLocalLogin) (d : ControlDb) :
    Except DeviceError (DeviceCodeRow × ControlDb) := do
  env.step 0
  let _ ← (currentPrincipal env.principalFails login.subject login.username login.revision
    d).mapError fun e => .protocol e.toExchange
  match d.devices.entries.find? fun entry => entry.2.userHash == userHash with
  | none => throw (.protocol .invalidGrant)
  | some (hash, device) => do
    refuse id (env.decodes hash device)
    env.step 1
    failIf (device.status ≠ "pending".toList ∨ login.observedAt < device.createdAt)
      (.protocol .invalidGrant)
    let present ← env.clock 1 fun e => .protocol (.control e)
    failIf (present < login.observedAt) (.protocol .invalidGrant)
    let now ← env.clock 2 fun e => .protocol (.control e)
    let (_, challengeHash) ← env.draw (.protocol .random)
    failIf ((d.challenges.get? challengeHash).isSome) (.protocol (.control .storage))
    env.step 2
    let row : LocalChallenge := ⟨login.subject, login.revision, "device-approve".toList,
      env.bindingHash, "device_consent".toList, [], device.expiresAt, now⟩
    return (device, { d with challenges := d.challenges.insert challengeHash row })

structure CookieEnv extends ServiceEnv AdminCookieSessionError where
  usernameBytes : Nat
  subjectBytes : Nat
  required : Bool
  /-- What is left of `observe` once the row is accepted: sizes, roles and permissions. -/
  permits : ControlDb → LocalUser → Option AdminCookieSessionError

/-- `observe` of a completed login. -/
def observeLogin (env : CookieEnv) (login : CompletedLocalLogin) (d : ControlDb) :
    Except AdminCookieSessionError LocalUser := do
  env.step 10
  failIf (safeIdentitySegment login.username env.usernameBytes = false) .unauthorized
  match d.users.get? login.username with
  | none => throw .unauthorized
  | some u => do
    failIf (validIdentitySubject u.subject env.subjectBytes = false ∨
      (u.kind ≠ human ∧ u.kind ≠ service) ∨ (u.enabled ≠ 0 ∧ u.enabled ≠ 1) ∨ u.revision < 1)
      (.control .corruptIdentity)
    failIf (u.enabled ≠ 1 ∨ u.kind ≠ human ∨ u.subject ≠ login.subject ∨
      u.revision ≠ login.revision) .unauthorized
    failIf (u.change ≠ 0 ∧ u.change ≠ 1) (.control .corruptIdentity)
    failIf (u.change ≠ 0) .unauthorized
    refuse id (env.permits d u)
    return u

/-- The transaction of `issue_local`, for a login of an administrator. -/
def issueBody (env : CookieEnv) (login : CompletedLocalLogin) (d : ControlDb) :
    Except AdminCookieSessionError (LocalUser × ControlDb) := do
  failIf (env.required = true ∧ login.factorVerified = false) .unauthorized
  env.step 0
  let u ← observeLogin env login d
  let (_, hash) ← env.draw .entropy
  env.step 1
  failIf ((d.sessions.get? hash).isSome) (.control .sessionExists)
  return (u, { d with sessions := d.sessions.insert hash ⟨u.subject, some "local".toList⟩ })

/-! ### The first administrator -/

inductive LocalAdministratorBootstrapError where
  | invalidPasswordInput
  | invalidPasswordHash
  | alreadyInitialized
  | control (error : ControlError)
  deriving DecidableEq

def bootstrapBody (env : ServiceEnv LocalAdministratorBootstrapError) (phc : Str) (d : ControlDb) :
    Except LocalAdministratorBootstrapError (Unit × ControlDb) := do
  env.step 0
  failIf ((d.roles.get? adminRole).isNone) (.control .corruptRbac)
  failIf (d.users.entries.isEmpty = false) .alreadyInitialized
  let now ← env.clock 0 .control
  env.step 1
  let row : LocalUser := ⟨"admin".toList, human, phc, [], [], [], [], 1, 1, 1, now, now⟩
  let key := toLex (localSubject "admin".toList, adminRole)
  return ((), { d with
    users := d.users.insert "admin".toList row
    assignments := if (d.assignments.get? key).isSome then d.assignments
      else d.assignments.insert key now })

/-! ### Runs -/

/-- The transactions that change accounts or take the proof of a login, and the others, none of
which writes `local_users`. -/
inductive AccountOp where
  | users (env : AdminEnv) (request : AdminUsersRequest)
  | rbac (env : AdminEnv) (request : AdminRbacRequest)
  | bootstrap (env : ServiceEnv LocalAdministratorBootstrapError) (phc : Str)
  | begin (env : LoginEnv) (proof : VerifiedLocalPassword) (purpose : LocalAuthPurpose)
  | change (env : LoginEnv) (hash newHash : Str) (purpose : LocalAuthPurpose)
      (initial : LocalChallenge) (password : CurrentPassword)
  | mfa (env : LoginEnv) (raw hash : Str) (purpose : LocalAuthPurpose)
  | complete (env : CompletionEnv) (hash : Str) (login : CompletedLocalLogin)
  | prepare (env : DeviceEnv) (userHash : Str) (login : CompletedLocalLogin)
  | issue (env : CookieEnv) (login : CompletedLocalLogin)
  | other (f : ControlDb → ControlDb) (users_eq : ∀ d, (f d).users = d.users)

def AccountOp.apply : AccountOp → ControlDb → ControlDb
  | .users env request, d => (d.adminUsers env request).2
  | .rbac env request, d => (d.adminRbac env request).2
  | .bootstrap env phc, d => (transact (bootstrapBody env phc) env.commit d).2
  | .begin env proof purpose, d => (transact (beginBody env proof purpose) env.commit d).2
  | .change env hash newHash purpose initial password, d =>
    (transact (changeBody env hash newHash purpose initial password) env.commit d).2
  | .mfa env raw hash purpose, d => (transact (mfaBody env raw hash purpose) env.commit d).2
  | .complete env hash login, d => (transact (completeBody env hash login) env.commit d).2
  | .prepare env userHash login, d => (transact (prepareBody env userHash login) env.commit d).2
  | .issue env login, d => (transact (issueBody env login) env.commit d).2
  | .other f _, d => f d

def AccountOp.run (ops : List AccountOp) (d : ControlDb) : ControlDb :=
  ops.foldl (fun d op => op.apply d) d

end GraphitBroker
