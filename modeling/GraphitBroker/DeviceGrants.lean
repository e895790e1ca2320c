import GraphitBroker.CredentialDigests
import GraphitBroker.Lib.Histories

/-!
# Device grants

The grant for devices without a browser (`device.rs`). A device is issued a pair of codes; its user
logs in at a browser, which prepares a consent for the user code, and decides; the device polls until
the decision and redeems an approval for one access token. Each call is one transaction over
`oauth_device_codes`, `local_auth_challenges` and `local_tokens`. Deadlines, faults and signatures are
decided by the environment, by the place in the code; the checks after a commit are left out. Every
transaction also names what it has written, for the history of a run.
-/

namespace GraphitBroker

open ExceptList Transactions

def userCodeAlphabet : Str := "ABCDEFGHJKLMNPQRSTUVWXYZ23456789".toList

def deviceMark : Str := "gb_dc_".toList

def pending : Str := "pending".toList

def approved : Str := "approved".toList

def denied : Str := "denied".toList

def deviceConsent : Str := "device_consent".toList

/-- The lifetimes of codes and tokens, as `new` accepts them. -/
structure DeviceAuthorizationPolicy where
  ttlMicros : Int
  intervalSeconds : Int
  accessMicros : Int
  ttl_mem : 300 * 10 ^ 6 ≤ ttlMicros ∧ ttlMicros ≤ 1800 * 10 ^ 6
  interval_mem : 1 ≤ intervalSeconds ∧ intervalSeconds ≤ 30

/-- Durations in nanoseconds. -/
def DeviceAuthorizationPolicy.new (codeTtl pollInterval accessTtl : Nat) :
    Except DeviceError DeviceAuthorizationPolicy :=
  if h : (300 * 10 ^ 9 ≤ codeTtl ∧ codeTtl ≤ 1800 * 10 ^ 9) ∧
      (10 ^ 9 ≤ pollInterval ∧ pollInterval ≤ 30 * 10 ^ 9) ∧
      (60 * 10 ^ 9 ≤ accessTtl ∧ accessTtl ≤ 3600 * 10 ^ 9) ∧
      codeTtl % 10 ^ 9 = 0 ∧ pollInterval % 10 ^ 9 = 0 then
    .ok ⟨(codeTtl / 10 ^ 3 : Nat), (pollInterval / 10 ^ 9 : Nat), (accessTtl / 10 ^ 3 : Nat),
      by omega, by omega⟩
  else .error (.protocol .invalidConfiguration)

def normalizeDeviceUserCode (raw : Str) : Option Str := do
  let value ← ((trim raw).filter (· ≠ '-')).foldlM (fun value c =>
    if value.length = 8 ∨ c.toUpper ∉ userCodeAlphabet then none else some (value ++ [c.toUpper])) []
  if value.length = 8 then some value else none

/-- The form in which a user code is shown. -/
def displayUserCode (user : Str) : Str := user.take 4 ++ '-' :: user.drop 4

def newUserCode (random : List.Vector UInt8 8) : Str :=
  random.toList.map fun v => userCodeAlphabet.getD (v &&& 31).toNat 'A'

/-- What the transactions have written. -/
inductive DeviceEvent where
  | issued (hash userHash : Str)
  | prepared (consent userHash binding subject : Str) (revision : Int)
  | decided (hash userHash binding consent subject : Str) (revision : Int) (allow : Bool)
  | granted (hash subject : Str) (revision : Int)
  deriving DecidableEq

structure DeviceAuthorizationCodes where
  device : Str
  user : Str
  expiresAt : Int
  interval : Int

structure DeviceConsent where
  secret : Str
  recovery : Option (List Str)
  userCode : Str
  client : Str
  expiresAt : Int

structure DeviceAccessToken where
  access : Str
  expiresAt : Int

/-- `From<ControlError>`. -/
def DeviceError.control (e : ControlError) : DeviceError := .protocol (.control e)

/-- `check`: the deadline first, then the expiry. -/
def DeviceEnv.check (env : DeviceEnv) (site : Nat) (expiry : Int) : Except DeviceError Unit := do
  env.step site
  let now ← env.clock site .control
  failIf (expiry ≤ now) .expiredToken

/-- The service; `new` of the authorization policy has checked the client of the command line. -/
structure SqliteDeviceAuthorizations where
  authorization : OidcPolicy
  policy : DeviceAuthorizationPolicy
  digester : CredentialDigester
  hmac : Bytes → Bytes → Digest
  cli_segment : safeIdentitySegment authorization.cliClientId 128 = true
  scopes_empty : authorization.scopesBytes [] = 2

namespace SqliteDeviceAuthorizations

variable (service : SqliteDeviceAuthorizations)

def parameters (values : List Str) : Except DeviceError Unit :=
  failIf (service.authorization.parameterBytes < (values.map byteLen).sum) (.protocol .invalidRequest)

def client (client : Str) : Except DeviceError Unit := do
  failIf (client = []) (.protocol .invalidRequest)
  failIf (client ≠ service.authorization.cliClientId) (.protocol .invalidClient)

def digest (kind : TokenKind) (raw : Str) : Except DeviceError Str :=
  ((service.digester.token service.hmac kind (utf8 raw)).map toSqlHex).mapError
    fun _ => .protocol .credential

def binding (user : Str) : Except DeviceError Str :=
  ((service.digester.localAuthBinding service.hmac (.deviceApprove (utf8 user))).map
    toSqlHex).mapError fun _ => .protocol .credential

/-! ### Stored codes -/

/-- What the subject and the revision of a row are under its status. -/
def statusFits (row : DeviceCodeRow) : Bool :=
  if row.status = pending then row.subject == [] && row.revision == 0
  else (row.status == approved || row.status == denied) && validIdentitySubject row.subject 512 &&
    decide (1 ≤ row.revision)

/-- `DeviceRow::decode`; the query has cut texts that are too long. -/
def decode (env : DeviceEnv) (hash : Str) (row : DeviceCodeRow) : Except DeviceError Unit := do
  failIf (service.authorization.jsonBytes < service.authorization.scopesBytes row.scopes)
    (.protocol .readLimitExceeded)
  failIf (row.scopes ≠ [] ∨ 64 < byteLen hash ∨ 64 < byteLen row.userHash ∨ 128 < byteLen row.client ∨
    512 < byteLen row.subject ∨ 16 < byteLen row.status) (.protocol .malformedStored)
  let now ← env.clock 10 .control
  failIf ((parseSqlHex hash).isOk = false ∨ (parseSqlHex row.userHash).isOk = false ∨
    row.createdAt ≤ 0 ∨ now < row.createdAt ∨
    row.expiresAt - row.createdAt ≠ service.policy.ttlMicros ∨
    row.interval < service.policy.intervalSeconds ∨
    (row.interval - service.policy.intervalSeconds).tmod 5 ≠ 0 ∨
    (2 ^ 63 - 1 : Int) / 1000000 < row.interval ∨
    row.lastPollAt.any (fun last => decide (last < row.createdAt ∨ now < last)) = true ∨
    statusFits row = false) (.protocol .malformedStored)

/-- `read`, of the row that its query has found. -/
def read (env : DeviceEnv) (found : Option (Str × DeviceCodeRow)) :
    Except DeviceError (Str × DeviceCodeRow) :=
  match found with
  | none => .error (.protocol .invalidGrant)
  | some (hash, row) => do
    service.decode env hash row
    failIf (row.client ≠ service.authorization.cliClientId) (.protocol .malformedStored)
    return (hash, row)

def byUser (d : ControlDb) (userHash : Str) : Option (Str × DeviceCodeRow) :=
  d.devices.entries.find? fun entry => entry.2.userHash == userHash

def byDevice (d : ControlDb) (hash : Str) : Option (Str × DeviceCodeRow) :=
  (d.devices.get? hash).map fun row => (hash, row)

/-! ### The transactions -/

def issueBody (env : DeviceEnv) (client scope : Str) (random : List.Vector UInt8 8) (d : ControlDb) :
    Except DeviceError ((DeviceAuthorizationCodes × List DeviceEvent) × ControlDb) := do
  failIf (scope ≠ []) (.protocol .invalidScope)
  service.parameters [client]
  service.client client
  failIf (service.authorization.jsonBytes < 2) (.protocol .readLimitExceeded)
  let (suffix, _) ← env.draw (.protocol .random)
  let device := deviceMark ++ suffix
  let user := displayUserCode (newUserCode random)
  let hash ← service.digest .deviceCode device
  match normalizeDeviceUserCode user with
  | none => throw (.protocol .invalidRequest)
  | some code => do
    let userHash ← service.digest .deviceUserCode code
    let now ← env.clock 0 .control
    let expires := now + service.policy.ttlMicros
    failIf (2 ^ 63 ≤ expires) (.control .clock)
    env.check 1 expires
    -- the primary key, and the unique column
    failIf ((d.devices.get? hash).isSome ∨
      d.devices.entries.any (fun entry => entry.2.userHash == userHash) = true) (.control .storage)
    let row : DeviceCodeRow := ⟨userHash, client, [], [], 0, pending, service.policy.intervalSeconds,
      none, expires, now⟩
    env.check 2 expires
    return ((⟨device, user, expires, service.policy.intervalSeconds⟩, [.issued hash userHash]),
      { d with devices := d.devices.insert hash row })

/-- The environment in which `prepare` writes a consent for a user code: it reads the row and checks
its expiry, and the secret is drawn with its digest. -/
def consentEnv (env : DeviceEnv) (binding : Str) (secret : Str × Str) : DeviceEnv :=
  { env with
    decodes := fun hash row =>
      match service.read env (some (hash, row)) >>= fun _ => env.check 3 row.expiresAt with
      | .error e => some e
      | .ok _ => none
    bindingHash := binding
    secret := some secret }

def prepare (env : DeviceEnv) (userCode : Str) (login : CompletedLocalLogin) (d : ControlDb) :
    Except DeviceError ((DeviceConsent × List DeviceEvent) × ControlDb) := do
  service.parameters [userCode]
  match normalizeDeviceUserCode userCode with
  | none => throw (.protocol .invalidRequest)
  | some user => do
    let binding ← service.binding user
    failIf (login.purpose ≠ .deviceApprove ∨ login.bindingHash ≠ binding) (.protocol .invalidGrant)
    let userHash ← service.digest .deviceUserCode user
    let (secret, _) ← env.draw (.protocol .random)
    let consent ← service.digest .localAuthChallenge secret
    let (device, d) ← prepareBody (service.consentEnv env binding (secret, consent)) userHash login d
    env.check 4 device.expiresAt
    return ((⟨secret, login.recoveryCodes, displayUserCode user, device.client, device.expiresAt⟩,
      [.prepared consent userHash binding login.subject login.revision]), d)

/-- `ConsentRow::valid`, after the limits of its query. -/
def consentValid (env : DeviceEnv) (binding : Str) (row : LocalChallenge) : Except DeviceError Unit := do
  failIf (512 < byteLen row.subject ∨ 32 < byteLen row.purpose ∨ 64 < byteLen row.bindingHash ∨
    32 < byteLen row.stage ∨ 90 < byteLen row.secret) (.protocol .malformedStored)
  env.check 5 row.expiresAt
  let now ← env.clock 6 .control
  failIf (row.purpose ≠ LocalAuthPurpose.deviceApprove.sql ∨ row.bindingHash ≠ binding ∨
    row.stage ≠ deviceConsent ∨ row.secret ≠ [] ∨ row.revision < 1 ∨
    validIdentitySubject row.subject 512 = false ∨ row.createdAt ≤ 0 ∨ now < row.createdAt ∨
    row.expiresAt ≤ row.createdAt) (.protocol .invalidGrant)

/-- `username`, then `current_principal`. -/
def principal (env : DeviceEnv) (subject : Str) (revision : Int) (d : ControlDb) :
    Except DeviceError LocalPrincipal :=
  match d.userBySubject subject with
  | none => .error (.protocol .invalidGrant)
  | some (name, _) => do
    failIf (128 < byteLen name) (.protocol .invalidGrant)
    (currentPrincipal env.principalFails subject name revision d).mapError
      fun e => .protocol e.toExchange

def decide (env : DeviceEnv) (userCode client secret : Str) (allow : Bool) (d : ControlDb) :
    Except DeviceError ((Int × List DeviceEvent) × ControlDb) := do
  service.parameters [userCode, client, secret]
  service.client client
  match normalizeDeviceUserCode userCode with
  | none => throw (.protocol .invalidRequest)
  | some user => do
    failIf (validChallenge secret = false) (.protocol .invalidGrant)
    let consent ← service.digest .localAuthChallenge secret
    let userHash ← service.digest .deviceUserCode user
    let binding ← service.binding user
    env.step 0
    match d.challenges.get? consent with
    | none => throw (.protocol .invalidGrant)
    | some row => do
      consentValid env binding row
      let _ ← principal env row.subject row.revision d
      let (hash, device) ← service.read env (byUser d userHash)
      env.check 7 device.expiresAt
      failIf (device.status ≠ pending ∨ device.client ≠ client ∨ row.createdAt < device.createdAt ∨
        row.expiresAt ≠ device.expiresAt) (.protocol .invalidGrant)
      let now ← env.clock 8 .control
      failIf (device.expiresAt ≤ now) (.control .storage)
      let decided := { device with
        subject := row.subject
        revision := row.revision
        status := if allow then approved else denied }
      env.check 9 device.expiresAt
      return ((device.expiresAt,
          [.decided hash userHash binding consent row.subject row.revision allow]),
        { d with
          devices := d.devices.insert hash decided
          challenges := d.challenges.erase consent })

/-- The last branch of `poll`: an approval is redeemed. -/
def redeem (env : DeviceEnv) (client hash : Str) (row : DeviceCodeRow) (now : Int) (d : ControlDb) :
    Except DeviceError ((Except DeviceError DeviceAccessToken × List DeviceEvent) × ControlDb) := do
  let p ← principal env row.subject row.revision d
  let oidcSubject ← (service.digester.oidcSubject service.hmac (utf8 "local".toList)
    (utf8 p.subject)).mapError fun _ => .protocol .credential
  failIf (2 ^ 63 ≤ now + service.policy.accessMicros) (.control .clock)
  let expires := (now + service.policy.accessMicros).tdiv 1000000 * 1000000
  let (jti, _) ← env.draw (.protocol .random)
  failIf (now.tdiv 1000000 < 0 ∨ expires.tdiv 1000000 < 0) (.control .clock)
  env.step 12
  let holder : TokenPrincipal := ⟨"local".toList, p.subject, p.username, "local-token".toList, p.revision⟩
  failIf (service.authorization.jsonBytes < service.authorization.principalBytes holder)
    (.protocol .readLimitExceeded)
  let tokenHash ← service.digest .oidcStoredAccess jti
  failIf ((d.tokens.get? tokenHash).isSome ∨
    d.tokens.entries.any (fun entry => entry.2.id == jti) = true) (.control .storage)
  env.check 13 row.expiresAt
  env.check 14 expires
  return ((.ok ⟨jti, expires⟩, [.granted hash p.subject p.revision]),
    { d with
      tokens := d.tokens.insert tokenHash (tokenRow holder oidcSubject client
        service.authorization.apiAudience [] [] [] now now jti accessKind expires)
      devices := d.devices.erase hash })

/-- The response to a poll of a row. Denials are committed too. -/
def respond (env : DeviceEnv) (client hash : Str) (row : DeviceCodeRow) (now : Int) (d : ControlDb) :
    Except DeviceError ((Except DeviceError DeviceAccessToken × List DeviceEvent) × ControlDb) :=
  let dropped := { d with devices := d.devices.erase hash }
  if row.expiresAt ≤ now then return ((.error .expiredToken, []), dropped)
  else if row.status = denied then return ((.error .accessDenied, []), dropped)
  else if row.lastPollAt.any (fun last =>
      Decidable.decide (now - last < min (row.interval * 1000000) (2 ^ 63 - 1))) = true then do
    failIf (2 ^ 63 ≤ row.interval + 5) (.protocol .malformedStored)
    let slower := { row with interval := row.interval + 5, lastPollAt := some now }
    return ((.error .slowDown, []), { d with devices := d.devices.insert hash slower })
  else if row.status = pending then
    return ((.error .authorizationPending, []),
      { d with devices := d.devices.insert hash { row with lastPollAt := some now } })
  else service.redeem env client hash row now d

/-- The transaction of `poll`. -/
def poll (env : DeviceEnv) (client device : Str) (d : ControlDb) :
    Except DeviceError ((Except DeviceError DeviceAccessToken × List DeviceEvent) × ControlDb) := do
  service.parameters [client, device]
  service.client client
  failIf ((stripPrefix deviceMark device).any validChallenge = false) (.protocol .invalidGrant)
  let hash ← service.digest .deviceCode device
  env.step 0
  let (_, row) ← service.read env (byDevice d hash)
  failIf (row.client ≠ client) (.protocol .invalidGrant)
  let now ← env.clock 11 .control
  let result ← service.respond env client hash row now d
  env.step 15
  return result

/-! ### Runs -/

/-- No device code and no consent is new or changed. -/
structure Leaves (d d' : ControlDb) : Prop where
  devices : ∀ hash row, d'.devices.get? hash = some row → d.devices.get? hash = some row
  consents : ∀ hash row, d'.challenges.get? hash = some row → row.stage = deviceConsent →
    d.challenges.get? hash = some row

/-- The transactions of the grant, the invalidation of a user, and those of other services, which may
write users, tokens and challenges of logins. -/
inductive Op where
  | issue (env : DeviceEnv) (client scope : Str) (random : List.Vector UInt8 8)
  | prepare (env : DeviceEnv) (userCode : Str) (login : CompletedLocalLogin)
  | decide (env : DeviceEnv) (userCode client secret : Str) (allow : Bool)
  | poll (env : DeviceEnv) (client device : Str)
  | invalidate (env : TxEnv) (subject : Str) (preserveDevice : Bool) (now : Int)
  | other (f : ControlDb → ControlDb) (leaves : ∀ d, Leaves d (f d))

def step : Op → ControlDb → List DeviceEvent × ControlDb
  | .issue env client scope random => record (·.2) (service.issueBody env client scope random) env.commit
  | .prepare env userCode login => record (·.2) (service.prepare env userCode login) env.commit
  | .decide env userCode client secret allow =>
    record (·.2) (service.decide env userCode client secret allow) env.commit
  | .poll env client device => record (·.2) (service.poll env client device) env.commit
  | .invalidate env subject preserveDevice now => fun d =>
    ([], (d.invalidateLocalUser env subject preserveDevice now).toOption.getD d)
  | .other f _ => fun d => ([], f d)

/-- The history and the database after a run. -/
def run (d : ControlDb) (ops : List Op) : List DeviceEvent × ControlDb :=
  historyFrom service.step ([], d) ops

end SqliteDeviceAuthorizations

end GraphitBroker
