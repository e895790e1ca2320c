import GraphitBroker.ControlDb
import GraphitBroker.Lib.Base64
import GraphitBroker.Lib.ExceptList
import GraphitBroker.Lib.Transactions

/-!
# Issue, rotation and revocation of tokens

`SqliteOidcTokenExchange::exchange` from the point where a code has been accepted,
`SqliteOidcRefresh::rotate` and `SqliteOidcRevocation::revoke`, each one transaction over
`local_tokens`. What precedes the issue in `exchange`, and what these transactions read in other tables
(`current_principal`, `current_client`), is decided by the environment, as are signatures, the steps of
the authorization SDK, faults and deadlines. The checks of the deadline after a commit, which change only
what the caller is told, are left out.
-/

namespace GraphitBroker

open ExceptList Transactions

inductive OidcTokenExchangeError where
  | invalidConfiguration
  | invalidRequest
  | invalidClient
  | invalidGrant
  | invalidTarget
  | invalidScope
  | unsupportedGrantType
  | malformedStored
  | readLimitExceeded
  | credential
  | random
  | signing
  | control (error : ControlError)
  deriving DecidableEq

/-- What stays the same while a store is in use. The digests are keyed hashes of credentials. -/
structure OidcPolicy where
  cliClientId : Str
  apiAudience : Str
  acceptedResources : List Str
  validResource : Str → Bool
  clientIdParses : Str → Bool
  parameterBytes : Nat
  jsonBytes : Int
  accessMicros : Int
  refreshMicros : Int
  refreshHash : Str → Str
  accessHash : Str → Str
  oidcSubject : Str → Str → Str
  principalBytes : TokenPrincipal → Int
  scopesBytes : List Str → Int

structure OidcRefreshInput where
  grantType : Option Str
  clientId : Option Str
  refreshToken : Option Str
  scope : Option Str
  resource : Option Str
  authorization : Option (Str × Bytes)

structure OidcRevocationInput where
  token : Option Str
  clientId : Option Str
  tokenTypeHint : Option Str
  authorization : Option (Str × Bytes)

/-- What a code that has passed every check of `exchange` stands for. -/
structure CodeGrant where
  requestHash : Str
  expiresAt : Int
  principal : TokenPrincipal
  oidcSubject : Str
  client : Str
  resource : Option Str
  scopes : List Str
  authTime : Int

/-- The claims of an access token that verified for its revocation; `expiry` in microseconds, if it
can be told. -/
structure AccessProof where
  jti : Str
  client : Str
  subject : Str
  expiry : Option Int

/-- Everything that one transaction takes from outside, by the place in the code. -/
structure OidcEnv where
  fails : Nat → Option OidcTokenExchangeError
  now : Nat → Except ControlError Int
  random : Nat → Option Str
  /-- `current_principal` of a local principal, `current_trust` of a federated one. -/
  principal : TokenPrincipal → Except OidcTokenExchangeError TokenPrincipal
  client : Str → Except OidcTokenExchangeError Unit
  scopeParses : Str → Bool
  /-- The checks of `exchange`; a request for another audience does not pass them. -/
  recover : ControlDb → Except OidcTokenExchangeError CodeGrant
  /-- `verify_for_revocation` and the later check of its proof. -/
  verify : Str → Except OidcTokenExchangeError (Option AccessProof)
  commit : Except (OidcTokenExchangeError × Bool) Unit

namespace OidcEnv

variable (env : OidcEnv)

def step (site : Nat) : Except OidcTokenExchangeError Unit := refuse id (env.fails site)

def clock (site : Nat) : Except OidcTokenExchangeError Int := (env.now site).mapError .control

def draw (site : Nat) : Except OidcTokenExchangeError Str :=
  match env.random site with
  | none => .error .random
  | some value => .ok value

def gate (site : Nat) (expiry : Int) : Except OidcTokenExchangeError Unit := do
  env.step site
  let now ← env.clock site
  failIf (expiry ≤ now) .invalidGrant

end OidcEnv

def refreshKind : Str := "refresh".toList

def accessKind : Str := "oidc_access".toList

def refreshMark : Str := "gb_rt_".toList

/-- `validate_local_auth_challenge`. -/
def validChallenge (raw : Str) : Bool :=
  byteLen raw == 43 && (Base64.decode raw).any fun bytes => bytes.length == 32 && Base64.encode bytes == raw

def required (value : Option Str) : Except OidcTokenExchangeError Str :=
  match value with
  | none => .error .invalidRequest
  | some value => if value = [] then .error .invalidRequest else .ok value

def refreshSuffix (raw : Str) : Option Str := stripPrefix refreshMark raw

def isRefresh (raw : Str) : Bool := (refreshSuffix raw).any validChallenge

namespace ControlDb

/-- `insert` of `oidc_tokens.rs`; the hash is the key of the table. -/
def insertToken (env : OidcEnv) (site : Nat) (hash : Str) (row : LocalToken) (d : ControlDb) :
    Except OidcTokenExchangeError ControlDb := do
  env.step site
  failIf ((d.tokens.get? hash).isSome = true) (.control .storage)
  return { d with tokens := d.tokens.insert hash row }

def refreshRow (d : ControlDb) (hash : Str) : Option LocalToken :=
  (d.tokens.get? hash).filter fun row => row.kind = refreshKind

/-- Revoke what is not revoked among the tokens that `p` selects. -/
def revokeTokens (p : Str → LocalToken → Bool) (now : Int) (d : ControlDb) : ControlDb :=
  let tokens := d.tokens.mapValues fun hash t =>
    if p hash t = true ∧ t.revokedAt = none then { t with revokedAt := some now } else t
  { d with tokens := tokens }

def revokeFamily (env : OidcEnv) (site : Nat) (p : Str → LocalToken → Bool) (now : Int)
    (d : ControlDb) : Except OidcTokenExchangeError ControlDb := do
  env.step site
  failIf (∀ entry ∈ d.tokens.entries, ¬ (p entry.1 entry.2 = true ∧ entry.2.revokedAt = none))
    (.control .storage)
  return d.revokeTokens p now

end ControlDb

/-! ### Exchange -/

structure OidcTokenExchangeResult where
  access : Str
  refresh : Option Str
  scopes : List Str
  issuedAt : Int
  expiresAt : Int

/-- The row that `insert` writes for a token of a family. -/
def tokenRow (principal : TokenPrincipal) (oidcSubject client audience resource : Str) (scopes : List Str)
    (family : Str) (authTime createdAt : Int) (id kind : Str) (expiresAt : Int) : LocalToken :=
  { id := id, kind := kind, subject := principal.subject, oidcSubject := oidcSubject
    principal := principal, client := client, audience := audience, resource := resource
    scopes := scopes, revision := principal.revision, family := family, authTime := authTime
    expiresAt := expiresAt, revokedAt := none, consumedAt := none, lastUsedAt := none
    createdAt := createdAt }

section Issue

variable (env : OidcEnv) (policy : OidcPolicy)

def accessExpiry (issuedAt : Int) : Except OidcTokenExchangeError Int := do
  failIf (2 ^ 63 ≤ issuedAt + policy.accessMicros) (.control .clock)
  return (issuedAt + policy.accessMicros).tdiv 1000000 * 1000000

def offlineAccess : Str := "offline_access".toList

/-- The family and the first refresh token of a grant with `offline_access`. -/
def firstRefresh (scopes : List Str) : Except OidcTokenExchangeError (Str × Option Str) :=
  if offlineAccess ∈ scopes then do
    let family ← env.draw 5
    let suffix ← env.draw 6
    return (family, some (refreshMark ++ suffix))
  else return ([], none)

def insertFirstRefresh (row : Str → Str → Int → LocalToken) (issuedAt : Int) (d : ControlDb) :
    Option Str → Except OidcTokenExchangeError ControlDb
  | none => return d
  | some refresh => do
    let id ← env.draw 8
    failIf (2 ^ 63 ≤ issuedAt + policy.refreshMicros) (.control .clock)
    d.insertToken env 9 (policy.refreshHash refresh)
      (row id refreshKind (issuedAt + policy.refreshMicros))

def exchangeBody (d : ControlDb) :
    Except OidcTokenExchangeError (OidcTokenExchangeResult × ControlDb) := do
  let grant ← env.recover d
  env.gate 1 grant.expiresAt
  let issuedAt ← env.clock 2
  let expiresAt ← accessExpiry policy issuedAt
  let jti ← env.draw 3
  env.step 4
  let first ← firstRefresh env grant.scopes
  failIf (policy.jsonBytes < policy.principalBytes grant.principal ∨
    policy.jsonBytes < policy.scopesBytes grant.scopes) .readLimitExceeded
  let row := tokenRow grant.principal grant.oidcSubject grant.client policy.apiAudience
    (grant.resource.getD []) grant.scopes first.1 grant.authTime issuedAt
  let d ← d.insertToken env 7 (policy.accessHash jti) (row jti accessKind expiresAt)
  let d ← insertFirstRefresh env policy row issuedAt d first.2
  env.gate 10 grant.expiresAt
  env.step 11
  failIf ((d.requests.get? grant.requestHash).isNone = true) .invalidGrant
  let d := { d with requests := d.requests.erase grant.requestHash }
  env.step 12
  env.gate 13 grant.expiresAt
  env.gate 14 expiresAt
  return (⟨jti, first.2, grant.scopes, issuedAt, expiresAt⟩, d)

def exchange (d : ControlDb) : Except OidcTokenExchangeError OidcTokenExchangeResult × ControlDb :=
  transact (exchangeBody env policy) env.commit d

end Issue

/-! ### Rotation -/

section Rotation

variable (env : OidcEnv) (policy : OidcPolicy)

/-- The loop of `requested_scopes` over the scopes that are asked for. -/
def narrowScopes (granted : List Str) :
    List Str → List Str → Except OidcTokenExchangeError (List Str)
  | [], result => return result
  | token :: rest, result => do
    env.step 21
    failIf (token = [] ∨ token ∉ granted) .invalidScope
    narrowScopes granted rest (if token ∈ result then result else result ++ [token])

def requestedScopes (raw : Option Str) (granted : List Str) :
    Except OidcTokenExchangeError (List Str) := do
  env.step 20
  match raw with
  | none => return granted
  | some raw => do
    failIf (env.scopeParses raw = false) .invalidScope
    narrowScopes env granted (raw.splitOn ' ') []

def refreshScopes : List Str :=
  ["openid".toList, "profile".toList, "email".toList, "phone".toList, "address".toList, offlineAccess]

/-- `parse_refresh_scopes`, once the JSON is read. -/
def parseRefreshScopes (scopes : List Str) : Except OidcTokenExchangeError Unit :=
  failIf (scopes = [] ∨ ¬ scopes.Nodup ∨ ∃ s ∈ scopes, s ∉ refreshScopes) .malformedStored

/-- `decode` of a stored refresh token, with the validation of its row and its state. -/
def decodeRefresh (row : LocalToken) : Except OidcTokenExchangeError Unit := do
  failIf (policy.jsonBytes < policy.principalBytes row.principal ∨
    policy.jsonBytes < policy.scopesBytes row.scopes ∨ policy.jsonBytes < byteLen row.subject ∨
    policy.jsonBytes < byteLen row.resource) .readLimitExceeded
  parseRefreshScopes row.scopes
  failIf (validChallenge row.id = false ∨ validChallenge row.oidcSubject = false ∨
    validChallenge row.family = false) .malformedStored
  let created ← env.clock 22
  failIf (row.createdAt ≤ 0 ∨ created < row.createdAt ∨ row.expiresAt ≤ row.createdAt ∨
    row.authTime ≤ 0 ∨ row.createdAt < row.authTime ∨ row.revision < 0 ∨
    policy.clientIdParses row.client = false ∨ safeIdentitySegment row.audience 128 = false ∨
    (row.resource ≠ [] ∧ trim row.resource ≠ row.resource)) .malformedStored
  let now ← env.clock 23
  failIf (∃ stamp ∈ [row.consumedAt, row.revokedAt, row.lastUsedAt].reduceOption,
    stamp < row.createdAt ∨ now < stamp) .malformedStored

/-- A refresh token that has passed the checks of its client, principal, resource and scopes. -/
structure AdmittedRefresh where
  hash : Str
  client : Str
  row : LocalToken
  principal : TokenPrincipal
  scopes : List Str

def storedResource (row : LocalToken) : Option Str := if row.resource = [] then none else some row.resource

def refreshResourceAllowed : Option Str → Bool
  | none => true
  | some resource => policy.validResource resource && policy.acceptedResources.contains resource

def requestedResource (input : OidcRefreshInput) : Option Str :=
  (input.resource.map trim).filter fun resource => !resource.isEmpty

def readRefreshInput (input : OidcRefreshInput) : Except OidcTokenExchangeError (Str × Str) := do
  env.step 24
  failIf (input.grantType = none) .invalidRequest
  failIf (input.grantType ≠ some "refresh_token".toList) .unsupportedGrantType
  let raw ← required input.refreshToken
  failIf (isRefresh raw = false) .invalidGrant
  let client ← required input.clientId
  env.step 25
  failIf (client ≠ policy.cliClientId ∧ input.resource = none) .invalidTarget
  return (client, raw)

def checkRefresh (input : OidcRefreshInput) (client : Str) (row : LocalToken) :
    Except OidcTokenExchangeError (TokenPrincipal × List Str) := do
  failIf (row.client ≠ client) .invalidGrant
  failIf (row.subject ≠ row.principal.subject ∨ row.revision ≠ row.principal.revision ∨
    row.audience ≠ policy.apiAudience) .malformedStored
  failIf (row.oidcSubject ≠ policy.oidcSubject row.principal.issuer row.principal.subject)
    .malformedStored
  let principal ← env.principal row.principal
  env.client client
  failIf (refreshResourceAllowed policy (storedResource row) = false ∨
    (client ≠ policy.cliClientId ∧ storedResource row = none)) .invalidTarget
  failIf ((requestedResource input).isSome = true ∧ storedResource row ≠ requestedResource input)
    .invalidTarget
  let scopes ← requestedScopes env input.scope row.scopes
  return (principal, scopes)

def findRefresh (hash : Str) (d : ControlDb) : Except OidcTokenExchangeError LocalToken :=
  match d.refreshRow hash with
  | none => .error .invalidGrant
  | some row => .ok row

/-- `rotate` up to the first use of the state of the token. -/
def admitRefresh (input : OidcRefreshInput) (d : ControlDb) :
    Except OidcTokenExchangeError AdmittedRefresh := do
  let request ← readRefreshInput env policy input
  let hash := policy.refreshHash request.2
  env.step 26
  let row ← findRefresh hash d
  decodeRefresh env policy row
  let checked ← checkRefresh env policy input request.1 row
  return ⟨hash, request.1, row, checked.1, checked.2⟩

inductive RotateResult where
  | reused
  | rotated (result : OidcTokenExchangeResult)

def reuseRefresh (admitted : AdmittedRefresh) (d : ControlDb) :
    Except OidcTokenExchangeError (RotateResult × ControlDb) := do
  let now ← env.clock 31
  let d ← d.revokeFamily env 32 (fun _ t => t.family = admitted.row.family) now
  env.step 33
  return (.reused, d)

def issueRefresh (admitted : AdmittedRefresh) (d : ControlDb) :
    Except OidcTokenExchangeError (RotateResult × ControlDb) := do
  let row := admitted.row
  env.gate 40 row.expiresAt
  env.step 41
  env.gate 42 row.expiresAt
  let issuedAt ← env.clock 43
  let expiresAt ← accessExpiry policy issuedAt
  let jti ← env.draw 44
  env.step 45
  let suffix ← env.draw 46
  let id ← env.draw 47
  failIf (policy.jsonBytes < policy.principalBytes admitted.principal ∨
    policy.jsonBytes < policy.scopesBytes admitted.scopes) .readLimitExceeded
  env.gate 48 row.expiresAt
  env.step 49
  failIf (row.subject ≠ admitted.principal.subject ∨ row.client ≠ admitted.client ∨
    row.consumedAt ≠ none ∨ row.revokedAt ≠ none ∨ row.expiresAt ≤ issuedAt) (.control .storage)
  let consumed := { row with consumedAt := some issuedAt, lastUsedAt := some issuedAt }
  let d := { d with tokens := d.tokens.insert admitted.hash consumed }
  let successor := tokenRow admitted.principal row.oidcSubject admitted.client row.audience row.resource
    admitted.scopes row.family row.authTime issuedAt
  let d ← d.insertToken env 50 (policy.accessHash jti) (successor jti accessKind expiresAt)
  let d ← d.insertToken env 51 (policy.refreshHash (refreshMark ++ suffix))
    (successor id refreshKind row.expiresAt)
  env.step 52
  env.gate 53 row.expiresAt
  env.gate 54 expiresAt
  return (.rotated ⟨jti, some (refreshMark ++ suffix), admitted.scopes, issuedAt, expiresAt⟩, d)

def rotateBody (input : OidcRefreshInput) (d : ControlDb) :
    Except OidcTokenExchangeError (RotateResult × ControlDb) := do
  let admitted ← admitRefresh env policy input d
  env.step 30
  failIf (admitted.row.revokedAt ≠ none) .invalidGrant
  if admitted.row.consumedAt ≠ none then reuseRefresh env admitted d
  else issueRefresh env policy admitted d

def rotate (input : OidcRefreshInput) (d : ControlDb) :
    Except OidcTokenExchangeError RotateResult × ControlDb :=
  transact (rotateBody env policy input) env.commit d

end Rotation

/-! ### Revocation -/

section Revocation

variable (env : OidcEnv) (policy : OidcPolicy)

/-- `decode` of a stored grant for its revocation, with the checks of its principal and times. -/
def decodeRevoked (row : LocalToken) : Except OidcTokenExchangeError Unit := do
  failIf (policy.jsonBytes < policy.principalBytes row.principal ∨
    policy.jsonBytes < policy.scopesBytes row.scopes ∨ policy.jsonBytes < byteLen row.subject ∨
    policy.jsonBytes < byteLen row.resource ∨ policy.jsonBytes < byteLen row.id ∨
    policy.jsonBytes < byteLen row.oidcSubject ∨ policy.jsonBytes < byteLen row.client ∨
    policy.jsonBytes < byteLen row.audience ∨ policy.jsonBytes < byteLen row.family)
    .readLimitExceeded
  failIf (row.createdAt ≤ 0 ∨ row.expiresAt ≤ row.createdAt ∨ row.authTime ≤ 0 ∨
    row.createdAt < row.authTime ∨ ∃ revoked ∈ row.revokedAt, revoked < row.createdAt) .malformedStored

def revokeRefresh (client : Str) (row : LocalToken) (d : ControlDb) :
    Except OidcTokenExchangeError ControlDb := do
  failIf (validChallenge row.id = false ∨ validChallenge row.oidcSubject = false ∨
    validChallenge row.family = false) .malformedStored
  failIf (row.subject ≠ row.principal.subject ∨ row.revision ≠ row.principal.revision ∨
    row.oidcSubject ≠ policy.oidcSubject row.principal.issuer row.principal.subject) .malformedStored
  let now ← env.clock 70
  failIf (now < row.createdAt) (.control .clock)
  failIf (∃ revoked ∈ row.revokedAt, now < revoked) .malformedStored
  if row.audience = policy.apiAudience ∧ now < row.expiresAt ∧ row.revokedAt = none then do
    env.step 71
    d.revokeFamily env 72
      (fun _ t => t.family = row.family ∧ t.client = client ∧ t.audience = policy.apiAudience) now
  else return d

def revokePresented (client hash : Str) (d : ControlDb) : Except OidcTokenExchangeError ControlDb :=
  match d.refreshRow hash with
  | none => return d
  | some row => do
    decodeRevoked policy row
    if row.client = client then revokeRefresh env policy client row d else return d

def revokeAccess (client : Str) (proof : AccessProof) (d : ControlDb) :
    Except OidcTokenExchangeError ControlDb :=
  match proof.expiry with
  | none => return d
  | some expiry =>
    if proof.client = client ∧ validChallenge proof.jti = true then do
      let now ← env.clock 73
      env.step 74
      return d.revokeTokens (fun hash t => hash = policy.accessHash proof.jti ∧ t.kind = accessKind ∧
        t.id = proof.jti ∧ t.client = client ∧ t.oidcSubject = proof.subject ∧
        t.expiresAt = expiry ∧ t.audience = policy.apiAudience ∧ now < t.expiresAt) now
    else return d

def presentedProof (raw : Str) : Except OidcTokenExchangeError (Option AccessProof) :=
  if isRefresh raw then return none else env.verify raw

def revokeToken (raw client : Str) (proof : Option AccessProof) (d : ControlDb) :
    Except OidcTokenExchangeError ControlDb :=
  if isRefresh raw then revokePresented env policy client (policy.refreshHash raw) d
  else
    match proof with
    | none => return d
    | some proof => revokeAccess env policy client proof d

def revokeBody (input : OidcRevocationInput) (d : ControlDb) :
    Except OidcTokenExchangeError (Unit × ControlDb) := do
  failIf (input.authorization.isSome = true) .invalidClient
  failIf (policy.parameterBytes < ([input.token, input.clientId, input.tokenTypeHint].reduceOption.map
    byteLen).sum) .invalidRequest
  let raw ← required input.token
  let client ← required input.clientId
  failIf (policy.clientIdParses client = false) .invalidRequest
  let proof ← presentedProof env raw
  env.step 75
  env.client client
  let d ← revokeToken env policy raw client proof d
  env.step 76
  return ((), d)

def revoke (input : OidcRevocationInput) (d : ControlDb) :
    Except OidcTokenExchangeError Unit × ControlDb :=
  transact (revokeBody env policy input) env.commit d

end Revocation

end GraphitBroker
