import GraphitBroker.FilesystemSession
import GraphitBroker.Lib.Base64
import GraphitBroker.Lib.Document
import GraphitBroker.Lib.ExceptList

/-!
# Filesystem session tokens

The tokens of the filesystem driver (`filesystem_session.rs`). A token holds a payload that was made from
a grant, and a MAC of it under the issuer's pepper. The verifier reads the payload back, validates it
against the configuration of the route, and derives the secret of the session from the access key and
the tag by the same MAC under another domain.
-/

namespace GraphitBroker

open ExceptList

/-! ### Routes -/

inductive UrlHost where
  | domain (name : Str)
  | ipv4 (loopback : Bool)
  | ipv6 (loopback : Bool)

/-- A URL as the `url` crate takes it apart. -/
structure ParsedUrl where
  scheme : Str
  username : Str
  password : Option Str
  host : Option UrlHost
  path : Str
  query : Option Str
  fragment : Option Str

structure FilesystemStorageRouteConfig where
  name : Str
  bucket : Str
  region : Str
  basePrefix : Str
  endpoint : Str
  /-- The whole seconds and the rest of `session_duration`. -/
  sessionSecs : Nat
  sessionNanos : Nat
  tokenBytes : Nat

def reservedBuckets : List String :=
  ["admin", "healthz", "readyz", "oauth", "v1", "favicon.svg", ".well-known", "metrics", "api"]

def bucketName (s : Str) : Bool :=
  decide (3 ≤ byteLen s) && decide (byteLen s ≤ 63) && s.head?.any Char.isAlphanum &&
    s.getLast?.any Char.isAlphanum && !contains s "..".toList &&
    s.all (fun c => c.isLower || c.isDigit || ".-".toList.contains c) &&
    !(reservedBuckets.map String.toList).contains s

def loopbackHost : Option UrlHost → Bool
  | some (.domain name) => name == "localhost".toList
  | some (.ipv4 loopback) => loopback
  | some (.ipv6 loopback) => loopback
  | none => false

def validEndpoint (parse : Str → Option ParsedUrl) (s : Str) : Bool :=
  match parse s with
  | none => false
  | some u =>
    u.username.isEmpty && u.password.isNone && u.host.isSome && u.query.isNone &&
      u.fragment.isNone && u.path == "/".toList &&
      (u.scheme == "https".toList || (u.scheme == "http".toList && loopbackHost u.host))

/-- The third-party code of the tokens: `url`, `hmac` with SHA-256, and `serde_json` on payloads. -/
structure TokenVendor (SessionPayload : Type) where
  url : Str → Option ParsedUrl
  hmac : Bytes → Bytes → Bytes
  toVec : SessionPayload → Bytes
  fromSlice : Bytes → Option SessionPayload
  fromSlice_toVec : ∀ payload, fromSlice (toVec payload) = some payload

/-- The checks of `FilesystemStorageRoute::new`. -/
def FilesystemStorageRouteConfig.accepted (cfg : FilesystemStorageRouteConfig)
    (url : Str → Option ParsedUrl) : Bool :=
  segmentText cfg.name && bucketName cfg.bucket && validEndpoint url cfg.endpoint &&
    !cfg.region.isEmpty && cfg.region.all (fun c => c.isAlphanum || c == '-') &&
    validKey cfg.basePrefix && (cfg.basePrefix.splitOn '/').all segmentText &&
    decide (900 ≤ cfg.sessionSecs) && decide (cfg.sessionSecs ≤ 43200) && cfg.sessionNanos == 0

/-! ### Payloads -/

inductive SessionScope where
  | project (projectId : Str)
  | user (installationId : Str)
  | hub

structure SessionPayload where
  accessKey : Str
  route : Str
  bucket : Str
  region : Str
  subject : Str
  scope : SessionScope
  storageModule : Str
  revision : Int
  issuedAt : Nat
  expiresAt : Nat
  access : StorageOperation → List Str

inductive FilesystemTokenError where
  | invalidToken
  | routeUnavailable
  | expired
  | deadline
  deriving DecidableEq, Repr

def FilesystemSessionError.toToken : FilesystemSessionError → FilesystemTokenError
  | .invalidToken => .invalidToken
  | .expired => .expired
  | .deadline => .deadline

def moduleOf (s : Str) : Option StorageModule :=
  if s = "hub".toList then some .hub
  else if s = "task".toList then some .task
  else if s = "memory".toList then some .memory
  else if s = "knowledge".toList then some .knowledge
  else if s = "ast".toList then some .ast
  else none

namespace SessionPayload

variable (vendor : Vendor)

def validatedScope (payload : SessionPayload) : Except FilesystemTokenError (StorageScope vendor) :=
  match moduleOf payload.storageModule, payload.scope with
  | none, _ => .error .invalidToken
  | some m, .project projectId =>
    (StorageScope.project projectId m).mapError fun _ => .invalidToken
  | some .memory, .user installationId =>
    (StorageScope.userMemory installationId).mapError fun _ => .invalidToken
  | some .hub, .hub => .ok .globalHub
  | _, _ => .error .invalidToken

def matchesRoute (payload : SessionPayload) (cfg : FilesystemStorageRouteConfig) : Bool :=
  payload.route == cfg.name && payload.bucket == cfg.bucket && payload.region == cfg.region &&
    !payload.subject.isEmpty && decide (0 < payload.revision) &&
    decide (payload.issuedAt + 900 ≤ payload.expiresAt) &&
    decide (payload.expiresAt ≤ payload.issuedAt + 43200) &&
    (Base64.decode payload.accessKey).isSome && byteLen payload.accessKey == 43 &&
    !StorageOperation.all.all fun op => (payload.access op).isEmpty

def rootBelow (base root : Str) : Bool :=
  validKey root && (base ++ ['/']).isPrefixOf root && decide (byteLen (base ++ ['/']) < byteLen root)

def validRoots (base : Str) (roots : List Str) : Bool :=
  roots.all (rootBelow base) && decide roots.Nodup

def validate (payload : SessionPayload) (cfg : FilesystemStorageRouteConfig) (now : Nat) :
    Except FilesystemTokenError (StorageScope vendor) := do
  let scope ← payload.validatedScope vendor
  failIf (payload.matchesRoute cfg = false ∨ now < payload.issuedAt) .invalidToken
  failIf ((StorageOperation.all.all fun op => validRoots cfg.basePrefix (payload.access op)) = false)
    .invalidToken
  failIf (payload.expiresAt ≤ now) .expired
  return scope

end SessionPayload

/-! ### MACs -/

def tokenPrefix : Str := "rust-fs1".toList

def tokenDomain : Bytes := utf8 "graphit-broker/rust-filesystem-session/v1\x00".toList

def secretDomain : Bytes := utf8 "graphit-broker/rust-filesystem-secret/v1\x00".toList

def macInput (domain : Bytes) (parts : List Bytes) : Bytes :=
  domain ++ parts.flatMap fun part => beBytes 8 part.length ++ part

/-! ### The issuer -/

/-- A grant that was authorized for a route. Its checks are those of the issuer, in order. -/
structure AuthorizedStorageGrant (vendor : Vendor) where
  route : Str
  scope : StorageScope vendor
  subject : Str
  revision : Int
  prefixes : StorageOperation → List Str
  requestDeadline : Nat
  check : Nat → Bool

def SessionScope.ofKind : StorageScopeKind → SessionScope
  | .project projectId _ => .project projectId
  | .userMemory installationId => .user installationId
  | .globalHub => .hub

def StorageScopeKind.storageModule : StorageScopeKind → StorageModule
  | .project _ m => m
  | .userMemory _ => .memory
  | .globalHub => .hub

/-- The errors of `StorageIssueError` that the filesystem issuer has. -/
inductive FilesystemIssueError where
  | admission
  | invalidConfiguration
  | routeUnavailable
  | invalidResponse
  | provider
  | policyTooLarge
  | deadline
  deriving DecidableEq, Repr

/-- A reading of the clocks by `verify_session`: nanoseconds since the epoch, the monotonic clock, and
what its last check reads. -/
structure VerifyClock where
  utc : Int
  monotonic : Nat
  check : SessionClock

/-- What the environment gives one `issue`. -/
structure IssueEnv where
  utc : Int
  random : Option Bytes
  verify : VerifyClock
  formats : Bool
  check : SessionClock
  finished : Int

def nanosPerSecond : Int := 1000000000

def seconds (utc : Int) : Option Nat :=
  if utc < 0 then none else some (utc / nanosPerSecond).toNat

structure FilesystemStorageIssuer where
  routes : List FilesystemStorageRouteConfig
  pepper : Bytes

structure VerifiedToken (vendor : Vendor) extends VerifiedFilesystemSession where
  payload : SessionPayload
  scope : StorageScope vendor
  secret : Str

structure IssuedStorageCredentials where
  key : Str
  secret : Str
  token : Str

namespace FilesystemStorageIssuer

variable {vendor : Vendor} (crates : TokenVendor SessionPayload) (issuer : FilesystemStorageIssuer)

/-- The checks of `FilesystemStorageIssuer::new`, for routes that `FilesystemStorageRoute::new` has
accepted. -/
def accepted : Bool :=
  decide (32 ≤ issuer.pepper.length) && !issuer.routes.isEmpty &&
    issuer.routes.all (·.accepted crates.url) && decide (issuer.routes.map (·.bucket)).Nodup &&
    decide (issuer.routes.map (·.name)).Nodup

def route? (name : Str) : Option FilesystemStorageRouteConfig :=
  issuer.routes.find? (·.name == name)

def tag (payload : SessionPayload) : Bytes :=
  crates.hmac issuer.pepper (macInput tokenDomain [crates.toVec payload])

def secretOf (accessKey : Str) (tag : Bytes) : Str :=
  Base64.encode (crates.hmac issuer.pepper (macInput secretDomain [utf8 accessKey, tag]))

def encode (payload : SessionPayload) : Str :=
  tokenPrefix ++ '.' :: Base64.encode (crates.toVec payload) ++
    '.' :: Base64.encode (issuer.tag crates payload)

def openToken (token : Str) : Except FilesystemTokenError (SessionPayload × Bytes) :=
  match token.splitOn '.' with
  | [marker, body, mark] =>
    if marker ≠ tokenPrefix then .error .invalidToken
    else match Base64.decode body, Base64.decode mark with
      | some bytes, some tag =>
        if crates.hmac issuer.pepper (macInput tokenDomain [bytes]) = tag then
          match crates.fromSlice bytes with
          | some payload => .ok (payload, tag)
          | none => .error .invalidToken
        else .error .invalidToken
      | _, _ => .error .invalidToken
  | _ => .error .invalidToken

theorem validKey_of_validate {payload : SessionPayload} {cfg : FilesystemStorageRouteConfig} {now : Nat}
    {scope : StorageScope vendor} (h : payload.validate vendor cfg now = .ok scope) (op : StorageOperation) :
    ∀ root ∈ payload.access op, validKey root = true := by
  simp only [SessionPayload.validate, bind_eq_ok, failIf_eq_ok, Bool.not_eq_false, List.all_eq_true] at h
  obtain ⟨_, -, _, -, _, hroots, -⟩ := h
  intro root hroot
  have hvalid := hroots op op.mem_all
  simp only [SessionPayload.validRoots, Bool.and_eq_true, List.all_eq_true, SessionPayload.rootBelow] at hvalid
  exact (hvalid.1 root hroot).1.1

variable (vendor) in
/-- `verify_at`. The clocks that can be represented end at the horizon and at 63 bits of seconds. -/
def verifyAt (horizon : Nat) (route accessKey token : Str) (clock : VerifyClock) :
    Except FilesystemTokenError (VerifiedToken vendor) :=
  match issuer.route? route with
  | none => .error .routeUnavailable
  | some cfg =>
    if cfg.tokenBytes < byteLen token then .error .invalidToken
    else match issuer.openToken crates token, seconds clock.utc with
      | .error e, _ => .error e
      | .ok _, none => .error .invalidToken
      | .ok (payload, tag), some now =>
        match h : payload.validate vendor cfg now with
        | .error e => .error e
        | .ok scope => do
          failIf (payload.accessKey ≠ accessKey) .invalidToken
          failIf (2 ^ 63 ≤ payload.expiresAt) .invalidToken
          let expiry : Int := payload.expiresAt * nanosPerSecond
          failIf (expiry < clock.utc) .expired
          let deadline := clock.monotonic + (expiry - clock.utc).toNat
          failIf (horizon < deadline) .invalidToken
          let verified : VerifiedToken vendor :=
            { bucket := payload.bucket
              access := payload.access
              expiresAt := payload.expiresAt
              deadline
              canonical := validKey_of_validate h
              payload
              scope
              secret := issuer.secretOf crates payload.accessKey tag }
          (verified.check clock.check deadline).mapError FilesystemSessionError.toToken
          return verified

/-- The payload that `issue_current` makes of a grant. -/
def payloadOf (cfg : FilesystemStorageRouteConfig) (grant : AuthorizedStorageGrant vendor) (now : Nat)
    (random : Bytes) : SessionPayload where
  accessKey := Base64.encode random
  route := cfg.name
  bucket := cfg.bucket
  region := cfg.region
  subject := grant.subject
  scope := .ofKind grant.scope.kind
  storageModule := grant.scope.kind.storageModule.asStr.toList
  revision := grant.revision
  issuedAt := now
  expiresAt := now + cfg.sessionSecs
  access := fun op => (grant.prefixes op).map fun p => cfg.basePrefix ++ '/' :: p

def issueCurrent (horizon : Nat) (env : IssueEnv) (grant : AuthorizedStorageGrant vendor) :
    Except FilesystemIssueError IssuedStorageCredentials :=
  match issuer.route? grant.route with
  | none => .error .routeUnavailable
  | some cfg =>
    match seconds env.utc with
    | none => .error .invalidResponse
    | some now => do
      failIf (2 ^ 64 ≤ now + cfg.sessionSecs) .invalidConfiguration
      match env.random with
      | none => throw .provider
      | some bytes => do
        let payload := payloadOf cfg grant now bytes
        let _ ← (payload.validate vendor cfg now).mapError
          fun _ => FilesystemIssueError.invalidConfiguration
        let token := issuer.encode crates payload
        failIf (cfg.tokenBytes < byteLen token) .policyTooLarge
        let verified ← (issuer.verifyAt vendor crates horizon grant.route
          payload.accessKey token env.verify).mapError fun _ => FilesystemIssueError.invalidResponse
        failIf (2 ^ 63 ≤ payload.expiresAt ∨ env.formats = false) .invalidResponse
        failIf (grant.check 1 = false) .admission
        (verified.check env.check grant.requestDeadline).mapError
          fun _ => FilesystemIssueError.deadline
        failIf (grant.check 2 = false) .admission
        failIf (payload.expiresAt * nanosPerSecond ≤ env.finished) .invalidResponse
        return { key := payload.accessKey, secret := verified.secret, token }

def issue (horizon : Nat) (env : IssueEnv) (grant : AuthorizedStorageGrant vendor) :
    Except FilesystemIssueError IssuedStorageCredentials := do
  failIf (grant.check 0 = false) .admission
  let result := issuer.issueCurrent crates horizon env grant
  failIf (grant.check 3 = false) .admission
  result

end FilesystemStorageIssuer

end GraphitBroker
