import GraphitBroker.Text

/-!
# Storage scopes and their roots

The requested scope of a storage grant and the path roots it stands for (`storage_admission.rs`,
`instance_registry.rs`). A scope is only built by its checked constructors, so a project id is
canonical and an installation id is a safe name in every scope there is.
-/

namespace GraphitBroker

def crockford : Str := "0123456789ABCDEFGHJKMNPQRSTVWXYZ".toList

/-- What is used of the `ulid` crate: parsing, the nil test and the canonical text, which is 26
base-32 digits. -/
structure UlidCodec where
  Ulid : Type
  fromString : Str → Option Ulid
  isNil : Ulid → Bool
  arrayToStr : Ulid → Str
  length_arrayToStr : ∀ id, (arrayToStr id).length = 26
  mem_arrayToStr : ∀ id, ∀ c ∈ arrayToStr id, c ∈ crockford

abbrev Digest := { bytes : Bytes // bytes.length = 32 }

/-- The third-party code the storage authorization calls: the ULID codec, the hash, and `globset`
with `regex`, which compile a glob to an anchored matcher or refuse it. -/
structure Vendor where
  ulid : UlidCodec
  sha256 : Bytes → Digest
  glob : Str → Option (Str → Bool)

variable (vendor : Vendor)

def canonicalProjectId (value : Str) : Bool :=
  match vendor.ulid.fromString value with
  | none => false
  | some id => !vendor.ulid.isNil id && vendor.ulid.arrayToStr id == value

inductive StorageAdmissionError where
  | invalidScope
  | invalidPolicy
  | conflictingRoutes
  deriving DecidableEq, Repr

inductive StorageModule where
  | hub
  | task
  | memory
  | knowledge
  | ast
  deriving DecidableEq, Repr

def StorageModule.asStr : StorageModule → String
  | .hub => "hub"
  | .task => "task"
  | .memory => "memory"
  | .knowledge => "knowledge"
  | .ast => "ast"

inductive StorageOperation where
  | read
  | write
  | publish
  | delete
  deriving DecidableEq, Repr

/-- `StorageOperation::ALL`, also the `OPERATIONS` of both storage drivers. -/
def StorageOperation.all : List StorageOperation := [.read, .write, .publish, .delete]

theorem StorageOperation.mem_all (op : StorageOperation) : op ∈ StorageOperation.all := by
  cases op <;> simp [StorageOperation.all]

def StorageOperation.name : StorageOperation → String
  | .read => "read"
  | .write => "write"
  | .publish => "publish"
  | .delete => "delete"

inductive StorageScopeKind where
  | project (projectId : Str) (storageModule : StorageModule)
  | userMemory (installationId : Str)
  | globalHub
  deriving DecidableEq, Repr

/-- The check of `StorageScope::user_memory`. -/
def validInstallationId (id : Str) : Bool :=
  decide (1 ≤ byteLen id ∧ byteLen id ≤ 128) && id.head?.any Char.isAlphanum &&
    id.getLast?.any Char.isAlphanum && id.all segmentChar

def StorageScopeKind.Valid : StorageScopeKind → Prop
  | .project projectId _ => canonicalProjectId vendor projectId = true
  | .userMemory installationId => validInstallationId installationId = true
  | .globalHub => True

structure StorageScope where
  kind : StorageScopeKind
  valid : kind.Valid vendor

namespace StorageScope

variable {vendor}

def project (projectId : Str) (storageModule : StorageModule) :
    Except StorageAdmissionError (StorageScope vendor) :=
  if h : canonicalProjectId vendor projectId = true then
    .ok ⟨.project projectId storageModule, h⟩
  else .error .invalidScope

def userMemory (installationId : Str) : Except StorageAdmissionError (StorageScope vendor) :=
  if h : validInstallationId installationId = true then .ok ⟨.userMemory installationId, h⟩
  else .error .invalidScope

def globalHub : StorageScope vendor := ⟨.globalHub, trivial⟩

def isGlobalHub (scope : StorageScope vendor) : Bool := scope.kind == .globalHub

def projectId (scope : StorageScope vendor) : Option Str :=
  match scope.kind with
  | .project projectId _ => some projectId
  | .userMemory _ => none
  | .globalHub => none

end StorageScope

/-- The identity of a broker access token. A string in memory has less than `2 ^ 63` bytes. -/
structure VerifiedBrokerAccess where
  issuer : Str
  subject : Str
  username : Option Str
  organization : Option Str
  teams : List Str
  issuer_fits : byteLen issuer < 2 ^ 63
  subject_fits : byteLen subject < 2 ^ 63

/-- The current user of a LOCAL bearer; its issuer is the constant `local`. -/
structure LocalBearerUser where
  username : Str
  subject : Str
  organization : Str
  teams : List Str
  subject_fits : byteLen subject < 2 ^ 63

inductive StorageIdentity where
  | native (proof : VerifiedBrokerAccess)
  | localUser (user : LocalBearerUser)

namespace StorageIdentity

def issuer : StorageIdentity → Str
  | .native p => p.issuer
  | .localUser _ => "local".toList

def subject : StorageIdentity → Str
  | .native p => p.subject
  | .localUser u => u.subject

def username : StorageIdentity → Option Str
  | .native p => p.username
  | .localUser u => some u.username

def organization : StorageIdentity → Option Str
  | .native p => p.organization
  | .localUser u => some u.organization

def teams : StorageIdentity → List Str
  | .native p => p.teams
  | .localUser u => u.teams

theorem issuer_fits (identity : StorageIdentity) : byteLen identity.issuer < 2 ^ 63 := by
  cases identity with
  | native p => exact p.issuer_fits
  | localUser u =>
    change byteLen "local".toList < 2 ^ 63
    decide

end StorageIdentity

/-- The bytes `user_namespace` feeds to the hash: a domain tag, then each part behind its length. -/
def userNamespaceInput (issuer subject : Str) : Bytes :=
  utf8 "graphit-user-namespace-v1\x00".toList ++
    [issuer, subject].flatMap fun part => beBytes 8 (byteLen part) ++ utf8 part

def userNamespace (issuer subject : Str) : Str :=
  hexEncode (vendor.sha256 (userNamespaceInput issuer subject)).val

def StorageScope.roots (scope : StorageScope vendor) (identity : StorageIdentity) : List Str :=
  match scope.kind with
  | .globalHub => ["v1/hub/global/registry".toList, "v1/hub/global/rules".toList]
  | .project projectId .hub =>
    [ "v1/projects/".toList ++ projectId ++ "/registry".toList,
      "v1/projects/".toList ++ projectId ++ "/artifacts".toList,
      "v1/projects/".toList ++ projectId ++ "/hub/metadata".toList,
      "v1/projects/".toList ++ projectId ++ "/hub/events".toList ]
  | .project projectId storageModule =>
    ["v1/projects/".toList ++ projectId ++ "/corpora/".toList ++
      storageModule.asStr.toList]
  | .userMemory installationId =>
    [ "v1/installations/".toList ++ installationId ++ "/users/".toList ++
        userNamespace vendor identity.issuer identity.subject ++ "/corpora/memory".toList ]

end GraphitBroker
