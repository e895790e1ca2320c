import GraphitBroker.HubAccess
import GraphitBroker.Lib.JsonText
import GraphitBroker.Lib.Paging

/-!
# Listing of instance inventories

The registry of installations and the list of them that a caller may see (`instance_registry.rs`,
`instance_candidates.rs`, `local_inventory_list.rs`). The list reads one candidate after the other;
each is read as one JSON text of bounded length and is then projected to the rows that the caller
may read.
-/

namespace GraphitBroker

open ExceptList

/-! ### The registry -/

structure InstanceProjectVersions where
  projectId : Str
  versions : List Str
  deriving DecidableEq

def canonicalVersion (value : Str) : Bool :=
  !value.isEmpty && trim value == value && !value.any isControl

/-- The checks of `InstanceProjectVersions::new`, whose versions are sorted. -/
def InstanceProjectVersions.valid (vendor : Vendor) (p : InstanceProjectVersions) : Bool :=
  canonicalProjectId vendor p.projectId && !p.versions.isEmpty && p.versions.all canonicalVersion &&
    decide (p.versions.Pairwise (· < ·))

/-- The checks of `InstanceInventory::new`, whose projects are sorted. -/
def validProjects (vendor : Vendor) (projects : List InstanceProjectVersions) : Bool :=
  projects.all (·.valid vendor) && decide (projects.Pairwise fun p q => p.projectId < q.projectId)

/-- The check of either part of `InstanceOwner::new`. -/
def validOwnerValue (value : Str) (characters : Nat) : Bool :=
  !value.isEmpty && !value.contains (Char.ofNat 0) && decide (value.length ≤ characters)

structure StoredInstanceInventory (vendor : Vendor) where
  ownerIssuer : Str
  ownerSubject : Str
  createdAt : Int
  updatedAt : Int
  projects : List InstanceProjectVersions
  validOwner : (validOwnerValue ownerIssuer 1024 && validOwnerValue ownerSubject 512) = true
  validTimes : 0 ≤ createdAt ∧ 0 ≤ updatedAt
  valid : validProjects vendor projects = true

/-- The installations by their ids, which `canonical_instance_id` accepts. -/
structure InstanceRegistry (vendor : Vendor) where
  instances : SortedMap Str (StoredInstanceInventory vendor)
  canonical : ∀ entry ∈ instances.entries, validInstallationId entry.1 = true

/-! ### Reading a candidate -/

def jsonNumber (n : Int) : Str := (toString n).toList

def jsonRecord (fields : List (String × Str)) : Str :=
  "\x7b".toList ++ ",".toList.intercalate
    (fields.map fun field => Json.renderStr field.1.toList ++ ':' :: field.2) ++ "\x7d".toList

def versionRows (p : InstanceProjectVersions) : List Str :=
  p.versions.zipIdx.map fun row => jsonRecord [("project_id", Json.renderStr p.projectId),
    ("position", jsonNumber (row.2 + 1)), ("version", Json.renderStr row.1)]

def StoredInstanceInventory.payload {vendor : Vendor} (id : Str)
    (row : StoredInstanceInventory vendor) : Str :=
  jsonRecord [("instance_id", Json.renderStr id), ("owner_issuer", Json.renderStr row.ownerIssuer),
    ("owner_subject", Json.renderStr row.ownerSubject), ("created_at", jsonNumber row.createdAt),
    ("updated_at", jsonNumber row.updatedAt),
    ("versions", "[".toList ++ ",".toList.intercalate (row.projects.flatMap versionRows) ++
      "]".toList)]

inductive InstanceReadError where
  | invalidInstanceId
  | readLimitExceeded
  | malformedStored
  deriving DecidableEq, Repr

section Reading

variable {vendor : Vendor} (registry : InstanceRegistry vendor) (jsonBytes : Nat)

def readBounded (entry : Str × StoredInstanceInventory vendor) :
    Except InstanceReadError (Str × StoredInstanceInventory vendor) := do
  failIf (jsonBytes < byteLen (entry.2.payload entry.1)) .readLimitExceeded
  return entry

/-- `SqliteInstanceInventories::read`. -/
def InstanceRegistry.read (id : Str) :
    Except InstanceReadError (Option (Str × StoredInstanceInventory vendor)) := do
  failIf (validInstallationId id = false) .invalidInstanceId
  match registry.instances.get? id with
  | none => return none
  | some row => return some (← readBounded jsonBytes (id, row))

/-- `SqliteInstanceInventoryCandidates::read_next`: the least id after a key. -/
def InstanceRegistry.readNext (after : Option Str) :
    Except InstanceReadError (Option (Str × StoredInstanceInventory vendor)) := do
  failIf (after.any fun id => !validInstallationId id) .invalidInstanceId
  match registry.instances.entries.find? fun entry => after.all fun id => decide (id < entry.1) with
  | none => return none
  | some entry => return some (← readBounded jsonBytes entry)

end Reading

/-! ### Projection -/

structure InstanceListQuery where
  limit : Nat
  after : Option Str
  instanceId : Option Str
  projectId : Option Str
  version : Option Str

def InstanceListQuery.maxLimit : Nat := 100

/-- The checks of `InstanceListQuery::new`. -/
def InstanceListQuery.accepted (vendor : Vendor) (query : InstanceListQuery) : Bool :=
  decide (0 < query.limit) && decide (query.limit ≤ InstanceListQuery.maxLimit) &&
    query.after.all validInstallationId && query.instanceId.all validInstallationId &&
    query.projectId.all (canonicalProjectId vendor) && query.version.all canonicalVersion

structure AuthorizedInstanceListItem where
  instanceId : Str
  projects : List InstanceProjectVersions
  createdAt : Int
  updatedAt : Int
  deriving DecidableEq

def presenceRead : Str := "presence:read".toList

structure ListCaller where
  user : Principal
  policy : ResourcePolicy

namespace ListCaller

variable {vendor : Vendor} (caller : ListCaller) (query : InstanceListQuery)

def allows (project : Str) : Bool := caller.policy.allowsPrincipal caller.user presenceRead project

def owns (row : StoredInstanceInventory vendor) : Bool :=
  row.ownerIssuer == caller.user.issuer && row.ownerSubject == caller.user.subject

def visible (stored : InstanceProjectVersions) : Option InstanceProjectVersions :=
  if query.projectId.any (· != stored.projectId) || !caller.allows stored.projectId then none
  else
    let versions := stored.versions.filter fun version => query.version.all (· == version)
    if versions.isEmpty then none else some ⟨stored.projectId, versions⟩

/-- The last step of `project`: the inventory is built from its parts. -/
def buildItem (vendor : Vendor) (id : Str) (projects : List InstanceProjectVersions)
    (createdAt updatedAt : Int) : Except InstanceReadError (Option AuthorizedInstanceListItem) := do
  failIf (validInstallationId id = false ∨ validProjects vendor projects = false) .malformedStored
  return some ⟨id, projects, createdAt, updatedAt⟩

def project (entry : Str × StoredInstanceInventory vendor) :
    Except InstanceReadError (Option AuthorizedInstanceListItem) :=
  if entry.2.projects.isEmpty then
    if query.projectId.isSome || query.version.isSome || !caller.owns entry.2 ||
        !caller.policy.allowsAnyPrincipal caller.user presenceRead then .ok none
    else buildItem vendor entry.1 [] entry.2.createdAt entry.2.updatedAt
  else
    let projects := entry.2.projects.filterMap (caller.visible query)
    if projects.isEmpty then .ok none
    else buildItem vendor entry.1 projects entry.2.createdAt entry.2.updatedAt

/-! ### The list -/

variable (registry : InstanceRegistry vendor) (jsonBytes : Nat)

def collect : Nat → Option Str → List AuthorizedInstanceListItem →
    Except InstanceReadError (List AuthorizedInstanceListItem × Bool)
  | 0, _, items => .ok (items, false)
  | fuel + 1, cursor, items => do
    match ← registry.readNext jsonBytes cursor with
    | none => return (items, false)
    | some entry =>
      match ← caller.project query entry with
      | none => collect fuel (some entry.1) items
      | some item =>
        if items.length = query.limit then return (items, true)
        else collect fuel (some entry.1) (items ++ [item])

def collectOne (id : Str) : Except InstanceReadError (List AuthorizedInstanceListItem × Bool) :=
  if query.after.any fun after => decide (id ≤ after) then .ok ([], false)
  else do
    match ← registry.read jsonBytes id with
    | none => return ([], false)
    | some entry => return ((← caller.project query entry).toList, false)

def list : Except InstanceReadError (Paging.Page AuthorizedInstanceListItem Str) := do
  let (items, more) ← match query.instanceId with
    | some id => caller.collectOne query registry jsonBytes id
    | none =>
      caller.collect query registry jsonBytes (registry.instances.entries.length + 1) query.after
        []
  return ⟨items, if more then items.getLast?.map (·.instanceId) else none⟩

end ListCaller

end GraphitBroker
