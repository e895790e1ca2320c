import GraphitBroker.ControlDb
import GraphitBroker.InstanceInventories
import GraphitBroker.Lib.Transactions

/-!
# Registration of instances

`replace_instance_inventory` and what reads its rows back (`instances.rs`, `instance_registry.rs`,
`decode_inventory`). The versions of all projects of an installation are the rows of one table, by
installation, project and position; the stored rows are compared with the new inventory and then
written anew as a whole.
-/

namespace GraphitBroker

open ExceptList Transactions

inductive InstanceRegistryError where
  | invalidOwner
  | invalidInventory
  | ownerConflict
  | malformedStored
  | control (error : ControlError)
  deriving DecidableEq

/-! ### Inventories -/

def hasRepeat {α : Type} [DecidableEq α] : List α → Bool
  | a :: b :: rest => a == b || hasRepeat (b :: rest)
  | _ => false

/-- `InstanceProjectVersions::new`, which fails with `InvalidInventory` only. -/
def InstanceProjectVersions.new (vendor : Vendor) (projectId : Str) (versions : List Str) :
    Option InstanceProjectVersions :=
  if !canonicalProjectId vendor projectId || versions.isEmpty ||
      versions.any (fun value => !canonicalVersion value) then none
  else
    let sorted := versions.insertionSort (· ≤ ·)
    if hasRepeat sorted then none else some ⟨projectId, sorted⟩

/-- The projects of `InstanceInventory::new`, which fails with `InvalidInventory` only. -/
def newProjects (projects : List InstanceProjectVersions) : Option (List InstanceProjectVersions) :=
  let sorted := projects.insertionSort fun a b => a.projectId ≤ b.projectId
  if hasRepeat (sorted.map InstanceProjectVersions.projectId) then none else some sorted

def InstanceInventory.build (vendor : Vendor) (instanceId : Str) (projects : List (Str × List Str)) :
    Option (List InstanceProjectVersions) := do
  let projects ← projects.mapM fun p => InstanceProjectVersions.new vendor p.1 p.2
  if validInstallationId instanceId then newProjects projects else none

structure InstanceInventory (vendor : Vendor) where
  instanceId : Str
  projects : List InstanceProjectVersions
  validId : validInstallationId instanceId = true
  valid : validProjects vendor projects = true

structure InstanceOwner where
  issuer : Str
  subject : Str
  valid : (validOwnerValue issuer 1024 && validOwnerValue subject 512) = true

/-! ### The tables -/

/-- A row of `broker_instances`, under its id. -/
structure InstanceRow where
  ownerIssuer : Str
  ownerSubject : Str
  createdAt : Int
  updatedAt : Int

/-- A row of `broker_instance_project_versions`, without the installation. -/
structure VersionRow where
  projectId : Str
  position : Nat
  version : Str
  deriving DecidableEq

abbrev VersionKey := Str ×ₗ (Str ×ₗ ℕ)

def versionKey (instanceId projectId : Str) (position : Nat) : VersionKey :=
  toLex (instanceId, toLex (projectId, position))

structure RegistrationDb where
  instances : SortedMap Str InstanceRow
  versions : SortedMap VersionKey Str

namespace RegistrationDb

def empty : RegistrationDb := ⟨SortedMap.empty, SortedMap.empty⟩

def queryVersions (d : RegistrationDb) (id : Str) : List VersionRow :=
  (d.versions.entries.filter fun entry => (ofLex entry.1).1 == id).map fun entry =>
    ⟨(ofLex (ofLex entry.1).2).1, (ofLex (ofLex entry.1).2).2, entry.2⟩

end RegistrationDb

def versionRowsFrom (project : Str) : Nat → List Str → List VersionRow
  | _, [] => []
  | n, version :: rest => ⟨project, n + 1, version⟩ :: versionRowsFrom project (n + 1) rest

def registryRows (projects : List InstanceProjectVersions) : List VersionRow :=
  projects.flatMap fun p => versionRowsFrom p.projectId 0 p.versions

/-! ### Replacing an inventory -/

section Replace

variable (vendor : Vendor)

def noRow : VersionRow := ⟨[], 0, []⟩

def compareRows : (stored expected : List VersionRow) → (same : Bool) → (count : Nat) →
    (previous : VersionRow) → Except InstanceRegistryError (Bool × Nat)
  | [], expected, same, count, _ => .ok (same && expected.isEmpty, count)
  | row :: rest, expected, same, count, previous => do
    failIf (26 < byteLen row.projectId) .malformedStored
    failIf (canonicalProjectId vendor row.projectId = false ∨ canonicalVersion row.version = false)
      .malformedStored
    failIf (row.projectId ≠ previous.projectId ∧
      ((previous.projectId ≠ [] ∧ row.projectId ≤ previous.projectId) ∨ row.position ≠ 1))
      .malformedStored
    failIf (row.projectId = previous.projectId ∧
      (previous.position + 1 ≠ row.position ∨ row.version ≤ previous.version)) .malformedStored
    compareRows rest expected.tail (same && expected.head? == some row) (count + 1) row

def insertVersions (id : Str) : List VersionRow → SortedMap VersionKey Str →
    Except InstanceRegistryError (SortedMap VersionKey Str)
  | [], versions => .ok versions
  | row :: rest, versions => do
    let key := versionKey id row.projectId row.position
    failIf ((versions.get? key).isSome = true) (.control .storage)
    insertVersions id rest (versions.insert key row.version)

inductive RegistrationChange where
  | created
  | updated
  | unchanged
  deriving DecidableEq

structure RegistrationResult where
  change : RegistrationChange
  instanceId : Str
  createdAt : Int
  updatedAt : Int
  deriving DecidableEq

def registryClock : Option Nat → Except InstanceRegistryError Int
  | none => .error (.control .clock)
  | some micros => .ok micros

/-- The transaction of `replace`, with its two readings of the clock. -/
def replaceBody (owner : InstanceOwner) (inventory : InstanceInventory vendor)
    (stamp later : Option Nat) (d : RegistrationDb) :
    Except InstanceRegistryError (RegistrationResult × RegistrationDb) := do
  let stamp ← registryClock stamp
  let created := (d.instances.get? inventory.instanceId).isNone
  let row := (d.instances.get? inventory.instanceId).getD
    ⟨owner.issuer, owner.subject, stamp, stamp⟩
  let instances := if created then d.instances.insert inventory.instanceId row else d.instances
  failIf (4096 < byteLen row.ownerIssuer ∨ 2048 < byteLen row.ownerSubject) .malformedStored
  failIf (row.createdAt < 0 ∨ row.updatedAt < 0) .malformedStored
  failIf (validOwnerValue row.ownerIssuer 1024 = false ∨ validOwnerValue row.ownerSubject 512 = false)
    .malformedStored
  failIf (row.ownerIssuer ≠ owner.issuer ∨ row.ownerSubject ≠ owner.subject) .ownerConflict
  let (same, count) ← compareRows vendor (d.queryVersions inventory.instanceId)
    (registryRows inventory.projects) true 0 noRow
  if same then
    return (⟨if created then .created else .unchanged, inventory.instanceId, row.createdAt,
      row.updatedAt⟩, ⟨instances, d.versions⟩)
  else
    let kept := d.versions.filter fun key _ => (ofLex key).1 ≠ inventory.instanceId
    failIf (d.versions.entries.length - kept.entries.length ≠ count) (.control .storage)
    let versions ← insertVersions inventory.instanceId (registryRows inventory.projects) kept
    if created then
      return (⟨.created, inventory.instanceId, row.createdAt, row.updatedAt⟩, ⟨instances, versions⟩)
    else
      let updatedAt ← registryClock later
      return (⟨.updated, inventory.instanceId, row.createdAt, updatedAt⟩,
        ⟨instances.insert inventory.instanceId { row with updatedAt := updatedAt }, versions⟩)

/-! ### Reading an inventory -/

/-- The loop of `decode_inventory` over the rows: the projects so far, and the one being read. -/
def decodeRows : List VersionRow → List InstanceProjectVersions → Str → List Str →
    Option (List InstanceProjectVersions)
  | [], projects, project, versions =>
    if project.isEmpty then if versions.isEmpty then some projects else none
    else (InstanceProjectVersions.new vendor project versions).map fun p => projects ++ [p]
  | row :: rest, projects, project, versions => do
    if !canonicalProjectId vendor row.projectId then none
    else
      let (projects, versions) ←
        if row.projectId = project || project.isEmpty then some (projects, versions)
        else if row.projectId ≤ project then none
        else (InstanceProjectVersions.new vendor project versions).map fun p =>
          (projects ++ [p], [])
      if versions.length + 1 ≠ row.position ∨ versions.getLast?.any (row.version ≤ ·) = true then
        none
      else decodeRows rest projects row.projectId (versions ++ [row.version])

/-- `decode_inventory` for an installation: `none` is `MalformedStored`. -/
def RegistrationDb.decode (d : RegistrationDb) (id : Str) (row : InstanceRow) :
    Option (List InstanceProjectVersions) := do
  if row.createdAt < 0 ∨ row.updatedAt < 0 then none
  else if validOwnerValue row.ownerIssuer 1024 && validOwnerValue row.ownerSubject 512 then
    let projects ← decodeRows vendor (d.queryVersions id) [] [] []
    if validInstallationId id then newProjects projects else none
  else none

end Replace

/-! ### Runs -/

structure RegistrationCall (vendor : Vendor) where
  owner : InstanceOwner
  inventory : InstanceInventory vendor
  stamp : Option Nat
  later : Option Nat
  commit : Except (ControlError × Bool) Unit

def RegistrationCall.run {vendor : Vendor} (call : RegistrationCall vendor) (d : RegistrationDb) :
    Except InstanceRegistryError RegistrationResult × RegistrationDb :=
  transact (replaceBody vendor call.owner call.inventory call.stamp call.later)
    (call.commit.mapError fun e => (.control e.1, e.2)) d

def registrations {vendor : Vendor} (calls : List (RegistrationCall vendor)) : RegistrationDb :=
  calls.foldl (fun d call => (call.run d).2) .empty

end GraphitBroker
