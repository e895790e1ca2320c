import GraphitBroker.Lib.ExceptList
import GraphitBroker.NowWire
import GraphitBroker.RealtimeHub

/-!
# The views of a replay

A publisher's mask is applied to a snapshot before the hub stores it (`now_channel.rs`). A replay does
not change what is stored: it writes a view of it in which the sections that the subscriber must not
read are replaced while they are written (`realtime_hub.rs`).
-/

namespace GraphitBroker

open Document ExceptList

structure NowReadMask where
  task : Bool
  memory : Bool
  knowledge : Bool
  deriving DecidableEq

def NowReadMask.and (a b : NowReadMask) : NowReadMask :=
  ⟨a.task && b.task, a.memory && b.memory, a.knowledge && b.knowledge⟩

/-- An authorization to publish for a project. Its checks are those before and after the masking. -/
structure NowAuthorization where
  projectId : Str
  mask : NowReadMask
  check : Nat → Except NowChannelAuthorizationError Unit

def NowAuthorization.filterSnapshot {vendor : Vendor} (authorization : NowAuthorization)
    (snapshot : NowSnapshotData vendor) :
    Except NowChannelAuthorizationError (NowSnapshotData vendor) := do
  authorization.check 0
  failIf (snapshot.projectId ≠ authorization.projectId) .snapshotProjectMismatch
  let masked := snapshot.maskSections authorization.mask.task authorization.mask.memory
    authorization.mask.knowledge
  authorization.check 1
  return masked

/-- `SectionView`: the section, or the fixed text of a forbidden one. -/
def sectionView {T : Type} (write : T → Document) (s : NowSectionData T) (read : Bool) : Document :=
  if read then s.serialize write
  else
    fieldsOf [("availability", .str NowSectionAvailability.failed.asStr), ("items", .arr []),
      ("total", .null), ("has_more", .null), ("error", .str NowSectionErrorCode.forbidden.asStr)]

/-- `SectionsView`. -/
def sectionsView (sections : NowSectionsData) (task memory knowledge : Bool) : Document :=
  fieldsOf [("tasks", sectionView NowTaskData.serialize sections.tasks task),
    ("sessions", sectionView NowSessionData.serialize sections.sessions task),
    ("memories", sectionView NowMemoryData.serialize sections.memories memory),
    ("knowledge", sectionView NowKnowledgeData.serialize sections.knowledge knowledge)]

/-- `SnapshotView`. -/
def snapshotView (snapshot : RawSnapshot) (task memory knowledge : Bool) : Document :=
  fieldsOf [("project_id", .str snapshot.projectId), ("generated_at", .str snapshot.generatedAt),
    ("sections", sectionsView snapshot.sections task memory knowledge)]

/-- The result of a replay, with the proofs it was made for and their read masks. -/
structure RealtimeHubReplay (vendor : Vendor) where
  project : AuthorizedNowProjectSubscriber
  projectMask : NowReadMask
  channels : List (AuthorizedNowSubscriber × NowReadMask)
  instances : List (RealtimeHubInstance (NowSnapshotData vendor))

namespace RealtimeHubReplay

variable {vendor : Vendor} (replay : RealtimeHubReplay vendor)

def channelMask (proofIndex : Nat) : NowReadMask :=
  (replay.channels[proofIndex]?.map (·.2)).getD ⟨false, false, false⟩

/-- `InstanceView`. -/
def instanceView (i : RealtimeHubInstance (NowSnapshotData vendor)) : Document :=
  fieldsOf [("instance_id", .str i.channel.instanceId), ("version", .str i.channel.version),
    ("now", snapshotView i.snapshot.toRawSnapshot
      (replay.projectMask.task && (replay.channelMask i.proofIndex).task)
      (replay.projectMask.memory && (replay.channelMask i.proofIndex).memory)
      (replay.projectMask.knowledge && (replay.channelMask i.proofIndex).knowledge))]

/-- The checks of all proofs; `replay` itself has made the first ones. -/
def check (site : Nat) : Except RealtimeHubError Unit := do
  authorized (replay.project.check site)
  Hub.checkAll (site - 1) (replay.channels.map (·.1))

def serialize : Except RealtimeHubError Document := do
  replay.check 4
  let view := fieldsOf [("project_id", .str replay.project.projectId),
    ("instances", .arr (replay.instances.map replay.instanceView))]
  replay.check 5
  return view

end RealtimeHubReplay

end GraphitBroker
