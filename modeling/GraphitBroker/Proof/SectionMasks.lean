import GraphitBroker.Lib.JsonText
import GraphitBroker.Proof.StorageAuthority
import GraphitBroker.RealtimeViews

/-!
# Section masks

The view that a replay writes is the wire form of the snapshot under the conjunction of the three
masks that stand between its publisher and the reader.
-/

namespace GraphitBroker

open Document ExceptList

theorem NowTaskData.deserialize_serialize (row : NowTaskData) :
    deserialize row.serialize = some row := by
  have hfields : row.serialize.struct taskFields = some [.str row.id, .str row.sessionId,
      .str row.title, .str row.owner, .str row.leaseExpiresAt, .str row.updatedAt] :=
    struct_obj (by simp [taskFields]) (by decide)
  rw [deserialize, hfields]
  rfl

theorem NowSessionData.deserialize_serialize (row : NowSessionData) :
    deserialize row.serialize = some row := by
  have hfields : row.serialize.struct sessionFields = some [.str row.id, .str row.title,
      .str row.owner, .str row.leaseExpiresAt, .str row.updatedAt, .number row.completedTasks,
      .number row.totalTasks] :=
    struct_obj (by simp [sessionFields]) (by decide)
  rw [deserialize, hfields]
  rfl

theorem NowMemoryData.deserialize_serialize (row : NowMemoryData) :
    deserialize row.serialize = some row := by
  have hfields : row.serialize.struct memoryFields =
      some [.str row.id, .str row.title, .str row.updatedBy, .str row.updatedAt] :=
    struct_obj (by simp [memoryFields]) (by decide)
  rw [deserialize, hfields]
  rfl

theorem NowKnowledgeData.deserialize_serialize (row : NowKnowledgeData) :
    deserialize row.serialize = some row := by
  have hfields : row.serialize.struct knowledgeFields =
      some [.str row.slug, .str row.title, row.updatedAt.elim .null .str] :=
    struct_obj (by simp [knowledgeFields]) (by decide)
  have htime := @nullable_elim _ asStr .str (fun _ => rfl) (by simp) row.updatedAt
  rw [deserialize, hfields]
  simp only [Option.bind_eq_bind, Option.bind_some, asStr, htime]
  rfl

theorem availabilityOf_asStr (a : NowSectionAvailability) :
    availabilityOf (.str a.asStr) = some a := by
  cases a <;> rfl

theorem errorCodeOf_asStr (code : NowSectionErrorCode) : errorCodeOf (.str code.asStr) = some code := by
  cases code <;> rfl

variable {T : Type}

theorem NowSectionData.deserialize_serialize {read : Document → Option T}
    {write : T → Document} (h : ∀ row, read (write row) = some row) (s : NowSectionData T) :
    deserialize read (s.serialize write) = some s := by
  have hfields : (s.serialize write).struct sectionFields =
      some [.str s.availability.asStr, .arr (s.items.map write), s.total.elim .null .number,
        s.hasMore.elim .null .bool, s.error.elim .null fun code => .str code.asStr] :=
    struct_obj (by simp [sectionFields]) (by decide)
  have htotal := @nullable_elim _ asNumber .number (fun _ => rfl) (by simp) s.total
  have hmore := @nullable_elim _ asBool .bool (fun _ => rfl) (by simp) s.hasMore
  have herror := nullable_elim errorCodeOf_asStr (by simp) s.error
  simp only [deserialize, hfields, Option.bind_eq_bind, Option.bind_some, availabilityOf_asStr,
    listOf_map h, htotal, hmore, herror]
  rfl

theorem NowSectionsData.deserialize_serialize (s : NowSectionsData) :
    deserialize s.serialize = some s := by
  have hfields : s.serialize.struct sectionsFields =
      some [s.tasks.serialize NowTaskData.serialize, s.sessions.serialize NowSessionData.serialize,
        s.memories.serialize NowMemoryData.serialize,
        s.knowledge.serialize NowKnowledgeData.serialize] :=
    struct_obj (by simp [sectionsFields]) (by decide)
  simp only [deserialize, hfields, Option.bind_eq_bind, Option.bind_some,
    NowSectionData.deserialize_serialize NowTaskData.deserialize_serialize,
    NowSectionData.deserialize_serialize NowSessionData.deserialize_serialize,
    NowSectionData.deserialize_serialize NowMemoryData.deserialize_serialize,
    NowSectionData.deserialize_serialize NowKnowledgeData.deserialize_serialize]
  rfl

theorem RawSnapshot.deserialize_serialize (raw : RawSnapshot) :
    deserialize raw.serialize = some raw := by
  have hfields : raw.serialize.struct snapshotFields =
      some [.str raw.projectId, .str raw.generatedAt, raw.sections.serialize] :=
    struct_obj (by simp [snapshotFields]) (by decide)
  simp only [deserialize, hfields, Option.bind_eq_bind, Option.bind_some,
    NowSectionsData.deserialize_serialize, asStr]
  rfl

theorem within_fieldsOf {n : Nat} {fields : List (String × Document)}
    (h : ∀ field ∈ fields, field.2.Within n) : (fieldsOf fields).Within (n + 1) := by
  intro field hfield
  obtain ⟨field', hfield', rfl⟩ := List.mem_map.mp hfield
  exact h field' hfield'

theorem NowTaskData.within_serialize (row : NowTaskData) : row.serialize.Within 1 :=
  within_fieldsOf (by simp)

theorem NowSessionData.within_serialize (row : NowSessionData) : row.serialize.Within 1 :=
  within_fieldsOf (by simp)

theorem NowMemoryData.within_serialize (row : NowMemoryData) : row.serialize.Within 1 :=
  within_fieldsOf (by simp)

theorem NowKnowledgeData.within_serialize (row : NowKnowledgeData) : row.serialize.Within 1 := by
  have htime : Within 0 (row.updatedAt.elim .null .str) := within_elim (within_str 0) _
  exact within_fieldsOf (by simp [htime])

theorem NowSectionData.within_serialize {write : T → Document}
    (h : ∀ row, (write row).Within 1) (s : NowSectionData T) : (s.serialize write).Within 3 := by
  have hitems : (Document.arr (s.items.map write)).Within 2 := by
    intro item hitem
    obtain ⟨row, -, rfl⟩ := List.mem_map.mp hitem
    exact h row
  have htotal : Within 2 (s.total.elim .null .number) := within_elim (within_number 2) _
  have hmore : Within 2 (s.hasMore.elim .null .bool) := within_elim (within_bool 2) _
  have herror : Within 2 (s.error.elim .null fun code => .str code.asStr) :=
    within_elim (fun code => within_str 2 _) _
  exact within_fieldsOf (by simp [hitems, htotal, hmore, herror])

theorem RawSnapshot.within_serialize (raw : RawSnapshot) : raw.serialize.Within 5 := by
  have htasks := NowSectionData.within_serialize NowTaskData.within_serialize raw.sections.tasks
  have hsessions := NowSectionData.within_serialize NowSessionData.within_serialize
    raw.sections.sessions
  have hmemories := NowSectionData.within_serialize NowMemoryData.within_serialize
    raw.sections.memories
  have hknowledge := NowSectionData.within_serialize NowKnowledgeData.within_serialize
    raw.sections.knowledge
  have hsections : raw.sections.serialize.Within 4 :=
    within_fieldsOf (by simpa using ⟨htasks, hsessions, hmemories, hknowledge⟩)
  exact within_fieldsOf (by simp [hsections])

namespace NowSnapshotData

variable {vendor : Vendor}

theorem deserialize_serialize (s : NowSnapshotData vendor) :
    deserialize s.toRawSnapshot.serialize = some s := by
  rw [deserialize, RawSnapshot.deserialize_serialize]
  exact dif_pos s.valid

theorem decode_print (codec : JsonCodec) (s : NowSnapshotData vendor) {snapshotBytes : Nat}
    (h : codec.len (codec.print s.toRawSnapshot.serialize) ≤ snapshotBytes) :
    decode codec (codec.print s.toRawSnapshot.serialize) snapshotBytes = .ok s := by
  have hparse := codec.parse_print _ (s.toRawSnapshot.within_serialize.mono (by decide))
  rw [decode, if_neg (Nat.not_lt.mpr h), hparse, Option.bind_some, deserialize_serialize]

end NowSnapshotData

theorem sectionView_eq (write : T → Document) (s : NowSectionData T) (read : Bool) :
    sectionView write s read = (s.mask read).serialize write := by
  cases read <;> rfl

theorem snapshotView_eq (raw : RawSnapshot) (task memory knowledge : Bool) :
    snapshotView raw task memory knowledge = (raw.maskSections task memory knowledge).serialize := by
  simp only [snapshotView, sectionsView, sectionView_eq]
  rfl

theorem NowSectionData.mask_mask (s : NowSectionData T) (a b : Bool) :
    (s.mask a).mask b = s.mask (a && b) := by
  cases a <;> cases b <;> rfl

theorem RawSnapshot.maskSections_maskSections (raw : RawSnapshot) (a b : NowReadMask) :
    (raw.maskSections a.task a.memory a.knowledge).maskSections b.task b.memory b.knowledge =
      raw.maskSections (a.and b).task (a.and b).memory (a.and b).knowledge := by
  simp only [maskSections, NowSectionData.mask_mask]
  rfl

theorem NowAuthorization.filterSnapshot_eq_ok {vendor : Vendor} {authorization : NowAuthorization}
    {s x : NowSnapshotData vendor} (h : authorization.filterSnapshot s = .ok x) :
    x = s.maskSections authorization.mask.task authorization.mask.memory
      authorization.mask.knowledge := by
  simp only [filterSnapshot, bind_eq_ok] at h
  obtain ⟨-, -, -, -, -, -, h⟩ := h
  exact (Except.ok.inj h).symm

structure RawSnapshot.AgreeOn (mask : NowReadMask) (s s' : RawSnapshot) : Prop where
  projectId : s.projectId = s'.projectId
  generatedAt : s.generatedAt = s'.generatedAt
  tasks : mask.task = true → s.sections.tasks = s'.sections.tasks
  sessions : mask.task = true → s.sections.sessions = s'.sections.sessions
  memories : mask.memory = true → s.sections.memories = s'.sections.memories
  knowledge : mask.knowledge = true → s.sections.knowledge = s'.sections.knowledge

theorem NowSectionData.mask_congr {s s' : NowSectionData T} {read : Bool}
    (h : read = true → s = s') : s.mask read = s'.mask read := by
  cases read with
  | false => rfl
  | true => exact h rfl

theorem RawSnapshot.AgreeOn.maskSections_eq {mask : NowReadMask} {s s' : RawSnapshot}
    (h : AgreeOn mask s s') : s.maskSections mask.task mask.memory mask.knowledge =
      s'.maskSections mask.task mask.memory mask.knowledge := by
  simp only [maskSections, h.projectId, h.generatedAt, NowSectionData.mask_congr h.tasks,
    NowSectionData.mask_congr h.sessions, NowSectionData.mask_congr h.memories,
    NowSectionData.mask_congr h.knowledge]

namespace RealtimeHubReplay

variable {vendor : Vendor}

/-- What the publisher of an instance's channel, the project proof and the channel proof allow. -/
def allowed (replay : RealtimeHubReplay vendor) (publisher : PresenceChannel → NowAuthorization)
    (i : RealtimeHubInstance (NowSnapshotData vendor)) : NowReadMask :=
  (publisher i.channel).mask.and (replay.projectMask.and (replay.channelMask i.proofIndex))

def masked (replay : RealtimeHubReplay vendor) (publisher : PresenceChannel → NowAuthorization)
    (source : PresenceChannel → NowSnapshotData vendor)
    (i : RealtimeHubInstance (NowSnapshotData vendor)) : NowSnapshotData vendor :=
  (source i.channel).maskSections (replay.allowed publisher i).task
    (replay.allowed publisher i).memory (replay.allowed publisher i).knowledge

def StoredFrom (replay : RealtimeHubReplay vendor) (publisher : PresenceChannel → NowAuthorization)
    (source : PresenceChannel → NowSnapshotData vendor) : Prop :=
  ∀ i ∈ replay.instances, (publisher i.channel).filterSnapshot (source i.channel) = .ok i.snapshot

def withStored (replay : RealtimeHubReplay vendor)
    (stored : PresenceChannel → NowSnapshotData vendor) : RealtimeHubReplay vendor :=
  { replay with instances := replay.instances.map fun i => { i with snapshot := stored i.channel } }

variable {replay replay' : RealtimeHubReplay vendor} {publisher : PresenceChannel → NowAuthorization}
  {source source' : PresenceChannel → NowSnapshotData vendor}

theorem instanceView_eq {i : RealtimeHubInstance (NowSnapshotData vendor)}
    (h : (publisher i.channel).filterSnapshot (source i.channel) = .ok i.snapshot) :
    replay.instanceView i =
      fieldsOf [("instance_id", .str i.channel.instanceId), ("version", .str i.channel.version),
        ("now", (replay.masked publisher source i).toRawSnapshot.serialize)] := by
  have hstored := NowAuthorization.filterSnapshot_eq_ok h
  have hview : snapshotView i.snapshot.toRawSnapshot
      (replay.projectMask.and (replay.channelMask i.proofIndex)).task
      (replay.projectMask.and (replay.channelMask i.proofIndex)).memory
      (replay.projectMask.and (replay.channelMask i.proofIndex)).knowledge =
      (replay.masked publisher source i).toRawSnapshot.serialize := by
    rw [snapshotView_eq, hstored]
    exact congrArg RawSnapshot.serialize (RawSnapshot.maskSections_maskSections _ _ _)
  rw [← hview]
  rfl

theorem serialize_eq_ok {doc : Document} (h : replay.serialize = .ok doc) :
    doc = fieldsOf [("project_id", .str replay.project.projectId),
      ("instances", .arr (replay.instances.map replay.instanceView))] := by
  simp only [serialize, bind_eq_ok] at h
  obtain ⟨-, -, -, -, h⟩ := h
  exact (Except.ok.inj h).symm

theorem serialize_congr (hproject : replay'.project = replay.project)
    (hchannels : replay'.channels = replay.channels)
    (hviews : replay'.instances.map replay'.instanceView = replay.instances.map replay.instanceView) :
    replay'.serialize = replay.serialize := by
  simp only [serialize, check, hproject, hchannels, hviews]

/-- **Masks are exact.** A replay writes, for every channel, the wire form of the channel's snapshot
under the conjunction of the masks of its publisher, of the project proof and of the channel proof. The
decoder accepts it as that snapshot. What is written depends on nothing else of the snapshot. -/
theorem serialize_masks (codec : JsonCodec) (hstored : replay.StoredFrom publisher source) :
    (∀ doc, replay.serialize = .ok doc →
      doc = fieldsOf [("project_id", .str replay.project.projectId),
        ("instances", .arr (replay.instances.map fun i =>
          fieldsOf [("instance_id", .str i.channel.instanceId), ("version", .str i.channel.version),
            ("now", (replay.masked publisher source i).toRawSnapshot.serialize)]))]) ∧
    (∀ i ∈ replay.instances, ∀ snapshotBytes,
      codec.len (codec.print (replay.masked publisher source i).toRawSnapshot.serialize) ≤
          snapshotBytes →
        NowSnapshotData.decode codec
            (codec.print (replay.masked publisher source i).toRawSnapshot.serialize) snapshotBytes =
          .ok (replay.masked publisher source i)) ∧
    ∀ source' stored' : PresenceChannel → NowSnapshotData vendor,
      (replay.withStored stored').StoredFrom publisher source' →
      (∀ i ∈ replay.instances, RawSnapshot.AgreeOn (replay.allowed publisher i)
        (source i.channel).toRawSnapshot (source' i.channel).toRawSnapshot) →
      (replay.withStored stored').serialize.map codec.print =
        replay.serialize.map codec.print := by
  refine ⟨fun doc hdoc => ?_, fun i _ snapshotBytes hlen => ?_,
    fun source' stored' hstored' hagree => ?_⟩
  · rw [serialize_eq_ok hdoc, List.map_congr_left fun i hi => instanceView_eq (hstored i hi)]
  · exact NowSnapshotData.decode_print codec _ hlen
  · refine congrArg (Except.map codec.print) (serialize_congr rfl rfl ?_)
    rw [withStored, List.map_map]
    refine List.map_congr_left fun i hi => ?_
    have hi' := hstored' _ (List.mem_map_of_mem hi)
    have hsame : (replay.masked publisher source i).toRawSnapshot =
        (replay.masked publisher source' i).toRawSnapshot := (hagree i hi).maskSections_eq
    rw [instanceView_eq (hstored i hi), hsame]
    exact instanceView_eq hi'

end RealtimeHubReplay

namespace Sample

def projectId : Str := List.replicate 26 '1'

theorem canonicalProjectId_projectId : canonicalProjectId crates projectId = true := by
  decide +kernel

def ulidOf (c : Char) : Str := List.replicate 26 c

def tasks : NowSectionData NowTaskData where
  availability := .available
  items :=
    [⟨ulidOf '2', ulidOf '3', "Review".toList, ulidOf '4', "9000000".toList, "4000000".toList⟩,
      ⟨ulidOf '5', ulidOf '3', "Merge \"v2\"".toList, ulidOf '4', "9000000".toList,
        "3000000".toList⟩]
  total := some 2
  hasMore := some false
  error := none

def sessions : NowSectionData NowSessionData where
  availability := .available
  items := [⟨ulidOf '3', "Release".toList, ulidOf '4', "9000000".toList, "4000000".toList, 1, 3⟩]
  total := some 1
  hasMore := some false
  error := none

def memories : NowSectionData NowMemoryData where
  availability := .available
  items := [⟨ulidOf '6', "Decisions".toList, ulidOf '4', "2000000".toList⟩]
  total := some 1
  hasMore := some false
  error := none

def knowledge : NowSectionData NowKnowledgeData where
  availability := .available
  items := [⟨"deploy".toList, "Deploy".toList, some "7".toList⟩, ⟨"ops".toList, "Ops".toList, none⟩]
  total := some 2
  hasMore := some false
  error := none

def unavailable {T : Type} : NowSectionData T := ⟨.failed, [], none, none, some .unavailable⟩

def workSnapshot : NowSnapshotData crates where
  projectId := projectId
  generatedAt := "5000000".toList
  sections := ⟨tasks, sessions, memories, knowledge⟩
  valid := by decide +kernel

def failedSnapshot : NowSnapshotData crates where
  projectId := projectId
  generatedAt := "5000000".toList
  sections := ⟨tasks, sessions, unavailable, knowledge⟩
  valid := by decide +kernel

/-- JSON texts, read down to 127 levels. -/
def codec : JsonCodec where
  Text := Str
  print := Document.render
  len := byteLen
  parse := Document.parse 127
  parse_print := fun _ => Document.parse_render

def nowPublisher : NowAuthorization where
  projectId := projectId
  mask := ⟨true, true, true⟩
  check := fun _ => .ok ()

def nowChannel : PresenceChannel := ⟨"laptop".toList, projectId, "1".toList⟩

def maskedReplay : RealtimeHubReplay crates where
  project := ⟨projectId, fun _ => .ok ()⟩
  projectMask := ⟨true, true, true⟩
  channels := [(⟨nowChannel, "local".toList, "alice".toList, fun _ => .ok ()⟩, ⟨true, false, true⟩)]
  instances := [⟨nowChannel, workSnapshot, 0⟩]

end Sample

/-- A reader who may not see memories does not learn whether they could be read. -/
theorem RealtimeHubReplay.serialize_masks_memories :
    Sample.maskedReplay.StoredFrom (fun _ => Sample.nowPublisher) (fun _ => Sample.workSnapshot) ∧
      (Sample.maskedReplay.withStored fun _ => Sample.failedSnapshot).serialize.map
          Sample.codec.print =
        Sample.maskedReplay.serialize.map Sample.codec.print := by
  have hstored : Sample.maskedReplay.StoredFrom (fun _ => Sample.nowPublisher)
      fun _ => Sample.workSnapshot := by
    intro i hi
    obtain rfl := List.mem_singleton.mp hi
    rfl
  refine ⟨hstored, (serialize_masks Sample.codec hstored).2.2 (fun _ => Sample.failedSnapshot)
    (fun _ => Sample.failedSnapshot) ?_ ?_⟩
  · intro i hi
    obtain rfl := List.mem_singleton.mp hi
    rfl
  · intro i hi
    obtain rfl := List.mem_singleton.mp hi
    exact ⟨rfl, rfl, fun _ => rfl, fun _ => rfl, fun h => Bool.noConfusion h, fun _ => rfl⟩

end GraphitBroker
