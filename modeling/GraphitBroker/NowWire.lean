import GraphitBroker.ControlDb
import GraphitBroker.Lib.Document
import GraphitBroker.StorageScope

/-!
# Snapshots of current work

The strict wire form of a snapshot (`broker-now-wire`): four sections of rows, each with its counts or
the error it failed with. Only the decoder and the masks make a `NowSnapshotData`, so every one of them
satisfies `validate`.
-/

namespace GraphitBroker

inductive NowSnapshotDataError where
  | invalidData
  | readLimitExceeded
  deriving DecidableEq

inductive NowSectionAvailability where
  | available
  | noCorpus
  | failed
  deriving DecidableEq

def NowSectionAvailability.asStr : NowSectionAvailability → Str
  | .available => "available".toList
  | .noCorpus => "no_corpus".toList
  | .failed => "failed".toList

def NowSectionAvailability.tryFrom (value : Str) : Option NowSectionAvailability :=
  if value = "available".toList then some .available
  else if value = "no_corpus".toList then some .noCorpus
  else if value = "failed".toList then some .failed
  else none

inductive NowSectionErrorCode where
  | forbidden
  | unavailable
  | invalidData
  | limitExceeded
  | countsUnavailable
  deriving DecidableEq

def NowSectionErrorCode.asStr : NowSectionErrorCode → Str
  | .forbidden => "forbidden".toList
  | .unavailable => "unavailable".toList
  | .invalidData => "invalid_data".toList
  | .limitExceeded => "limit_exceeded".toList
  | .countsUnavailable => "counts_unavailable".toList

def NowSectionErrorCode.tryFrom (value : Str) : Option NowSectionErrorCode :=
  if value = "forbidden".toList then some .forbidden
  else if value = "unavailable".toList then some .unavailable
  else if value = "invalid_data".toList then some .invalidData
  else if value = "limit_exceeded".toList then some .limitExceeded
  else if value = "counts_unavailable".toList then some .countsUnavailable
  else none

/-! ### Rows -/

structure NowTaskData where
  id : Str
  sessionId : Str
  title : Str
  owner : Str
  leaseExpiresAt : Str
  updatedAt : Str

structure NowSessionData where
  id : Str
  title : Str
  owner : Str
  leaseExpiresAt : Str
  updatedAt : Str
  completedTasks : UInt64
  totalTasks : UInt64

structure NowMemoryData where
  id : Str
  title : Str
  updatedBy : Str
  updatedAt : Str

structure NowKnowledgeData where
  slug : Str
  title : Str
  updatedAt : Option Str

structure NowSectionData (T : Type) where
  availability : NowSectionAvailability
  items : List T
  total : Option UInt64
  hasMore : Option Bool
  error : Option NowSectionErrorCode

structure NowSectionsData where
  tasks : NowSectionData NowTaskData
  sessions : NowSectionData NowSessionData
  memories : NowSectionData NowMemoryData
  knowledge : NowSectionData NowKnowledgeData

structure RawSnapshot where
  projectId : Str
  generatedAt : Str
  sections : NowSectionsData

/-! ### Validation -/

def safeCountMax : Nat := 9007199254740991

def million : Int := 1000000

def maxMillisecondsNs : Int := (2 ^ 64 - 1) * million

/-- `str::parse::<i128>`: a sign and at least one digit, without an overflow. -/
def parseI128 (value : Str) : Option Int :=
  let (negative, digits) := match value with
    | '-' :: rest => (true, rest)
    | '+' :: rest => (false, rest)
    | _ => (false, value)
  let magnitude : Nat := digits.foldl (fun n c => 10 * n + (c.toNat - '0'.toNat)) 0
  let n : Int := if negative then -magnitude else magnitude
  if digits.isEmpty || !digits.all Char.isDigit || decide (n < -2 ^ 127) || decide (2 ^ 127 ≤ n) then
    none
  else some n

def decimal (value : Str) : Option Int :=
  (parseI128 value).filter fun n => (toString n).toList == value

def milliseconds (value : Str) : Option Int :=
  (decimal value).filter fun n =>
    decide (0 ≤ n) && decide (n ≤ maxMillisecondsNs) && decide (n % million = 0)

def exactTitle (value : Str) : Bool := !value.isEmpty && trim value == value

def validSlug (value : Str) : Bool :=
  !value.isEmpty && !"..".toList.isPrefixOf value && !(value.contains '/' || value.contains '\\') &&
    !value.any isControl

def timeLt : Option Int → Option Int → Bool
  | none, some _ => true
  | some a, some b => decide (a < b)
  | _, none => false

section Ordered

variable {T : Type} (id : T → Str) (timestamp : T → Option (Option Int)) (validate : T → Bool)

/-- The loop of `ordered`: the ids that were seen, and the time and id of the row before. -/
def RawSnapshot.orderedFrom : List Str → Option (Option Int × Str) → List T → Bool
  | _, _, [] => true
  | ids, previous, row :: rest =>
    match timestamp row with
    | none => false
    | some time =>
      if !validate row || ids.contains (id row) then false
      else if previous.any fun p =>
          timeLt p.1 time || (p.1 == time && !decide (p.2 < id row)) then false
      else orderedFrom (id row :: ids) (some (time, id row)) rest

def RawSnapshot.ordered (rows : List T) : Bool := orderedFrom id timestamp validate [] none rows

end Ordered

def NowSectionData.validate {T : Type} (s : NowSectionData T) : Bool :=
  match s.availability with
  | .available => s.total.any fun total =>
    decide (total.toNat ≤ safeCountMax) && s.items.length == min total.toNat 20 &&
      s.hasMore == some (decide (s.items.length < total.toNat)) && s.error.isNone
  | .noCorpus =>
    s.items.isEmpty && s.total == some 0 && s.hasMore == some false && s.error.isNone
  | .failed => s.items.isEmpty && s.total.isNone && s.hasMore.isNone && s.error.isSome

section Validate

variable (vendor : Vendor)

def actor (value : Str) : Bool :=
  byteLen value == 26 &&
    (vendor.ulid.fromString value).any fun identifier => vendor.ulid.arrayToStr identifier == value

def NowTaskData.validate (generated : Int) (row : NowTaskData) : Bool :=
  canonicalProjectId vendor row.id && canonicalProjectId vendor row.sessionId &&
    exactTitle row.title && actor vendor row.owner &&
    (milliseconds row.leaseExpiresAt).any fun n => decide (generated < n)

def NowSessionData.validate (generated : Int) (row : NowSessionData) : Bool :=
  canonicalProjectId vendor row.id && exactTitle row.title && actor vendor row.owner &&
    ((milliseconds row.leaseExpiresAt).any fun n => decide (generated < n)) &&
    decide (row.totalTasks.toNat ≤ safeCountMax) && decide (row.completedTasks ≤ row.totalTasks)

def NowMemoryData.validate (row : NowMemoryData) : Bool :=
  canonicalProjectId vendor row.id && !(trim row.title).isEmpty && actor vendor row.updatedBy

def NowKnowledgeData.timestamp (row : NowKnowledgeData) : Option (Option Int) :=
  match row.updatedAt with
  | some value =>
    ((decimal value).filter fun n => decide (-2 ^ 63 ≤ n) && decide (n < 2 ^ 63)).map some
  | none => some none

def RawSnapshot.validate (raw : RawSnapshot) : Bool :=
  match (decimal raw.generatedAt).filter fun n =>
      decide (0 ≤ n) && decide (n ≤ maxMillisecondsNs + million - 1) with
  | none => false
  | some generated =>
    canonicalProjectId vendor raw.projectId && raw.sections.tasks.validate &&
      raw.sections.sessions.validate && raw.sections.memories.validate &&
      raw.sections.knowledge.validate &&
      ordered NowTaskData.id (fun row => (milliseconds row.updatedAt).map some)
        (NowTaskData.validate vendor generated) raw.sections.tasks.items &&
      ordered NowSessionData.id (fun row => (milliseconds row.updatedAt).map some)
        (NowSessionData.validate vendor generated) raw.sections.sessions.items &&
      ordered NowMemoryData.id (fun row => (milliseconds row.updatedAt).map some)
        (NowMemoryData.validate vendor) raw.sections.memories.items &&
      ordered NowKnowledgeData.slug NowKnowledgeData.timestamp
        (fun row => validSlug row.slug) raw.sections.knowledge.items

@[ext]
structure NowSnapshotData extends RawSnapshot where
  valid : toRawSnapshot.validate vendor = true

end Validate

/-! ### Masks -/

namespace NowSectionData

variable {T : Type}

def forbid (_ : NowSectionData T) : NowSectionData T :=
  { availability := .failed
    items := []
    total := none
    hasMore := none
    error := some .forbidden }

def mask (read : Bool) (s : NowSectionData T) : NowSectionData T := if read then s else s.forbid

end NowSectionData

def RawSnapshot.maskSections (taskRead memoryRead knowledgeRead : Bool) (raw : RawSnapshot) :
    RawSnapshot :=
  { raw with
    sections :=
      { tasks := raw.sections.tasks.mask taskRead
        sessions := raw.sections.sessions.mask taskRead
        memories := raw.sections.memories.mask memoryRead
        knowledge := raw.sections.knowledge.mask knowledgeRead } }

theorem NowSectionData.validate_mask {T : Type} (read : Bool) {s : NowSectionData T}
    (h : s.validate = true) : (s.mask read).validate = true := by
  cases read with
  | true => exact h
  | false => rfl

theorem ordered_mask {T : Type} {id : T → Str} {timestamp : T → Option (Option Int)}
    {validate : T → Bool} (read : Bool) {s : NowSectionData T}
    (h : RawSnapshot.ordered id timestamp validate s.items = true) :
    RawSnapshot.ordered id timestamp validate (s.mask read).items = true := by
  cases read with
  | true => exact h
  | false => rfl

theorem RawSnapshot.validate_maskSections {vendor : Vendor} (task memory knowledge : Bool)
    {raw : RawSnapshot} (h : raw.validate vendor = true) :
    (raw.maskSections task memory knowledge).validate vendor = true := by
  unfold validate at h ⊢
  simp only [maskSections]
  split at h
  · cases h
  · next generated hgenerated =>
    simp only [Bool.and_eq_true] at h ⊢
    obtain ⟨⟨⟨⟨⟨⟨⟨⟨hid, htasks⟩, hsessions⟩, hmemories⟩, hknowledge⟩, hrows⟩, hrows'⟩, hrows''⟩,
      hrows'''⟩ := h
    exact ⟨⟨⟨⟨⟨⟨⟨⟨hid, NowSectionData.validate_mask _ htasks⟩,
      NowSectionData.validate_mask _ hsessions⟩, NowSectionData.validate_mask _ hmemories⟩,
      NowSectionData.validate_mask _ hknowledge⟩, ordered_mask _ hrows⟩, ordered_mask _ hrows'⟩,
      ordered_mask _ hrows''⟩, ordered_mask _ hrows'''⟩

namespace NowSnapshotData

variable {vendor : Vendor}

def maskSections (taskRead memoryRead knowledgeRead : Bool) (s : NowSnapshotData vendor) :
    NowSnapshotData vendor where
  toRawSnapshot := s.toRawSnapshot.maskSections taskRead memoryRead knowledgeRead
  valid := RawSnapshot.validate_maskSections _ _ _ s.valid

end NowSnapshotData

/-! ### The wire form -/

open Document

def fieldsOf (fields : List (String × Document)) : Document :=
  .obj (fields.map fun field => (field.1.toList, field.2))

def taskFields : List Str :=
  ["id", "session_id", "title", "owner", "lease_expires_at", "updated_at"].map String.toList

def NowTaskData.serialize (row : NowTaskData) : Document :=
  fieldsOf [("id", .str row.id), ("session_id", .str row.sessionId), ("title", .str row.title),
    ("owner", .str row.owner), ("lease_expires_at", .str row.leaseExpiresAt),
    ("updated_at", .str row.updatedAt)]

def NowTaskData.deserialize (doc : Document) : Option NowTaskData := do
  match ← doc.struct taskFields with
  | [id, sessionId, title, owner, leaseExpiresAt, updatedAt] =>
    return ⟨← id.asStr, ← sessionId.asStr, ← title.asStr, ← owner.asStr, ← leaseExpiresAt.asStr,
      ← updatedAt.asStr⟩
  | _ => none

def sessionFields : List Str :=
  ["id", "title", "owner", "lease_expires_at", "updated_at", "completed_tasks", "total_tasks"].map
    String.toList

def NowSessionData.serialize (row : NowSessionData) : Document :=
  fieldsOf [("id", .str row.id), ("title", .str row.title), ("owner", .str row.owner),
    ("lease_expires_at", .str row.leaseExpiresAt), ("updated_at", .str row.updatedAt),
    ("completed_tasks", .number row.completedTasks), ("total_tasks", .number row.totalTasks)]

def NowSessionData.deserialize (doc : Document) : Option NowSessionData := do
  match ← doc.struct sessionFields with
  | [id, title, owner, leaseExpiresAt, updatedAt, completedTasks, totalTasks] =>
    return ⟨← id.asStr, ← title.asStr, ← owner.asStr, ← leaseExpiresAt.asStr, ← updatedAt.asStr,
      ← completedTasks.asNumber, ← totalTasks.asNumber⟩
  | _ => none

def memoryFields : List Str := ["id", "title", "updated_by", "updated_at"].map String.toList

def NowMemoryData.serialize (row : NowMemoryData) : Document :=
  fieldsOf [("id", .str row.id), ("title", .str row.title), ("updated_by", .str row.updatedBy),
    ("updated_at", .str row.updatedAt)]

def NowMemoryData.deserialize (doc : Document) : Option NowMemoryData := do
  match ← doc.struct memoryFields with
  | [id, title, updatedBy, updatedAt] =>
    return ⟨← id.asStr, ← title.asStr, ← updatedBy.asStr, ← updatedAt.asStr⟩
  | _ => none

def knowledgeFields : List Str := ["slug", "title", "updated_at"].map String.toList

def NowKnowledgeData.serialize (row : NowKnowledgeData) : Document :=
  fieldsOf [("slug", .str row.slug), ("title", .str row.title),
    ("updated_at", row.updatedAt.elim .null .str)]

def NowKnowledgeData.deserialize (doc : Document) : Option NowKnowledgeData := do
  match ← doc.struct knowledgeFields with
  | [slug, title, updatedAt] =>
    return ⟨← slug.asStr, ← title.asStr, ← updatedAt.nullable asStr⟩
  | _ => none

def sectionFields : List Str :=
  ["availability", "items", "total", "has_more", "error"].map String.toList

def availabilityOf (doc : Document) : Option NowSectionAvailability :=
  doc.asStr.bind NowSectionAvailability.tryFrom

def errorCodeOf (doc : Document) : Option NowSectionErrorCode :=
  doc.asStr.bind NowSectionErrorCode.tryFrom

def NowSectionData.serialize {T : Type} (write : T → Document) (s : NowSectionData T) : Document :=
  fieldsOf [("availability", .str s.availability.asStr), ("items", .arr (s.items.map write)),
    ("total", s.total.elim .null .number), ("has_more", s.hasMore.elim .null .bool),
    ("error", s.error.elim .null fun code => .str code.asStr)]

def NowSectionData.deserialize {T : Type} (read : Document → Option T) (doc : Document) :
    Option (NowSectionData T) := do
  match ← doc.struct sectionFields with
  | [availability, items, total, hasMore, error] =>
    return ⟨← availabilityOf availability, ← items.listOf read, ← total.nullable asNumber,
      ← hasMore.nullable asBool, ← error.nullable errorCodeOf⟩
  | _ => none

def sectionsFields : List Str := ["tasks", "sessions", "memories", "knowledge"].map String.toList

def NowSectionsData.serialize (s : NowSectionsData) : Document :=
  fieldsOf [("tasks", s.tasks.serialize NowTaskData.serialize),
    ("sessions", s.sessions.serialize NowSessionData.serialize),
    ("memories", s.memories.serialize NowMemoryData.serialize),
    ("knowledge", s.knowledge.serialize NowKnowledgeData.serialize)]

def NowSectionsData.deserialize (doc : Document) : Option NowSectionsData := do
  match ← doc.struct sectionsFields with
  | [tasks, sessions, memories, knowledge] =>
    return ⟨← NowSectionData.deserialize NowTaskData.deserialize tasks,
      ← NowSectionData.deserialize NowSessionData.deserialize sessions,
      ← NowSectionData.deserialize NowMemoryData.deserialize memories,
      ← NowSectionData.deserialize NowKnowledgeData.deserialize knowledge⟩
  | _ => none

def snapshotFields : List Str := ["project_id", "generated_at", "sections"].map String.toList

def RawSnapshot.serialize (raw : RawSnapshot) : Document :=
  fieldsOf [("project_id", .str raw.projectId), ("generated_at", .str raw.generatedAt),
    ("sections", raw.sections.serialize)]

def RawSnapshot.deserialize (doc : Document) : Option RawSnapshot := do
  match ← doc.struct snapshotFields with
  | [projectId, generatedAt, sections] =>
    return ⟨← projectId.asStr, ← generatedAt.asStr, ← NowSectionsData.deserialize sections⟩
  | _ => none

/-- What is used of `serde_json`: the text of a document, its length in bytes, and reading a text,
which gives the document back unless it is nested deeper than the reader goes. -/
structure JsonCodec where
  Text : Type
  print : Document → Text
  len : Text → Nat
  parse : Text → Option Document
  parse_print : ∀ doc : Document, doc.Within 127 → parse (print doc) = some doc

namespace NowSnapshotData

variable {vendor : Vendor}

def deserialize (doc : Document) : Option (NowSnapshotData vendor) := do
  let raw ← RawSnapshot.deserialize doc
  if h : raw.validate vendor = true then return ⟨raw, h⟩ else none

def decode (codec : JsonCodec) (bytes : codec.Text) (snapshotBytes : Nat) :
    Except NowSnapshotDataError (NowSnapshotData vendor) :=
  if snapshotBytes < codec.len bytes then .error .readLimitExceeded
  else match (codec.parse bytes).bind deserialize with
    | none => .error .invalidData
    | some data => .ok data

end NowSnapshotData

end GraphitBroker
