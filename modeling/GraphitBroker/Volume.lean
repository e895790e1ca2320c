import GraphitBroker.FilesystemSession
import GraphitBroker.Lib.Base64

/-!
# The volume of the filesystem store

What the store keeps on disk (`filesystem_store.rs`, `filesystem_multipart.rs`): a tree of payloads, a
tree of metadata files with the same layout, and one directory for each multipart upload. Staging
directories hold nothing that is published and belong to one request, so they are not part of it.
`Mutation` lists what the store ever does to the volume; a directory of the trees is never removed.
-/

namespace GraphitBroker

abbrev Path := List Str

def pathOf (key : Str) : Path := key.splitOn '/'

theorem pathOf_injective : Function.Injective pathOf := SepPath.splitOn_injective

def ancestors (path : Path) : List Path :=
  (List.range (path.length - 1)).map fun n => path.take (n + 1)

theorem mem_ancestors {path a : Path} : a ∈ ancestors path ↔ a ≠ [] ∧ a <+: path ∧ a ≠ path := by
  simp only [ancestors, List.mem_map, List.mem_range]
  constructor
  · rintro ⟨n, hn, rfl⟩
    have hlength : (path.take (n + 1)).length = n + 1 := by
      rw [List.length_take]
      omega
    refine ⟨fun hnil => ?_, List.take_prefix _ _, fun heq => ?_⟩
    · simp [hnil] at hlength
    · rw [heq] at hlength
      omega
  · rintro ⟨hne, hpre, hproper⟩
    have hpos := List.length_pos_of_ne_nil hne
    have hlt : a.length < path.length :=
      lt_of_le_of_ne hpre.length_le fun heq => hproper (hpre.eq_of_length heq)
    refine ⟨a.length - 1, by omega, ?_⟩
    rw [Nat.sub_add_cancel hpos]
    exact (List.prefix_iff_eq_take.mp hpre).symm

inductive Node (α : Type) where
  | dir
  | file (content : α)
  deriving DecidableEq

/-- A directory tree: its nodes by path, in no particular order. What lies above a node is a
directory. -/
structure Tree (α : Type) where
  nodes : AList fun _ : Path => Node α
  closed : ∀ path ∈ nodes, ∀ a ∈ ancestors path, nodes.lookup a = some .dir

namespace Tree

variable {α : Type}

def empty : Tree α := ⟨∅, fun path hpath => absurd hpath (AList.notMem_empty path)⟩

def lookup (tree : Tree α) (path : Path) : Option (Node α) := tree.nodes.lookup path

def fileAt (tree : Tree α) (path : Path) : Option α :=
  match tree.lookup path with
  | some (.file content) => some content
  | _ => none

def isDir (tree : Tree α) (path : Path) : Bool :=
  match tree.lookup path with
  | some .dir => true
  | _ => false

theorem isDir_iff {tree : Tree α} {path : Path} :
    tree.isDir path = true ↔ tree.lookup path = some .dir := by
  unfold isDir
  split <;> simp_all

def entries (tree : Tree α) (path : Path) : List (Str × Bool) :=
  tree.nodes.keys.filterMap fun p =>
    match p.getLast? with
    | some name => if p.dropLast = path then some (name, tree.isDir p) else none
    | none => none

theorem mem_entries {tree : Tree α} {path : Path} {name : Str} {isDir : Bool} :
    (name, isDir) ∈ tree.entries path ↔
      (tree.lookup (path ++ [name])).isSome = true ∧ tree.isDir (path ++ [name]) = isDir := by
  have hkeys : ∀ p, p ∈ tree.nodes.keys ↔ (tree.lookup p).isSome = true := fun p =>
    AList.lookup_isSome.symm
  simp only [entries, List.mem_filterMap, hkeys]
  constructor
  · rintro ⟨p, hp, hentry⟩
    split at hentry
    · rename_i last hlast
      split_ifs at hentry with hpath
      obtain ⟨rfl, rfl⟩ := Prod.mk.inj (Option.some.inj hentry)
      rw [← hpath, List.dropLast_append_getLast? _ hlast]
      exact ⟨hp, rfl⟩
    · cases hentry
  · rintro ⟨hp, rfl⟩
    exact ⟨path ++ [name], hp, by simp⟩

def hasParent (tree : Tree α) (path : Path) : Bool := (ancestors path).all tree.isDir

def canMake (tree : Tree α) (path : Path) : Bool :=
  tree.hasParent path && (tree.lookup path).isNone

def canWrite (tree : Tree α) (path : Path) : Bool :=
  tree.hasParent path && !tree.isDir path

/-- A node may be put below directories, if it does not take the place of one. -/
theorem closed_insert (tree : Tree α) {path : Path} (node : Node α)
    (hparent : tree.hasParent path = true) (hplace : tree.isDir path = false) :
    ∀ p ∈ tree.nodes.insert path node, ∀ a ∈ ancestors p,
      (tree.nodes.insert path node).lookup a = some .dir := by
  intro p hp a ha
  have hdir : tree.nodes.lookup a = some .dir := by
    rcases (AList.mem_insert _).mp hp with rfl | hp
    · exact isDir_iff.mp (List.all_eq_true.mp hparent a ha)
    · exact tree.closed p hp a ha
  have hne : a ≠ path := by
    rintro rfl
    rw [isDir_iff.mpr hdir] at hplace
    exact Bool.noConfusion hplace
  rw [AList.lookup_insert_ne hne, hdir]

theorem closed_erase (tree : Tree α) {path : Path} (hfile : tree.isDir path = false) :
    ∀ p ∈ tree.nodes.erase path, ∀ a ∈ ancestors p,
      (tree.nodes.erase path).lookup a = some .dir := by
  intro p hp a ha
  have hdir := tree.closed p (AList.mem_erase.mp hp).2 a ha
  have hne : a ≠ path := by
    rintro rfl
    rw [isDir_iff.mpr hdir] at hfile
    exact Bool.noConfusion hfile
  rw [AList.lookup_erase_ne hne, hdir]

theorem isDir_eq_false_of_canMake {tree : Tree α} {path : Path} (h : tree.canMake path = true) :
    tree.isDir path = false := by
  rw [canMake, Bool.and_eq_true, Option.isNone_iff_eq_none] at h
  rw [isDir, h.2]

def makeDir (tree : Tree α) (path : Path) : Tree α :=
  if h : tree.canMake path = true then
    ⟨tree.nodes.insert path .dir, tree.closed_insert .dir (Bool.and_eq_true _ _ ▸ h).1
      (isDir_eq_false_of_canMake h)⟩
  else tree

def write (tree : Tree α) (path : Path) (content : α) : Tree α :=
  if h : tree.canWrite path = true then
    ⟨tree.nodes.insert path (.file content), tree.closed_insert (.file content)
      (Bool.and_eq_true _ _ ▸ h).1 (Bool.not_eq_true' _ ▸ (Bool.and_eq_true _ _ ▸ h).2)⟩
  else tree

def remove (tree : Tree α) (path : Path) : Tree α :=
  if h : tree.isDir path = false then ⟨tree.nodes.erase path, tree.closed_erase h⟩ else tree

/-- Where the directory of a path is missing there is no file. -/
theorem fileAt_eq_none_of_not_isDir {tree : Tree α} {path a : Path} (ha : a ∈ ancestors path)
    (hdir : tree.isDir a = false) : tree.fileAt path = none := by
  unfold fileAt
  split
  · rename_i content hlookup
    have hmem : path ∈ tree.nodes := AList.lookup_isSome.mp (by
      rw [show tree.nodes.lookup path = _ from hlookup]
      rfl)
    rw [isDir_iff.mpr (tree.closed path hmem a ha)] at hdir
    exact Bool.noConfusion hdir
  · rfl

@[simp]
theorem fileAt_makeDir (tree : Tree α) (path p : Path) :
    (tree.makeDir path).fileAt p = tree.fileAt p := by
  unfold makeDir
  split_ifs with h
  · by_cases hp : p = path
    · subst hp
      rw [canMake, Bool.and_eq_true, Option.isNone_iff_eq_none, lookup] at h
      simp [fileAt, lookup, h.2]
    · simp [fileAt, lookup, AList.lookup_insert_ne hp]
  · rfl

theorem fileAt_write {tree : Tree α} {path : Path} (content : α)
    (h : tree.canWrite path = true) (p : Path) :
    (tree.write path content).fileAt p = if p = path then some content else tree.fileAt p := by
  rw [write, dif_pos h]
  split_ifs with hp
  · subst hp
    simp [fileAt, lookup]
  · simp [fileAt, lookup, AList.lookup_insert_ne hp]

theorem fileAt_write_ne (tree : Tree α) {path p : Path} (content : α) (hp : p ≠ path) :
    (tree.write path content).fileAt p = tree.fileAt p := by
  by_cases h : tree.canWrite path = true
  · rw [fileAt_write content h, if_neg hp]
  · rw [write, dif_neg h]

theorem fileAt_remove (tree : Tree α) (path p : Path) :
    (tree.remove path).fileAt p = if p = path then none else tree.fileAt p := by
  unfold remove
  split_ifs with h hp hp
  · subst hp
    simp [fileAt, lookup]
  · simp [fileAt, lookup, AList.lookup_erase_ne hp]
  · subst hp
    rw [Bool.not_eq_false] at h
    rw [fileAt, isDir_iff.mp h]
  · rfl

end Tree

/-- A published or staged payload: its bytes and its modification time in nanoseconds. -/
structure Payload where
  bytes : Bytes
  modified : Int
  deriving DecidableEq

/-- The `derived` part of a metadata file. -/
structure Derived where
  etag : Str
  size : Nat
  modified : Int
  deriving DecidableEq

structure Metadata where
  contentType : Option Str
  derived : Option Derived
  deriving DecidableEq

structure Manifest where
  bucket : Str
  key : Str
  contentType : Option Str
  created : Nat
  lastProgress : Nat
  deriving DecidableEq

structure Upload where
  manifest : Option Manifest
  parts : Option (AList fun _ : Nat => Payload)

structure Volume where
  data : Tree Payload
  metadata : Tree Metadata
  uploads : AList fun _ : Str => Upload

inductive Area where
  | data
  | metadata
  deriving DecidableEq, Repr

inductive UploadEntry where
  | manifest
  | part (number : Nat)
  | parts
  deriving DecidableEq, Repr

inductive Mutation where
  | makeDir (area : Area) (path : Path)
  | writeData (key : Str) (payload : Payload)
  | writeMetadata (key : Str) (metadata : Metadata)
  | removeData (key : Str)
  | removeMetadata (key : Str)
  | makeUpload (id : Str)
  | makeParts (id : Str)
  | writePart (id : Str) (number : Nat) (payload : Payload)
  | writeManifest (id : Str) (manifest : Manifest)
  | trimUpload (id : Str) (removed : List UploadEntry)
  | removeUpload (id : Str)

def Upload.trim (upload : Upload) (removed : List UploadEntry) : Upload where
  manifest := if .manifest ∈ removed then none else upload.manifest
  parts :=
    if .parts ∈ removed then none
    else upload.parts.map fun parts =>
      removed.foldl (fun parts entry =>
        match entry with
        | .part number => parts.erase number
        | _ => parts) parts

def Volume.modifyUpload (v : Volume) (id : Str) (f : Upload → Upload) : Volume :=
  match v.uploads.lookup id with
  | none => v
  | some upload => { v with uploads := v.uploads.insert id (f upload) }

def Mutation.apply (m : Mutation) (v : Volume) : Volume :=
  match m with
  | .makeDir .data path => { v with data := v.data.makeDir path }
  | .makeDir .metadata path => { v with metadata := v.metadata.makeDir path }
  | .writeData key payload => { v with data := v.data.write (pathOf key) payload }
  | .writeMetadata key metadata => { v with metadata := v.metadata.write (pathOf key) metadata }
  | .removeData key => { v with data := v.data.remove (pathOf key) }
  | .removeMetadata key => { v with metadata := v.metadata.remove (pathOf key) }
  | .makeUpload id => { v with uploads := v.uploads.insert id ⟨none, none⟩ }
  | .makeParts id => v.modifyUpload id fun upload => { upload with parts := some ∅ }
  | .writePart id number payload => v.modifyUpload id fun upload =>
    { upload with parts := upload.parts.map (·.insert number payload) }
  | .writeManifest id manifest => v.modifyUpload id fun upload =>
    { upload with manifest := some manifest }
  | .trimUpload id removed => v.modifyUpload id (·.trim removed)
  | .removeUpload id => { v with uploads := v.uploads.erase id }

/-! ### Third-party code and configuration -/

/-- What the store calls: SHA-256, the check of header values, the guess of a content type from a
name, and the sizes of the JSON texts it writes. -/
structure StoreVendor where
  sha256 : Bytes → Digest
  headerValue : Str → Bool
  mimeGuess : Str → Str
  metadataSize : Metadata → Nat
  manifestSize : Manifest → Nat

structure FilesystemStoreConfig where
  bucket : Str
  maxObjectBytes : Nat
  metadataBytes : Nat

structure FilesystemStore where
  vendor : StoreVendor
  config : FilesystemStoreConfig

/-! ### Describing an object -/

def etag (hash : Digest) : Str := '\"' :: hexEncode hash.val ++ ['\"']

def validEtag (s : Str) : Bool :=
  byteLen s == 66 && s.head? == some '\"' && s.getLast? == some '\"' &&
    ((s.drop 1).take 64).all fun c =>
      c.isDigit || ('a' ≤ c && c ≤ 'f') || ('A' ≤ c && c ≤ 'F')

structure FilesystemObjectInfo where
  size : Nat
  etag : Str
  contentType : Str
  modified : Int
  deriving DecidableEq

namespace FilesystemStore

variable (store : FilesystemStore)

def header (s : Str) : Bool := !s.isEmpty && store.vendor.headerValue s

def shard (key : Str) : Nat := ((store.vendor.sha256 (utf8 key)).val.headD 0).toNat

def contentTypeOf (key : Str) (contentType : Option Str) : Str :=
  contentType.getD (store.vendor.mimeGuess key)

/-- The recorded ETag, if it was recorded for a payload of this size and time. A time before the epoch
has no JSON form. -/
def cachedEtag (payload : Payload) (metadata : Option Metadata) : Option Str :=
  (metadata.bind (·.derived)).bind fun derived =>
    if 0 ≤ payload.modified ∧ validEtag derived.etag = true ∧
        derived.size = payload.bytes.length ∧ derived.modified = payload.modified then
      some derived.etag
    else none

def etagOf (payload : Payload) (metadata : Option Metadata) : Str :=
  (cachedEtag payload metadata).getD (etag (store.vendor.sha256 payload.bytes))

def infoOf (key : Str) (payload : Payload) (metadata : Option Metadata) : FilesystemObjectInfo where
  size := payload.bytes.length
  etag := store.etagOf payload metadata
  contentType := store.contentTypeOf key (metadata.bind (·.contentType))
  modified := payload.modified

end FilesystemStore

/-! ### Uploads -/

def uploadId (id : Str) : Bool :=
  byteLen id == 43 && (Base64.decode id).any fun bytes => bytes.length == 32

def uploadLock (id : Str) : Str := "multipart:".toList ++ id

/-! ### Conditions -/

structure FilesystemConditions where
  ifMatch : Option Str
  ifNoneMatch : Option Str

def condition (value : Str) (current : Option Str) : Bool :=
  ((value.splitOn ',').map trim).any fun v =>
    if v = "*".toList then current.isSome else validEtag v && current == some v

/-- `FilesystemConditions::check`. -/
def FilesystemConditions.holds (conditions : FilesystemConditions) (current : Option Str) : Bool :=
  !(conditions.ifMatch.any (fun v => !condition v current) ||
    conditions.ifNoneMatch.any (fun v => condition v current))

end GraphitBroker
