import GraphitBroker.Volume
import GraphitBroker.Lib.Steps

/-!
# The filesystem store

The requests of `filesystem_store.rs` as programs of atomic steps. A published payload is never
written in place, so an open file is its payload; directories of the trees are never removed, so a
directory handle is a path. Every step may fail; what a failed step leaves behind is that of the file
system, nothing for a rename or an unlink.
-/

namespace GraphitBroker

open Steps

inductive IoError where
  | notFound
  | alreadyExists
  | invalidPartBody
  | other
  deriving DecidableEq, Repr

inductive FilesystemStoreError where
  | invalidConfiguration
  | volumeBusy
  | invalidKey
  | forbidden
  | notFound
  | invalidRange
  | invalidArgument
  | noSuchUpload
  | invalidPart
  | invalidPartOrder
  | crypto
  | invalidMetadata
  | precondition
  | badDigest
  | tooLarge
  | cancelled
  | session (error : FilesystemSessionError)
  | io (error : IoError)
  | commitUncertain (cause : FilesystemStoreError)
  deriving DecidableEq, Repr

def FilesystemStoreError.isUncertain : FilesystemStoreError → Bool
  | .commitUncertain _ => true
  | _ => false

/-- A request as its session and deadline; its cancellation is up to the environment. -/
structure Caller where
  session : VerifiedFilesystemSession
  deadline : Nat

/-! ### Steps -/

inductive FsOp : Type → Type where
  /-- `FilesystemRequest::check`. -/
  | check (caller : Caller) : FsOp Unit
  /-- The check of the session inside `allows`. -/
  | live (session : VerifiedFilesystemSession) : FsOp Bool
  /-- A step that leaves the volume as it is: staging, syncing, seeking, reading attributes. -/
  | io : FsOp Unit
  /-- A read of a file or a body with so many bytes left. -/
  | read (left : Nat) : FsOp Nat
  /-- The modification time of a staged file. -/
  | modified : FsOp Int
  | seconds : FsOp Nat
  /-- Waiting for a shard, with its checks. -/
  | acquire (caller : Caller) (shard : Nat) : FsOp Unit
  | release (shard : Nat) : FsOp Unit
  | openDir (area : Area) (path : Path) : FsOp Unit
  /-- `create_store_dir`; false if there is something already. -/
  | createDir (area : Area) (path : Path) : FsOp Bool
  /-- The entries of a directory of payloads, each with whether it is a directory. -/
  | entries (path : Path) : FsOp (List (Str × Bool))
  | openData (key : Str) : FsOp (Node Payload)
  | openMetadata (key : Str) : FsOp (Node Metadata)
  /-- `symlink_metadata`: whether there is a file. -/
  | stat (area : Area) (key : Str) : FsOp Bool
  | renamePayload (key : Str) (payload : Payload) : FsOp Unit
  | renameMetadata (key : Str) (metadata : Metadata) : FsOp Unit
  | removeData (key : Str) : FsOp Unit
  | removeMetadata (key : Str) : FsOp Unit
  | uploadIds : FsOp (List Str)
  | random : FsOp Digest
  | createUpload (id : Str) : FsOp Unit
  | openUpload (id : Str) : FsOp Unit
  | createParts (id : Str) : FsOp Bool
  | openManifest (id : Str) : FsOp Manifest
  | openParts (id : Str) : FsOp Unit
  /-- The entries of the directory of parts, whose names are the decimal part numbers. -/
  | partNumbers (id : Str) : FsOp (List Nat)
  | openPart (id : Str) (number : Nat) : FsOp Payload
  | renamePart (id : Str) (number : Nat) (payload : Payload) : FsOp Unit
  | renameManifest (id : Str) (manifest : Manifest) : FsOp Unit
  | removeUpload (id : Str) : FsOp Unit

structure FsChoice where
  clock : SessionClock
  cancelled : Bool
  failed : Bool
  chunk : Nat
  modified : Int
  seconds : Option Nat
  random : Option Digest
  removed : List UploadEntry

abbrev FsProg := Prog FsOp FilesystemStoreError

abbrev FsAnswer (α : Type) := Except FilesystemStoreError α × Option Mutation

/-- `FilesystemRequest::check`. -/
def Caller.check (caller : Caller) (choice : FsChoice) : Except FilesystemStoreError Unit :=
  match caller.session.check choice.clock caller.deadline with
  | .error error => .error (.session error)
  | .ok () => if choice.cancelled then .error .cancelled else .ok ()

def chunkSize (left chunk : Nat) : Nat := min left (max 1 (min chunk 16384))

namespace FsOp

def silent {α : Type} (answer : Except FilesystemStoreError α) : FsAnswer α := (answer, none)

def found {α : Type} : Option α → Except FilesystemStoreError α
  | some value => .ok value
  | none => .error (.io .notFound)

def mutating {α : Type} (accepted : Bool) (value : α) (mutation : Mutation) : FsAnswer α :=
  if accepted then (.ok value, some mutation) else (.error (.io .other), none)

def statOf {α : Type} (tree : Tree α) (path : Path) : Except FilesystemStoreError Bool :=
  match tree.lookup path with
  | some .dir => .error .invalidKey
  | some (.file _) => .ok true
  | none => .ok false

def openDirOf {α : Type} (tree : Tree α) (path : Path) : Except FilesystemStoreError Unit :=
  match tree.lookup path with
  | some .dir => .ok ()
  | some (.file _) => .error (.io .other)
  | none => .error (.io .notFound)

def createDirOf {α : Type} (tree : Tree α) (area : Area) (path : Path) : FsAnswer Bool :=
  if (tree.lookup path).isSome then silent (.ok false)
  else mutating (tree.canMake path) true (.makeDir area path)

def entriesOf {α : Type} (tree : Tree α) (path : Path) :
    Except FilesystemStoreError (List (Str × Bool)) :=
  if path = [] ∨ tree.isDir path then .ok (tree.entries path) else .error (.io .notFound)

def partsOf (v : Volume) (id : Str) : Option (AList fun _ : Nat => Payload) :=
  (v.uploads.lookup id).bind (·.parts)

def succeed {β : Type} (op : FsOp β) (choice : FsChoice) (v : Volume) : FsAnswer β :=
  match op with
  | .check caller => silent (caller.check choice)
  | .live session => silent (.ok (session.check choice.clock session.deadline).isOk)
  | .io => silent (.ok ())
  | .read left => silent (.ok (chunkSize left choice.chunk))
  | .modified => silent (.ok choice.modified)
  | .seconds => silent (match choice.seconds with
      | some now => .ok now
      | none => .error .invalidMetadata)
  | .acquire caller _ => silent (caller.check choice)
  | .release _ => silent (.ok ())
  | .openDir .data path => silent (openDirOf v.data path)
  | .openDir .metadata path => silent (openDirOf v.metadata path)
  | .createDir .data path => createDirOf v.data .data path
  | .createDir .metadata path => createDirOf v.metadata .metadata path
  | .entries path => silent (entriesOf v.data path)
  | .openData key => silent (found (v.data.lookup (pathOf key)))
  | .openMetadata key => silent (found (v.metadata.lookup (pathOf key)))
  | .stat .data key => silent (statOf v.data (pathOf key))
  | .stat .metadata key => silent (statOf v.metadata (pathOf key))
  | .renamePayload key payload =>
    mutating (v.data.canWrite (pathOf key)) () (.writeData key payload)
  | .renameMetadata key metadata =>
    mutating (v.metadata.canWrite (pathOf key)) () (.writeMetadata key metadata)
  | .removeData key => match v.data.lookup (pathOf key) with
      | none => silent (.error (.io .notFound))
      | some node => mutating (node matches .file _) () (.removeData key)
  | .removeMetadata key => match v.metadata.lookup (pathOf key) with
      | none => silent (.error (.io .notFound))
      | some node => mutating (node matches .file _) () (.removeMetadata key)
  | .uploadIds => silent (.ok v.uploads.keys)
  | .random => silent (match choice.random with
      | some bytes => .ok bytes
      | none => .error .crypto)
  | .createUpload id => match v.uploads.lookup id with
      | some _ => silent (.error (.io .alreadyExists))
      | none => (.ok (), some (.makeUpload id))
  | .openUpload id => silent ((found (v.uploads.lookup id)).map fun _ => ())
  | .createParts id => match v.uploads.lookup id with
      | none => silent (.error (.io .notFound))
      | some upload =>
        if upload.parts.isSome then silent (.ok false) else (.ok true, some (.makeParts id))
  | .openManifest id => silent (found ((v.uploads.lookup id).bind (·.manifest)))
  | .openParts id => silent ((found (partsOf v id)).map fun _ => ())
  | .partNumbers id => silent ((found (partsOf v id)).map (·.keys))
  | .openPart id number => silent (found ((partsOf v id).bind (·.lookup number)))
  | .renamePart id number payload =>
    mutating (partsOf v id).isSome () (.writePart id number payload)
  | .renameManifest id manifest =>
    mutating (v.uploads.lookup id).isSome () (.writeManifest id manifest)
  | .removeUpload id => mutating (v.uploads.lookup id).isSome () (.removeUpload id)

def fallible {β : Type} : FsOp β → Bool
  | .check _ | .live _ | .seconds | .acquire _ _ | .release _ | .random => false
  | _ => true

def leftover {β : Type} (op : FsOp β) (choice : FsChoice) : Option Mutation :=
  match op with
  | .removeUpload id => some (.trimUpload id choice.removed)
  | _ => none

def exec {β : Type} (op : FsOp β) (choice : FsChoice) (v : Volume) : FsAnswer β :=
  if choice.failed && op.fallible then (.error (.io .other), op.leftover choice)
  else op.succeed choice v

def acquires {β : Type} : FsOp β → Option Nat
  | .acquire _ shard => some shard
  | _ => none

def releases {β : Type} : FsOp β → Option Nat
  | .release shard => some shard
  | _ => none

end FsOp

def fsMachine : Machine FsOp FilesystemStoreError Volume Nat Mutation where
  Choice := FsChoice
  exec := FsOp.exec
  mutate := Mutation.apply
  acquires := FsOp.acquires
  releases := FsOp.releases

/-! ### Programs -/

/-- `request.check(session)?`. -/
def Caller.checked (caller : Caller) : FsProg Unit := .perform (.check caller)

def ioStep : FsProg Unit := .perform .io

/-- `if condition { return Err(error) }`. -/
def failIf (condition : Prop) [Decidable condition] (error : FilesystemStoreError) : FsProg Unit :=
  if condition then .throw error else .pure ()

/-- `map_err` of the `NotFound` kind. -/
def notFoundAs (error : FilesystemStoreError) : FilesystemStoreError → FilesystemStoreError
  | .io .notFound => error
  | e => e

/-- `uncertain`: an error after the commit. -/
def uncertain : FilesystemStoreError → FilesystemStoreError
  | .commitUncertain cause => .commitUncertain cause
  | e => .commitUncertain e

structure PreparedObject where
  payload : Payload
  metadata : Metadata
  info : FilesystemObjectInfo

namespace FilesystemStore

variable (store : FilesystemStore) (caller : Caller)

/-- `lock`, with what is done under it: the guard is dropped on every way out. -/
def locked {α : Type} (key : Str) (body : FsProg α) : FsProg α := do
  caller.checked
  .perform (.acquire caller (store.shard key))
  let outcome ← (do caller.checked; body : FsProg α).attempt
  .perform (.release (store.shard key))
  .ofExcept outcome

def lockedBoth {α : Type} (a b : Str) (body : FsProg α) : FsProg α :=
  let first := if store.shard a ≤ store.shard b then a else b
  let second := if store.shard a ≤ store.shard b then b else a
  store.locked caller first
    (if store.shard first ≠ store.shard second then store.locked caller second body else body)

/-- `VerifiedFilesystemSession::allows`. -/
def allowed (op : StorageOperation) (key : Str) : FsProg Bool :=
  if validKey key = false then return false
  else do
    let live ← .perform (.live caller.session)
    return live && caller.session.covered (VerifiedFilesystemSession.implying op) key

def authorize (op : StorageOperation) (key : Str) : FsProg Unit := do
  caller.checked
  failIf (caller.session.bucket ≠ store.config.bucket) .forbidden
  failIf (validKey key = false) .invalidKey
  let allows ← allowed caller op key
  failIf (allows = false) .forbidden

def ownedDir (area : Area) (path : Path) : FsProg Unit := do
  let created ← .perform (.createDir area path)
  if created then ioStep
  .perform (.openDir area path)

def openDirs (area : Area) (create : Bool) : List Path → FsProg Unit
  | [] => return ()
  | path :: rest => do
    if create then ownedDir area path
    else (Prog.perform (.openDir area path)).mapError (notFoundAs .notFound)
    openDirs area create rest

/-- `parent`; the name is the last of the path. -/
def parent (area : Area) (key : Str) (create : Bool) : FsProg Unit := do
  failIf (validKey key = false) .invalidKey
  ioStep
  openDirs area create (ancestors (pathOf key))

def dataFile (key : Str) : FsProg Payload := do
  parent .data key false
  let node ← (Prog.perform (.openData key)).mapError (notFoundAs .notFound)
  ioStep
  match node with
  | .dir => .throw .invalidKey
  | .file payload => return payload

def checkMetadata (metadata : Metadata) : FsProg (Option Metadata) := do
  failIf (store.config.metadataBytes < store.vendor.metadataSize metadata) .invalidMetadata
  failIf (metadata.contentType.any (fun s => !store.header s) = true) .invalidMetadata
  return some metadata

def metadata (key : Str) : FsProg (Option Metadata) := do
  match ← (parent .metadata key false).attempt with
  | .error .notFound => return none
  | .error e => .throw e
  | .ok () =>
    match ← (Prog.perform (.openMetadata key)).attempt with
    | .error (.io .notFound) => return none
    | .error e => .throw e
    | .ok node =>
      ioStep
      match node with
      | .dir => .throw .invalidMetadata
      | .file metadata => do
        ioStep
        store.checkMetadata metadata

def hashLoop : Nat → Bytes → FsProg Unit
  | skip + 1, _ :: rest => hashLoop skip rest
  | _, [] => do
    caller.checked
    let _ ← .perform (.read 0)
  | 0, _ :: rest => do
    caller.checked
    let count ← .perform (.read (rest.length + 1))
    hashLoop (count - 1) rest

def hashUncached (payload : Payload) (metadata : Option Metadata) : FsProg Unit :=
  if (cachedEtag payload metadata).isSome then return ()
  else do
    ioStep
    hashLoop caller 0 payload.bytes

def describe (key : Str) (payload : Payload) : FsProg FilesystemObjectInfo := do
  caller.checked
  ioStep
  let metadata ← store.metadata key
  hashUncached caller payload metadata
  ioStep
  caller.checked
  return store.infoOf key payload metadata

/-- The copy of an open file or a body into the staged payload: each chunk is counted and written, and
the request is checked before the next. Gives the size so far. -/
def drain (size : Nat) : Nat → Bytes → FsProg Nat
  | skip + 1, _ :: rest => drain size skip rest
  | _, [] => do
    let _ ← .perform (.read 0)
    return size
  | 0, _ :: rest => do
    let count ← .perform (.read (rest.length + 1))
    failIf (store.config.maxObjectBytes < size + count) .tooLarge
    ioStep
    caller.checked
    drain (size + count) (count - 1) rest

def plainBody (bytes : Bytes) : FsProg Bytes := do
  let _ ← store.drain caller 0 0 bytes
  return bytes

def validDigest (s : Str) : Bool :=
  byteLen s == 64 && s.all fun c => c.isDigit || ('a' ≤ c && c ≤ 'f') || ('A' ≤ c && c ≤ 'F')

def preparedMetadata (payload : Payload) (contentType : Option Str) : Metadata where
  contentType := contentType
  derived :=
    if 0 ≤ payload.modified then
      some ⟨etag (store.vendor.sha256 payload.bytes), payload.bytes.length, payload.modified⟩
    else none

/-- `prepare`, with the body as the program that stages it. -/
def prepare (key : Str) (body : FsProg Bytes) (contentType expectedDigest : Option Str) :
    FsProg PreparedObject := do
  caller.checked
  failIf (contentType.any (fun s => !store.header s) = true) .invalidMetadata
  failIf (expectedDigest.any (fun s => !validDigest s) = true) .badDigest
  failIf (store.config.metadataBytes < store.vendor.metadataSize ⟨contentType, none⟩)
    .invalidMetadata
  ioStep
  ioStep
  caller.checked
  let bytes ← body
  let hash := store.vendor.sha256 bytes
  failIf (expectedDigest.any (fun d => toAsciiLowercase d != hexEncode hash.val) = true) .badDigest
  ioStep
  let modified ← .perform .modified
  let payload : Payload := ⟨bytes, modified⟩
  let metadata := store.preparedMetadata payload contentType
  failIf (store.config.metadataBytes < store.vendor.metadataSize metadata) .invalidMetadata
  ioStep
  ioStep
  ioStep
  caller.checked
  return ⟨payload, metadata,
    ⟨bytes.length, etag hash, store.contentTypeOf key contentType, modified⟩⟩

def currentEtag (key : Str) : FsProg (Option Str) := do
  match ← (dataFile key).attempt with
  | .ok payload => do
    let info ← store.describe caller key payload
    return some info.etag
  | .error .notFound => return none
  | .error e => .throw e

/-- `FilesystemConditions::check`. -/
def checkConditions (conditions : FilesystemConditions) (current : Option Str) : FsProg Unit :=
  failIf (conditions.holds current = false) .precondition

def checkCurrent (key : Str) (conditions : FilesystemConditions) : FsProg Unit :=
  if conditions.ifMatch.isSome || conditions.ifNoneMatch.isSome then do
    let current ← store.currentEtag caller key
    checkConditions conditions current
  else return ()

def publishMetadata (key : Str) (prepared : PreparedObject) : FsProg Unit := do
  .perform (.renameMetadata key prepared.metadata)
  ioStep
  ioStep
  caller.checked
  ioStep

def publishLocked (key : Str) (prepared : PreparedObject) (conditions : FilesystemConditions) :
    FsProg FilesystemObjectInfo := do
  caller.checked
  store.checkCurrent caller key conditions
  parent .data key true
  parent .metadata key true
  let _ ← .perform (.stat .data key)
  let _ ← .perform (.stat .metadata key)
  caller.checked
  .perform (.renamePayload key prepared.payload)
  (publishMetadata caller key prepared).mapError .commitUncertain
  return prepared.info

/-- The last check of a request that changes the store: after a commit its error is uncertain, and it
never hides an uncertain error. -/
def settled {α : Type} (committed : α → Bool) (body : FsProg α) : FsProg α := do
  match ← body.attempt with
  | .ok value => do
    caller.checked.mapError fun e => if committed value then .commitUncertain e else e
    return value
  | .error e => do
    if e.isUncertain then .throw e
    else do
      caller.checked
      .throw e

structure FilesystemPutOptions where
  contentType : Option Str
  expectedDigest : Option Str
  conditions : FilesystemConditions

def put (key : Str) (body : Bytes) (options : FilesystemPutOptions) :
    FsProg FilesystemObjectInfo := do
  store.authorize caller .write key
  settled caller (fun _ => true) do
    let prepared ← store.prepare caller key (store.plainBody caller body) options.contentType
      options.expectedDigest
    store.locked caller key (store.publishLocked caller key prepared options.conditions)

def unlinkMetadata (key : Str) : FsProg Unit := do
  match ← (parent .metadata key false).attempt with
  | .ok () =>
    match ← (Prog.perform (.removeMetadata key)).attempt with
    | .ok () => ioStep
    | .error (.io .notFound) => return ()
    | .error e => .throw e
  | .error .notFound => return ()
  | .error e => .throw e

def removeMetadata (key : Str) : FsProg Unit := do
  unlinkMetadata key
  ioStep
  caller.checked

def deleteLocked (key : Str) (ifMatch : Option Str) : FsProg Bool := do
  store.checkCurrent caller key ⟨ifMatch, none⟩
  match ← (parent .data key false).attempt with
  | .error .notFound => return false
  | .error e => .throw e
  | .ok () =>
    let present ← .perform (.stat .data key)
    if present then do
      caller.checked
      .perform (.removeData key)
      (removeMetadata caller key).mapError .commitUncertain
      return true
    else return false

def deleteInner (key : Str) (ifMatch : Option Str) : FsProg Unit := do
  store.authorize caller .delete key
  let _ ← settled caller id (store.locked caller key (store.deleteLocked caller key ifMatch))

end FilesystemStore

end GraphitBroker
