import GraphitBroker.FilesystemStore

/-!
# Multipart uploads, copies and batches

The requests of `filesystem_multipart.rs`, and those of `filesystem_listing.rs` that change the store.
An upload is live while its directory holds a manifest; a request that works on an upload holds the
shard of the upload.
-/

namespace GraphitBroker

open Steps

def maxPart : Int := 10000

def abandonedSeconds : Nat := 24 * 60 * 60

structure FilesystemPartInfo where
  number : Int
  etag : Str
  size : Nat
  modified : Int
  deriving DecidableEq

structure FilesystemCompletedPart where
  number : Int
  etag : Str
  deriving DecidableEq

namespace FilesystemStore

variable (store : FilesystemStore) (caller : Caller)

def uploadDirectory (id : Str) : FsProg Unit := do
  failIf (uploadId id = false) .noSuchUpload
  (Prog.perform (.openUpload id)).mapError (notFoundAs .noSuchUpload)

def readUploadManifest (id : Str) : FsProg Manifest := do
  let state ← (Prog.perform (.openManifest id)).mapError (notFoundAs .noSuchUpload)
  ioStep
  ioStep
  failIf (store.config.metadataBytes < store.vendor.manifestSize state) .invalidMetadata
  failIf (state.bucket ≠ store.config.bucket ∨ validKey state.key = false ∨
      state.lastProgress < state.created ∨
      state.contentType.any (fun s => !store.header s) = true)
    .invalidMetadata
  return state

def currentUpload (key id : Str) : FsProg Manifest := do
  uploadDirectory id
  let manifest ← store.readUploadManifest id
  failIf (manifest.key ≠ key) .noSuchUpload
  return manifest

def manifestBytes (state : Manifest) : FsProg Unit :=
  failIf (store.config.metadataBytes < store.vendor.manifestSize state) .invalidMetadata

def writeUploadManifest (id : Str) (state : Manifest) : FsProg Unit := do
  store.manifestBytes state
  ioStep
  ioStep
  ioStep
  ioStep
  .perform (.renameManifest id state)
  (do ioStep; ioStep : FsProg Unit).mapError uncertain

def removeUpload (id : Str) : FsProg Unit := do
  .perform (.removeUpload id)
  ioStep

def pruneUpload (id : Str) (now : Nat) : FsProg Unit := do
  match ← (uploadDirectory id).attempt with
  | .error .noSuchUpload => return ()
  | .error e => .throw e
  | .ok () =>
    match ← (store.readUploadManifest id).attempt with
    | .ok state =>
      if abandonedSeconds ≤ now - state.lastProgress then removeUpload id else return ()
    | .error .noSuchUpload => removeUpload id
    | .error e => .throw e

def pruneEach (now : Nat) : List Str → FsProg Unit
  | [] => return ()
  | id :: rest => do
    caller.checked
    ioStep
    failIf (uploadId id = false) .invalidMetadata
    store.locked caller (uploadLock id) (store.pruneUpload id now)
    pruneEach now rest

def pruneMultipartCurrent : FsProg Unit := do
  let now ← .perform .seconds
  let ids ← .perform .uploadIds
  store.pruneEach caller now ids

/-- What `create_upload` does once the directory of the upload exists. -/
def publishUpload (id : Str) (state : Manifest) : FsProg Unit := do
  let created ← .perform (.createParts id)
  if created then ioStep
  .perform (.openParts id)
  caller.checked
  store.writeUploadManifest id state
  ioStep.mapError uncertain
  caller.checked.mapError uncertain

def createLocked (id : Str) (state : Manifest) : FsProg Str := do
  .perform (.createUpload id)
  uploadDirectory id
  match ← (store.publishUpload caller id state).attempt with
  | .ok () => return id
  | .error e => do
    if e.isUncertain then .throw e
    else do
      (removeUpload id).mapError uncertain
      .throw e

def createUpload (key : Str) (contentType : Option Str) : FsProg Str := do
  store.authorize caller .write key
  settled caller (fun _ => true) do
    failIf (contentType.any (fun s => !store.header s) = true) .invalidMetadata
    let now ← .perform .seconds
    let state : Manifest := ⟨store.config.bucket, key, contentType, now, now⟩
    store.manifestBytes state
    store.pruneMultipartCurrent caller
    let random ← .perform .random
    let id := Base64.encode random.val
    store.locked caller (uploadLock id) (store.createLocked caller id state)

def publishPart (id : Str) (state : Manifest) : FsProg Unit := do
  ioStep
  let now ← .perform .seconds
  store.writeUploadManifest id { state with lastProgress := max now state.created }
  caller.checked
  ioStep

def partLocked (key id : Str) (number : Int) (prepared : PreparedObject) :
    FsProg FilesystemPartInfo := do
  let state ← store.currentUpload key id
  .perform (.openParts id)
  ioStep
  caller.checked
  .perform (.renamePart id number.toNat prepared.payload)
  (store.publishPart caller id state).mapError uncertain
  return ⟨number, prepared.info.etag, prepared.info.size, prepared.info.modified⟩

def uploadPart (key id : Str) (number : Int) (body : Bytes) : FsProg FilesystemPartInfo := do
  store.authorize caller .write key
  settled caller (fun _ => true) do
    failIf (¬ (1 ≤ number ∧ number ≤ maxPart)) .invalidArgument
    failIf (uploadId id = false) .noSuchUpload
    let initial ← store.locked caller (uploadLock id) (store.currentUpload key id)
    let prepared ← store.prepare caller key (store.plainBody caller body) initial.contentType none
    store.locked caller (uploadLock id) (store.partLocked caller key id number prepared)

/-- `PartsReader`: the parts one after the other, each compared with its ETag at its end. -/
def partsBody (id : Str) : Nat → List FilesystemCompletedPart → FsProg Bytes
  | _, [] => return []
  | size, part :: rest => do
    let payload ← (Prog.perform (.openPart id part.number.toNat)).mapError
      (notFoundAs (.io .invalidPartBody))
    ioStep
    let size ← store.drain caller size 0 payload.bytes
    failIf (etag (store.vendor.sha256 payload.bytes) ≠ part.etag) (.io .invalidPartBody)
    let bytes ← partsBody id size rest
    return payload.bytes ++ bytes

def checkParts (previous : Int) : List FilesystemCompletedPart → Except FilesystemStoreError Unit
  | [] => .ok ()
  | part :: rest =>
    if ¬ (1 ≤ part.number ∧ part.number ≤ maxPart) ∨ validEtag part.etag = false then
      .error .invalidPart
    else if part.number ≤ previous then .error .invalidPartOrder
    else checkParts part.number rest

def invalidPartBody : FilesystemStoreError → FilesystemStoreError
  | .io .invalidPartBody => .invalidPart
  | e => e

def completeLocked (key id : Str) (parts : List FilesystemCompletedPart)
    (conditions : FilesystemConditions) : FsProg FilesystemObjectInfo := do
  let state ← store.currentUpload key id
  .perform (.openParts id)
  let prepared ← (store.prepare caller key (store.partsBody caller id 0 parts) state.contentType
    none).mapError invalidPartBody
  let info ← store.publishLocked caller key prepared conditions
  (removeUpload id).mapError uncertain
  caller.checked.mapError uncertain
  return info

def completeUpload (key id : Str) (parts : List FilesystemCompletedPart)
    (conditions : FilesystemConditions) : FsProg FilesystemObjectInfo := do
  store.authorize caller .write key
  settled caller (fun _ => true) do
    failIf (uploadId id = false) .noSuchUpload
    failIf (parts.isEmpty = true) .invalidPart
    .ofExcept (checkParts 0 parts)
    store.lockedBoth caller (uploadLock id) key (store.completeLocked caller key id parts conditions)

def abortLocked (key id : Str) : FsProg Unit := do
  let _ ← store.currentUpload key id
  caller.checked
  (removeUpload id).mapError uncertain
  caller.checked.mapError uncertain

def abortUpload (key id : Str) : FsProg Unit := do
  store.authorize caller .write key
  settled caller (fun _ => true) do
    failIf (uploadId id = false) .noSuchUpload
    store.locked caller (uploadLock id) (store.abortLocked caller key id)

/-! ### Copies and batches -/

def copyLocked (source target : Str) (sourceConditions targetConditions : FilesystemConditions) :
    FsProg FilesystemObjectInfo := do
  let file ← dataFile source
  let info ← store.describe caller source file
  checkConditions sourceConditions (some info.etag)
  let prepared ← store.prepare caller target (store.plainBody caller file.bytes)
    (some info.contentType) none
  store.publishLocked caller target prepared targetConditions

def copy (source target : Str) (sourceConditions targetConditions : FilesystemConditions) :
    FsProg FilesystemObjectInfo := do
  store.authorize caller .read source
  store.authorize caller .write target
  settled caller (fun _ => true)
    (store.lockedBoth caller source target
      (store.copyLocked caller source target sourceConditions targetConditions))

structure FilesystemDeleteResult where
  key : Str
  result : Except FilesystemStoreError Unit

def interruptedBatch (results : List FilesystemDeleteResult) (cause : FilesystemStoreError)
    (processed : Bool) : FilesystemStoreError :=
  match results.findSome? fun entry =>
      match entry.result with
      | .error (.commitUncertain e) => some (FilesystemStoreError.commitUncertain e)
      | _ => none with
  | some error => error
  | none => if processed then .commitUncertain cause else cause

def mayHaveRemoved : Except FilesystemStoreError Unit → Bool
  | .ok () => true
  | .error e => e.isUncertain

def deleteEach (quiet : Bool) (results : List FilesystemDeleteResult) (processed : Bool) :
    List Str → FsProg (List FilesystemDeleteResult)
  | [] => do
    caller.checked.mapError (interruptedBatch results · processed)
    return results
  | key :: rest => do
    caller.checked.mapError (interruptedBatch results · processed)
    let result ← (store.deleteInner caller key none).attempt
    deleteEach quiet
      (if !quiet || !result.isOk then results ++ [⟨key, result⟩] else results)
      (processed || mayHaveRemoved result) rest

def deleteBatch (keys : List Str) (quiet : Bool) : FsProg (List FilesystemDeleteResult) := do
  caller.checked
  failIf (caller.session.bucket ≠ store.config.bucket) .forbidden
  store.deleteEach caller quiet [] false keys

end FilesystemStore

end GraphitBroker
