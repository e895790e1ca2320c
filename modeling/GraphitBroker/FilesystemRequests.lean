import GraphitBroker.FilesystemMultipart

/-!
# Requests of the filesystem store

The requests that change the store as one type, with the program each of them runs, and what the store
is for: a map from keys to objects and a map of live uploads.
-/

namespace GraphitBroker

open Steps

inductive StoreRequest where
  | put (key : Str) (body : Bytes) (options : FilesystemStore.FilesystemPutOptions)
  | copy (source target : Str) (sourceConditions targetConditions : FilesystemConditions)
  | delete (key : Str) (ifMatch : Option Str)
  | deleteBatch (keys : List Str) (quiet : Bool)
  | createUpload (key : Str) (contentType : Option Str)
  | uploadPart (key id : Str) (number : Int) (body : Bytes)
  | completeUpload (key id : Str) (parts : List FilesystemCompletedPart)
      (conditions : FilesystemConditions)
  | abortUpload (key id : Str)

inductive StoreResponse where
  | object (info : FilesystemObjectInfo)
  | part (info : FilesystemPartInfo)
  | upload (id : Str)
  | batch (results : List FilesystemStore.FilesystemDeleteResult)
  | done

def StoreRequest.program (store : FilesystemStore) (caller : Caller) :
    StoreRequest → FsProg StoreResponse
  | .put key body options => (store.put caller key body options).bind fun info =>
    .pure (.object info)
  | .copy source target sourceConditions targetConditions =>
    (store.copy caller source target sourceConditions targetConditions).bind fun info =>
      .pure (.object info)
  | .delete key ifMatch => (store.deleteInner caller key ifMatch).bind fun _ => .pure .done
  | .deleteBatch keys quiet => (store.deleteBatch caller keys quiet).bind fun results =>
    .pure (.batch results)
  | .createUpload key contentType => (store.createUpload caller key contentType).bind fun id =>
    .pure (.upload id)
  | .uploadPart key id number body => (store.uploadPart caller key id number body).bind fun info =>
    .pure (.part info)
  | .completeUpload key id parts conditions =>
    (store.completeUpload caller key id parts conditions).bind fun info => .pure (.object info)
  | .abortUpload key id => (store.abortUpload caller key id).bind fun _ => .pure .done

/-- A request that runs alone. The choices of the environment decide at each step what fails, what
time it is and whether the request was cancelled. -/
def StoreRequest.run (store : FilesystemStore) (caller : Caller) (request : StoreRequest)
    (choices : Nat → FsChoice) (v : Volume) :
    Machine.Outcome FilesystemStoreError Volume Nat Mutation StoreResponse :=
  fsMachine.run (request.program store caller) choices ⟨[], []⟩ v

namespace Sample

def smallStore : FilesystemStore where
  vendor := ⟨fun _ => ⟨List.replicate 32 7, rfl⟩, fun _ => true, fun _ => [], fun _ => 0, fun _ => 0⟩
  config := ⟨"objects".toList, 64, 64⟩

def smallCaller : Caller where
  session := ⟨"objects".toList, fun _ => [['a']], 9, 9, by intro op; cases op <;> decide⟩
  deadline := 9

def cancelledFrom (limit step : Nat) : FsChoice :=
  ⟨⟨0, some 0, 0⟩, decide (limit ≤ step), false, 1, 0, some 0, none, []⟩

end Sample

/-! ### What the store holds -/

structure StoredObject where
  bytes : Bytes
  contentType : Str
  deriving DecidableEq

/-- A live upload as its owner sees it: the key it is for, and the bytes of its parts. -/
structure LiveUpload where
  key : Str
  parts : Nat → Option Bytes

namespace FilesystemStore

variable (store : FilesystemStore)

def object (v : Volume) (key : Str) : Option StoredObject :=
  (v.data.fileAt (pathOf key)).map fun payload =>
    ⟨payload.bytes, store.contentTypeOf key ((v.metadata.fileAt (pathOf key)).bind (·.contentType))⟩

end FilesystemStore

def Volume.bytesAt (v : Volume) (key : Str) : Option Bytes :=
  (v.data.fileAt (pathOf key)).map (·.bytes)

def Upload.live (upload : Upload) : Option LiveUpload :=
  upload.manifest.map fun manifest =>
    ⟨manifest.key, fun number => (upload.parts.bind (·.lookup number)).map (·.bytes)⟩

def Volume.liveUpload (v : Volume) (id : Str) : Option LiveUpload :=
  (v.uploads.lookup id).bind (·.live)

def FilesystemStore.joined (store : FilesystemStore) (v : Volume) (id : Str) :
    List FilesystemCompletedPart → Option Bytes
  | [] => some []
  | part :: rest =>
    ((FsOp.partsOf v id).bind (·.lookup part.number.toNat)).bind fun payload =>
      if etag (store.vendor.sha256 payload.bytes) = part.etag then
        (FilesystemStore.joined store v id rest).map (payload.bytes ++ ·)
      else none

end GraphitBroker
