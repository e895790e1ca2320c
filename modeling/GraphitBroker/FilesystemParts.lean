import GraphitBroker.FilesystemMultipart
import GraphitBroker.FilesystemListing

/-!
# Listing the parts of an upload

`list_parts` of `filesystem_multipart.rs`: the entries of the directory of parts come in any order, and
of the numbers after the marker only the smallest are kept, one more than a page shows.
-/

namespace GraphitBroker

open Steps

structure FilesystemPartsRequest where
  uploadId : Str
  marker : Option Int
  maxParts : Option Int

structure FilesystemPartsPage where
  parts : List FilesystemPartInfo
  isTruncated : Bool
  nextMarker : Option Int
  deriving DecidableEq

def maximumParts : Option Int → Except FilesystemStoreError Nat := maximumKeys

def addPart (marker : Int) (limit : Nat) (numbers : SortedSet Int) (number : Int) : SortedSet Int :=
  if number ≤ marker then numbers
  else if limit < (numbers.insert number).size then (numbers.insert number).popLast
  else numbers.insert number

namespace FilesystemStore

variable (store : FilesystemStore) (caller : Caller)

def describePart (id : Str) (number : Int) : FsProg FilesystemPartInfo := do
  let payload ← .perform (.openPart id number.toNat)
  ioStep
  hashLoop caller 0 payload.bytes
  ioStep
  return ⟨number, etag (store.vendor.sha256 payload.bytes), payload.bytes.length, payload.modified⟩

def collectParts (marker : Int) (limit : Nat) : List Nat → SortedSet Int → FsProg (SortedSet Int)
  | [], numbers => return numbers
  | entry :: rest, numbers => do
    caller.checked
    ioStep
    failIf ((entry : Int) < 1 ∨ maxPart < (entry : Int)) .invalidPart
    ioStep
    collectParts marker limit rest (addPart marker limit numbers entry)

def describeParts (id : Str) : List Int → FsProg (List FilesystemPartInfo)
  | [] => return []
  | number :: rest => do
    let info ← store.describePart caller id number
    let infos ← describeParts id rest
    return info :: infos

def partsLocked (key id : Str) (marker : Int) (maximum : Nat) : FsProg FilesystemPartsPage := do
  let _ ← store.currentUpload key id
  .perform (.openParts id)
  let entries ← .perform (.partNumbers id)
  let found ← collectParts caller marker (maximum + 1) entries .empty
  let truncated := decide (maximum < found.size)
  let numbers := if truncated then found.popLast else found
  let parts ← store.describeParts caller id numbers.toList
  return ⟨parts, truncated, if truncated then numbers.toList.getLast? else none⟩

def listParts (key : Str) (input : FilesystemPartsRequest) : FsProg FilesystemPartsPage := do
  store.authorize caller .write key
  let result ← Prog.attempt do
    failIf (uploadId input.uploadId = false) .noSuchUpload
    let marker := input.marker.getD 0
    failIf (marker < 0 ∨ maxPart < marker) .invalidArgument
    let maximum ← .ofExcept (maximumParts input.maxParts)
    store.locked caller (uploadLock input.uploadId)
      (store.partsLocked caller key input.uploadId marker maximum)
  caller.checked
  .ofExcept result

end FilesystemStore

end GraphitBroker
