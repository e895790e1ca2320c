import GraphitBroker.FilesystemStore
import GraphitBroker.Lib.JsonText
import GraphitBroker.Lib.Sorted

/-!
# Listing the filesystem store

`FilesystemStore::list` of `filesystem_listing.rs`: a walk over the directories of payloads that keeps
the smallest candidates after a marker, and pages that end in a token for the next. Keys are ASCII, so
their bytes are their characters, and the order of characters is that of bytes.
-/

namespace GraphitBroker

open Steps

inductive FilesystemListEncoding where
  | plain
  | url
  deriving DecidableEq

structure FilesystemListRequest where
  keyPrefix : Str
  delimiter : Option Str
  startAfter : Option Str
  continuationToken : Option Str
  maxKeys : Option Int
  encoding : FilesystemListEncoding

structure FilesystemListedObject where
  key : Str
  info : FilesystemObjectInfo
  deriving DecidableEq

structure FilesystemListPage where
  objects : List FilesystemListedObject
  commonPrefixes : List Str
  keyCount : Nat
  isTruncated : Bool
  nextToken : Option Str
  deriving DecidableEq

/-! ### Cursors -/

structure Cursor where
  keyPrefix : Str
  delimiter : Option Str
  marker : Str
  deriving DecidableEq

namespace Cursor

def toJson (cursor : Cursor) : Document :=
  .obj [("prefix".toList, .str cursor.keyPrefix),
    ("delimiter".toList, cursor.delimiter.elim .null .str),
    ("marker".toList, .str cursor.marker)]

def bytes (cursor : Cursor) : Bytes := utf8 cursor.toJson.render

def token (cursor : Cursor) : Str := Base64.encode cursor.bytes

def Canonical (cursor : Cursor) : Prop :=
  (∀ c ∈ cursor.keyPrefix, keyChar c = true) ∧ (∀ c ∈ cursor.marker, keyChar c = true) ∧
    cursor.delimiter.all (· = "/".toList) = true

end Cursor

/-- The parser of cursors, `serde_json::from_slice`. It reads what it is given back from
`serde_json::to_vec`. -/
structure CursorParser where
  parse : Bytes → Option Cursor
  parse_bytes : ∀ cursor : Cursor, cursor.Canonical → parse cursor.bytes = some cursor

def maximumCursor : Nat :=
  ((Cursor.mk (List.replicate 1024 'a') (some "/".toList) (List.replicate 1024 'a')).bytes.length + 2)
    / 3 * 4

def prefixKey (s : Str) : Str := (stripSuffixChar '/' s).getD s

/-! ### Candidates -/

structure Candidate where
  key : Str
  common : Bool
  deriving DecidableEq

def Candidate.order (candidate : Candidate) : Str ×ₗ Bool := toLex (candidate.key, candidate.common)

theorem Candidate.order_injective : Function.Injective Candidate.order := by
  intro a b h
  have hpair : (a.key, a.common) = (b.key, b.common) := toLex.injective h
  cases a
  cases b
  simpa using hpair

instance : LinearOrder Candidate := LinearOrder.lift' Candidate.order Candidate.order_injective

structure Selection where
  keyPrefix : Str
  delimiter : Bool
  marker : Str
  limit : Nat

namespace Selection

variable (selection : Selection)

def candidate (key : Str) : Candidate :=
  if selection.delimiter then
    match (key.drop selection.keyPrefix.length).idxOf? '/' with
    | some position => ⟨key.take (selection.keyPrefix.length + position + 1), true⟩
    | none => ⟨key, false⟩
  else ⟨key, false⟩

def add (candidates : SortedSet Candidate) (candidate : Candidate) : SortedSet Candidate :=
  if candidate.key ≤ selection.marker then candidates
  else if selection.limit < (candidates.insert candidate).size then
    (candidates.insert candidate).popLast
  else candidates.insert candidate

variable (caller : Caller)

def pruned (parent key : Str) : FsProg Bool :=
  if (key ++ ['/']).isPrefixOf selection.keyPrefix then return false
  else do
    let above ← FilesystemStore.allowed caller .read parent
    if above then return false
    else do
      let here ← FilesystemStore.allowed caller .read key
      return !here

/-- An entry that is not passed over; `descend` walks a directory. -/
def enter (descend : Path → Str → SortedSet Candidate → FsProg (SortedSet Candidate)) (path : Path)
    (key : Str) (isDir : Bool) (candidates : SortedSet Candidate) : FsProg (SortedSet Candidate) := do
  failIf (validKey key = false) .invalidKey
  ioStep
  if isDir then do
    .perform (.openDir .data path)
    descend path key candidates
  else if selection.keyPrefix.isPrefixOf key = false then return candidates
  else do
    let readable ← FilesystemStore.allowed caller .read key
    failIf (readable = false) .forbidden
    return selection.add candidates (selection.candidate key)

def visit (descend : Path → Str → SortedSet Candidate → FsProg (SortedSet Candidate)) (path : Path)
    (parent : Str) (entry : Str × Bool) (candidates : SortedSet Candidate) :
    FsProg (SortedSet Candidate) := do
  caller.checked
  ioStep
  let key := if parent.isEmpty then entry.1 else parent ++ '/' :: entry.1
  if (key ++ ['/']).isPrefixOf selection.keyPrefix = false ∧ selection.keyPrefix.isPrefixOf key = false
  then return candidates
  else do
    let skip ← selection.pruned caller parent key
    if skip then return candidates
    else selection.enter caller descend (path ++ [entry.1]) key entry.2 candidates

def visitAll (descend : Path → Str → SortedSet Candidate → FsProg (SortedSet Candidate)) (path : Path)
    (parent : Str) : List (Str × Bool) → SortedSet Candidate → FsProg (SortedSet Candidate)
  | [], candidates => return candidates
  | entry :: rest, candidates => do
    let candidates ← selection.visit caller descend path parent entry candidates
    visitAll descend path parent rest candidates

/-- `Selection::walk`, with the depth it may still descend. A canonical key has at most 1024 segments,
and only directories at canonical keys are entered. -/
def walk : Nat → Path → Str → SortedSet Candidate → FsProg (SortedSet Candidate)
  | 0, _, _, _ => .throw .invalidKey
  | depth + 1, path, parent, candidates => do
    let entries ← .perform (.entries path)
    selection.visitAll caller (walk depth) path parent entries candidates

end Selection

def walkDepth : Nat := 1025

/-! ### Pages -/

/-- `form_urlencoded::byte_serialize`. -/
def byteSerialize (bytes : Bytes) : Str :=
  bytes.flatMap fun b =>
    let c := Char.ofNat b.toNat
    if c.isAlphanum || "*-._".toList.contains c then [c]
    else if c = ' ' then ['+']
    else '%' :: (hexEncode [b]).map Char.toUpper

def encoded (value : Str) : FilesystemListEncoding → Str
  | .plain => value
  | .url => replace "%2F".toList "/".toList
      (replace "+".toList "%20".toList (byteSerialize (utf8 value)))

def maximumKeys : Option Int → Except FilesystemStoreError Nat
  | none => .ok 1000
  | some value =>
    if value = 0 then .ok 1000
    else if 1 ≤ value ∧ value ≤ 1000 then .ok value.toNat
    else .error .invalidArgument

namespace FilesystemStore

variable (store : FilesystemStore) (caller : Caller)

def head (key : Str) : FsProg FilesystemObjectInfo := do
  store.authorize caller .read key
  let result ← (store.locked caller key do
    let file ← dataFile key
    store.describe caller key file).attempt
  caller.checked
  .ofExcept result

variable (parser : CursorParser)

def tokenCursor (maximum : Nat) (input : FilesystemListRequest) (token : Str) : FsProg Cursor := do
  failIf (maximum < byteLen token) .invalidArgument
  match (Base64.decode token).bind parser.parse with
  | none => .throw .invalidArgument
  | some cursor => do
    failIf (cursor.keyPrefix ≠ input.keyPrefix ∨ cursor.delimiter ≠ input.delimiter ∨
      1024 < byteLen cursor.marker ∨ validKey (prefixKey cursor.marker) = false ∨
        input.keyPrefix.isPrefixOf cursor.marker = false) .invalidArgument
    let readable ← allowed caller .read (prefixKey cursor.marker)
    failIf (readable = false) .invalidArgument
    return cursor

def continuation (input : FilesystemListRequest) : FsProg (Option Cursor) :=
  match input.continuationToken with
  | none => return none
  | some token => do
    let cursor ← tokenCursor caller parser maximumCursor input token
    return some cursor

def emit (encoding : FilesystemListEncoding) :
    List Candidate → FsProg (List FilesystemListedObject × List Str)
  | [] => return ([], [])
  | candidate :: rest =>
    if candidate.common then do
      let shown ← emit encoding rest
      return (shown.1, encoded candidate.key encoding :: shown.2)
    else do
      let info ← store.head caller candidate.key
      let shown ← emit encoding rest
      return (⟨encoded candidate.key encoding, info⟩ :: shown.1, shown.2)

def nextToken (input : FilesystemListRequest) (truncated : Bool) (candidates : SortedSet Candidate) :
    Except FilesystemStoreError (Option Str) :=
  if truncated then
    match candidates.toList.getLast? with
    | none => .error .invalidArgument
    | some last => .ok (some (Cursor.mk input.keyPrefix input.delimiter last.key).token)
  else .ok none

def listPage (input : FilesystemListRequest) : FsProg FilesystemListPage := do
  failIf (1024 < byteLen input.keyPrefix ∨ input.delimiter.any (· ≠ "/".toList) = true)
    .invalidArgument
  let maximum ← .ofExcept (maximumKeys input.maxKeys)
  let cursor ← continuation caller parser input
  let marker := ((cursor.map (·.marker)).or input.startAfter).getD []
  failIf (marker ≠ [] ∧ (1024 < byteLen marker ∨ validKey (prefixKey marker) = false))
    .invalidArgument
  let found ← (Selection.mk input.keyPrefix input.delimiter.isSome marker (maximum + 1)).walk caller
    walkDepth [] [] .empty
  let truncated := decide (maximum < found.size)
  let candidates := if truncated then found.popLast else found
  let token ← .ofExcept (nextToken input truncated candidates)
  let shown ← store.emit caller input.encoding candidates.toList
  return ⟨shown.1, shown.2, candidates.size, truncated, token⟩

def list (input : FilesystemListRequest) : FsProg FilesystemListPage := do
  store.authorize caller .read (prefixKey input.keyPrefix)
  let result ← (store.listPage caller parser input).attempt
  caller.checked
  .ofExcept result

end FilesystemStore

end GraphitBroker
