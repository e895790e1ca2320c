import GraphitBroker.FilesystemStore
import GraphitBroker.Lib.ExceptList

/-!
# Uploads with checksums

The reader that the gateway puts between the body of an upload and the store (`DigestReader` of
`filesystem_gateway.rs`): it counts and hashes what passes through, and at the end of the body compares
the length, the checksums of the headers and those of the trailers. The loop of `prepare` reads the body
through it.
-/

namespace GraphitBroker

open Steps ExceptList

inductive ChecksumAlgorithm where
  | crc32
  | crc32c
  | crc64nvme
  | md5
  | sha1
  | sha256
  | sha512
  | xxhash64
  | xxhash3
  | xxhash128
  deriving DecidableEq, Repr

namespace ChecksumAlgorithm

def all : List ChecksumAlgorithm :=
  [crc32, crc32c, crc64nvme, md5, sha1, sha256, sha512, xxhash64, xxhash3, xxhash128]

def name : ChecksumAlgorithm → Str
  | crc32 => "crc32".toList
  | crc32c => "crc32c".toList
  | crc64nvme => "crc64nvme".toList
  | md5 => "md5".toList
  | sha1 => "sha1".toList
  | sha256 => "sha256".toList
  | sha512 => "sha512".toList
  | xxhash64 => "xxhash64".toList
  | xxhash3 => "xxhash3".toList
  | xxhash128 => "xxhash128".toList

def header (a : ChecksumAlgorithm) : Str := "x-amz-checksum-".toList ++ a.name

def ofHeader (h : Str) : Option ChecksumAlgorithm := all.find? fun a => h == a.header

end ChecksumAlgorithm

inductive S3ErrorCode where
  | invalidRequest
  | invalidArgument
  | notImplemented
  | entityTooLarge
  | incompleteBody
  | badDigest
  deriving DecidableEq, Repr

abbrev HeaderMap := List (Str × Bytes)

def HeaderMap.getAll (headers : HeaderMap) (name : Str) : List Bytes :=
  (headers.filter fun line => line.1 == name).map Prod.snd

/-- `HeaderValue::to_str`. -/
def headerText (value : Bytes) : Option Str :=
  if value.all fun b => (32 ≤ b && b < 127) || b == 9 then
    some (value.map fun b => Char.ofNat b.toNat)
  else none

/-- The hash functions: what they have taken in depends on the concatenation only. -/
structure ChecksumCrate where
  State : Type
  new : ChecksumAlgorithm → State
  update : State → Bytes → State
  finalize : State → Str
  update_nil : ∀ s, update s [] = s
  update_append : ∀ s a b, update (update s a) b = update s (a ++ b)

def ChecksumCrate.digest (crate : ChecksumCrate) (a : ChecksumAlgorithm) (bytes : Bytes) : Str :=
  crate.finalize (crate.update (crate.new a) bytes)

inductive DigestKey where
  | checksum (a : ChecksumAlgorithm)
  | contentMd5
  deriving DecidableEq, Repr

def DigestKey.algorithm : DigestKey → ChecksumAlgorithm
  | checksum a => a
  | contentMd5 => .md5

def DigestKey.all : List DigestKey := .contentMd5 :: ChecksumAlgorithm.all.map .checksum

abbrev ExpectedDigests := DigestKey → Option Str

abbrev Checksum := ChecksumAlgorithm → Option Str

structure DigestReader (crate : ChecksumCrate) where
  expected : ExpectedDigests
  trailers : Option HeaderMap
  declared : List ChecksumAlgorithm
  hasher : ChecksumAlgorithm → Option crate.State
  length : Option Nat
  read : Nat

namespace DigestReader

def text (value : Bytes) : Except S3ErrorCode Str :=
  match headerText value with
  | some t => .ok t
  | none => .error .invalidRequest

def headerDigests (headers : HeaderMap) :
    List ChecksumAlgorithm → ExpectedDigests → Except S3ErrorCode ExpectedDigests
  | [], expected => .ok expected
  | a :: rest, expected =>
    match headers.getAll a.header with
    | [] => headerDigests headers rest expected
    | [value] => do
      let t ← text value
      headerDigests headers rest (Function.update expected (.checksum a) (some t))
    | _ => .error .invalidRequest

/-- The loop over the names in `x-amz-trailer`. -/
def declaredTrailers (expected : ExpectedDigests) :
    List Str → List ChecksumAlgorithm → Except S3ErrorCode (List ChecksumAlgorithm)
  | [], declared => .ok declared
  | h :: rest, declared =>
    match ChecksumAlgorithm.ofHeader h with
    | none => .error .notImplemented
    | some a =>
      if (expected (.checksum a)).isSome || declared.contains a then .error .invalidRequest
      else declaredTrailers expected rest (declared ++ [a])

/-- The value of `content-md5`, if there is one. -/
def contentMd5 (headers : HeaderMap) (expected : ExpectedDigests) :
    Except S3ErrorCode ExpectedDigests :=
  match headers.getAll "content-md5".toList with
  | [] => .ok expected
  | value :: _ => do
    let t ← text value
    return Function.update expected .contentMd5 (some t)

/-- The names listed in `x-amz-trailer`. -/
def trailerNames (headers : HeaderMap) : Except S3ErrorCode (List Str) :=
  match headers.getAll "x-amz-trailer".toList with
  | [] => .ok []
  | value :: _ => do
    let t ← text value
    return (t.splitOn ',').map trim

def requested (expected : ExpectedDigests) (declared : List ChecksumAlgorithm)
    (a : ChecksumAlgorithm) : Bool :=
  (expected (.checksum a)).isSome || declared.contains a ||
    (a == .md5 && (expected .contentMd5).isSome)

def declaredLength : Option Int → Except S3ErrorCode (Option Nat)
  | none => .ok none
  | some n => if n < 0 then .error .invalidArgument else .ok (some n.toNat)

/-- `DigestReader::new`; `trailers` is what there is to take at the end of the body. -/
def new (crate : ChecksumCrate) (headers : HeaderMap) (trailers : Option HeaderMap)
    (length : Option Int) : Except S3ErrorCode (DigestReader crate) := do
  let expected ← headerDigests headers ChecksumAlgorithm.all fun _ => none
  ExceptList.failIf (1 < (headers.getAll "content-md5".toList).length ∨
    1 < (headers.getAll "x-amz-trailer".toList).length) .invalidRequest
  let expected ← contentMd5 headers expected
  let names ← trailerNames headers
  let declared ← declaredTrailers expected names []
  let length ← declaredLength length
  return {
    expected, trailers, declared, length
    hasher := fun a => if requested expected declared a then some (crate.new a) else none
    read := 0 }

variable {crate : ChecksumCrate}

def feed (reader : DigestReader crate) (chunk : Bytes) : Except S3ErrorCode (DigestReader crate) :=
  if 2 ^ 64 ≤ reader.read + chunk.length then .error .entityTooLarge
  else .ok { reader with
    read := reader.read + chunk.length
    hasher := fun a => (reader.hasher a).map fun s => crate.update s chunk }

def trailerDigests (headers : HeaderMap) :
    List ChecksumAlgorithm → ExpectedDigests → Except S3ErrorCode ExpectedDigests
  | [], expected => .ok expected
  | a :: rest, expected =>
    match headers.getAll a.header with
    | [value] => do
      let t ← text value
      trailerDigests headers rest (Function.update expected (.checksum a) (some t))
    | _ => .error .invalidRequest

def allExpected (reader : DigestReader crate) : Except S3ErrorCode ExpectedDigests :=
  if reader.declared.isEmpty then .ok reader.expected
  else
    match reader.trailers with
    | none => .error .invalidRequest
    | some headers => trailerDigests headers reader.declared reader.expected

def finish (reader : DigestReader crate) : Except S3ErrorCode Checksum := do
  ExceptList.failIf (reader.length.any (fun n => n != reader.read) = true) .incompleteBody
  let expected ← reader.allExpected
  let actual : Checksum := fun a => (reader.hasher a).map crate.finalize
  ExceptList.failIf ((DigestKey.all.all fun key => (expected key).all fun v =>
    actual key.algorithm == some v) = false) .badDigest
  return fun a => if a == .md5 && (expected (.checksum .md5)).isNone then none else actual a

end DigestReader

namespace FilesystemStore

variable (store : FilesystemStore) (caller : Caller) {crate : ChecksumCrate}

def digestStep {α : Type} (r : Except S3ErrorCode α) : FsProg α :=
  .ofExcept (r.mapError fun _ => .io .other)

/-- The loop of `prepare` over a body behind a `DigestReader`: what was staged, and the checksums. -/
def digestDrain (reader : DigestReader crate) (staged : Bytes) : Nat → Bytes → FsProg (Bytes × Checksum)
  | skip + 1, _ :: rest => digestDrain reader staged skip rest
  | _, [] => do
    let _ ← .perform (.read 0)
    let checksum ← digestStep reader.finish
    return (staged, checksum)
  | 0, b :: rest => do
    let count ← .perform (.read (rest.length + 1))
    let chunk := (b :: rest).take count
    let reader ← digestStep (reader.feed chunk)
    failIf (store.config.maxObjectBytes < staged.length + count) .tooLarge
    ioStep
    caller.checked
    digestDrain reader (staged ++ chunk) (count - 1) rest

/-- A body behind a `DigestReader`. -/
def digestBody (reader : DigestReader crate) (bytes : Bytes) : FsProg Bytes := do
  let staged ← store.digestDrain caller reader [] 0 bytes
  return staged.1

/-- `put` with a body behind a `DigestReader`. -/
def putDigested (key : Str) (reader : DigestReader crate) (body : Bytes)
    (options : FilesystemPutOptions) : FsProg FilesystemObjectInfo := do
  store.authorize caller .write key
  settled caller (fun _ => true) do
    let prepared ← store.prepare caller key (store.digestBody caller reader body)
      options.contentType options.expectedDigest
    store.locked caller key (store.publishLocked caller key prepared options.conditions)

end FilesystemStore

end GraphitBroker
