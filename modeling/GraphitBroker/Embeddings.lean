import GraphitBroker.ControlDb
import GraphitBroker.RerankCache
import GraphitBroker.StorageScope

/-!
# The embeddings endpoint and its cache

A batch of texts is reduced to its distinct texts, the vectors of those are looked up in the cache, the
backend is asked for the others, and what it has completed is stored before the rows are put together
(`embeddings.rs`, `embeddings/provider.rs`, `embedding_cache.rs`). Vectors are opaque values with a
codec; what the surroundings decide during a request is gathered in `EmbeddingRun`.
-/

namespace GraphitBroker

open Framing ExceptList

inductive InputType where
  | query
  | document
  deriving DecidableEq

def InputType.asStr : InputType → Str
  | .query => "query".toList
  | .document => "document".toList

structure EmbeddingCacheLimits where
  dimensions : Nat
  maxEntries : Nat
  vectorJsonBytes : Nat
  metadataBytes : Nat

/-- What of the configuration and of the backend a request uses. No string in memory has `2 ^ 64`
bytes. -/
structure EmbeddingService where
  protocol : Str
  sourceIdentity : Str
  backendModel : Str
  revision : Str
  model : Str
  modelRevision : Str
  recipe : Str
  dimensions : Nat
  sendDimensions : Bool
  cacheLimits : EmbeddingCacheLimits
  fits : ∀ part ∈ [protocol, sourceIdentity, backendModel, revision, model, modelRevision, recipe,
    dimensions.repr.toList], byteLen part < 2 ^ 64

namespace EmbeddingService

variable (service : EmbeddingService)

def namespaceParts (input : InputType) : List Str :=
  ["graphit-embedding-cache-v1".toList, service.protocol, service.sourceIdentity,
    service.backendModel, service.revision, service.model, service.modelRevision, service.recipe,
    service.dimensions.repr.toList,
    if service.sendDimensions then "true".toList else "false".toList, input.asStr]

/-- The bytes that `namespace` hashes. -/
def namespaceBytes (input : InputType) : Bytes :=
  coded (beBytes 8) ((service.namespaceParts input).map utf8)

def compatibility (sha256 : Bytes → Digest) (input : InputType) : Digest :=
  sha256 (service.namespaceBytes input)

end EmbeddingService

/-! ### The cache -/

inductive EmbeddingCacheError where
  | invalidLimits
  | invalidInput
  | malformedStored
  | readLimitExceeded
  | control (error : ControlError)
  deriving DecidableEq

/-- Vectors, which have a number of dimensions and finite entries or not, and their JSON text. -/
structure VectorCodec (V : Type) where
  wellFormed : Nat → V → Bool
  encode : V → Str
  decode : Nat → Str → Option V
  decode_encode : ∀ n v, wellFormed n v = true → decode n (encode v) = some v

structure EmbeddingCacheProvenance where
  provider : Str
  revision : Str
  model : Str
  inputType : Str
  deriving DecidableEq

namespace EmbeddingCacheProvenance

/-- The loop of `validate`, with the bytes so far. -/
def validFrom (limit : Nat) : Nat → List Str → Bool
  | _, [] => true
  | bytes, value :: rest =>
    !(trim value).isEmpty && !value.contains '\x00' && decide (bytes + byteLen value ≤ limit) &&
      validFrom limit (bytes + byteLen value) rest

def valid (provenance : EmbeddingCacheProvenance) (limits : EmbeddingCacheLimits) : Bool :=
  validFrom limits.metadataBytes 0
      [provenance.provider, provenance.revision, provenance.model, provenance.inputType] &&
    (provenance.inputType == "query".toList || provenance.inputType == "document".toList)

end EmbeddingCacheProvenance

/-- A row of `embedding_cache`; its key is the namespace and the hash of the text. -/
structure EmbeddingRecord where
  provenance : EmbeddingCacheProvenance
  json : Str
  deriving DecidableEq

abbrev EmbeddingCacheKey := Digest × Digest

abbrev EmbeddingTable := EmbeddingCacheKey → Option EmbeddingRecord

section Cache

variable {V : Type} (codec : VectorCodec V) (limits : EmbeddingCacheLimits)

def encodeVector (vector : V) : Except EmbeddingCacheError Str := do
  failIf (codec.wellFormed limits.dimensions vector = false) .invalidInput
  failIf (limits.vectorJsonBytes < byteLen (codec.encode vector)) .invalidInput
  return codec.encode vector

def decodeVector (json : Str) : Except EmbeddingCacheError V :=
  if limits.vectorJsonBytes < byteLen json then .error .readLimitExceeded
  else
    match codec.decode limits.dimensions json with
    | none => .error .malformedStored
    | some vector => .ok vector

/-- One row that `read` has found. -/
def readRecord (record : EmbeddingRecord) : Except EmbeddingCacheError V := do
  failIf (limits.vectorJsonBytes < byteLen record.json) .readLimitExceeded
  failIf (record.provenance.valid limits = false) .malformedStored
  decodeVector codec limits record.json

def readKey (table : EmbeddingTable) (key : EmbeddingCacheKey) :
    Except EmbeddingCacheError (Option V) :=
  match table key with
  | none => .ok none
  | some record => (readRecord codec limits record).map some

/-- `read`; `control` is an error of the executor, if there is one. -/
def readCache (control : Option ControlError) (table : EmbeddingTable) (keys : List EmbeddingCacheKey) :
    Except EmbeddingCacheError (List (Option V)) := do
  failIf (limits.maxEntries < keys.length) .invalidInput
  match control with
  | some error => .error (.control error)
  | none => keys.mapM (readKey codec limits table)

def prepareInsert (provenance : EmbeddingCacheProvenance) (entries : List (EmbeddingCacheKey × V)) :
    Except EmbeddingCacheError (List (EmbeddingCacheKey × EmbeddingRecord)) := do
  failIf (limits.maxEntries < entries.length) .invalidInput
  entries.mapM fun entry => do
    failIf (provenance.valid limits = false) .invalidInput
    let json ← encodeVector codec limits entry.2
    return (entry.1, ⟨provenance, json⟩)

end Cache

/-- `ON CONFLICT DO NOTHING`. -/
def EmbeddingTable.insertRow (table : EmbeddingTable) (row : EmbeddingCacheKey × EmbeddingRecord) :
    EmbeddingTable := fun key => if key = row.1 then (table key).or (some row.2) else table key

def EmbeddingTable.insertAll (table : EmbeddingTable) (rows : List (EmbeddingCacheKey × EmbeddingRecord)) :
    EmbeddingTable :=
  rows.foldl insertRow table

/-- How the transaction of `insert` ends: an error may leave it undone or, if its outcome is uncertain,
done. -/
inductive WriteOutcome where
  | committed
  | failed (error : ControlError)
  | uncertain (error : ControlError)

/-! ### The backend -/

/-- `Failure`; of the errors only what the endpoint looks at. -/
inductive EmbeddingFailure where
  | remote (temporal : Bool)
  | admission (error : WireError)
  | localWorker (temporal : Bool)
  | closed

namespace EmbeddingFailure

def temporal : EmbeddingFailure → Bool
  | .remote temporal | .localWorker temporal => temporal
  | .admission _ | .closed => false

/-- `failure_wire`. -/
def wire : EmbeddingFailure → WireError
  | .admission error => error
  | _ => .upstream

end EmbeddingFailure

/-- `Outcome`; an entry is a vector with the index of its text among those asked for. -/
structure EmbeddingOutcome (V : Type) where
  entries : List (Nat × V)
  usage : List Nat
  failure : Option EmbeddingFailure

/-- What a remote provider answers: a vector for each text, or the vectors that were completed before
it failed. -/
inductive RemoteAnswer (V : Type) where
  | batch (vectors : List V) (usage : List Nat)
  | error (completed : List (Nat × V)) (usage : List Nat) (failure : EmbeddingFailure)

def remoteOutcome {V : Type} : RemoteAnswer V → EmbeddingOutcome V
  | .batch vectors usage => ⟨vectors.zipIdx.map fun entry => (entry.2, entry.1), usage, none⟩
  | .error completed usage failure => ⟨completed, usage, some failure⟩

/-- The loop of `local_infer`, in which the worker is asked for one text after the other; `admission`
and `embed` answer for the text with an index. -/
def localEntries {V : Type} (admission : Nat → Except WireError Unit)
    (embed : Nat → Str → Except EmbeddingFailure (List V)) :
    Nat → List Str → List (Nat × V) × Option EmbeddingFailure
  | _, [] => ([], none)
  | offset, text :: rest =>
    match admission offset with
    | .error error => ([], some (.admission error))
    | .ok () =>
      match embed offset text with
      | .error failure => ([], some failure)
      | .ok batch =>
        let later := localEntries admission embed (offset + 1) rest
        ((batch.zipIdx.map fun entry => (offset + entry.2, entry.1)) ++ later.1, later.2)

def localInfer {V : Type} (admission : Nat → Except WireError Unit)
    (embed : Nat → Str → Except EmbeddingFailure (List V)) (last : Except WireError Unit)
    (texts : List Str) : EmbeddingOutcome V :=
  let done := localEntries admission embed 0 texts
  match last with
  | .ok () => ⟨done.1, [], done.2⟩
  | .error error => ⟨done.1, [], done.2.or (some (.admission error))⟩

/-! ### The request -/

/-- What the surroundings decide during a request: the checks of its authority in their order, the
backend and the executor of the cache. -/
structure EmbeddingRun (V : Type) where
  checkText : Nat → Except WireError Unit
  readControl : Option ControlError
  checkRead : Except WireError Unit
  checkAsk : Except WireError Unit
  infer : List Str → EmbeddingOutcome V
  checkAnswer : Except WireError Unit
  checkStore : Except WireError Unit
  write : WriteOutcome
  checkWritten : Except WireError Unit
  checkComplete : Except WireError Unit
  serialize : Except WireError Unit
  checkSend : Except WireError Unit

structure EmbeddingRow (V : Type) where
  embedding : V
  index : Nat

structure EmbeddingResponse (V : Type) where
  data : List (EmbeddingRow V)
  usage : List Nat
  hit : Bool

/-- What a request leaves: its answer, the cache, and the texts the backend was asked for. -/
structure EmbeddingEnd (V : Type) where
  answer : Except WireError (EmbeddingResponse V)
  table : EmbeddingTable
  asked : Option (List Str)

/-- The distinct texts so far with their hashes, and for each input the position of its text. -/
structure DistinctTexts where
  texts : List Str
  digests : List Digest
  order : List Nat

def DistinctTexts.push (sha256 : Bytes → Digest) (found : DistinctTexts) (text : Str) :
    DistinctTexts :=
  match found.digests.idxOf? (sha256 (utf8 text)) with
  | some index => { found with order := found.order ++ [index] }
  | none => ⟨found.texts ++ [text], found.digests ++ [sha256 (utf8 text)],
      found.order ++ [found.texts.length]⟩

def distinctTexts (sha256 : Bytes → Digest) (check : Nat → Except WireError Unit) :
    Nat → List Str → DistinctTexts → Except WireError DistinctTexts
  | _, [], found => .ok found
  | n, text :: rest, found => do
    check n
    distinctTexts sha256 check (n + 1) rest (found.push sha256 text)

/-- `cache_result`. -/
def cacheResult {α : Type} (check : Except WireError Unit) :
    Except EmbeddingCacheError α → Except WireError α
  | .ok value => do
    check
    return value
  | .error (.control .deadline) => do
    check
    .error .upstream
  | .error _ => .error .upstream

def missing {V : Type} (vectors : List (Option V)) : List Nat :=
  (vectors.zipIdx.filter fun entry => entry.1.isNone).map Prod.snd

def place {V : Type} (wellFormed : V → Bool) (misses : List Nat) :
    List (Nat × V) → List (Option V) → List Nat → Except WireError (List (Option V) × List Nat)
  | [], vectors, inserted => .ok (vectors, inserted)
  | (index, vector) :: rest, vectors, inserted =>
    match misses[index]? with
    | none => .error .upstream
    | some position =>
      if vectors[position]?.join.isSome = true ∨ wellFormed vector = false then .error .upstream
      else place wellFormed misses rest (vectors.set position (some vector)) (inserted ++ [position])

section Pipeline

variable {V : Type} (codec : VectorCodec V) (sha256 : Bytes → Digest) (service : EmbeddingService)
  (input : InputType) (run : EmbeddingRun V)

def rowsOf (vectors : List (Option V)) (order : List Nat) : Option (List (EmbeddingRow V)) :=
  order.zipIdx.mapM fun entry => (vectors[entry.1]?.join).map fun vector => ⟨vector, entry.2⟩

def finish (order : List Nat) (vectors : List (Option V)) (usage : List Nat) (hit : Bool) :
    Except WireError (EmbeddingResponse V) := do
  failIf (vectors.any Option.isNone = true) .upstream
  run.checkComplete
  match rowsOf vectors order with
  | none => .error .upstream
  | some data => do
    run.serialize
    run.checkSend
    return ⟨data, usage, hit⟩

/-- `first_failure.map_or(error, failure_wire)`. -/
def firstWire (failure : Option EmbeddingFailure) (error : WireError) : WireError :=
  (failure.map EmbeddingFailure.wire).getD error

def filledEntries (keys : List EmbeddingCacheKey) (vectors : List (Option V)) (inserted : List Nat) :
    List (EmbeddingCacheKey × V) :=
  inserted.filterMap fun position => do
    let key ← keys[position]?
    let vector ← vectors[position]?.join
    return (key, vector)

/-- `insert`, with the table it leaves. -/
def storeEntries (entries : List (EmbeddingCacheKey × V)) (table : EmbeddingTable) :
    Except EmbeddingCacheError Unit × EmbeddingTable :=
  match prepareInsert codec service.cacheLimits
      ⟨service.protocol, service.revision, service.backendModel, input.asStr⟩ entries with
  | .error error => (.error error, table)
  | .ok rows =>
    match run.write with
    | .committed => (.ok (), table.insertAll rows)
    | .failed error => (.error (.control error), table)
    | .uncertain error => (.error (.control error), table.insertAll rows)

/-- The part of the pipeline between the answer of the backend and the rows: what it has completed is
placed and stored. -/
def absorb (keys : List EmbeddingCacheKey) (misses : List Nat) (vectors : List (Option V))
    (outcome : EmbeddingOutcome V) (table : EmbeddingTable) :
    Except WireError (List (Option V)) × EmbeddingTable :=
  match run.checkAnswer with
  | .error error =>
    (.error (firstWire (outcome.failure.filter fun failure => !failure.temporal) error), table)
  | .ok () =>
    match place (codec.wellFormed service.dimensions) misses outcome.entries vectors [] with
    | .error error => (.error error, table)
    | .ok (vectors, inserted) =>
      if inserted = [] then (.ok vectors, table)
      else
        match run.checkStore with
        | .error error => (.error (firstWire outcome.failure error), table)
        | .ok () =>
          let written :=
            storeEntries codec service input run (filledEntries keys vectors inserted) table
          match cacheResult run.checkWritten written.1 with
          | .error error => (.error (firstWire outcome.failure error), written.2)
          | .ok () => (.ok vectors, written.2)

def answerBatch (found : DistinctTexts) (vectors : List (Option V)) (table : EmbeddingTable) :
    EmbeddingEnd V :=
  let keys := found.digests.map fun digest => (service.compatibility sha256 input, digest)
  let misses := missing vectors
  let texts := misses.filterMap fun position => found.texts[position]?
  if misses = [] then ⟨finish run found.order vectors [] true, table, none⟩
  else
    match run.checkAsk with
    | .error error => ⟨.error error, table, none⟩
    | .ok () =>
      let outcome := run.infer texts
      match absorb codec service input run keys misses vectors outcome table with
      | (.error error, table) => ⟨.error error, table, some texts⟩
      | (.ok vectors, table) =>
        match outcome.failure with
        | some failure => ⟨.error failure.wire, table, some texts⟩
        | none => ⟨finish run found.order vectors outcome.usage false, table, some texts⟩

/-- `pipeline`. -/
def embeddingPipeline (inputs : List Str) (table : EmbeddingTable) : EmbeddingEnd V :=
  match distinctTexts sha256 run.checkText 0 inputs ⟨[], [], []⟩ with
  | .error error => ⟨.error error, table, none⟩
  | .ok found =>
    let keys := found.digests.map fun digest => (service.compatibility sha256 input, digest)
    match cacheResult run.checkRead
        (readCache codec service.cacheLimits run.readControl table keys) with
    | .error error => ⟨.error error, table, none⟩
    | .ok vectors => answerBatch codec sha256 service input run found vectors table

end Pipeline

end GraphitBroker
