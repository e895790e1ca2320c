import GraphitBroker.ResourcePolicy
import GraphitBroker.Lib.ExceptList
import GraphitBroker.Lib.Framing

/-!
# The rerank endpoint and its cache

The key of an answer is a digest of the principal and of the request. A request looks its key up, has
the backend compute on a miss, is authorized again, and stores what was computed; each of its uses of
the cache is one critical section, and the sections of several requests may come in any order.
-/

namespace GraphitBroker

open Framing ExceptList

inductive WireError where
  | disabled
  | authentication
  | forbidden
  | authorizationUnavailable
  | invalidJson
  | invalidRequest
  | tooLarge
  | upstream
  deriving DecidableEq, Repr

/-! ### Keys -/

structure Sha256 where
  digest : Bytes → Bytes
  length_digest : ∀ bytes, (digest bytes).length = 32

/-- What of the configuration and of the backend a key binds, and the settings of the cache. -/
structure RerankService where
  protocol : Str
  effectiveIdentity : Str
  backendModel : Str
  revision : Str
  model : Str
  modelRevision : Str
  recipe : Str
  cacheTtl : Nat
  cacheEntries : Nat

/-- A request that `decode` has accepted and the principal it was admitted for. No string in memory
has `2 ^ 64` bytes. -/
structure RerankRequest where
  principal : Option Principal
  query : Str
  documents : List Str
  topN : Nat
  fits : (∀ p ∈ principal, byteLen p.issuer < 2 ^ 64 ∧ byteLen p.subject < 2 ^ 64 ∧
      byteLen (p.organization.getD []) < 2 ^ 64) ∧
    byteLen query < 2 ^ 64 ∧ documents.length < 2 ^ 64 ∧ (∀ d ∈ documents, byteLen d < 2 ^ 64) ∧
    topN < 2 ^ 64
  decoded : trim query ≠ [] ∧ documents ≠ [] ∧ (∀ d ∈ documents, trim d ≠ []) ∧ 0 < topN ∧
    topN ≤ documents.length
  deriving DecidableEq

/-- The bytes that `inference_cache_scope` hashes. -/
def scopeBytes : Option Principal → Bytes
  | none => utf8 "graphit-rerank-principal-v1".toList ++ [0]
  | some p => utf8 "graphit-rerank-principal-v1".toList ++ [1] ++
      frames ([p.issuer, p.subject, p.organization.getD []].map utf8)

/-- The bytes that `cache_key` hashes. -/
def keyBytes (sha256 : Sha256) (service : RerankService) (request : RerankRequest) : Bytes :=
  utf8 "graphit-rerank-response-v1".toList ++ (sha256.digest (scopeBytes request.principal) ++
    (frames ([service.protocol, service.effectiveIdentity, service.backendModel, service.revision,
        service.model, service.modelRevision, service.recipe].map utf8) ++
      (frame (utf8 request.query) ++ (le64 request.topN ++ (le64 request.documents.length ++
        frames (request.documents.map utf8))))))

def cacheKey (sha256 : Sha256) (service : RerankService) (request : RerankRequest) : Bytes :=
  sha256.digest (keyBytes sha256 service request)

/-! ### The cache -/

/-- An entry. `request` names the request that stored it; the code does not keep it. -/
structure CacheEntry (Results : Type) where
  created : Nat
  expires : Nat
  results : Results
  request : Nat

structure RerankCache (Results : Type) where
  entries : List (Bytes × CacheEntry Results)
  nodup : (entries.map Prod.fst).Nodup

structure IterationOrder (α : Type) where
  apply : List α → List α
  perm : ∀ l, (apply l).Perm l

namespace RerankCache

variable {Results : Type}

def empty : RerankCache Results := ⟨[], List.nodup_nil⟩

def find? (cache : RerankCache Results) (key : Bytes) : Option (CacheEntry Results) :=
  (cache.entries.find? fun entry => entry.1 == key).map Prod.snd

def remove (cache : RerankCache Results) (key : Bytes) : RerankCache Results where
  entries := cache.entries.filter fun entry => entry.1 != key
  nodup := cache.nodup.sublist (List.filter_sublist.map Prod.fst)

def insert (cache : RerankCache Results) (key : Bytes) (entry : CacheEntry Results) :
    RerankCache Results where
  entries := (key, entry) :: (cache.remove key).entries
  nodup := by
    refine List.nodup_cons.mpr ⟨fun hmem => ?_, (cache.remove key).nodup⟩
    obtain ⟨other, hother, hkey⟩ := List.mem_map.mp hmem
    exact (bne_iff_ne.mp (List.mem_filter.mp hother).2) hkey

/-- `Cache::get`. -/
def get (cache : RerankCache Results) (key : Bytes) (now : Nat) :
    Option Results × RerankCache Results :=
  if (cache.find? key).any fun entry => entry.expires ≤ now then (none, cache.remove key)
  else ((cache.find? key).map CacheEntry.results, cache)

/-- What a `put` asks of its surroundings: the results of its checks, the one after the insertion
apart, and whether memory can be reserved. -/
structure Surroundings where
  check : Nat → Except WireError Unit
  lastCheck : Except WireError Unit
  reserve : Nat → Bool
  instantLimit : Nat

/-- The first loop of `put`: the keys of the expired entries, the oldest entry, and the number of
checks so far. -/
def scan (around : Surroundings) (now : Nat) :
    List (Bytes × CacheEntry Results) → Nat → List Bytes → Option (Bytes × Nat) →
    Except WireError (List Bytes × Option (Bytes × Nat) × Nat)
  | [], n, expired, oldest => .ok (expired, oldest, n)
  | (key, entry) :: rest, n, expired, oldest => do
    around.check n
    failIf (entry.expires ≤ now ∧ around.reserve n = false) .upstream
    scan around now rest (n + 1) (if entry.expires ≤ now then expired ++ [key] else expired)
      (if oldest.all fun o => entry.created < o.2 then some (key, entry.created) else oldest)

/-- The second loop of `put`. -/
def removeExpired (around : Surroundings) :
    List Bytes → Nat → RerankCache Results → Except WireError Nat × RerankCache Results
  | [], n, cache => (.ok n, cache)
  | key :: rest, n, cache =>
    match around.check n with
    | .error e => (.error e, cache)
    | .ok () => removeExpired around rest (n + 1) (cache.remove key)

def evict (cache : RerankCache Results) (key : Bytes) (capacity : Nat)
    (oldest : Option (Bytes × Nat)) : RerankCache Results :=
  match oldest with
  | some (victim, _) =>
    if (cache.find? key).isNone && capacity ≤ cache.entries.length then cache.remove victim
    else cache
  | none => cache

/-- The rest of `put`, after the expired entries are gone. -/
def store (around : Surroundings) (cache : RerankCache Results) (key : Bytes) (results : Results)
    (request now ttl n : Nat) : Except WireError Unit × RerankCache Results :=
  match around.check n with
  | .error e => (.error e, cache)
  | .ok () =>
    if around.reserve n = false ∨ around.instantLimit < now + ttl then (.error .upstream, cache)
    else
      match around.lastCheck with
      | .error e => (.error e, (cache.insert key ⟨now, now + ttl, results, request⟩).remove key)
      | .ok () => (.ok (), cache.insert key ⟨now, now + ttl, results, request⟩)

/-- `Cache::put`. -/
def put (around : Surroundings) (order : IterationOrder (Bytes × CacheEntry Results))
    (cache : RerankCache Results) (key : Bytes) (results : Results)
    (request now ttl capacity : Nat) : Except WireError Unit × RerankCache Results :=
  match around.check 0 with
  | .error e => (.error e, cache)
  | .ok () =>
    match scan around now (order.apply cache.entries) 1 [] none with
    | .error e => (.error e, cache)
    | .ok (expired, oldest, n) =>
      match removeExpired around expired n cache with
      | (.error e, cache) => (.error e, cache)
      | (.ok n, cache) =>
        store around (cache.evict key capacity oldest) key results request now ttl n

end RerankCache

/-! ### Requests -/

/-- How far a request has come. `served` holds the answer, and at which time it was found if it is a
hit. -/
inductive RerankStage (Results : Type) where
  | decoded
  | hit (results : Results) (time : Nat)
  | missed
  | computed (results : Results) (time : Nat)
  | published (results : Results) (hitAt : Option Nat)
  | served (results : Results) (hitAt : Option Nat)
  | failed (e : WireError)
  deriving DecidableEq

structure Computation (Results : Type) where
  request : RerankRequest
  results : Results
  time : Nat

structure RerankState (Results : Type) where
  clock : Nat
  cache : RerankCache Results
  requests : List (RerankRequest × RerankStage Results)
  computations : List (Computation Results)

/-- A step of the request numbered `id`, and the time since the step before. -/
inductive RerankEvent (Results : Type) where
  | arrive (request : RerankRequest)
  | lookup (id elapsed : Nat)
  | infer (id elapsed : Nat) (results : Results)
  | publish (id elapsed : Nat) (around : RerankCache.Surroundings)
      (order : IterationOrder (Bytes × CacheEntry Results))
  | finish (id : Nat) (verdict : Except WireError Unit)
  | abort (id : Nat) (e : WireError)

namespace RerankState

variable {Results : Type}

def initial : RerankState Results := ⟨0, .empty, [], []⟩

def setStage (s : RerankState Results) (id : Nat) (request : RerankRequest)
    (stage : RerankStage Results) : RerankState Results :=
  { s with requests := s.requests.set id (request, stage) }

/-- The section of `serve` that stores what was computed. -/
def publishMiss (service : RerankService) (sha256 : Sha256) (s : RerankState Results) (id : Nat)
    (request : RerankRequest) (results : Results) (around : RerankCache.Surroundings)
    (order : IterationOrder (Bytes × CacheEntry Results)) : RerankState Results :=
  if 0 < service.cacheTtl ∧ 0 < service.cacheEntries then
    match RerankCache.put around order s.cache (cacheKey sha256 service request) results id s.clock
        service.cacheTtl service.cacheEntries with
    | (.error e, cache) => { s with cache }.setStage id request (.failed e)
    | (.ok (), cache) => { s with cache }.setStage id request (.published results none)
  else s.setStage id request (.published results none)

def tick (s : RerankState Results) (elapsed : Nat) : RerankState Results :=
  { s with clock := s.clock + elapsed }

def lookup (service : RerankService) (sha256 : Sha256) (s : RerankState Results) (id : Nat) :
    RerankState Results :=
  match s.requests[id]? with
  | some (request, .decoded) =>
    match s.cache.get (cacheKey sha256 service request) s.clock with
    | (some results, cache) => { s with cache }.setStage id request (.hit results s.clock)
    | (none, cache) => { s with cache }.setStage id request .missed
  | _ => s

def infer (s : RerankState Results) (id : Nat) (results : Results) : RerankState Results :=
  match s.requests[id]? with
  | some (request, .missed) =>
    { s with computations := ⟨request, results, s.clock⟩ :: s.computations }.setStage id request
      (.computed results s.clock)
  | _ => s

def publish (service : RerankService) (sha256 : Sha256) (s : RerankState Results) (id : Nat)
    (around : RerankCache.Surroundings) (order : IterationOrder (Bytes × CacheEntry Results)) :
    RerankState Results :=
  match s.requests[id]? with
  | some (request, .hit results time) => s.setStage id request (.published results (some time))
  | some (request, .computed results _) =>
    s.publishMiss service sha256 id request results around order
  | _ => s

def finish (s : RerankState Results) (id : Nat) (verdict : Except WireError Unit) :
    RerankState Results :=
  match s.requests[id]? with
  | some (request, .published results hitAt) =>
    match verdict with
    | .error e => s.setStage id request (.failed e)
    | .ok () => s.setStage id request (.served results hitAt)
  | _ => s

def abort (s : RerankState Results) (id : Nat) (e : WireError) : RerankState Results :=
  match s.requests[id]? with
  | some (_, .published ..) | some (_, .served ..) | some (_, .failed _) | none => s
  | some (request, _) => s.setStage id request (.failed e)

/-- One step of `serve`. The checks between the sections, the second authorization and the encoding
can fail, which is `abort`; the check after the cache was written is the verdict of `finish`. -/
def step (service : RerankService) (sha256 : Sha256) (s : RerankState Results) :
    RerankEvent Results → RerankState Results
  | .arrive request => { s with requests := s.requests ++ [(request, .decoded)] }
  | .lookup id elapsed => (s.tick elapsed).lookup service sha256 id
  | .infer id elapsed results => (s.tick elapsed).infer id results
  | .publish id elapsed around order => (s.tick elapsed).publish service sha256 id around order
  | .finish id verdict => s.finish id verdict
  | .abort id e => s.abort id e

def run (service : RerankService) (sha256 : Sha256) (events : List (RerankEvent Results)) :
    RerankState Results :=
  events.foldl (step service sha256) initial

end RerankState

end GraphitBroker
