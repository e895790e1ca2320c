import GraphitBroker.RerankCache

/-!
# Runs of rerank requests

Keys of requests that do not collide determine the principal and the request.
-/

namespace GraphitBroker

open Framing ExceptList

section Keys

variable {sha256 : Sha256} {service : RerankService} {r r' : RerankRequest}

def SamePrincipal : Option Principal → Option Principal → Prop
  | none, none => True
  | some p, some q => p.issuer = q.issuer ∧ p.subject = q.subject ∧
      p.organization.getD [] = q.organization.getD []
  | _, _ => False

def SameRequest (r r' : RerankRequest) : Prop :=
  SamePrincipal r.principal r'.principal ∧ r.query = r'.query ∧ r.documents = r'.documents ∧
    r.topN = r'.topN

theorem frames_utf8_inj {as bs : List Str} (hlength : as.length = bs.length)
    (ha : ∀ a ∈ as, byteLen a < 2 ^ 64) (hb : ∀ b ∈ bs, byteLen b < 2 ^ 64)
    (h : frames (as.map utf8) = frames (bs.map utf8)) : as = bs := by
  have hmap : as.map utf8 = bs.map utf8 := by
    refine (@frames_append_inj _ _ [] [] ?_ ?_ ?_ (by rw [h])).1
    · rw [List.length_map, List.length_map, hlength]
    · rw [List.forall_mem_map]
      exact fun a h => (length_utf8 a).trans_lt (ha a h)
    · rw [List.forall_mem_map]
      exact fun b h => (length_utf8 b).trans_lt (hb b h)
  exact List.map_injective_iff.mpr utf8_injective hmap

theorem samePrincipal_of_scopeBytes (h : scopeBytes r.principal = scopeBytes r'.principal) :
    SamePrincipal r.principal r'.principal := by
  have hfits := r.fits.1
  have hfits' := r'.fits.1
  generalize r.principal = p at h hfits
  generalize r'.principal = q at h hfits'
  cases p with
  | none =>
    cases q with
    | none => trivial
    | some q =>
      rw [scopeBytes, scopeBytes, List.append_assoc] at h
      cases List.append_cancel_left h
  | some p =>
    cases q with
    | none =>
      rw [scopeBytes, scopeBytes, List.append_assoc] at h
      cases List.append_cancel_left h
    | some q =>
      rw [scopeBytes, scopeBytes] at h
      have hfields := @frames_utf8_inj [p.issuer, p.subject, p.organization.getD []]
        [q.issuer, q.subject, q.organization.getD []] rfl (by simpa using hfits p rfl)
        (by simpa using hfits' q rfl) (List.append_cancel_left h)
      simp only [List.cons.injEq, and_true] at hfields
      exact hfields

def RerankRequest.hashed (sha256 : Sha256) (service : RerankService) (r : RerankRequest) :
    List Bytes :=
  [scopeBytes r.principal, keyBytes sha256 service r]

def CollisionFree (sha256 : Sha256) (service : RerankService) (requests : List RerankRequest) :
    Prop :=
  ∀ r ∈ requests, ∀ r' ∈ requests, ∀ a ∈ r.hashed sha256 service, ∀ b ∈ r'.hashed sha256 service,
    sha256.digest a = sha256.digest b → a = b

theorem sameRequest_of_cacheKey {requests : List RerankRequest}
    (hfree : CollisionFree sha256 service requests) (hr : r ∈ requests) (hr' : r' ∈ requests)
    (h : cacheKey sha256 service r = cacheKey sha256 service r') : SameRequest r r' := by
  have hbytes : keyBytes sha256 service r = keyBytes sha256 service r' :=
    hfree r hr r' hr' _ (by simp [RerankRequest.hashed]) _ (by simp [RerankRequest.hashed]) h
  rw [keyBytes, keyBytes] at hbytes
  obtain ⟨hscope, hrest⟩ := List.append_inj (List.append_cancel_left hbytes)
    (by rw [sha256.length_digest, sha256.length_digest])
  have hprincipal : scopeBytes r.principal = scopeBytes r'.principal :=
    hfree r hr r' hr' _ (by simp [RerankRequest.hashed]) _ (by simp [RerankRequest.hashed]) hscope
  obtain ⟨-, hquery, hlength, hdocuments, htopN⟩ := r.fits
  obtain ⟨-, hquery', hlength', hdocuments', htopN'⟩ := r'.fits
  obtain ⟨hsameQuery, hrest⟩ := frame_append_inj (by rwa [length_utf8]) (by rwa [length_utf8])
    (List.append_cancel_left hrest)
  obtain ⟨hsameTopN, hrest⟩ := List.append_inj hrest (by rw [length_le64, length_le64])
  obtain ⟨hsameLength, hrest⟩ := List.append_inj hrest (by rw [length_le64, length_le64])
  exact ⟨samePrincipal_of_scopeBytes hprincipal, utf8_injective hsameQuery,
    frames_utf8_inj (le64_inj hlength hlength' hsameLength) hdocuments hdocuments' hrest,
    le64_inj htopN htopN' hsameTopN⟩

end Keys

namespace RerankCache

variable {Results : Type} {cache cache' : RerankCache Results} {key k : Bytes}
  {e entry : CacheEntry Results} {now : Nat}

theorem mem_remove : (k, e) ∈ (cache.remove key).entries ↔ (k, e) ∈ cache.entries ∧ k ≠ key := by
  rw [remove, List.mem_filter, bne_iff_ne]

theorem mem_insert : (k, e) ∈ (cache.insert key entry).entries ↔
    (k = key ∧ e = entry) ∨ ((k, e) ∈ cache.entries ∧ k ≠ key) := by
  rw [insert, List.mem_cons, mem_remove, Prod.mk.injEq]

theorem exists_mem_insert (h : (k, e) ∈ cache.entries) :
    ∃ e', (k, e') ∈ (cache.insert key entry).entries := by
  by_cases hkey : k = key
  · exact ⟨entry, mem_insert.mpr (.inl ⟨hkey, rfl⟩)⟩
  · exact ⟨e, mem_insert.mpr (.inr ⟨h, hkey⟩)⟩

theorem eq_of_mem (h : (key, e) ∈ cache.entries) (h' : (key, entry) ∈ cache.entries) : e = entry :=
  congrArg Prod.snd (List.inj_on_of_nodup_map cache.nodup h h' rfl)

theorem find?_eq_some_iff : cache.find? key = some e ↔ (key, e) ∈ cache.entries := by
  rw [find?, Option.map_eq_some_iff]
  constructor
  · rintro ⟨⟨k, e'⟩, hfind, rfl⟩
    have hkey : k = key := by simpa using List.find?_some hfind
    exact hkey ▸ List.mem_of_find?_eq_some hfind
  · intro hmem
    cases hfind : cache.entries.find? fun entry => entry.1 == key with
    | none => exact absurd (beq_self_eq_true key) (List.find?_eq_none.mp hfind _ hmem)
    | some found =>
      obtain ⟨k, e'⟩ := found
      have hkey : k = key := by simpa using List.find?_some hfind
      exact ⟨_, rfl, eq_of_mem (hkey ▸ List.mem_of_find?_eq_some hfind) hmem⟩

theorem length_remove_le : (cache.remove key).entries.length ≤ cache.entries.length :=
  List.length_filter_le _ _

theorem length_remove_lt (h : (key, e) ∈ cache.entries) :
    (cache.remove key).entries.length < cache.entries.length :=
  List.length_filter_lt_length_iff_exists.mpr ⟨_, h, by simp⟩

theorem length_insert_le {capacity : Nat}
    (h : (∃ e, (key, e) ∈ cache.entries) ∨ cache.entries.length < capacity)
    (hle : cache.entries.length ≤ capacity) :
    (cache.insert key entry).entries.length ≤ capacity := by
  rw [insert, List.length_cons]
  rcases h with ⟨e, he⟩ | hlt
  · exact (length_remove_lt he).trans_le hle
  · exact (Nat.succ_le_succ length_remove_le).trans hlt

theorem length_remove_insert_le :
    ((cache.insert key entry).remove key).entries.length ≤ cache.entries.length := by
  have hentries : ((cache.insert key entry).remove key).entries =
      (cache.remove key).entries.filter fun other => other.1 != key := by
    show List.filter (fun other => other.1 != key) ((key, entry) :: (cache.remove key).entries) = _
    rw [List.filter_cons_of_neg (by simp)]
  rw [hentries]
  exact (List.length_filter_le _ _).trans length_remove_le

theorem get_cases :
    (∃ e, (key, e) ∈ cache.entries ∧ now < e.expires ∧ cache.get key now = (some e.results, cache)) ∨
    (∃ e, (key, e) ∈ cache.entries ∧ e.expires ≤ now ∧
      cache.get key now = (none, cache.remove key)) ∨
    cache.get key now = (none, cache) := by
  cases hfind : cache.find? key with
  | none => exact .inr (.inr (by rw [get, hfind]; rfl))
  | some e =>
    have hmem := find?_eq_some_iff.mp hfind
    by_cases hexpired : e.expires ≤ now
    · refine .inr (.inl ⟨e, hmem, hexpired, ?_⟩)
      rw [get, hfind, if_pos (by simpa using hexpired)]
    · refine .inl ⟨e, hmem, Nat.lt_of_not_le hexpired, ?_⟩
      rw [get, hfind, if_neg (by simpa using hexpired)]
      rfl

def Oldest (entries : List (Bytes × CacheEntry Results)) (created : Nat) : Prop :=
  ∀ other ∈ entries, created ≤ other.2.created

def SeenOldest (seen : List (Bytes × CacheEntry Results)) : Option (Bytes × Nat) → Prop
  | none => seen = []
  | some (key, created) => (∃ e, (key, e) ∈ seen ∧ e.created = created) ∧ Oldest seen created

variable {around : Surroundings}

theorem scan_spec {entries seen : List (Bytes × CacheEntry Results)}
    {n n' : Nat} {expired expired' : List Bytes} {oldest oldest' : Option (Bytes × Nat)}
    (h : scan around now entries n expired oldest = .ok (expired', oldest', n'))
    (hexpired : ∀ k, k ∈ expired ↔ ∃ e, (k, e) ∈ seen ∧ e.expires ≤ now)
    (holdest : SeenOldest seen oldest) :
    (∀ k, k ∈ expired' ↔ ∃ e, (k, e) ∈ seen ++ entries ∧ e.expires ≤ now) ∧
      SeenOldest (seen ++ entries) oldest' := by
  induction entries generalizing seen n expired oldest with
  | nil =>
    rw [scan] at h
    obtain ⟨rfl, rfl, -⟩ := by simpa only [Except.ok.injEq, Prod.mk.injEq] using h
    rw [List.append_nil]
    exact ⟨hexpired, holdest⟩
  | cons first rest ih =>
    obtain ⟨key, entry⟩ := first
    simp only [scan, bind_eq_ok, failIf_eq_ok] at h
    obtain ⟨-, -, -, -, hrest⟩ := h
    rw [List.append_cons]
    refine ih hrest (fun k => ?_) ?_
    · constructor
      · intro hk
        split_ifs at hk with hle
        · rcases List.mem_append.mp hk with hk | hk
          · obtain ⟨e, he, hle'⟩ := (hexpired k).mp hk
            exact ⟨e, List.mem_append_left _ he, hle'⟩
          · obtain rfl := List.mem_singleton.mp hk
            exact ⟨entry, by simp, hle⟩
        · obtain ⟨e, he, hle'⟩ := (hexpired k).mp hk
          exact ⟨e, List.mem_append_left _ he, hle'⟩
      · rintro ⟨e, he, hle⟩
        rcases List.mem_append.mp he with he | he
        · have := (hexpired k).mpr ⟨e, he, hle⟩
          split_ifs
          · exact List.mem_append_left _ this
          · exact this
        · obtain ⟨rfl, rfl⟩ := Prod.mk.inj (List.mem_singleton.mp he)
          rw [if_pos hle]
          exact List.mem_append_right _ (List.mem_singleton_self _)
    · cases oldest with
      | none =>
        obtain rfl : seen = [] := holdest
        simp [SeenOldest, Oldest]
      | some o =>
        obtain ⟨⟨e, he, hcreated⟩, hold⟩ := holdest
        by_cases hlt : entry.created < o.2
        · rw [if_pos (by simpa using hlt)]
          refine ⟨⟨entry, by simp, rfl⟩, fun other hother => ?_⟩
          rcases List.mem_append.mp hother with hother | hother
          · exact hlt.le.trans (hold other hother)
          · rw [List.mem_singleton.mp hother]
        · rw [if_neg (by simpa using hlt)]
          refine ⟨⟨e, List.mem_append_left _ he, hcreated⟩, fun other hother => ?_⟩
          rcases List.mem_append.mp hother with hother | hother
          · exact hold other hother
          · rw [List.mem_singleton.mp hother]
            exact Nat.le_of_not_lt hlt

theorem removeExpired_spec {keys : List Bytes} {n : Nat} :
    (∀ k e, (k, e) ∈ (removeExpired around keys n cache).2.entries → (k, e) ∈ cache.entries) ∧
    (∀ k e, (k, e) ∈ cache.entries → k ∉ keys →
      (k, e) ∈ (removeExpired around keys n cache).2.entries) ∧
    (removeExpired around keys n cache).2.entries.length ≤ cache.entries.length := by
  induction keys generalizing n cache with
  | nil => exact ⟨fun _ _ h => h, fun _ _ h _ => h, le_refl _⟩
  | cons key rest ih =>
    rw [removeExpired]
    cases around.check n with
    | error e => exact ⟨fun _ _ h => h, fun _ _ h _ => h, le_refl _⟩
    | ok u =>
      obtain ⟨hsub, hkept, hlength⟩ := @ih (cache.remove key) (n + 1)
      refine ⟨fun k e h => (mem_remove.mp (hsub k e h)).1, fun k e h hk => ?_,
        hlength.trans length_remove_le⟩
      exact hkept k e (mem_remove.mpr ⟨h, fun heq => hk (heq ▸ List.mem_cons_self)⟩)
        fun hmem => hk (List.mem_cons_of_mem _ hmem)

/-- What is left of a cache before an entry is inserted: nothing is new, and what is gone had expired
or was the oldest of a full cache. -/
structure Cleared (capacity now : Nat) (cache cleared : RerankCache Results) : Prop where
  subset : ∀ k e, (k, e) ∈ cleared.entries → (k, e) ∈ cache.entries
  kept : ∀ k e, (k, e) ∈ cache.entries → now < e.expires → (k, e) ∈ cleared.entries ∨
    (capacity ≤ cache.entries.length ∧ Oldest cache.entries e.created)
  length_le : cleared.entries.length ≤ cache.entries.length

theorem cleared_refl {capacity : Nat} : Cleared capacity now cache cache :=
  ⟨fun _ _ h => h, fun _ _ h _ => .inl h, le_refl _⟩

theorem mem_of_length_le (hsub : ∀ k e, (k, e) ∈ cache'.entries → (k, e) ∈ cache.entries)
    (hlength : cache.entries.length ≤ cache'.entries.length) (h : (k, e) ∈ cache.entries) :
    (k, e) ∈ cache'.entries := by
  by_contra hnot
  have hnodup : ((k, e) :: cache'.entries).Nodup :=
    List.nodup_cons.mpr ⟨hnot, cache'.nodup.of_map _⟩
  have hlt := (List.subperm_of_subset hnodup
    (List.cons_subset.mpr ⟨h, fun entry hentry => hsub entry.1 entry.2 hentry⟩)).length_le
  rw [List.length_cons] at hlt
  omega

theorem evict_spec {capacity : Nat} {oldest : Option (Bytes × Nat)} (hpos : 0 < capacity)
    (hle : cache.entries.length ≤ capacity) (h : Cleared capacity now cache cache')
    (holdest : SeenOldest cache.entries oldest) :
    Cleared capacity now cache (cache'.evict key capacity oldest) ∧
      ((∃ e, (key, e) ∈ (cache'.evict key capacity oldest).entries) ∨
        (cache'.evict key capacity oldest).entries.length < capacity) := by
  cases oldest with
  | none =>
    have hnil : cache.entries = [] := holdest
    refine ⟨h, .inr ?_⟩
    have := h.length_le
    rw [hnil, List.length_nil] at this
    exact this.trans_lt hpos
  | some o =>
    obtain ⟨⟨victim, hvictim, hcreated⟩, hold⟩ := holdest
    rw [evict]
    split_ifs with hfull
    · rw [Bool.and_eq_true, decide_eq_true_eq] at hfull
      have hall : ∀ k e, (k, e) ∈ cache.entries → (k, e) ∈ cache'.entries :=
        fun k e => mem_of_length_le h.subset (hle.trans hfull.2)
      refine ⟨⟨fun k e he => h.subset k e (mem_remove.mp he).1, fun k e he _ => ?_,
        length_remove_le.trans h.length_le⟩, .inr ?_⟩
      · by_cases hk : k = o.1
        · subst hk
          obtain rfl := eq_of_mem he hvictim
          exact .inr ⟨hfull.2.trans h.length_le, hcreated ▸ hold⟩
        · exact .inl (mem_remove.mpr ⟨hall k e he, hk⟩)
      · exact (length_remove_lt (hall _ _ hvictim)).trans_le (h.length_le.trans hle)
    · refine ⟨h, ?_⟩
      cases hfind : cache'.find? key with
      | some e => exact .inl ⟨e, find?_eq_some_iff.mp hfind⟩
      | none =>
        rw [hfind] at hfull
        exact .inr (by simpa using hfull)

theorem store_cases {results : Results} {request ttl n : Nat} :
    (∃ e, store around cache key results request now ttl n = (.error e, cache)) ∨
    (∃ e, around.lastCheck = .error e ∧ store around cache key results request now ttl n =
      (.error e, (cache.insert key ⟨now, now + ttl, results, request⟩).remove key)) ∨
    store around cache key results request now ttl n =
      (.ok (), cache.insert key ⟨now, now + ttl, results, request⟩) := by
  rw [store]
  cases around.check n with
  | error e => exact .inl ⟨e, rfl⟩
  | ok u =>
    dsimp only
    split_ifs
    · exact .inl ⟨_, rfl⟩
    · cases around.lastCheck with
      | error e => exact .inr (.inl ⟨e, rfl, rfl⟩)
      | ok u => exact .inr (.inr rfl)

theorem put_cases {order : IterationOrder (Bytes × CacheEntry Results)}
    {results : Results} {request ttl capacity : Nat} (hpos : 0 < capacity)
    (hle : cache.entries.length ≤ capacity) :
    ∃ cleared, Cleared capacity now cache cleared ∧
      ((∃ e, put around order cache key results request now ttl capacity = (.error e, cleared)) ∨
      (∃ e, around.lastCheck = .error e ∧
        put around order cache key results request now ttl capacity =
          (.error e, (cleared.insert key ⟨now, now + ttl, results, request⟩).remove key)) ∨
      ((∃ e, (key, e) ∈ cleared.entries) ∨ cleared.entries.length < capacity) ∧
        put around order cache key results request now ttl capacity =
          (.ok (), cleared.insert key ⟨now, now + ttl, results, request⟩)) := by
  cases hcheck : around.check 0 with
  | error e => exact ⟨cache, cleared_refl, .inl ⟨e, by simp only [put, hcheck]⟩⟩
  | ok u =>
  cases hscan : scan around now (order.apply cache.entries) 1 [] none with
  | error e => exact ⟨cache, cleared_refl, .inl ⟨e, by simp only [put, hcheck, hscan]⟩⟩
  | ok scanned =>
  obtain ⟨expired, oldest, n⟩ := scanned
  obtain ⟨hexpired, holdest⟩ := @scan_spec _ _ _ _ [] _ _ _ _ _ _ hscan (by simp) rfl
  rw [List.nil_append] at hexpired holdest
  have hperm : ∀ entry, entry ∈ order.apply cache.entries ↔ entry ∈ cache.entries :=
    fun entry => (order.perm cache.entries).mem_iff
  have hfresh : ∀ k e, (k, e) ∈ cache.entries → now < e.expires → k ∉ expired := by
    intro k e he hlt hk
    obtain ⟨e', he', hle'⟩ := (hexpired k).mp hk
    obtain rfl := eq_of_mem he ((hperm _).mp he')
    omega
  obtain ⟨hsub, hkept, hlength⟩ := @removeExpired_spec _ cache around expired n
  cases hremoved : removeExpired around expired n cache with
  | mk outcome middle =>
  rw [hremoved] at hsub hkept hlength
  have hmiddle : Cleared capacity now cache middle :=
    ⟨hsub, fun k e he hlt => .inl (hkept k e he (hfresh k e he hlt)), hlength⟩
  cases outcome with
  | error e =>
    exact ⟨middle, hmiddle, .inl ⟨e, by simp only [put, hcheck, hscan, hremoved]⟩⟩
  | ok n' =>
  have holdest' : SeenOldest cache.entries oldest := by
    cases oldest with
    | none =>
      have hnil : order.apply cache.entries = [] := holdest
      exact List.nil_perm.mp (hnil ▸ order.perm cache.entries)
    | some o =>
      obtain ⟨⟨e, he, hcreated⟩, hold⟩ := holdest
      exact ⟨⟨e, (hperm _).mp he, hcreated⟩, fun other hother => hold other ((hperm _).mpr hother)⟩
  obtain ⟨hevict, hroom⟩ := @evict_spec _ _ _ key _ _ _ hpos hle hmiddle holdest'
  have hput : put around order cache key results request now ttl capacity =
      store around (middle.evict key capacity oldest) key results request now ttl n' := by
    simp only [put, hcheck, hscan, hremoved]
  refine ⟨_, hevict, ?_⟩
  rw [hput]
  rcases @store_cases _ (middle.evict key capacity oldest) key now around results request ttl n' with
    ⟨e, h⟩ | ⟨e, hlast, h⟩ | h
  · exact .inl ⟨e, h⟩
  · exact .inr (.inl ⟨e, hlast, h⟩)
  · exact .inr (.inr ⟨hroom, h⟩)

end RerankCache

namespace RerankState

open RerankCache

variable {Results : Type} {service : RerankService} {sha256 : Sha256} {s s' : RerankState Results}
  {id : Nat} {request : RerankRequest} {stage stage' : RerankStage Results}
  {rel : Nat → Nat → Prop}

/-- The backend has computed these results for the key of a request, they were stored later, and had
not expired at a time. The times of computation and of storage are in a relation that every storage
is known to keep. -/
def HitSound (service : RerankService) (sha256 : Sha256) (rel : Nat → Nat → Prop)
    (computations : List (Computation Results))
    (request : RerankRequest) (results : Results) (time : Nat) : Prop :=
  ∃ c ∈ computations, cacheKey sha256 service c.request = cacheKey sha256 service request ∧
    c.results = results ∧ ∃ stored, (rel c.time stored ∧ c.time ≤ stored) ∧ stored ≤ time ∧
      time < stored + service.cacheTtl

def StageSound (service : RerankService) (sha256 : Sha256) (rel : Nat → Nat → Prop) (clock : Nat)
    (computations : List (Computation Results)) (request : RerankRequest) :
    RerankStage Results → Prop
  | .hit results time | .published results (some time) | .served results (some time) =>
    HitSound service sha256 rel computations request results time
  | .computed results time => ⟨request, results, time⟩ ∈ computations ∧ time ≤ clock
  | _ => True

def EntrySound (service : RerankService) (sha256 : Sha256) (rel : Nat → Nat → Prop) (clock : Nat)
    (computations : List (Computation Results)) (key : Bytes) (e : CacheEntry Results) : Prop :=
  e.created ≤ clock ∧ e.expires = e.created + service.cacheTtl ∧
    ∃ c ∈ computations, cacheKey sha256 service c.request = key ∧ c.results = e.results ∧
      rel c.time e.created ∧ c.time ≤ e.created

structure Sound (service : RerankService) (sha256 : Sha256) (rel : Nat → Nat → Prop)
    (s : RerankState Results) : Prop where
  entries : ∀ key e, (key, e) ∈ s.cache.entries →
    EntrySound service sha256 rel s.clock s.computations key e
  stages : ∀ request stage, (request, stage) ∈ s.requests →
    StageSound service sha256 rel s.clock s.computations request stage
  computed : ∀ c ∈ s.computations, c.request ∈ s.requests.map Prod.fst
  length_le : s.cache.entries.length ≤ service.cacheEntries

variable {computations computations' : List (Computation Results)}

theorem HitSound.mono {results : Results}
    {time : Nat} (h : HitSound service sha256 rel computations request results time)
    (hsub : computations ⊆ computations') :
    HitSound service sha256 rel computations' request results time := by
  obtain ⟨c, hc, hrest⟩ := h
  exact ⟨c, hsub hc, hrest⟩

theorem StageSound.mono {clock clock' : Nat}
    (h : StageSound service sha256 rel clock computations request stage) (hclock : clock ≤ clock')
    (hsub : computations ⊆ computations') :
    StageSound service sha256 rel clock' computations' request stage := by
  unfold StageSound at h ⊢
  split at h
  · exact h.mono hsub
  · exact h.mono hsub
  · exact h.mono hsub
  · exact ⟨hsub h.1, h.2.trans hclock⟩
  · trivial

theorem EntrySound.mono {clock clock' : Nat}
    {key : Bytes} {e : CacheEntry Results} (h : EntrySound service sha256 rel clock computations key e)
    (hclock : clock ≤ clock') (hsub : computations ⊆ computations') :
    EntrySound service sha256 rel clock' computations' key e := by
  obtain ⟨hcreated, hexpires, c, hc, hrest⟩ := h
  exact ⟨hcreated.trans hclock, hexpires, c, hsub hc, hrest⟩

theorem map_fst_set (h : s.requests[id]? = some (request, stage')) :
    (s.requests.set id (request, stage)).map Prod.fst = s.requests.map Prod.fst := by
  rw [List.map_set]
  refine List.ext_getElem? fun i => ?_
  rw [List.getElem?_set]
  split_ifs with heq hlt
  · subst heq
    rw [List.getElem?_map, h]
    rfl
  · subst heq
    rw [List.getElem?_eq_none (Nat.le_of_not_lt hlt)]
  · rfl

theorem Sound.setStage (hs : s.Sound service sha256 rel) (h : s.requests[id]? = some (request, stage'))
    (hstage : StageSound service sha256 rel s.clock s.computations request stage) :
    (s.setStage id request stage).Sound service sha256 rel where
  entries := hs.entries
  stages := by
    intro request' stage'' hmem
    rcases List.mem_or_eq_of_mem_set hmem with hmem | heq
    · exact hs.stages request' stage'' hmem
    · obtain ⟨rfl, rfl⟩ := Prod.mk.inj heq
      exact hstage
  computed := by
    rw [RerankState.setStage, map_fst_set h]
    exact hs.computed
  length_le := hs.length_le

theorem Sound.tick (hs : s.Sound service sha256 rel) (elapsed : Nat) :
    (s.tick elapsed).Sound service sha256 rel where
  entries := fun key e he => (hs.entries key e he).mono (Nat.le_add_right _ _) (List.Subset.refl _)
  stages := fun request stage hmem =>
    (hs.stages request stage hmem).mono (Nat.le_add_right _ _) (List.Subset.refl _)
  computed := hs.computed
  length_le := hs.length_le

theorem Sound.withCache {cache : RerankCache Results} (hs : s.Sound service sha256 rel)
    (hentries : ∀ key e, (key, e) ∈ cache.entries →
      EntrySound service sha256 rel s.clock s.computations key e)
    (hlength : cache.entries.length ≤ service.cacheEntries) :
    { s with cache }.Sound service sha256 rel :=
  ⟨hentries, hs.stages, hs.computed, hlength⟩

theorem Sound.of_getElem? (hs : s.Sound service sha256 rel) (h : s.requests[id]? = some (request, stage)) :
    StageSound service sha256 rel s.clock s.computations request stage :=
  hs.stages request stage (List.mem_of_getElem? h)

theorem Sound.lookup (hs : s.Sound service sha256 rel) (id : Nat) :
    (s.lookup service sha256 id).Sound service sha256 rel := by
  unfold RerankState.lookup
  split
  · next request hrequest =>
    rcases @get_cases _ s.cache (cacheKey sha256 service request) s.clock with
      ⟨e, hmem, hlt, hget⟩ | ⟨e, hmem, hle, hget⟩ | hget <;> simp only [hget]
    · refine Sound.setStage hs hrequest ?_
      obtain ⟨hcreated, hexpires, c, hc, hkey, hresults, htime⟩ := hs.entries _ _ hmem
      exact ⟨c, hc, hkey, hresults, e.created, htime, hcreated, hexpires ▸ hlt⟩
    · exact Sound.setStage (hs.withCache (fun key e he => hs.entries key e (mem_remove.mp he).1)
        (length_remove_le.trans hs.length_le)) hrequest trivial
    · exact Sound.setStage hs hrequest trivial
  · exact hs

theorem Sound.infer (hs : s.Sound service sha256 rel) (id : Nat) (results : Results) :
    (s.infer id results).Sound service sha256 rel := by
  unfold RerankState.infer
  split
  · next request hrequest =>
    have hnew : Sound service sha256 rel
        { s with computations := ⟨request, results, s.clock⟩ :: s.computations } := by
      refine ⟨fun key e he => (hs.entries key e he).mono (le_refl _) (List.subset_cons_self _ _),
        fun request' stage hmem =>
          (hs.stages request' stage hmem).mono (le_refl _) (List.subset_cons_self _ _),
        fun c hc => ?_, hs.length_le⟩
      rcases List.mem_cons.mp hc with rfl | hc
      · exact List.mem_map_of_mem (List.mem_of_getElem? hrequest)
      · exact hs.computed c hc
    exact hnew.setStage hrequest ⟨List.mem_cons_self, le_refl _⟩
  · exact hs

theorem Sound.publish (hs : s.Sound service sha256 rel) (id : Nat) (around : Surroundings)
    (order : IterationOrder (Bytes × CacheEntry Results))
    (hrel : ∀ request results time, s.requests[id]? = some (request, .computed results time) →
      rel time s.clock) :
    (s.publish service sha256 id around order).Sound service sha256 rel := by
  unfold RerankState.publish
  split
  · next request results time hrequest =>
    have hstage := hs.of_getElem? hrequest
    exact hs.setStage hrequest hstage
  · next request results time hrequest =>
    obtain ⟨hcomputed, htime⟩ := hs.of_getElem? hrequest
    unfold publishMiss
    split_ifs with hon
    · obtain ⟨cleared, hcleared, hput⟩ := @put_cases _ s.cache (cacheKey sha256 service request)
        s.clock around order results id service.cacheTtl service.cacheEntries hon.2 hs.length_le
      have hsub : ∀ key e, (key, e) ∈ cleared.entries →
          EntrySound service sha256 rel s.clock s.computations key e :=
        fun key e he => hs.entries key e (hcleared.subset key e he)
      have hlength := hcleared.length_le.trans hs.length_le
      have hnew : ∀ key e, (key, e) ∈ (cleared.insert (cacheKey sha256 service request)
          ⟨s.clock, s.clock + service.cacheTtl, results, id⟩).entries →
          EntrySound service sha256 rel s.clock s.computations key e := by
        intro key e he
        rcases mem_insert.mp he with ⟨rfl, rfl⟩ | ⟨he, -⟩
        · exact ⟨le_refl _, rfl, _, hcomputed, rfl, rfl, hrel _ _ _ hrequest, htime⟩
        · exact hsub key e he
      rcases hput with ⟨e, hput⟩ | ⟨e, -, hput⟩ | ⟨hroom, hput⟩ <;> simp only [hput]
      · exact Sound.setStage (hs.withCache hsub hlength) hrequest trivial
      · refine Sound.setStage (hs.withCache (fun key e he => hnew key e (mem_remove.mp he).1) ?_)
          hrequest trivial
        exact length_remove_insert_le.trans hlength
      · exact Sound.setStage (hs.withCache hnew (length_insert_le hroom hlength)) hrequest trivial
    · exact hs.setStage hrequest trivial
  · exact hs

theorem Sound.finish (hs : s.Sound service sha256 rel) (id : Nat) (verdict : Except WireError Unit) :
    (s.finish id verdict).Sound service sha256 rel := by
  unfold RerankState.finish
  split
  · next request results hitAt hrequest =>
    cases verdict with
    | error e => exact hs.setStage hrequest trivial
    | ok u =>
      refine hs.setStage hrequest ?_
      have hstage := hs.of_getElem? hrequest
      cases hitAt with
      | none => trivial
      | some time => exact hstage
  · exact hs

theorem Sound.abort (hs : s.Sound service sha256 rel) (id : Nat) (e : WireError) :
    (s.abort id e).Sound service sha256 rel := by
  unfold RerankState.abort
  split
  iterate 4 exact hs
  · next hrequest => exact hs.setStage hrequest trivial

theorem Sound.arrive (hs : s.Sound service sha256 rel) (request : RerankRequest) :
    Sound service sha256 rel { s with requests := s.requests ++ [(request, .decoded)] } where
  entries := hs.entries
  stages := by
    intro request' stage hmem
    rcases List.mem_append.mp hmem with hmem | hmem
    · exact hs.stages request' stage hmem
    · obtain ⟨rfl, rfl⟩ := Prod.mk.inj (List.mem_singleton.mp hmem)
      trivial
  computed := by
    intro c hc
    rw [List.map_append]
    exact List.mem_append_left _ (hs.computed c hc)
  length_le := hs.length_le

/-- If the event stores results, the time of their computation and this time are in the relation. -/
def StoresIn (rel : Nat → Nat → Prop) (s : RerankState Results) : RerankEvent Results → Prop
  | .publish id elapsed _ _ => ∀ request results time,
      s.requests[id]? = some (request, .computed results time) → rel time (s.clock + elapsed)
  | _ => True

theorem Sound.step (hs : s.Sound service sha256 rel) (event : RerankEvent Results)
    (hrel : s.StoresIn rel event) :
    (s.step service sha256 event).Sound service sha256 rel := by
  cases event with
  | arrive request => exact hs.arrive request
  | lookup id elapsed => exact (hs.tick elapsed).lookup id
  | infer id elapsed results => exact (hs.tick elapsed).infer id results
  | publish id elapsed around order => exact (hs.tick elapsed).publish id around order hrel
  | finish id verdict => exact hs.finish id verdict
  | abort id e => exact hs.abort id e

theorem sound_initial : (initial : RerankState Results).Sound service sha256 rel where
  entries := fun _ _ h => absurd h List.not_mem_nil
  stages := fun _ _ h => absurd h List.not_mem_nil
  computed := fun _ h => absurd h List.not_mem_nil
  length_le := Nat.zero_le _

theorem run_append (events : List (RerankEvent Results)) (event : RerankEvent Results) :
    run service sha256 (events ++ [event]) = (run service sha256 events).step service sha256 event := by
  rw [run, List.foldl_append]
  rfl

/-- Every storage of a run keeps the relation. -/
def StoresAllIn (service : RerankService) (sha256 : Sha256) (rel : Nat → Nat → Prop)
    (events : List (RerankEvent Results)) : Prop :=
  ∀ before event after, events = before ++ event :: after →
    (run service sha256 before).StoresIn rel event

theorem sound_run_of {events : List (RerankEvent Results)}
    (h : StoresAllIn service sha256 rel events) :
    (run service sha256 events).Sound service sha256 rel := by
  induction events using List.reverseRecOn with
  | nil => exact sound_initial
  | append_singleton events event ih =>
    rw [run_append]
    refine (ih fun before event' after hevents => h before event' (after ++ [event]) ?_).step event
      (h events event [] rfl)
    rw [hevents, List.append_assoc, List.cons_append]

theorem sound_run (events : List (RerankEvent Results)) :
    (run service sha256 events).Sound service sha256 fun _ _ => True := by
  refine sound_run_of fun before event after _ => ?_
  cases event <;> simp [StoresIn]

def arrivals (events : List (RerankEvent Results)) : List RerankRequest :=
  events.filterMap fun
    | .arrive request => some request
    | _ => none

def Stored : RerankStage Results → Prop
  | .published .. | .served .. => True
  | _ => False

/-- What a step can do. A request that has stored its results fails only if `finish` says so, and
stays failed; entries are only added by requests that have stored their results; and an entry that has
not expired is only dropped from a full cache, if it is the oldest, or by a `put` for its key that
fails. -/
structure Advances (service : RerankService) (finishFails : Nat → WireError → Prop)
    (putFails : Bytes → Prop) (s s' : RerankState Results) : Prop where
  requests : s'.requests.map Prod.fst = s.requests.map Prod.fst
  stored : ∀ (id : Nat) request stage, s.requests[id]? = some (request, stage) → Stored stage →
    ∃ stage', s'.requests[id]? = some (request, stage') ∧
      (Stored stage' ∨ ∃ error, stage' = .failed error ∧ finishFails id error)
  failed : ∀ (id : Nat) request error, s.requests[id]? = some (request, .failed error) →
    s'.requests[id]? = some (request, .failed error)
  entries : ∀ key e, (key, e) ∈ s'.cache.entries → (key, e) ∈ s.cache.entries ∨
    ∃ request stage, s'.requests[e.request]? = some (request, stage) ∧ Stored stage
  dropped : ∀ key e, (key, e) ∈ s.cache.entries → s'.clock < e.expires →
    (∃ e', (key, e') ∈ s'.cache.entries) ∨
    (service.cacheEntries ≤ s.cache.entries.length ∧ Oldest s.cache.entries e.created) ∨
    putFails key

variable {finishFails : Nat → WireError → Prop} {putFails : Bytes → Prop}

theorem Advances.refl : Advances service finishFails putFails s s :=
  ⟨rfl, fun _ _ stage h hstored => ⟨stage, h, .inl hstored⟩, fun _ _ _ h => h, fun _ _ h => .inl h,
    fun _ e h _ => .inl ⟨e, h⟩⟩

theorem Advances.of_set (h : s.requests[id]? = some (request, stage))
    (hrequests : s'.requests = s.requests.set id (request, stage'))
    (hlive : ∀ error, stage ≠ .failed error)
    (hstored : Stored stage → Stored stage' ∨ ∃ error, stage' = .failed error ∧ finishFails id error)
    (hentries : ∀ key e, (key, e) ∈ s'.cache.entries → (key, e) ∈ s.cache.entries ∨
      e.request = id ∧ Stored stage')
    (hdropped : ∀ key e, (key, e) ∈ s.cache.entries → s'.clock < e.expires →
      (∃ e', (key, e') ∈ s'.cache.entries) ∨
      (service.cacheEntries ≤ s.cache.entries.length ∧ Oldest s.cache.entries e.created) ∨
      putFails key) :
    Advances service finishFails putFails s s' where
  requests := by rw [hrequests, map_fst_set h]
  stored := by
    intro other request' stage'' hother hstored''
    rw [hrequests, List.getElem?_set]
    have hlt := (List.getElem?_eq_some_iff.mp h).1
    split_ifs with heq
    · subst heq
      obtain ⟨rfl, rfl⟩ := Prod.mk.inj (Option.some.inj (h.symm.trans hother))
      exact ⟨stage', rfl, hstored hstored''⟩
    · exact ⟨stage'', hother, .inl hstored''⟩
  failed := by
    intro other request' error hother
    rw [hrequests, List.getElem?_set]
    split_ifs with heq
    · subst heq
      obtain ⟨rfl, rfl⟩ := Prod.mk.inj (Option.some.inj (h.symm.trans hother))
      exact absurd rfl (hlive error)
    · subst heq
      exact absurd (List.getElem?_eq_some_iff.mp h).1 ‹_›
    · exact hother
  entries := by
    intro key e he
    rcases hentries key e he with he | ⟨rfl, hstored'⟩
    · exact .inl he
    · refine .inr ⟨request, stage', ?_, hstored'⟩
      rw [hrequests, List.getElem?_set, if_pos rfl, if_pos (List.getElem?_eq_some_iff.mp h).1]
  dropped := hdropped

theorem Advances.of_stage (h : s.requests[id]? = some (request, stage))
    (hrequests : s'.requests = s.requests.set id (request, stage'))
    (hlive : ∀ error, stage ≠ .failed error)
    (hstored : Stored stage → Stored stage' ∨ ∃ error, stage' = .failed error ∧ finishFails id error)
    (hcache : s'.cache = s.cache) : Advances service finishFails putFails s s' := by
  refine .of_set h hrequests hlive hstored (fun key e he => .inl (hcache ▸ he)) fun key e he _ => ?_
  rw [hcache]
  exact .inl ⟨e, he⟩

theorem advances_lookup (s : RerankState Results) (id : Nat) :
    Advances service finishFails putFails s (s.lookup service sha256 id) := by
  unfold lookup
  split
  · next request hrequest =>
    have hlive : ∀ error, (.decoded : RerankStage Results) ≠ .failed error := by simp
    rcases @get_cases _ s.cache (cacheKey sha256 service request) s.clock with
      ⟨e, hmem, hlt, hget⟩ | ⟨e, hmem, hle, hget⟩ | hget <;> simp only [hget]
    · exact .of_stage hrequest rfl hlive (fun h => h.elim) rfl
    · refine .of_set hrequest rfl hlive (fun h => h.elim) (fun key e he => .inl (mem_remove.mp he).1)
        fun key e' he' hlt => .inl ⟨e', mem_remove.mpr ⟨he', ?_⟩⟩
      -- Only the expired entry is gone.
      rintro rfl
      obtain rfl := eq_of_mem hmem he'
      exact absurd hle (Nat.not_le.mpr hlt)
    · exact .of_stage hrequest rfl hlive (fun h => h.elim) rfl
  · exact .refl

theorem advances_infer (s : RerankState Results) (id : Nat) (results : Results) :
    Advances service finishFails putFails s (s.infer id results) := by
  unfold infer
  split
  · next request hrequest => exact .of_stage hrequest rfl (by simp) (fun h => h.elim) rfl
  · exact .refl

/-- The `put` for a key fails its check after the insertion. -/
def PutFails (service : RerankService) (sha256 : Sha256) (s : RerankState Results) (id : Nat)
    (around : Surroundings) (key : Bytes) : Prop :=
  around.lastCheck ≠ .ok () ∧ ∃ request results time,
    s.requests[id]? = some (request, .computed results time) ∧ cacheKey sha256 service request = key

theorem advances_publish (s : RerankState Results) (id : Nat) (around : Surroundings)
    (order : IterationOrder (Bytes × CacheEntry Results)) (hs : s.Sound service sha256 rel) :
    Advances service finishFails (s.PutFails service sha256 id around) s
      (s.publish service sha256 id around order) := by
  unfold publish
  split
  · next hrequest => exact .of_stage hrequest rfl (by simp) (fun h => h.elim) rfl
  · next request results time hrequest =>
    have hlive : ∀ error, RerankStage.computed results time ≠ .failed error := by simp
    unfold publishMiss
    split_ifs with hon
    · obtain ⟨cleared, hcleared, hput⟩ := @put_cases _ s.cache (cacheKey sha256 service request)
        s.clock around order results id service.cacheTtl service.cacheEntries hon.2 hs.length_le
      rcases hput with ⟨e, hput⟩ | ⟨e, hlast, hput⟩ | ⟨hroom, hput⟩ <;> simp only [hput]
      · refine .of_set hrequest rfl hlive (fun h => h.elim)
          (fun key e he => .inl (hcleared.subset key e he)) fun key e he hlt => ?_
        exact (hcleared.kept key e he hlt).imp (fun h => ⟨e, h⟩) .inl
      · refine .of_set hrequest rfl hlive (fun h => h.elim) (fun key e' he => ?_) fun key e' he hlt => ?_
        · obtain ⟨he, hkey⟩ := mem_remove.mp he
          exact .inl (hcleared.subset key e' ((mem_insert.mp he).resolve_left fun h => hkey h.1).1)
        · -- what was stored under the key is replaced and not put back
          by_cases hkey : key = cacheKey sha256 service request
          · refine .inr (.inr ⟨fun hok => ?_, request, results, time, hrequest, hkey.symm⟩)
            cases hlast.symm.trans hok
          · exact (hcleared.kept key e' he hlt).imp
              (fun h => ⟨e', mem_remove.mpr ⟨mem_insert.mpr (.inr ⟨h, hkey⟩), hkey⟩⟩) .inl
      · refine .of_set hrequest rfl hlive (fun h => h.elim) (fun key e he => ?_)
          fun key e he hlt => ?_
        · rcases mem_insert.mp he with ⟨-, rfl⟩ | ⟨he, -⟩
          · exact .inr ⟨rfl, trivial⟩
          · exact .inl (hcleared.subset key e he)
        · exact (hcleared.kept key e he hlt).imp exists_mem_insert .inl
    · exact .of_stage hrequest rfl hlive (fun h => h.elim) rfl
  · exact .refl

theorem advances_finish (s : RerankState Results) (id : Nat) (verdict : Except WireError Unit) :
    Advances service (fun id' error => id' = id ∧ verdict = .error error) putFails s
      (s.finish id verdict) := by
  unfold finish
  split
  · next hrequest =>
    cases verdict with
    | error e => exact .of_stage hrequest rfl (by simp) (fun _ => .inr ⟨e, rfl, rfl, rfl⟩) rfl
    | ok u => exact .of_stage hrequest rfl (by simp) (fun _ => .inl trivial) rfl
  · exact .refl

theorem advances_abort (s : RerankState Results) (id : Nat) (e : WireError) :
    Advances service finishFails putFails s (s.abort id e) := by
  unfold abort
  split
  iterate 4 exact .refl
  · next stage hpublished hserved hfailed hrequest =>
    refine .of_stage hrequest rfl (fun error h => hfailed error h) (fun hstored => ?_) rfl
    cases stage with
    | published results hitAt => exact absurd rfl (hpublished _ _)
    | served results hitAt => exact absurd rfl (hserved _ _)
    | _ => exact hstored.elim

theorem Advances.of_tick {elapsed : Nat}
    (h : Advances service finishFails putFails (s.tick elapsed) s') :
    Advances service finishFails putFails s s' :=
  ⟨h.requests, h.stored, h.failed, h.entries, h.dropped⟩

/-- The event is the failed check after the cache was written. -/
def FinishFails (event : RerankEvent Results) (id : Nat) (error : WireError) : Prop :=
  event = .finish id (.error error)

/-- The event stores results under a key and fails its check after the insertion. -/
def ReplacesInVain (service : RerankService) (sha256 : Sha256) (s : RerankState Results)
    (event : RerankEvent Results) (key : Bytes) : Prop :=
  ∃ id elapsed around order, event = .publish id elapsed around order ∧
    s.PutFails service sha256 id around key

theorem Advances.imp {finishFails' : Nat → WireError → Prop} {putFails' : Bytes → Prop}
    (h : Advances service finishFails putFails s s')
    (hfinish : ∀ id error, finishFails id error → finishFails' id error)
    (hput : ∀ key, putFails key → putFails' key) : Advances service finishFails' putFails' s s' where
  requests := h.requests
  stored := fun id request stage hget hstored => by
    obtain ⟨stage', hget', hstage'⟩ := h.stored id request stage hget hstored
    exact ⟨stage', hget', hstage'.imp_right fun ⟨error, heq, hfails⟩ =>
      ⟨error, heq, hfinish id error hfails⟩⟩
  failed := h.failed
  entries := h.entries
  dropped := fun key e he hlt => (h.dropped key e he hlt).imp_right (Or.imp_right (hput key))

theorem step_cases (hs : s.Sound service sha256 rel) (event : RerankEvent Results) :
    (∃ request, event = .arrive request) ∨
    arrivals [event] = [] ∧ Advances service (FinishFails event)
      (s.ReplacesInVain service sha256 event) s (s.step service sha256 event) := by
  cases event with
  | arrive request => exact .inl ⟨request, rfl⟩
  | lookup id elapsed => exact .inr ⟨rfl, .of_tick (advances_lookup _ id)⟩
  | infer id elapsed results => exact .inr ⟨rfl, .of_tick (advances_infer _ id results)⟩
  | publish id elapsed around order =>
    refine .inr ⟨rfl, .imp (.of_tick (advances_publish _ id around order (hs.tick elapsed)))
      (fun _ _ h => h) fun key hput => ⟨id, elapsed, around, order, rfl, hput⟩⟩
  | finish id verdict =>
    refine .inr ⟨rfl, .imp (advances_finish s id verdict) (fun id' error h => ?_) fun _ h => h⟩
    rw [FinishFails, h.1, h.2]
  | abort id e => exact .inr ⟨rfl, advances_abort s id e⟩

theorem map_fst_run (events : List (RerankEvent Results)) :
    (run service sha256 events).requests.map Prod.fst = arrivals events := by
  induction events using List.reverseRecOn with
  | nil => rfl
  | append_singleton events event ih =>
    have happend : arrivals (events ++ [event]) = arrivals events ++ arrivals [event] :=
      List.filterMap_append
    rw [run_append, happend, ← ih]
    rcases step_cases (sound_run events) event with ⟨request, rfl⟩ | ⟨hnone, hadvances⟩
    · rw [step, List.map_append]
      rfl
    · rw [hadvances.requests, hnone, List.append_nil]

theorem stored_of_mem_run {events : List (RerankEvent Results)} {key : Bytes}
    {e : CacheEntry Results} (he : (key, e) ∈ (run service sha256 events).cache.entries) :
    ∃ request stage, (run service sha256 events).requests[e.request]? = some (request, stage) ∧
      (Stored stage ∨
        ∃ error, stage = .failed error ∧ .finish e.request (.error error) ∈ events) := by
  induction events using List.reverseRecOn with
  | nil => exact absurd he List.not_mem_nil
  | append_singleton events event ih =>
    have hevent : event ∈ events ++ [event] := List.mem_append_right _ (List.mem_singleton_self _)
    rw [run_append] at he ⊢
    rcases step_cases (sound_run events) event with ⟨request, rfl⟩ | ⟨-, hadvances⟩
    · obtain ⟨request', stage, hget, hstage⟩ := ih he
      refine ⟨request', stage, ?_, hstage.imp_right fun ⟨error, heq, hmem⟩ =>
        ⟨error, heq, List.mem_append_left _ hmem⟩⟩
      show (_ ++ _)[e.request]? = _
      rw [List.getElem?_append_left (List.getElem?_eq_some_iff.mp hget).1, hget]
    · rcases hadvances.entries key e he with he | ⟨request, stage, hget, hstored⟩
      · obtain ⟨request, stage, hget, hstored | ⟨error, rfl, hmem⟩⟩ := ih he
        · obtain ⟨stage', hget', hstage'⟩ := hadvances.stored _ _ _ hget hstored
          refine ⟨request, stage', hget', hstage'.imp_right fun ⟨error, heq, hfails⟩ =>
            ⟨error, heq, ?_⟩⟩
          rw [FinishFails] at hfails
          exact hfails ▸ hevent
        · exact ⟨request, _, hadvances.failed _ _ _ hget,
            .inr ⟨error, rfl, List.mem_append_left _ hmem⟩⟩
      · exact ⟨request, stage, hget, .inl hstored⟩

section Runs

/-- SHA-256 of what the requests below hash. -/
def rerankSha256 : Sha256 where
  digest := fun bytes =>
    if bytes = scopeBytes (some ⟨"local".toList, "alice".toList, none, none, []⟩) then
      beBytes 32 0x6e33c72f5dda100cd5155d4134b3e4d278f089757313a17d3724d632afc17dc9
    else if bytes = scopeBytes (some ⟨"local".toList, "bob".toList, none, none, []⟩) then
      beBytes 32 0xf839849b9a1f18a6df3514689c92ed99f271a9ca61d34c58c56249cf69a55461
    -- the digest of the principal stands in the bytes of a key
    else if (bytes.drop 26).head? = some 0x6e then
      beBytes 32 0xcb0c4183d6e8ca8f0ec73a2c9a8162931f78b8f6a95769c0e5b4d8d5b06cc362
    else beBytes 32 0x21ae7d535b397aa8f941ddf49cf538d793464f2cac52ff15031e821a2e808180
  length_digest := fun bytes => by
    split_ifs <;> exact length_beBytes 32 _

def shortLived : RerankService where
  protocol := "tei".toList
  effectiveIdentity := "http://rerank".toList
  backendModel := "bge".toList
  revision := "r1".toList
  model := "bge".toList
  modelRevision := "r1".toList
  recipe := "v1".toList
  cacheTtl := 2
  cacheEntries := 5

def requestOf (subject : String) (h : byteLen subject.toList < 2 ^ 64) : RerankRequest where
  principal := some ⟨"local".toList, subject.toList, none, none, []⟩
  query := "storage".toList
  documents := ["disk".toList, "sun".toList]
  topN := 1
  fits := ⟨fun p hp => Option.some.inj hp ▸ ⟨(by decide : byteLen "local".toList < 2 ^ 64), h,
    (by decide : byteLen [] < 2 ^ 64)⟩, by decide, by decide, by decide, by decide⟩
  decoded := by decide

def aliceRequest : RerankRequest := requestOf "alice" (by decide)

def bobRequest : RerankRequest := requestOf "bob" (by decide)

def calm (lastCheck : Except WireError Unit) : Surroundings where
  check := fun _ => .ok ()
  lastCheck := lastCheck
  reserve := fun _ => true
  instantLimit := 100

def inOrder : IterationOrder (Bytes × CacheEntry Nat) := ⟨fun l => l, fun _ => .refl _⟩

/-- A request that computes at time 0, stores later and passes the check after it or not. -/
def firstRequest (delay : Nat) (verdict : Except WireError Unit) : List (RerankEvent Nat) :=
  [.arrive aliceRequest, .lookup 0 0, .infer 0 0 70, .publish 0 delay (calm (.ok ())) inOrder,
    .finish 0 verdict]

def secondRequest : List (RerankEvent Nat) :=
  [.arrive aliceRequest, .lookup 1 1, .publish 1 0 (calm (.ok ())) inOrder, .finish 1 (.ok ())]

/-- Another user asks the same and is refused when the answer is stored. -/
def otherRequest : List (RerankEvent Nat) :=
  [.arrive bobRequest, .lookup 2 0, .infer 2 0 90, .publish 2 0 (calm (.error .forbidden)) inOrder]

def threeRequests : List (RerankEvent Nat) :=
  firstRequest 0 (.ok ()) ++ secondRequest ++ otherRequest

def overlapping (lastCheck : Except WireError Unit) : List (RerankEvent Nat) :=
  [.arrive aliceRequest, .arrive aliceRequest, .lookup 0 0, .lookup 1 0, .infer 0 0 70,
    .infer 1 0 80, .publish 0 0 (calm (.ok ())) inOrder, .publish 1 0 (calm lastCheck) inOrder]

theorem collisionFree_rerankSha256 {requests : List RerankRequest}
    (h : ∀ r ∈ requests, r = aliceRequest ∨ r = bobRequest) :
    CollisionFree rerankSha256 shortLived requests := by
  have hall : ∀ a ∈ aliceRequest.hashed rerankSha256 shortLived ++
      bobRequest.hashed rerankSha256 shortLived, ∀ b ∈ aliceRequest.hashed rerankSha256 shortLived ++
      bobRequest.hashed rerankSha256 shortLived,
        rerankSha256.digest a = rerankSha256.digest b → a = b := by decide +kernel
  have hmem : ∀ r ∈ requests, ∀ a ∈ r.hashed rerankSha256 shortLived,
      a ∈ aliceRequest.hashed rerankSha256 shortLived ++
        bobRequest.hashed rerankSha256 shortLived := by
    intro r hr a ha
    rcases h r hr with rfl | rfl
    · exact List.mem_append_left _ ha
    · exact List.mem_append_right _ ha
  exact fun r hr r' hr' a ha b hb => hall a (hmem r hr a ha) b (hmem r' hr' b hb)

def shortRun (events : List (RerankEvent Nat)) : RerankState Nat := run shortLived rerankSha256 events

end Runs

end RerankState

end GraphitBroker
