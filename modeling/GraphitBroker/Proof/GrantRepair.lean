import GraphitBroker.Proof.GrantRevisions
import GraphitBroker.Proof.StorageExactness

/-!
# Removal of a grant

A request is accepted only if everything that it leaves passes validation for the configured routes.
-/

namespace GraphitBroker

open ExceptList Transactions

variable {vendor : Vendor} {routes : AdminGrantRoutes} {d d' : GrantDb} {env : GrantEnv}

structure SoundRule (vendor : Vendor) (routes : AdminGrantRoutes) (r : StoredRule) : Prop where
  compiles : ∃ compiled, CompiledRule.compile vendor r.rule = .ok compiled
  hub : ∃ hub, HubRule.compile vendor r.rule = .ok hub
  storage : ∃ storage, StorageRule.compile vendor r.rule = .ok storage
  valid : validateRule vendor routes r = .ok ()

theorem exists_mapM_ok {ε α β : Type} {f : α → Except ε β} {xs : List α}
    (h : ∀ x ∈ xs, ∃ y, f x = .ok y) : ∃ ys, xs.mapM f = .ok ys := by
  induction xs with
  | nil => exact ⟨[], rfl⟩
  | cons x xs ih =>
    obtain ⟨y, hy⟩ := h x List.mem_cons_self
    obtain ⟨ys, hys⟩ := ih fun z hz => h z (List.mem_cons_of_mem _ hz)
    refine ⟨y :: ys, ?_⟩
    rw [mapM_eq_ok_iff] at hys ⊢
    exact List.Forall₂.cons hy hys

variable {rules : List StoredRule}

theorem resourcePolicy_compiles (h : ∀ r ∈ rules, SoundRule vendor routes r) :
    ∃ policy, ResourcePolicy.compile vendor ⟨rules.map (·.rule)⟩ = .ok policy := by
  obtain ⟨compiled, hcompiled⟩ :
      ∃ ys, (rules.map (·.rule)).mapM (CompiledRule.compile vendor) = .ok ys :=
    exists_mapM_ok fun rule hrule => by
      obtain ⟨r, hr, rfl⟩ := List.mem_map.mp hrule
      exact (h r hr).compiles
  refine ⟨⟨compiled⟩, ?_⟩
  rw [ResourcePolicy.compile, bind_eq_ok]
  exact ⟨compiled, hcompiled, rfl⟩

theorem storagePolicy_compiles (h : ∀ r ∈ rules, SoundRule vendor routes r) :
    ∃ policy, StoragePolicy.compile vendor ⟨rules.map (·.rule)⟩ = .ok policy := by
  have hmem : ∀ rule ∈ rules.map (·.rule), ∃ r ∈ rules, r.rule = rule := fun rule hrule =>
    List.mem_map.mp hrule
  obtain ⟨hubs, hhubs⟩ : ∃ ys, (rules.map (·.rule)).mapM (HubRule.compile vendor) = .ok ys :=
    exists_mapM_ok fun rule hrule => by
      obtain ⟨r, hr, rfl⟩ := hmem rule hrule
      exact (h r hr).hub
  obtain ⟨storages, hstorages⟩ :
      ∃ ys, (rules.map (·.rule)).mapM (StorageRule.compile vendor) = .ok ys :=
    exists_mapM_ok fun rule hrule => by
      obtain ⟨r, hr, rfl⟩ := hmem rule hrule
      exact (h r hr).storage
  have haligned : storages.length = hubs.length :=
    (length_of_mapM_eq_ok hstorages).trans (length_of_mapM_eq_ok hhubs).symm
  refine ⟨⟨⟨hubs⟩, storages, haligned⟩, compile_eq_ok_iff.mpr ?_⟩
  exact (forall₂_zip_iff haligned.symm).mpr
    ⟨mapM_eq_ok_iff.mp hhubs, mapM_eq_ok_iff.mp hstorages⟩

theorem validateSnapshot_of_sound {snapshot : StoredSnapshot}
    (h : ∀ r ∈ snapshot.rules, SoundRule vendor routes r) :
    validateSnapshot vendor routes snapshot = .ok () := by
  obtain ⟨policy, hpolicy⟩ := resourcePolicy_compiles h
  obtain ⟨storage, hstorage⟩ := storagePolicy_compiles h
  obtain ⟨checked, hchecked⟩ : ∃ ys, snapshot.rules.mapM (validateRule vendor routes) = .ok ys :=
    exists_mapM_ok fun r hr => ⟨(), (h r hr).valid⟩
  simp only [validateSnapshot, bind_eq_ok, mapError_eq_ok]
  exact ⟨policy, hpolicy, storage, hstorage, checked, hchecked, rfl⟩

theorem sound_of_validateSnapshot {snapshot : StoredSnapshot}
    (h : validateSnapshot vendor routes snapshot = .ok ()) :
    ∀ r ∈ snapshot.rules, SoundRule vendor routes r := by
  simp only [validateSnapshot, bind_eq_ok, mapError_eq_ok, ResourcePolicy.compile] at h
  obtain ⟨policy, ⟨compiled, hcompiled, -⟩, storage, hstorage, checked, hchecked, -⟩ := h
  intro r hr
  have hrule : r.rule ∈ snapshot.policy.rules := List.mem_map_of_mem hr
  obtain ⟨pair, hhub, hs3⟩ := exists_of_mem_forall₂ (compile_eq_ok_iff.mp hstorage) hrule
  obtain ⟨u, hvalid⟩ := exists_ok_of_mem hchecked hr
  exact ⟨exists_ok_of_mem hcompiled hrule, ⟨_, hhub⟩, ⟨_, hs3⟩, hvalid⟩

theorem revision_raises_of_ok {expected : Nat} {revision : Int}
    (h : currentRevision env expected d = .ok revision) : revision + 1 < 2 ^ 63 := by
  simp only [currentRevision, bind_eq_ok] at h
  obtain ⟨_, -, _, -, _, -, h⟩ := h
  split at h
  · cases h
  · simp only [bind_eq_ok, failIf_eq_ok, not_le] at h
    obtain ⟨_, -, _, -, _, hraises, h⟩ := h
    exact Except.ok.inj h ▸ hraises

theorem revision_pos_of_decode {snapshot : StoredSnapshot} (h : d.decode = .ok snapshot) :
    0 < snapshot.revision := by
  unfold GrantDb.decode at h
  split at h
  · cases h
  · simp only [decodeSnapshot, bind_eq_ok, failIf_eq_ok] at h
    obtain ⟨_, hbounds, _, -, rules, -, h⟩ := h
    obtain rfl := Except.ok.inj h
    push Not at hbounds
    exact hbounds.1

theorem stored_deleteGrant (d : GrantDb) (id : Str) :
    (d.deleteGrant id).stored = d.stored.filter fun r => r.id ≠ id := by
  have hvalues : ∀ (table : SortedMap Str (SortedSet Str)) (key : Str), key ≠ id →
      GrantDb.values (table.erase id) key = GrantDb.values table key := by
    intro table key hkey
    rw [GrantDb.values, SortedMap.get?_erase, if_neg hkey, GrantDb.values]
  have hentries : (d.deleteGrant id).grants.entries =
      d.grants.entries.filter fun entry => entry.1 ≠ id :=
    List.filter_congr fun _ _ => decide_eq_decide.mpr Iff.rfl
  rw [GrantDb.stored, GrantDb.stored, hentries, List.filter_map]
  refine List.map_congr_left fun entry hentry => ?_
  have hkey : entry.1 ≠ id := by simpa using (List.mem_filter.mp hentry).2
  simp only [GrantDb.storedRule, GrantDb.deleteGrant, hvalues _ _ hkey]

theorem decode_deleteGrant {snapshot : StoredSnapshot} {id : Str} {revision now : Int}
    (hdecode : d.decode = .ok snapshot) (hrevision : 1 ≤ revision) (hnow : 0 ≤ now) :
    ({ d.deleteGrant id with acl := some (revision, now) } : GrantDb).decode =
      .ok ⟨revision, now, d.stored.filter fun r => r.id ≠ id⟩ := by
  have hstored : ({ d.deleteGrant id with acl := some (revision, now) } : GrantDb).stored =
      d.stored.filter fun r => r.id ≠ id := stored_deleteGrant d id
  unfold GrantDb.decode at hdecode
  split at hdecode
  · cases hdecode
  · simp only [decodeSnapshot, bind_eq_ok, ordered, failIf_eq_ok, not_not] at hdecode
    obtain ⟨_, -, _, hordered, rules, hrules, -⟩ := hdecode
    have hpairwise : ((d.stored.filter fun r => r.id ≠ id).map (·.id)).Pairwise (· < ·) :=
      hordered.sublist (List.filter_sublist.map _)
    have heach : ∀ r ∈ d.stored, decodeRule r = .ok r := fun r hr => by
      obtain ⟨r', hr'⟩ := exists_ok_of_mem hrules hr
      exact decodeRule_eq_ok hr' ▸ hr'
    have hrest : (d.stored.filter fun r => r.id ≠ id).mapM decodeRule =
        .ok (d.stored.filter fun r => r.id ≠ id) := by
      rw [mapM_eq_ok_iff]
      exact List.forall₂_same.mpr fun r hr => heach r (List.mem_filter.mp hr).1
    simp only [GrantDb.decode, hstored, decodeSnapshot, bind_eq_ok, ordered, failIf_eq_ok, not_not]
    exact ⟨(), by omega, (), hpairwise, _, hrest, rfl⟩

structure Undisturbed (env : GrantEnv) (rules : List StoredRule) : Prop where
  faultless : ∀ site, env.fails site = none
  clock : ∃ now, env.now = .ok now ∧ 0 ≤ now
  fits : env.jsonBytes rules ≤ env.limit
  commits : env.commit = .ok ()

theorem Undisturbed.step (h : Undisturbed env rules) (site : Nat) :
    env.step site = .ok () := by
  rw [GrantEnv.step, h.faultless site]
  rfl

/-- An owner without faults. -/
def Sample.grantEnv : GrantEnv where
  fails _ := none
  now := .ok 5
  jsonBytes _ := 0
  limit := 1000
  commit := .ok ()

theorem Sample.undisturbed_grantEnv (rules : List StoredRule) : Undisturbed Sample.grantEnv rules :=
  ⟨fun _ => rfl, ⟨5, rfl, by decide⟩, Nat.zero_le _, rfl⟩

/-- What an accepted deletion leaves of the snapshot that was stored, and what it found there. -/
structure Deleted (vendor : Vendor) (routes : AdminGrantRoutes) (snapshot : StoredSnapshot)
    (key : Str) (d' : GrantDb) : Prop where
  names : safeIdentitySegment key 128 = true
  stored : ∃ r ∈ snapshot.rules, r.id = key
  raises : snapshot.revision + 1 < 2 ^ 63
  sound : ∀ r ∈ snapshot.rules, r.id ≠ key → SoundRule vendor routes r
  leaves : ∃ left, d'.decode = .ok left ∧ left.revision = snapshot.revision + 1 ∧
    left.rules = snapshot.rules.filter fun r => r.id ≠ key
  usable : Usable vendor d'
  routed : Routed routes d'

theorem deleted_of_ok {snapshot : StoredSnapshot} {id : Str} {expected : Nat} {u : Unit}
    (hdecode : d.decode = .ok snapshot)
    (h : mutateGrants vendor routes env (.delete id) expected d = .ok (u, d')) :
    Deleted vendor routes snapshot (trim id) d' := by
  obtain ⟨hrules, hrevision⟩ := decode_eq_ok hdecode
  have haccepted := mutateGrants_eq_ok h
  simp only [mutateGrants, applyGrant, bind_eq_ok, failIf_eq_ok] at h
  obtain ⟨revision, hcurrent, now, -, d₁, ⟨_, hname, _, -, _, hrow, happly⟩, _, -, left, hleft, _,
    hvalid, _, -, h⟩ := h
  obtain rfl := Except.ok.inj happly
  obtain ⟨-, rfl⟩ := Prod.mk.inj (Except.ok.inj h)
  simp only [observeSnapshot, bind_eq_ok, mapError_eq_ok] at hleft
  obtain ⟨_, -, _, -, hleft⟩ := hleft
  obtain ⟨hkept, hraised⟩ := decode_eq_ok hleft
  have hkept : left.rules = snapshot.rules.filter fun r => r.id ≠ trim id := by
    rw [hkept, hrules]
    exact stored_deleteGrant d (trim id)
  refine ⟨by simpa using hname, ?_, ?_, fun r hr hne => ?_, ⟨left, hleft, ?_, hkept⟩,
    haccepted.usable, haccepted.routed⟩
  · obtain ⟨row, hrow⟩ := Option.ne_none_iff_exists'.mp (by simpa using hrow)
    rw [hrules]
    exact ⟨_, List.mem_map_of_mem (SortedMap.mem_entries_iff.mpr hrow), rfl⟩
  · rw [hrevision, (currentRevision_eq_ok hcurrent).1]
    exact revision_raises_of_ok hcurrent
  · exact sound_of_validateSnapshot hvalid r
      (hkept ▸ List.mem_filter.mpr ⟨hr, by simpa using hne⟩)
  · rw [hraised, haccepted.raises, hrevision]

theorem delete_accepted {snapshot : StoredSnapshot} {id : Str} {expected : Nat}
    (hdecode : d.decode = .ok snapshot) (hstored : ∃ r ∈ snapshot.rules, r.id = trim id)
    (hname : safeIdentitySegment (trim id) 128 = true)
    (hexpected : snapshot.revision = expected) (hrevision : snapshot.revision + 1 < 2 ^ 63)
    (hrest : ∀ r ∈ snapshot.rules, r.id ≠ trim id → SoundRule vendor routes r)
    (henv : Undisturbed env (snapshot.rules.filter fun r => r.id ≠ trim id)) :
    (adminGrants vendor routes env (.delete id) expected d).1 = .ok () := by
  obtain ⟨hrules, hcurrent⟩ := decode_eq_ok hdecode
  obtain ⟨now, hnow, hpositive⟩ := henv.clock
  obtain ⟨updatedAt, hacl, hone⟩ : ∃ updatedAt, d.acl = some (snapshot.revision, updatedAt) ∧
      1 ≤ snapshot.revision := by
    unfold GrantDb.decode at hdecode
    split at hdecode
    · cases hdecode
    · rename_i revision updatedAt hacl
      simp only [decodeSnapshot, bind_eq_ok, failIf_eq_ok] at hdecode
      obtain ⟨_, hbounds, _, -, rules, -, h⟩ := hdecode
      obtain rfl := Except.ok.inj h
      exact ⟨updatedAt, hacl, by push Not at hbounds; exact hbounds.1⟩
  obtain ⟨row, hrow⟩ : ∃ row, d.grants.get? (trim id) = some row := by
    obtain ⟨r, hr, hkey⟩ := hstored
    rw [hrules] at hr
    obtain ⟨⟨key, row⟩, hentry, rfl⟩ := List.mem_map.mp hr
    exact ⟨row, hkey ▸ SortedMap.mem_entries_iff.mp hentry⟩
  have hread : currentRevision env expected d = .ok snapshot.revision := by
    simp only [currentRevision, henv.step, hacl, bind_eq_ok, failIf_eq_ok]
    exact ⟨(), trivial, (), by omega, (), trivial, (), by omega, (), by omega, (), by omega, rfl⟩
  have happly : applyGrant env now d (.delete id) = .ok (d.deleteGrant (trim id)) := by
    simp only [applyGrant, henv.step, hrow, bind_eq_ok, failIf_eq_ok]
    exact ⟨(), by simp [hname], (), trivial, (), by simp, rfl⟩
  rw [hrules] at hrest henv
  have hleft :
      ({ d.deleteGrant (trim id) with acl := some (snapshot.revision + 1, now) } : GrantDb).decode =
        .ok ⟨snapshot.revision + 1, now, d.stored.filter fun r => r.id ≠ trim id⟩ :=
    decode_deleteGrant hdecode (by omega) hpositive
  have hobserve : observeSnapshot env
      { d.deleteGrant (trim id) with acl := some (snapshot.revision + 1, now) } =
        .ok ⟨snapshot.revision + 1, now, d.stored.filter fun r => r.id ≠ trim id⟩ := by
    have hstored' :
        ({ d.deleteGrant (trim id) with acl := some (snapshot.revision + 1, now) } : GrantDb).stored =
          d.stored.filter fun r => r.id ≠ trim id := stored_deleteGrant d (trim id)
    simp only [observeSnapshot, henv.step, hstored', hleft, bind_eq_ok, failIf_eq_ok,
      mapError_eq_ok]
    exact ⟨(), trivial, (), by simpa using henv.fits, trivial⟩
  have hvalid : validateSnapshot vendor routes
      ⟨snapshot.revision + 1, now, d.stored.filter fun r => r.id ≠ trim id⟩ = .ok () :=
    validateSnapshot_of_sound fun r hr => by
      obtain ⟨hr, hne⟩ := List.mem_filter.mp hr
      exact hrest r hr (by simpa using hne)
  have hbody : mutateGrants vendor routes env (.delete id) expected d =
      .ok ((), { d.deleteGrant (trim id) with acl := some (snapshot.revision + 1, now) }) := by
    simp only [mutateGrants, bind_eq_ok, mapError_eq_ok]
    exact ⟨_, hread, now, hnow, _, happly, (), henv.step 8, _, hobserve, (), hvalid, (),
      henv.step 9, rfl⟩
  rw [adminGrants, transact, hbody, henv.commits]

/-- One request of a deletion is accepted, by any owner in any environment. -/
def Deletes (vendor : Vendor) (routes : AdminGrantRoutes) (d d' : GrantDb) : Prop :=
  ∃ (env : GrantEnv) (id : Str) (expected : Nat),
    (adminGrants vendor routes env (.delete id) expected d).1 = .ok () ∧
      (adminGrants vendor routes env (.delete id) expected d).2 = d'

/-- The grants other than `key` are sound and `key` can be named and deleted. -/
structure OneBad (vendor : Vendor) (routes : AdminGrantRoutes) (snapshot : StoredSnapshot)
    (key : Str) : Prop where
  names : safeIdentitySegment key 128 = true
  raises : snapshot.revision + 1 < 2 ^ 63
  sound : ∀ r ∈ snapshot.rules, r.id ≠ key → SoundRule vendor routes r

/-- A stored grant is deleted exactly if a request can name it and every other stored grant is sound
for the configured routes; a refusal changes nothing. What is left decodes, compiles and names
configured routes. Deletions lead to sound grants exactly if at most one grant is not sound. -/
theorem delete_exact (vendor : Vendor) (routes : AdminGrantRoutes) (d : GrantDb)
    (snapshot : StoredSnapshot) (hdecode : d.decode = .ok snapshot) :
    (∀ (env : GrantEnv) (id : Str) (expected : Nat),
      Undisturbed env (snapshot.rules.filter fun r => r.id ≠ trim id) →
      (∃ r ∈ snapshot.rules, r.id = trim id) → snapshot.revision = expected →
        ((adminGrants vendor routes env (.delete id) expected d).1 = .ok () ↔
          OneBad vendor routes snapshot (trim id)) ∧
        (¬ OneBad vendor routes snapshot (trim id) →
          (adminGrants vendor routes env (.delete id) expected d).2 = d)) ∧
    (∀ (env : GrantEnv) (id : Str) (expected : Nat),
      (adminGrants vendor routes env (.delete id) expected d).1 = .ok () →
        Deleted vendor routes snapshot (trim id)
          (adminGrants vendor routes env (.delete id) expected d).2) ∧
    ((∃ d', Relation.ReflTransGen (Deletes vendor routes) d d' ∧
        ∀ r ∈ d'.stored, SoundRule vendor routes r) ↔
      (∀ r ∈ snapshot.rules, SoundRule vendor routes r) ∨
        ∃ id, (∃ r ∈ snapshot.rules, r.id = trim id) ∧ OneBad vendor routes snapshot (trim id)) := by
  have hrules := (decode_eq_ok hdecode).1
  have hdeleted : ∀ (env : GrantEnv) (id : Str) (expected : Nat),
      (adminGrants vendor routes env (.delete id) expected d).1 = .ok () →
        Deleted vendor routes snapshot (trim id)
          (adminGrants vendor routes env (.delete id) expected d).2 :=
    fun env id expected h => deleted_of_ok hdecode (transact_fst_ok h)
  refine ⟨fun env id expected henv hstored hexpected => ⟨⟨fun h => ?_, fun h => ?_⟩, fun hbad => ?_⟩,
    hdeleted, ⟨?_, ?_⟩⟩
  · have hleft := hdeleted env id expected h
    exact ⟨hleft.names, hleft.raises, hleft.sound⟩
  · exact delete_accepted hdecode hstored h.names hexpected h.raises h.sound henv
  · rcases transact_snd (mutateGrants vendor routes env (.delete id) expected) env.commit d with
      hsame | ⟨u, hbody⟩
    · exact hsame
    · have hleft := deleted_of_ok hdecode hbody
      exact absurd ⟨hleft.names, hleft.raises, hleft.sound⟩ hbad
  · rintro ⟨d', hreach, hsound⟩
    -- the first deletion is accepted only if it takes away the last grant that is not sound
    rcases Relation.ReflTransGen.cases_head hreach with rfl | ⟨_, ⟨env, id, expected, hok, -⟩, -⟩
    · exact Or.inl (hrules ▸ hsound)
    · have hleft := hdeleted env id expected hok
      exact Or.inr ⟨id, hleft.stored, hleft.names, hleft.raises, hleft.sound⟩
  · rintro (hsound | ⟨id, hstored, hbad⟩)
    · exact ⟨d, .refl, hrules ▸ hsound⟩
    · have hok := delete_accepted hdecode hstored hbad.names
        (Int.toNat_of_nonneg (revision_pos_of_decode hdecode).le).symm hbad.raises hbad.sound
        (Sample.undisturbed_grantEnv _)
      have hleft := hdeleted _ id _ hok
      obtain ⟨left, hleftDecode, -, hkept⟩ := hleft.leaves
      refine ⟨_, .single ⟨_, id, _, hok, rfl⟩, fun r hr => ?_⟩
      rw [← (decode_eq_ok hleftDecode).1, hkept] at hr
      obtain ⟨hr, hne⟩ := List.mem_filter.mp hr
      exact hbad.sound r hr (by simpa using hne)

namespace Sample

def routeGrant (name route : Str) : GrantRow := ⟨name, "authenticated".toList, [], route, 0, 0⟩

def remainingRoutes : AdminGrantRoutes := ⟨SortedSet.empty.insert "new".toList, "new".toList⟩

def twoGrants (left right : Str) : GrantDb where
  acl := some (1, 0)
  grants := (SortedMap.empty.insert "a".toList (routeGrant "A".toList left)).insert "b".toList
    (routeGrant "B".toList right)
  capabilities := (SortedMap.empty.insert "a".toList
    (SortedSet.empty.insert "s3".toList)).insert "b".toList (SortedSet.empty.insert "s3".toList)
  projects := .empty
  s3Operations := .empty
  s3Prefixes := .empty

def storedGrant (id name route : Str) : StoredRule :=
  ⟨id, name, ⟨"authenticated".toList, [], route, ["s3".toList], [], [], []⟩, 0, 0⟩

end Sample

theorem grantText_eq_ok {value : Str} {max : Nat} {required : Bool}
    (hrequired : required = true → value ≠ []) (hmax : value.length ≤ max)
    (hcontrol : value.all (fun c => !isControl c) = true) :
    grantText value max required = .ok () := by
  rw [grantText, failIf_eq_ok]
  rintro (⟨hr, hnil⟩ | hlong | ⟨c, hc, hcontrol'⟩)
  · exact hrequired hr hnil
  · omega
  · simpa [hcontrol'] using List.all_eq_true.mp hcontrol c hc

/-- One grant is on a route that is gone: its deletion is accepted and leaves sound grants. -/
theorem delete_exact_stranded :
    (adminGrants Sample.crates Sample.remainingRoutes Sample.grantEnv (.delete "a".toList) 1
      (Sample.twoGrants "old".toList "new".toList)).1 = .ok () ∧
      ∃ d', Relation.ReflTransGen (Deletes Sample.crates Sample.remainingRoutes)
          (Sample.twoGrants "old".toList "new".toList) d' ∧
        ∀ r ∈ d'.stored, SoundRule Sample.crates Sample.remainingRoutes r := by
  obtain ⟨snapshot, hdecode⟩ : ∃ snapshot,
      (Sample.twoGrants "old".toList "new".toList).decode = .ok snapshot :=
    exists_ok_of_isOk (by decide +kernel)
  obtain ⟨hrules, hrevision⟩ := decode_eq_ok hdecode
  have hone : snapshot.revision = 1 := hrevision.trans rfl
  have hstored : (Sample.twoGrants "old".toList "new".toList).stored =
      [Sample.storedGrant "a".toList "A".toList "old".toList,
        Sample.storedGrant "b".toList "B".toList "new".toList] := rfl
  have hfound : ∃ r ∈ snapshot.rules, r.id = trim "a".toList := by
    rw [hrules, hstored]
    exact ⟨_, List.mem_cons_self, rfl⟩
  have hbad : OneBad Sample.crates Sample.remainingRoutes snapshot (trim "a".toList) := by
    refine ⟨by decide, by omega, ?_⟩
    rw [hrules, hstored]
    intro r hr hne
    simp only [List.mem_cons, List.not_mem_nil, or_false] at hr
    rcases hr with rfl | rfl
    · exact absurd rfl hne
    · refine ⟨⟨_, rfl⟩, ⟨_, rfl⟩, ⟨_, rfl⟩, ?_⟩
      have hcapability : validateCapability Sample.crates Sample.remainingRoutes "new".toList
          "s3".toList = .ok () := by decide +kernel
      simp only [validateRule, bind_eq_ok, failIf_eq_ok, mapM_eq_ok_iff]
      exact ⟨(), by decide, (), grantText_eq_ok (by decide) (by decide) (by decide), (),
        grantText_eq_ok (by decide) (by decide) (by decide), (), by decide, (), by decide +kernel,
        [()], List.Forall₂.cons hcapability .nil, rfl⟩
  have hexact := delete_exact Sample.crates Sample.remainingRoutes _ snapshot hdecode
  exact ⟨(hexact.1 Sample.grantEnv "a".toList 1 (Sample.undisturbed_grantEnv _) hfound hone).1.mpr
    hbad, hexact.2.2.mpr (Or.inr ⟨"a".toList, hfound, hbad⟩)⟩

def Sample.strandedGrants : GrantDb := Sample.twoGrants "old".toList "old".toList

theorem Sample.stored_strandedGrants (key : Str) : ∃ r ∈ Sample.strandedGrants.stored,
    r.id ≠ key ∧ r.rule.s3Route = "old".toList := by
  have hids : Sample.strandedGrants.stored.map (fun r => (r.id, r.rule.s3Route)) =
      [("a".toList, "old".toList), ("b".toList, "old".toList)] := by
    decide +kernel
  have hmem : ∀ pair ∈ [("a".toList, "old".toList), ("b".toList, "old".toList)],
      ∃ r ∈ Sample.strandedGrants.stored, r.id = pair.1 ∧ r.rule.s3Route = pair.2 := by
    intro pair hpair
    rw [← hids] at hpair
    obtain ⟨r, hr, rfl⟩ := List.mem_map.mp hpair
    exact ⟨r, hr, rfl, rfl⟩
  by_cases hkey : key = "a".toList
  · obtain ⟨r, hr, hid, hroute⟩ := hmem ("b".toList, "old".toList) (by simp)
    exact ⟨r, hr, by rw [hid, hkey]; decide, hroute⟩
  · obtain ⟨r, hr, hid, hroute⟩ := hmem ("a".toList, "old".toList) (by simp)
    exact ⟨r, hr, by rw [hid]; exact fun h => hkey h.symm, hroute⟩

/-- Neither of the two grants can be deleted, whatever the request and the revision it carries. -/
theorem stranded_grants_stay :
    (∃ snapshot, Sample.strandedGrants.decode = .ok snapshot) ∧
      ¬ Routed Sample.remainingRoutes Sample.strandedGrants ∧
      ∀ (vendor : Vendor) (env : GrantEnv) (id : Str) (expected : Nat),
        (adminGrants vendor Sample.remainingRoutes env (.delete id) expected
          Sample.strandedGrants).1 ≠ .ok () ∧
        (adminGrants vendor Sample.remainingRoutes env (.delete id) expected
          Sample.strandedGrants).2 = Sample.strandedGrants := by
  have hroute : "old".toList ≠ [] ∧ "old".toList ∉ Sample.remainingRoutes.names := by
    constructor
    · decide
    · simp only [Sample.remainingRoutes, SortedSet.mem_insert, SortedSet.not_mem_empty, or_false]
      decide
  have hrefused : ∀ (vendor : Vendor) (env : GrantEnv) (id : Str) (expected : Nat) (u : Unit)
      (d' : GrantDb), mutateGrants vendor Sample.remainingRoutes env (.delete id) expected
        Sample.strandedGrants ≠ .ok (u, d') := by
    intro vendor env id expected u d' hbody
    have haccepted := mutateGrants_eq_ok hbody
    obtain ⟨now, d₁, happly, hstored⟩ := haccepted.applies
    simp only [applyGrant, bind_eq_ok] at happly
    obtain ⟨_, -, _, -, _, -, happly⟩ := happly
    obtain rfl := Except.ok.inj happly
    -- Whichever of the two is deleted, the other one is still on a route that is not configured.
    obtain ⟨r, hr, hne, hold⟩ := Sample.stored_strandedGrants (trim id)
    have hleft : r ∈ d'.stored := by
      rw [hstored, stored_deleteGrant]
      exact List.mem_filter.mpr ⟨hr, by simpa using hne⟩
    rcases haccepted.routed r hleft with hnil | hin
    · exact hroute.1 (hold ▸ hnil)
    · exact hroute.2 (hold ▸ hin)
  refine ⟨?_, ?_, fun vendor env id expected => ⟨fun h => ?_, ?_⟩⟩
  · exact exists_ok_of_isOk (by decide +kernel)
  · intro hrouted
    obtain ⟨r, hr, -, hold⟩ := Sample.stored_strandedGrants []
    rcases hrouted r hr with hnil | hin
    · exact hroute.1 (hold ▸ hnil)
    · exact hroute.2 (hold ▸ hin)
  · exact hrefused vendor env id expected () _ (transact_fst_ok h)
  · rcases transact_snd (mutateGrants vendor Sample.remainingRoutes env (.delete id) expected)
      env.commit
      Sample.strandedGrants with hsame | ⟨u, hbody⟩
    · exact hsame
    · exact absurd hbody (hrefused vendor env id expected u _)

end GraphitBroker
