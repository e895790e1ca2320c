import GraphitBroker.Proof.InventoryRows
import GraphitBroker.Lib.Transactions

/-!
# Runs of instance registrations

Over every sequence of registrations the rows of an installation are those of a canonical inventory,
the one of its last registration, and its owner is the one that created it.
-/

namespace GraphitBroker

open ExceptList Transactions Paging

variable {vendor : Vendor}

namespace RegistrationDb

variable {d d' : RegistrationDb} {id : Str}

theorem mem_queryVersions {row : VersionRow} :
    row ∈ d.queryVersions id ↔
      d.versions.get? (versionKey id row.projectId row.position) = some row.version := by
  rw [queryVersions, List.mem_map, ← SortedMap.mem_entries_iff]
  constructor
  · rintro ⟨⟨key, version⟩, hentry, rfl⟩
    obtain ⟨hmem, hid⟩ := List.mem_filter.mp hentry
    obtain rfl := beq_iff_eq.mp hid
    exact hmem
  · intro hmem
    exact ⟨_, List.mem_filter.mpr ⟨hmem, beq_self_eq_true _⟩, rfl⟩

theorem sorted_queryVersions : (d.queryVersions id).Pairwise fun a b => a.key < b.key := by
  rw [queryVersions, List.pairwise_map]
  refine List.Pairwise.imp_of_mem (fun {a b} ha hb hlt => ?_) (d.versions.sorted.filter _)
  have hid : (ofLex a.1).1 = (ofLex b.1).1 :=
    (beq_iff_eq.mp (List.mem_filter.mp ha).2).trans (beq_iff_eq.mp (List.mem_filter.mp hb).2).symm
  rcases Prod.Lex.lt_iff.mp hlt with hlt | ⟨-, hlt⟩
  · exact absurd hid hlt.ne
  · exact hlt

theorem length_kept :
    d.versions.entries.length -
      (d.versions.filter fun key _ => (ofLex key).1 ≠ id).entries.length =
      (d.queryVersions id).length := by
  have hsplit := List.length_eq_length_filter_add (l := d.versions.entries)
    fun entry => (ofLex entry.1).1 == id
  have hkept : (d.versions.filter fun key _ => (ofLex key).1 ≠ id).entries =
      d.versions.entries.filter fun entry => !((ofLex entry.1).1 == id) :=
    List.filter_congr fun entry _ => by
      rw [Bool.eq_iff_iff]
      simp
  rw [hkept, queryVersions, List.length_map]
  omega

theorem insertVersions_eq_ok {rows : List VersionRow} {versions : SortedMap VersionKey Str}
    (hsorted : rows.Pairwise fun a b => a.key < b.key)
    (hfree : ∀ row ∈ rows, versions.get? (versionKey id row.projectId row.position) = none) :
    ∃ result, insertVersions id rows versions = .ok result ∧
      ∀ key version, result.get? key = some version ↔
        (∃ row ∈ rows, key = versionKey id row.projectId row.position ∧ version = row.version) ∨
          versions.get? key = some version := by
  induction rows generalizing versions with
  | nil => exact ⟨versions, rfl, by simp⟩
  | cons row rest ih =>
    obtain ⟨hlt, hrest⟩ := List.pairwise_cons.mp hsorted
    have hkey : ∀ other ∈ rest, versionKey id other.projectId other.position ≠
        versionKey id row.projectId row.position := by
      intro other hother heq
      exact (hlt other hother).ne (congrArg (fun k : VersionKey => (ofLex k).2) heq).symm
    obtain ⟨result, hresult, hget⟩ :=
      @ih (versions.insert (versionKey id row.projectId row.position) row.version) hrest
        fun other hother => by
          rw [SortedMap.get?_insert, if_neg (hkey other hother)]
          exact hfree other (List.mem_cons_of_mem _ hother)
    refine ⟨result, ?_, fun key version => ?_⟩
    · simp only [insertVersions, bind_eq_ok, failIf_eq_ok]
      exact ⟨(), by rw [hfree row List.mem_cons_self]; simp, hresult⟩
    · rw [hget, SortedMap.get?_insert]
      have hfirst := hfree row List.mem_cons_self
      constructor
      · rintro (⟨other, hother, h⟩ | h)
        · exact .inl ⟨other, List.mem_cons_of_mem _ hother, h⟩
        · split_ifs at h with heq
          · exact .inl ⟨row, List.mem_cons_self, heq, (Option.some.inj h).symm⟩
          · exact .inr h
      · rintro (⟨other, hother, hother', rfl⟩ | h)
        · rcases List.mem_cons.mp hother with rfl | hother
          · exact .inr (by rw [if_pos hother'])
          · exact .inl ⟨other, hother, hother', rfl⟩
        · refine .inr ?_
          rw [if_neg, h]
          rintro rfl
          rw [hfirst] at h
          cases h

/-- The table after the registration of an inventory: a row of the installation, its versions, and
nothing else. -/
structure Registered (d d' : RegistrationDb) (id : Str) (row : InstanceRow)
    (projects : List InstanceProjectVersions) : Prop where
  instances : d'.instances = d.instances.insert id row
  written : d'.queryVersions id = registryRows projects
  others : ∀ other, other ≠ id → d'.queryVersions other = d.queryVersions other

variable {projects : List InstanceProjectVersions} {row : InstanceRow}

theorem exists_inserted (hvalid : validProjects vendor projects = true) :
    ∃ versions, insertVersions id (registryRows projects)
        (d.versions.filter fun key _ => (ofLex key).1 ≠ id) = .ok versions ∧
      ∀ instances : SortedMap Str InstanceRow,
        (RegistrationDb.mk instances versions).queryVersions id = registryRows projects ∧
        ∀ other, other ≠ id →
          (RegistrationDb.mk instances versions).queryVersions other = d.queryVersions other := by
  have hsorted : (registryRows projects).Pairwise fun a b => a.key < b.key :=
    (List.pairwise_cons.mp (sorted_of_followOn
      (@followOn_registryRows vendor projects noRow hvalid fun _ _ => .inl rfl))).2
  have hkept : ∀ key version, (d.versions.filter fun key _ => (ofLex key).1 ≠ id).get? key =
      some version ↔ d.versions.get? key = some version ∧ (ofLex key).1 ≠ id := by
    intro key version
    rw [SortedMap.get?_filter, Option.filter_eq_some_iff, decide_eq_true_eq]
  obtain ⟨versions, hok, hget⟩ := @insertVersions_eq_ok id (registryRows projects)
    (d.versions.filter fun key _ => (ofLex key).1 ≠ id) hsorted fun row _ => by
      rw [Option.eq_none_iff_forall_ne_some]
      intro version h
      exact ((hkept _ _).mp h).2 rfl
  refine ⟨versions, hok, fun instances => ⟨?_, fun other hother => ?_⟩⟩
  · refine eq_of_mem_iff sorted_queryVersions hsorted fun row => ?_
    rw [mem_queryVersions]
    show versions.get? _ = _ ↔ _
    rw [hget]
    constructor
    · rintro (⟨row', hrow', hkey, hversion⟩ | h)
      · have hpair := congrArg (fun k : VersionKey => ofLex (ofLex k).2) hkey
        obtain ⟨hproject, hposition⟩ := Prod.mk.inj hpair
        have : row = row' := by
          cases row
          cases row'
          simp_all
        exact this ▸ hrow'
      · exact absurd rfl ((hkept _ _).mp h).2
    · intro hrow
      exact .inl ⟨row, hrow, rfl, rfl⟩
  · refine eq_of_mem_iff sorted_queryVersions sorted_queryVersions fun row => ?_
    rw [mem_queryVersions, mem_queryVersions]
    show versions.get? _ = _ ↔ _
    rw [hget, hkept]
    constructor
    · rintro (⟨row', -, hkey, -⟩ | h)
      · exact absurd (congrArg (fun k : VersionKey => (ofLex k).1) hkey) hother
      · exact h.1
    · exact fun h => .inr ⟨h, hother⟩

structure Consistent (vendor : Vendor) (d : RegistrationDb) : Prop where
  stored : ∀ id row, d.instances.get? id = some row → validInstallationId id = true ∧
    (validOwnerValue row.ownerIssuer 1024 && validOwnerValue row.ownerSubject 512) = true ∧
    0 ≤ row.createdAt ∧ 0 ≤ row.updatedAt ∧
    ∃ projects, validProjects vendor projects = true ∧ d.queryVersions id = registryRows projects
  absent : ∀ id, d.instances.get? id = none → d.queryVersions id = []

theorem decode_eq (hid : validInstallationId id = true)
    (howner : (validOwnerValue row.ownerIssuer 1024 && validOwnerValue row.ownerSubject 512) = true)
    (htimes : 0 ≤ row.createdAt ∧ 0 ≤ row.updatedAt) (hvalid : validProjects vendor projects = true)
    (hrows : d.queryVersions id = registryRows projects) :
    d.decode vendor id row = some projects := by
  have hnew : newProjects projects = some projects :=
    newProjects_eq_some_iff.mpr ⟨.refl _, (validProjects_iff.mp hvalid).2⟩
  rw [decode, if_neg (by omega), if_pos howner, hrows, decodeRows_eq hvalid]
  simp only [Option.bind_eq_bind, Option.bind_some, if_pos hid, hnew]

theorem Registered.consistent (h : Registered d d' id row projects) (hd : d.Consistent vendor)
    (hid : validInstallationId id = true)
    (howner : (validOwnerValue row.ownerIssuer 1024 && validOwnerValue row.ownerSubject 512) = true)
    (htimes : 0 ≤ row.createdAt ∧ 0 ≤ row.updatedAt)
    (hvalid : validProjects vendor projects = true) : d'.Consistent vendor := by
  constructor
  · intro other row' hrow'
    rw [h.instances, SortedMap.get?_insert] at hrow'
    split_ifs at hrow' with heq
    · obtain rfl := Option.some.inj hrow'
      rw [heq]
      exact ⟨hid, howner, htimes.1, htimes.2, projects, hvalid, h.written⟩
    · obtain ⟨hid', howner', hcreated, hupdated, projects', hvalid', hrows'⟩ :=
        hd.stored other row' hrow'
      exact ⟨hid', howner', hcreated, hupdated, projects', hvalid', (h.others other heq).trans hrows'⟩
  · intro other hnone
    rw [h.instances, SortedMap.get?_insert] at hnone
    split_ifs at hnone with heq
    rw [h.others other heq]
    exact hd.absent other hnone

theorem decode_eq_some_iff (hd : d.Consistent vendor) (hrow : d.instances.get? id = some row)
    (hvalid : validProjects vendor projects = true) :
    d.decode vendor id row = some projects ↔ d.queryVersions id = registryRows projects := by
  obtain ⟨hid, howner, hcreated, hupdated, stored, hstored, hrows⟩ := hd.stored id row hrow
  have hdecode : d.decode vendor id row = some stored :=
    decode_eq hid howner ⟨hcreated, hupdated⟩ hstored hrows
  constructor
  · intro h
    obtain rfl := Option.some.inj (hdecode.symm.trans h)
    exact hrows
  · exact decode_eq hid howner ⟨hcreated, hupdated⟩ hvalid

theorem byteLen_le_four_mul (s : Str) : byteLen s ≤ 4 * s.length := by
  have := List.sum_le_card_nsmul (s.map Char.utf8Size) 4 fun n hn => by
    obtain ⟨c, -, rfl⟩ := List.mem_map.mp hn
    exact c.utf8Size_le_four
  rw [List.length_map, smul_eq_mul] at this
  exact this.trans_eq (Nat.mul_comm _ _)

theorem owner_within {issuer subject : Str}
    (h : (validOwnerValue issuer 1024 && validOwnerValue subject 512) = true) :
    ¬(4096 < byteLen issuer ∨ 2048 < byteLen subject) := by
  simp only [validOwnerValue, Bool.and_eq_true, decide_eq_true_eq] at h
  have hissuer := byteLen_le_four_mul issuer
  have hsubject := byteLen_le_four_mul subject
  omega

theorem compareRows_stored {expected : List VersionRow} (hd : d.Consistent vendor) :
    compareRows vendor (d.queryVersions id) expected true 0 noRow =
      .ok (decide (d.queryVersions id = expected), (d.queryVersions id).length) := by
  have hfollow : FollowOn vendor noRow (d.queryVersions id) := by
    cases hrow : d.instances.get? id with
    | none =>
      rw [hd.absent id hrow]
      trivial
    | some row =>
      obtain ⟨-, -, -, -, projects, hvalid, hrows⟩ := hd.stored id row hrow
      rw [hrows]
      exact followOn_registryRows hvalid fun _ _ => .inl rfl
  rw [compareRows_eq hfollow, Bool.true_and, Nat.zero_add]

/-- What a registration can do: a reading of the clock fails; the installation belongs to another
owner; the rows are those of the inventory; or they become those of the inventory. -/
theorem replaceBody_cases {owner : InstanceOwner} {inventory : InstanceInventory vendor}
    {stamp later : Option Nat} (hd : d.Consistent vendor) :
    (∃ e, replaceBody vendor owner inventory stamp later d = .error (.control e)) ∨
    (∃ row, d.instances.get? inventory.instanceId = some row ∧
      (row.ownerIssuer ≠ owner.issuer ∨ row.ownerSubject ≠ owner.subject) ∧
      replaceBody vendor owner inventory stamp later d = .error .ownerConflict) ∨
    (∃ row, d.instances.get? inventory.instanceId = some row ∧
      row.ownerIssuer = owner.issuer ∧ row.ownerSubject = owner.subject ∧
      d.queryVersions inventory.instanceId = registryRows inventory.projects ∧
      replaceBody vendor owner inventory stamp later d =
        .ok (⟨.unchanged, inventory.instanceId, row.createdAt, row.updatedAt⟩, d)) ∨
    (∃ now d', d.instances.get? inventory.instanceId = none ∧ 0 ≤ now ∧
      replaceBody vendor owner inventory stamp later d =
        .ok (⟨.created, inventory.instanceId, now, now⟩, d') ∧
      Registered d d' inventory.instanceId ⟨owner.issuer, owner.subject, now, now⟩
        inventory.projects) ∨
    (∃ row now d', d.instances.get? inventory.instanceId = some row ∧ 0 ≤ now ∧
      row.ownerIssuer = owner.issuer ∧ row.ownerSubject = owner.subject ∧
      d.queryVersions inventory.instanceId ≠ registryRows inventory.projects ∧
      replaceBody vendor owner inventory stamp later d =
        .ok (⟨.updated, inventory.instanceId, row.createdAt, now⟩, d') ∧
      Registered d d' inventory.instanceId { row with updatedAt := now } inventory.projects) := by
  have hpass : ∀ {p : Prop} [Decidable p] {e : InstanceRegistryError}, ¬p →
      failIf p e = .ok () := fun hp => failIf_eq_ok.mpr hp
  have hvalidOwner : ∀ {issuer subject : Str},
      (validOwnerValue issuer 1024 && validOwnerValue subject 512) = true →
      ¬(validOwnerValue issuer 1024 = false ∨ validOwnerValue subject 512 = false) := by
    intro issuer subject h
    simp_all
  cases stamp with
  | none => exact .inl ⟨.clock, rfl⟩
  | some micros =>
  obtain ⟨versions, hinsert, hquery⟩ :=
    @exists_inserted vendor d inventory.instanceId _ inventory.valid
  cases hrow : d.instances.get? inventory.instanceId with
  | none =>
    -- A new installation: its row is written with the time of the call.
    refine .inr (.inr (.inr (.inl ⟨micros, ?_⟩)))
    have hnonneg : ¬((micros : Int) < 0 ∨ (micros : Int) < 0) := by omega
    by_cases hsame : d.queryVersions inventory.instanceId = registryRows inventory.projects
    · refine ⟨⟨d.instances.insert inventory.instanceId ⟨owner.issuer, owner.subject, micros, micros⟩,
        d.versions⟩, rfl, Int.natCast_nonneg _, ?_, ⟨rfl, hsame, fun _ _ => rfl⟩⟩
      simp only [replaceBody, registryClock, hrow, Option.isNone_none, Option.getD_none, bind,
        Except.bind, hpass (owner_within owner.valid), hpass hnonneg,
        hpass (hvalidOwner owner.valid), compareRows_stored hd, decide_eq_true hsame]
      rw [hpass (by simp)]
      rfl
    · refine ⟨⟨d.instances.insert inventory.instanceId ⟨owner.issuer, owner.subject, micros, micros⟩,
        versions⟩, rfl, Int.natCast_nonneg _, ?_, ⟨rfl, (hquery _).1, (hquery _).2⟩⟩
      simp only [replaceBody, registryClock, hrow, Option.isNone_none, Option.getD_none, bind,
        Except.bind, hpass (owner_within owner.valid), hpass hnonneg,
        hpass (hvalidOwner owner.valid), compareRows_stored hd, decide_eq_false hsame,
        length_kept, hinsert]
      rw [hpass (by simp), hpass (by simp)]
      rfl
  | some row =>
    obtain ⟨-, howner, hcreated, hupdated, -⟩ := hd.stored _ _ hrow
    have hnonneg : ¬(row.createdAt < 0 ∨ row.updatedAt < 0) := by omega
    by_cases hconflict : row.ownerIssuer ≠ owner.issuer ∨ row.ownerSubject ≠ owner.subject
    · refine .inr (.inl ⟨row, rfl, hconflict, ?_⟩)
      simp only [replaceBody, registryClock, hrow, Option.getD_some, bind, Except.bind,
        hpass (owner_within howner), hpass hnonneg, hpass (hvalidOwner howner)]
      rw [failIf, if_pos hconflict]
    have hmine : row.ownerIssuer = owner.issuer ∧ row.ownerSubject = owner.subject := by
      simpa only [not_or, not_not] using hconflict
    by_cases hsame : d.queryVersions inventory.instanceId = registryRows inventory.projects
    · refine .inr (.inr (.inl ⟨row, rfl, hmine.1, hmine.2, hsame, ?_⟩))
      simp only [replaceBody, registryClock, hrow, Option.getD_some, bind, Except.bind,
        hpass (owner_within howner), hpass hnonneg, hpass (hvalidOwner howner), hpass hconflict,
        compareRows_stored hd, decide_eq_true hsame]
      rfl
    cases later with
    | none =>
      refine .inl ⟨.clock, ?_⟩
      simp only [replaceBody, registryClock, hrow, Option.getD_some, bind, Except.bind,
        hpass (owner_within howner), hpass hnonneg, hpass (hvalidOwner howner), hpass hconflict,
        compareRows_stored hd, decide_eq_false hsame, length_kept, hinsert]
      rw [hpass (by simp)]
      rfl
    | some micros' =>
      refine .inr (.inr (.inr (.inr ⟨row, micros', ⟨d.instances.insert inventory.instanceId
        { row with updatedAt := micros' }, versions⟩, rfl, Int.natCast_nonneg _, hmine.1, hmine.2,
        hsame, ?_, ⟨rfl, (hquery _).1, (hquery _).2⟩⟩)))
      simp only [replaceBody, registryClock, hrow, Option.getD_some, bind, Except.bind,
        hpass (owner_within howner), hpass hnonneg, hpass (hvalidOwner howner), hpass hconflict,
        compareRows_stored hd, decide_eq_false hsame, length_kept, hinsert]
      rw [hpass (by simp)]
      rfl

theorem consistent_empty : RegistrationDb.empty.Consistent vendor := by
  constructor
  · intro id row hrow
    rw [RegistrationDb.empty, SortedMap.get?_empty] at hrow
    cases hrow
  · exact fun _ _ => rfl

theorem replaceBody_consistent {owner : InstanceOwner} {inventory : InstanceInventory vendor}
    {stamp later : Option Nat} {result : RegistrationResult} (hd : d.Consistent vendor)
    (h : replaceBody vendor owner inventory stamp later d = .ok (result, d')) :
    d'.Consistent vendor := by
  rcases @replaceBody_cases vendor d owner inventory stamp later hd with
    ⟨e, hbody⟩ | ⟨row, -, -, hbody⟩ | ⟨row, -, -, -, -, hbody⟩ | ⟨now, made, -, hnow, hbody, hmade⟩ |
    ⟨row, now, made, hrow, hnow, -, -, -, hbody, hmade⟩ <;> rw [hbody] at h
  · cases h
  · cases h
  · cases h
    exact hd
  · cases h
    exact hmade.consistent hd inventory.validId owner.valid ⟨hnow, hnow⟩ inventory.valid
  · cases h
    obtain ⟨hid, howner, hcreated, -⟩ := hd.stored _ _ hrow
    exact hmade.consistent hd hid howner ⟨hcreated, hnow⟩ inventory.valid

end RegistrationDb

theorem RegistrationCall.run_consistent {d : RegistrationDb} (call : RegistrationCall vendor)
    (hd : d.Consistent vendor) : (call.run d).2.Consistent vendor := by
  rcases transact_snd (replaceBody vendor call.owner call.inventory call.stamp call.later)
    (call.commit.mapError fun e => (.control e.1, e.2)) d with h | ⟨result, h⟩
  · rw [run, h]
    exact hd
  · exact RegistrationDb.replaceBody_consistent hd h

theorem registrations_consistent (calls : List (RegistrationCall vendor)) :
    (registrations calls).Consistent vendor := by
  rw [registrations]
  exact List.foldlRecOn calls _ RegistrationDb.consistent_empty
    fun _ hd call _ => call.run_consistent hd

section Call

variable {d : RegistrationDb} (call : RegistrationCall vendor) (hd : d.Consistent vendor)

theorem RegistrationCall.run_ok {result : RegistrationResult} (h : (call.run d).1 = .ok result) :
    replaceBody vendor call.owner call.inventory call.stamp call.later d =
      .ok (result, (call.run d).2) :=
  transact_fst_ok h

theorem RegistrationCall.run_of_error {e : InstanceRegistryError}
    (h : replaceBody vendor call.owner call.inventory call.stamp call.later d = .error e) :
    call.run d = (.error e, d) :=
  transact_of_error h

theorem RegistrationCall.run_snd :
    (call.run d).2 = d ∨ ∃ result,
      replaceBody vendor call.owner call.inventory call.stamp call.later d =
        .ok (result, (call.run d).2) :=
  transact_snd _ _ d

include hd

theorem RegistrationCall.not_malformed : (call.run d).1 ≠ .error .malformedStored := by
  rcases @RegistrationDb.replaceBody_cases vendor d call.owner call.inventory
    call.stamp call.later hd with
    ⟨e, hbody⟩ | ⟨row, -, -, hbody⟩ | ⟨row, -, -, -, -, hbody⟩ | ⟨now, made, -, -, hbody, -⟩ |
    ⟨row, now, made, -, -, -, -, -, hbody, -⟩
  · rw [call.run_of_error hbody]
    intro h
    cases h
  · rw [call.run_of_error hbody]
    intro h
    cases h
  all_goals
    intro h
    rw [run, transact, hbody] at h
    cases hcommit : call.commit with
    | error e =>
      rw [hcommit] at h
      cases h
    | ok _ =>
      rw [hcommit] at h
      cases h

theorem RegistrationCall.run_frame :
    (∀ id row, d.instances.get? id = some row → ∃ row', (call.run d).2.instances.get? id = some row' ∧
      row'.ownerIssuer = row.ownerIssuer ∧ row'.ownerSubject = row.ownerSubject ∧
      row'.createdAt = row.createdAt) ∧
    (∀ id, id ≠ call.inventory.instanceId →
      (call.run d).2.instances.get? id = d.instances.get? id ∧
      (call.run d).2.queryVersions id = d.queryVersions id) := by
  rcases call.run_snd (d := d) with h | ⟨result, h⟩
  · rw [h]
    exact ⟨fun id row hrow => ⟨row, hrow, rfl, rfl, rfl⟩, fun _ _ => ⟨rfl, rfl⟩⟩
  · have hframe : ∀ row, (call.run d).2.instances = d.instances.insert call.inventory.instanceId row →
        ∀ id, id ≠ call.inventory.instanceId →
          (call.run d).2.instances.get? id = d.instances.get? id := by
      intro row hinsert id hid
      rw [hinsert, SortedMap.get?_insert, if_neg hid]
    rcases @RegistrationDb.replaceBody_cases vendor d call.owner call.inventory
      call.stamp call.later hd with
      ⟨e, hbody⟩ | ⟨row, -, -, hbody⟩ | ⟨row, -, -, -, -, hbody⟩ | ⟨now, made, hnone, -, hbody, hmade⟩ |
      ⟨row, now, made, hrow, -, -, -, -, hbody, hmade⟩ <;> rw [hbody] at h
    · cases h
    · cases h
    · obtain ⟨-, hsame⟩ := Prod.mk.inj (Except.ok.inj h)
      rw [← hsame]
      exact ⟨fun id row hrow => ⟨row, hrow, rfl, rfl, rfl⟩, fun _ _ => ⟨rfl, rfl⟩⟩
    · obtain ⟨-, rfl⟩ := Prod.mk.inj (Except.ok.inj h)
      refine ⟨fun id row hrow => ⟨row, ?_, rfl, rfl, rfl⟩, fun id hid =>
        ⟨hframe _ hmade.instances id hid, hmade.others id hid⟩⟩
      rw [hframe _ hmade.instances id, hrow]
      rintro rfl
      rw [hnone] at hrow
      cases hrow
    · obtain ⟨-, rfl⟩ := Prod.mk.inj (Except.ok.inj h)
      refine ⟨fun id row' hrow' => ?_, fun id hid =>
        ⟨hframe _ hmade.instances id hid, hmade.others id hid⟩⟩
      by_cases hid : id = call.inventory.instanceId
      · subst hid
        obtain rfl := Option.some.inj (hrow.symm.trans hrow')
        refine ⟨{ row with updatedAt := now }, ?_, rfl, rfl, rfl⟩
        rw [hmade.instances, SortedMap.get?_insert, if_pos rfl]
      · exact ⟨row', (hframe _ hmade.instances id hid).trans hrow', rfl, rfl, rfl⟩

theorem RegistrationCall.run_of_conflict {row : InstanceRow}
    (hrow : d.instances.get? call.inventory.instanceId = some row)
    (hother : row.ownerIssuer ≠ call.owner.issuer ∨ row.ownerSubject ≠ call.owner.subject) :
    (call.run d).2 = d ∧ ∃ e, (call.run d).1 = .error e := by
  have hmine : ∀ row', d.instances.get? call.inventory.instanceId = some row' →
      row'.ownerIssuer = call.owner.issuer → row'.ownerSubject ≠ call.owner.subject := by
    intro row' hrow' hissuer
    obtain rfl := Option.some.inj (hrow.symm.trans hrow')
    exact hother.resolve_left (not_not.mpr hissuer)
  rcases @RegistrationDb.replaceBody_cases vendor d call.owner call.inventory
    call.stamp call.later hd with
    ⟨e, hbody⟩ | ⟨row', -, -, hbody⟩ | ⟨row', hrow', hissuer, hsubject, -⟩ | ⟨now, made, hnone, -⟩ |
    ⟨row', now, made, hrow', -, hissuer, hsubject, -⟩
  · rw [call.run_of_error hbody]
    exact ⟨rfl, _, rfl⟩
  · rw [call.run_of_error hbody]
    exact ⟨rfl, _, rfl⟩
  · exact absurd hsubject (hmine row' hrow' hissuer)
  · rw [hnone] at hrow
    cases hrow
  · exact absurd hsubject (hmine row' hrow' hissuer)

theorem RegistrationCall.run_spec {result : RegistrationResult}
    (hok : (call.run d).1 = .ok result) :
    (∃ row, (call.run d).2.instances.get? call.inventory.instanceId = some row ∧
      row.ownerIssuer = call.owner.issuer ∧ row.ownerSubject = call.owner.subject ∧
      row.createdAt = result.createdAt ∧ row.updatedAt = result.updatedAt ∧
      (call.run d).2.decode vendor call.inventory.instanceId row = some call.inventory.projects) ∧
    (result.change = .created ↔ d.instances.get? call.inventory.instanceId = none) ∧
    (result.change = .unchanged ↔ ∃ row, d.instances.get? call.inventory.instanceId = some row ∧
      d.decode vendor call.inventory.instanceId row = some call.inventory.projects) ∧
    (result.change = .unchanged → (call.run d).2 = d) := by
  have h := call.run_ok hok
  have hafter := call.run_consistent hd
  rcases @RegistrationDb.replaceBody_cases vendor d call.owner call.inventory
    call.stamp call.later hd with
    ⟨e, hbody⟩ | ⟨row, -, -, hbody⟩ | ⟨row, hrow, hissuer, hsubject, hrows, hbody⟩ |
    ⟨now, made, hnone, -, hbody, hmade⟩ |
    ⟨row, now, made, hrow, -, hissuer, hsubject, hrows, hbody, hmade⟩ <;> rw [hbody] at h
  · cases h
  · cases h
  · obtain ⟨rfl, hsame⟩ := Prod.mk.inj (Except.ok.inj h)
    have hdecode := (RegistrationDb.decode_eq_some_iff hd hrow call.inventory.valid).mpr hrows
    rw [← hsame]
    refine ⟨⟨row, hrow, hissuer, hsubject, rfl, rfl, hdecode⟩, ?_, ?_, fun _ => rfl⟩
    · rw [hrow]
      exact ⟨nofun, nofun⟩
    · exact ⟨fun _ => ⟨row, hrow, hdecode⟩, fun _ => rfl⟩
  · obtain ⟨rfl, rfl⟩ := Prod.mk.inj (Except.ok.inj h)
    have hget : (call.run d).2.instances.get? call.inventory.instanceId =
        some ⟨call.owner.issuer, call.owner.subject, now, now⟩ := by
      rw [hmade.instances, SortedMap.get?_insert, if_pos rfl]
    have hdecode := (RegistrationDb.decode_eq_some_iff hafter hget call.inventory.valid).mpr
      hmade.written
    refine ⟨⟨_, hget, rfl, rfl, rfl, rfl, hdecode⟩, ⟨fun _ => hnone, fun _ => rfl⟩, ⟨nofun, ?_⟩, nofun⟩
    rintro ⟨row, hrow, -⟩
    rw [hnone] at hrow
    cases hrow
  · obtain ⟨rfl, rfl⟩ := Prod.mk.inj (Except.ok.inj h)
    have hget : (call.run d).2.instances.get? call.inventory.instanceId =
        some { row with updatedAt := now } := by
      rw [hmade.instances, SortedMap.get?_insert, if_pos rfl]
    have hdecode := (RegistrationDb.decode_eq_some_iff hafter hget call.inventory.valid).mpr
      hmade.written
    refine ⟨⟨_, hget, hissuer, hsubject, rfl, rfl, hdecode⟩, ?_, ⟨nofun, ?_⟩, nofun⟩
    · rw [hrow]
      exact ⟨nofun, nofun⟩
    · rintro ⟨row', hrow', hdecode'⟩
      exact absurd ((RegistrationDb.decode_eq_some_iff hd hrow' call.inventory.valid).mp hdecode') hrows

end Call

end GraphitBroker
