import GraphitBroker.InstanceInventories
import GraphitBroker.Proof.SectionMasks

/-!
# Pages of the instance list

The pages of the list are pages of one ordered list of items: what each stored inventory shows to
the caller. That list depends on the rows that the caller may read only.
-/

namespace GraphitBroker

open ExceptList Paging

/-- The candidates of a query beyond a key are within the bound of a read: the installation that is
asked for, or all of them. -/
def InstanceRegistry.Scannable {vendor : Vendor} (registry : InstanceRegistry vendor)
    (query : InstanceListQuery) (jsonBytes : Nat) (after : Option Str) : Prop :=
  ∀ entry ∈ beyond Prod.fst after registry.instances.entries,
    query.instanceId.all (· == entry.1) = true → byteLen (entry.2.payload entry.1) ≤ jsonBytes

namespace ListCaller

variable {vendor : Vendor} {caller : ListCaller} {query : InstanceListQuery}
  {registry : InstanceRegistry vendor} {jsonBytes : Nat}

def shown (caller : ListCaller) (query : InstanceListQuery)
    (entry : Str × StoredInstanceInventory vendor) : Option AuthorizedInstanceListItem :=
  if entry.2.projects.isEmpty then
    if query.projectId.isSome || query.version.isSome || !caller.owns entry.2 ||
        !caller.policy.allowsAnyPrincipal caller.user presenceRead then none
    else some ⟨entry.1, [], entry.2.createdAt, entry.2.updatedAt⟩
  else if (entry.2.projects.filterMap (caller.visible query)).isEmpty then none
  else some ⟨entry.1, entry.2.projects.filterMap (caller.visible query), entry.2.createdAt,
    entry.2.updatedAt⟩

theorem visible_eq_some {stored p : InstanceProjectVersions}
    (h : caller.visible query stored = some p) :
    query.projectId.all (· == stored.projectId) = true ∧ caller.allows stored.projectId = true ∧
      p.projectId = stored.projectId ∧ p.versions ≠ [] ∧
      p.versions = stored.versions.filter fun version => query.version.all (· == version) := by
  unfold visible at h
  dsimp only at h
  split_ifs at h with hhidden hempty
  obtain rfl := Option.some.inj h
  simp only [Bool.or_eq_true, Bool.not_eq_true', not_or, Bool.not_eq_true, Bool.not_eq_false]
    at hhidden
  refine ⟨?_, hhidden.2, rfl, by simpa using hempty, rfl⟩
  cases hproject : query.projectId with
  | none => rfl
  | some id =>
    have := hhidden.1
    rw [hproject] at this
    simpa using this

variable {projects : List InstanceProjectVersions} {id : Str}
  {entry : Str × StoredInstanceInventory vendor} {after : Option Str}

theorem validProjects_visible (h : validProjects vendor projects = true) :
    validProjects vendor (projects.filterMap (caller.visible query)) = true := by
  simp only [validProjects, Bool.and_eq_true, List.all_eq_true, decide_eq_true_eq] at h ⊢
  obtain ⟨hvalid, hsorted⟩ := h
  constructor
  · intro p hp
    obtain ⟨stored, hstored, hvisible⟩ := List.mem_filterMap.mp hp
    obtain ⟨-, -, hid, hnonempty, hversions⟩ := visible_eq_some hvisible
    have hproject := hvalid stored hstored
    simp only [InstanceProjectVersions.valid, Bool.and_eq_true, List.all_eq_true,
      decide_eq_true_eq] at hproject ⊢
    obtain ⟨⟨⟨hcanonical, -⟩, hall⟩, hpairwise⟩ := hproject
    refine ⟨⟨⟨by rwa [hid], by simpa using hnonempty⟩, fun version hversion => ?_⟩, ?_⟩
    · rw [hversions] at hversion
      exact hall version (List.mem_filter.mp hversion).1
    · rw [hversions]
      exact hpairwise.filter _
  · refine List.Pairwise.filterMap _ (fun p q hlt p' hp' q' hq' => ?_) hsorted
    rw [(visible_eq_some hp').2.2.1, (visible_eq_some hq').2.2.1]
    exact hlt

theorem buildItem_eq_ok
    (hid : validInstallationId id = true) (hprojects : validProjects vendor projects = true)
    (createdAt updatedAt : Int) :
    buildItem vendor id projects createdAt updatedAt =
      .ok (some ⟨id, projects, createdAt, updatedAt⟩) := by
  unfold buildItem
  simp only [bind_eq_ok, failIf_eq_ok]
  exact ⟨(), by simp [hid, hprojects], rfl⟩

theorem project_eq (hid : validInstallationId entry.1 = true) :
    caller.project query entry = .ok (caller.shown query entry) := by
  unfold project shown
  dsimp only
  split_ifs
  · rfl
  · exact buildItem_eq_ok hid rfl _ _
  · rfl
  · exact buildItem_eq_ok hid (validProjects_visible entry.2.valid) _ _

theorem instanceId_of_shown
    {item : AuthorizedInstanceListItem} (h : caller.shown query entry = some item) :
    item.instanceId = entry.1 := by
  unfold shown at h
  split_ifs at h <;> exact (Option.some.inj h) ▸ rfl

def HasRow (projects : List InstanceProjectVersions) (project version : Str) : Prop :=
  ∃ p ∈ projects, p.projectId = project ∧ version ∈ p.versions

def Reads (caller : ListCaller) (query : InstanceListQuery) (project version : Str) : Prop :=
  caller.allows project = true ∧ query.projectId.all (· == project) = true ∧
    query.version.all (· == version) = true

theorem hasRow_visible {project version : Str} :
    HasRow (projects.filterMap (caller.visible query)) project version ↔
      HasRow projects project version ∧ caller.Reads query project version := by
  constructor
  · rintro ⟨p, hp, rfl, hversion⟩
    obtain ⟨stored, hstored, hvisible⟩ := List.mem_filterMap.mp hp
    obtain ⟨hquery, hallowed, hid, -, hversions⟩ := visible_eq_some hvisible
    rw [hversions, List.mem_filter] at hversion
    rw [hid]
    exact ⟨⟨stored, hstored, rfl, hversion.1⟩, hallowed, hquery, hversion.2⟩
  · rintro ⟨⟨stored, hstored, rfl, hversion⟩, hallowed, hquery, hasked⟩
    have hmem : version ∈ stored.versions.filter fun version => query.version.all (· == version) :=
      List.mem_filter.mpr ⟨hversion, hasked⟩
    have hnotAny : query.projectId.any (· != stored.projectId) = false := by
      cases hproject : query.projectId with
      | none => rfl
      | some id =>
        rw [hproject] at hquery
        simpa using hquery
    refine ⟨⟨stored.projectId, stored.versions.filter fun version =>
      query.version.all (· == version)⟩, List.mem_filterMap.mpr ⟨stored, hstored, ?_⟩, rfl, hmem⟩
    have hnonempty : (stored.versions.filter fun version =>
        query.version.all (· == version)).isEmpty = false := by
      rw [List.isEmpty_eq_false_iff]
      exact List.ne_nil_of_mem hmem
    simp only [visible, hnotAny, hallowed, hnonempty, Bool.not_true, Bool.or_self,
      Bool.false_eq_true, if_false]

def OwnEmpty (caller : ListCaller) (query : InstanceListQuery)
    (row : StoredInstanceInventory vendor) : Prop :=
  row.projects = [] ∧ query.projectId = none ∧ query.version = none ∧ caller.owns row = true ∧
    caller.policy.allowsAnyPrincipal caller.user presenceRead = true

theorem exists_hasRow (h : validProjects vendor projects = true) (hne : projects ≠ []) :
    ∃ project version, HasRow projects project version := by
  obtain ⟨p, hp⟩ := List.exists_mem_of_ne_nil projects hne
  simp only [validProjects, Bool.and_eq_true, List.all_eq_true, InstanceProjectVersions.valid] at h
  have hnonempty : p.versions ≠ [] := by
    have := (h.1 p hp).1.1.2
    simpa using this
  obtain ⟨version, hversion⟩ := List.exists_mem_of_ne_nil p.versions hnonempty
  exact ⟨p.projectId, version, p, hp, rfl, hversion⟩

theorem shown_of_ownEmpty (h : caller.OwnEmpty query entry.2) :
    caller.shown query entry = some ⟨entry.1, [], entry.2.createdAt, entry.2.updatedAt⟩ := by
  obtain ⟨hempty, hproject, hversion, howns, hany⟩ := h
  simp only [shown, hempty, List.isEmpty_nil, if_true, hproject, hversion, howns, hany,
    Option.isSome_none, Bool.not_true, Bool.or_self, Bool.false_eq_true, if_false]

theorem shown_of_empty (hempty : entry.2.projects = []) (hown : ¬ caller.OwnEmpty query entry.2) :
    caller.shown query entry = none := by
  have hrefused : (query.projectId.isSome || query.version.isSome || !caller.owns entry.2 ||
      !caller.policy.allowsAnyPrincipal caller.user presenceRead) = true := by
    by_contra hnot
    simp only [Bool.or_eq_true, Bool.not_eq_true', not_or, Bool.not_eq_true, Bool.not_eq_false,
      Option.isSome_eq_false_iff, Option.isNone_iff_eq_none] at hnot
    exact hown ⟨hempty, hnot.1.1.1, hnot.1.1.2, hnot.1.2, hnot.2⟩
  rw [shown, if_pos (by rw [hempty]; rfl), if_pos hrefused]

theorem shown_of_rows (h : entry.2.projects.filterMap (caller.visible query) ≠ []) :
    caller.shown query entry = some ⟨entry.1, entry.2.projects.filterMap (caller.visible query),
      entry.2.createdAt, entry.2.updatedAt⟩ := by
  have hprojects : entry.2.projects ≠ [] := fun hempty => h (by rw [hempty]; rfl)
  rw [shown, if_neg (by simpa using hprojects), if_neg (by simpa using h)]

theorem shown_of_no_rows (hprojects : entry.2.projects ≠ [])
    (h : entry.2.projects.filterMap (caller.visible query) = []) :
    caller.shown query entry = none := by
  rw [shown, if_neg (by simpa using hprojects), if_pos (by rw [h]; rfl)]

def Listed (caller : ListCaller) (query : InstanceListQuery)
    (row : StoredInstanceInventory vendor) : Prop :=
  (∃ project version, HasRow row.projects project version ∧ caller.Reads query project version) ∨
    caller.OwnEmpty query row

theorem shown_iff :
    ((caller.shown query entry).isSome = true ↔ caller.Listed query entry.2) ∧
    ∀ item, caller.shown query entry = some item →
      item.instanceId = entry.1 ∧ item.createdAt = entry.2.createdAt ∧
      item.updatedAt = entry.2.updatedAt ∧ validProjects vendor item.projects = true ∧
      ∀ project version, HasRow item.projects project version ↔
        HasRow entry.2.projects project version ∧ caller.Reads query project version := by
  by_cases hempty : entry.2.projects = []
  · have hnoRow : ∀ project version, ¬ HasRow entry.2.projects project version := by
      rintro project version ⟨p, hp, -⟩
      rw [hempty] at hp
      cases hp
    by_cases hown : caller.OwnEmpty query entry.2
    · rw [shown_of_ownEmpty hown]
      refine ⟨⟨fun _ => .inr hown, fun _ => rfl⟩, fun item hitem => ?_⟩
      obtain rfl := Option.some.inj hitem
      refine ⟨rfl, rfl, rfl, rfl, fun project version => ?_⟩
      rw [← hempty]
      exact ⟨fun h => absurd h (hnoRow project version),
        fun h => absurd h.1 (hnoRow project version)⟩
    · rw [shown_of_empty hempty hown]
      refine ⟨⟨fun h => (Bool.false_ne_true h).elim, ?_⟩, fun item h => by cases h⟩
      rintro (⟨project, version, hrow, -⟩ | h)
      · exact absurd hrow (hnoRow project version)
      · exact absurd h hown
  · by_cases hnone : entry.2.projects.filterMap (caller.visible query) = []
    · rw [shown_of_no_rows hempty hnone]
      refine ⟨⟨fun h => (Bool.false_ne_true h).elim, ?_⟩, fun item h => by cases h⟩
      rintro (⟨project, version, hrow⟩ | h)
      · obtain ⟨p, hp, -⟩ := hasRow_visible.mpr hrow
        rw [hnone] at hp
        cases hp
      · exact absurd h.1 hempty
    · rw [shown_of_rows hnone]
      have hvalid := @validProjects_visible vendor caller query _ entry.2.valid
      refine ⟨⟨fun _ => ?_, fun _ => rfl⟩, fun item hitem => ?_⟩
      · obtain ⟨project, version, hrow⟩ := exists_hasRow hvalid hnone
        exact .inl ⟨project, version, hasRow_visible.mp hrow⟩
      · obtain rfl := Option.some.inj hitem
        exact ⟨rfl, rfl, rfl, hvalid, fun project version => hasRow_visible⟩

theorem readBounded_eq_ok (h : byteLen (entry.2.payload entry.1) ≤ jsonBytes) :
    readBounded jsonBytes entry = .ok entry := by
  unfold readBounded
  simp only [bind_eq_ok, failIf_eq_ok]
  exact ⟨(), Nat.not_lt.mpr h, rfl⟩

theorem readBounded_eq_error (h : ¬ byteLen (entry.2.payload entry.1) ≤ jsonBytes) :
    readBounded jsonBytes entry = .error .readLimitExceeded := by
  simp only [readBounded, failIf, if_pos (Nat.not_le.mp h)]
  rfl

theorem readNext_eq (hafter : after.all validInstallationId = true) :
    registry.readNext jsonBytes after =
      match (beyond Prod.fst after registry.instances.entries).head? with
      | none => .ok none
      | some entry => (readBounded jsonBytes entry).map some := by
  have hvalid : ¬ (after.any fun id => !validInstallationId id) = true := by
    cases after with
    | none => simp
    | some id => simpa using hafter
  have hfind : (registry.instances.entries.find? fun entry =>
      after.all fun id => decide (id < entry.1)) =
      (beyond Prod.fst after registry.instances.entries).head? := by
    rw [beyond, List.head?_filter]
    congr 1
    funext entry
    congr 1
    funext id
    exact decide_eq_decide.mpr Iff.rfl
  simp only [InstanceRegistry.readNext, failIf, if_neg hvalid, hfind, bind, Except.bind]
  cases (beyond Prod.fst after registry.instances.entries).head? with
  | none => rfl
  | some entry =>
    simp only [Except.map]
    cases readBounded jsonBytes entry with
    | error e => rfl
    | ok entry' => rfl

/-- What the loop gives for the candidates that are left: it fails at one that is too long, or gives
the items of a page. Then whatever it has passed is within the bound: everything if nothing is left, and
else what is not beyond its items. -/
def Collects (caller : ListCaller) (query : InstanceListQuery) (jsonBytes : Nat)
    (rest : List (Str × StoredInstanceInventory vendor)) (items : List AuthorizedInstanceListItem)
    (outcome : Except InstanceReadError (List AuthorizedInstanceListItem × Bool)) : Prop :=
  (outcome = .error .readLimitExceeded ∧
    ∃ entry ∈ rest, ¬ byteLen (entry.2.payload entry.1) ≤ jsonBytes) ∨
  ∃ kept more, outcome = .ok (kept, more) ∧
    kept = (items ++ rest.filterMap (caller.shown query)).take query.limit ∧
    more = decide (query.limit < (items ++ rest.filterMap (caller.shown query)).length) ∧
    ∀ entry ∈ rest, (more = false ∨ ∃ item ∈ kept, entry.1 ≤ item.instanceId) →
      byteLen (entry.2.payload entry.1) ≤ jsonBytes

theorem Collects.cons {rest : List (Str × StoredInstanceInventory vendor)} {entry : Str × StoredInstanceInventory vendor}
    {items : List AuthorizedInstanceListItem}
    {outcome : Except InstanceReadError (List AuthorizedInstanceListItem × Bool)}
    (hfits : byteLen (entry.2.payload entry.1) ≤ jsonBytes)
    (h : Collects caller query jsonBytes rest (items ++ (caller.shown query entry).toList) outcome) :
    Collects caller query jsonBytes (entry :: rest) items outcome := by
  have hshown : items ++ (entry :: rest).filterMap (caller.shown query) =
      items ++ (caller.shown query entry).toList ++ rest.filterMap (caller.shown query) := by
    cases hentry : caller.shown query entry <;> simp [hentry]
  rcases h with ⟨hfailed, entry', hentry', hlong⟩ | ⟨kept, more, hkept, htake, hmore, hpassed⟩
  · exact .inl ⟨hfailed, entry', List.mem_cons_of_mem _ hentry', hlong⟩
  · refine .inr ⟨kept, more, hkept, hshown ▸ htake, hshown ▸ hmore, ?_⟩
    exact List.forall_mem_cons.mpr ⟨fun _ => hfits, hpassed⟩

theorem collect_cases {fuel : Nat} {cursor : Option Str}
    {items : List AuthorizedInstanceListItem} (hcursor : cursor.all validInstallationId = true)
    (hfuel : (beyond Prod.fst cursor registry.instances.entries).length < fuel)
    (hitems : items.length ≤ query.limit)
    (hbefore : ∀ item ∈ items, ∃ c ∈ cursor, item.instanceId ≤ c) :
    Collects caller query jsonBytes (beyond Prod.fst cursor registry.instances.entries) items
      (caller.collect query registry jsonBytes fuel cursor items) := by
  induction fuel generalizing cursor items with
  | zero => omega
  | succ fuel ih =>
    rw [collect, readNext_eq hcursor]
    cases hrest : beyond Prod.fst cursor registry.instances.entries with
    | nil =>
      refine .inr ⟨items, false, rfl, ?_, ?_, fun entry hentry => absurd hentry List.not_mem_nil⟩
      · rw [List.filterMap_nil, List.append_nil, List.take_of_length_le hitems]
      · rw [List.filterMap_nil, List.append_nil, decide_eq_false (Nat.not_lt.mpr hitems)]
    | cons entry rest =>
      have hmem : entry ∈ beyond Prod.fst cursor registry.instances.entries := by
        rw [hrest]
        exact List.mem_cons_self
      have hid := registry.canonical entry (List.mem_filter.mp hmem).1
      have hnextCursor : (some entry.1).all validInstallationId = true := by simpa using hid
      have hbeyond := (mem_beyond.mp hmem).2
      -- the candidates beyond this one are those that follow it
      have hnext : beyond Prod.fst (some entry.1) registry.instances.entries = rest := by
        have hsorted := pairwise_beyond registry.instances.sorted cursor
        have hfirst : ((beyond Prod.fst cursor registry.instances.entries).take 1).getLast? =
            some entry := by
          rw [hrest]
          rfl
        rw [beyond_beyond hmem, beyond_last hsorted hfirst, hrest]
        rfl
      have hfewer :
          (beyond Prod.fst (some entry.1) registry.instances.entries).length < fuel := by
        rw [hnext]
        rw [hrest, List.length_cons] at hfuel
        omega
      have hold : ∀ item ∈ items ++ (caller.shown query entry).toList,
          ∃ c ∈ some entry.1, item.instanceId ≤ c := by
        intro item hitem
        rcases List.mem_append.mp hitem with hitem | hitem
        · obtain ⟨c, hc, hle⟩ := hbefore item hitem
          exact ⟨entry.1, rfl, hle.trans (hbeyond c hc).le⟩
        · exact ⟨entry.1, rfl, (instanceId_of_shown (Option.mem_toList.mp hitem)).le⟩
      by_cases hfits : byteLen (entry.2.payload entry.1) ≤ jsonBytes
      swap
      · refine .inl ⟨?_, entry, List.mem_cons_self, hfits⟩
        simp only [List.head?_cons, readBounded_eq_error hfits]
        rfl
      simp only [List.head?_cons, readBounded_eq_ok hfits, Except.map, project_eq hid, bind,
        Except.bind]
      cases hshown : caller.shown query entry with
      | none =>
        rw [hshown, Option.toList_none, List.append_nil] at hold
        refine Collects.cons hfits ?_
        rw [hshown, Option.toList_none, List.append_nil, ← hnext]
        exact ih hnextCursor hfewer hitems hold
      | some item =>
        dsimp only
        split_ifs with hfull
        · have hroom : query.limit <
              (items ++ (entry :: rest).filterMap (caller.shown query)).length := by
            rw [List.filterMap_cons_some hshown, List.length_append, List.length_cons]
            omega
          refine .inr ⟨items, true, rfl, ?_, (decide_eq_true hroom).symm,
            fun entry' hentry' hpassed => ?_⟩
          · rw [← hfull, List.take_left]
          · rcases List.mem_cons.mp hentry' with rfl | hentry'
            · exact hfits
            · -- nothing that follows is before an item that was kept earlier
              obtain ⟨kept, hkept, hle⟩ := hpassed.resolve_left Bool.noConfusion
              obtain ⟨c, hc, hlec⟩ := hbefore kept hkept
              rw [← hnext] at hentry'
              have hlater := (mem_beyond.mp hentry').2 entry.1 rfl
              exact absurd (hle.trans hlec) (not_le.mpr ((hbeyond c hc).trans hlater))
        · have hroom : (items ++ [item]).length ≤ query.limit := by
            rw [List.length_append, List.length_singleton]
            omega
          rw [hshown] at hold
          refine Collects.cons hfits ?_
          rw [hshown, ← hnext]
          exact ih hnextCursor hfewer hroom hold

theorem last_page_none {l : List AuthorizedInstanceListItem} {limit : Nat} (hlimit : 0 < limit)
    (hmore : limit < l.length) :
    (if limit < l.length then (l.take limit).getLast?.map (·.instanceId) else none) ≠ none := by
  rw [if_pos hmore, Ne, Option.map_eq_none_iff, List.getLast?_eq_none_iff, List.take_eq_nil_iff]
  rintro (hzero | hnil)
  · omega
  · rw [hnil] at hmore
    exact absurd hmore (Nat.not_lt_zero _)

theorem cursor_of_page {l : List AuthorizedInstanceListItem} {limit : Nat} {c : Str}
    (h : (if limit < l.length then (l.take limit).getLast?.map (·.instanceId) else none) = some c) :
    ∃ item ∈ l.take limit, item.instanceId = c := by
  split_ifs at h
  obtain ⟨item, hitem, hkey⟩ := Option.map_eq_some_iff.mp h
  exact ⟨item, List.mem_of_getLast? hitem, hkey⟩

def items (caller : ListCaller) (query : InstanceListQuery) (registry : InstanceRegistry vendor) :
    List AuthorizedInstanceListItem :=
  (registry.instances.entries.filterMap (caller.shown query)).filter fun item =>
    query.instanceId.all (· == item.instanceId)

theorem sorted_items :
    (caller.items query registry).Pairwise fun a b => a.instanceId < b.instanceId := by
  refine List.Pairwise.filter _ (List.Pairwise.filterMap _ (fun a b hlt i hi j hj => ?_)
    registry.instances.sorted)
  rw [instanceId_of_shown hi, instanceId_of_shown hj]
  exact hlt

theorem mem_items {item : AuthorizedInstanceListItem} :
    item ∈ caller.items query registry ↔ query.instanceId.all (· == item.instanceId) = true ∧
      ∃ row, registry.instances.get? item.instanceId = some row ∧
        caller.shown query (item.instanceId, row) = some item := by
  rw [items, List.mem_filter, List.mem_filterMap, and_comm]
  refine and_congr_right fun _ => ⟨?_, ?_⟩
  · rintro ⟨⟨id, row⟩, hmem, hshown⟩
    obtain rfl : item.instanceId = id := instanceId_of_shown hshown
    exact ⟨row, SortedMap.mem_entries_iff.mp hmem, hshown⟩
  · rintro ⟨row, hrow, hshown⟩
    exact ⟨_, SortedMap.mem_entries_iff.mpr hrow, hshown⟩

theorem beyond_shown (after : Option Str) (l : List (Str × StoredInstanceInventory vendor)) :
    beyond AuthorizedInstanceListItem.instanceId after (l.filterMap (caller.shown query)) =
      (beyond Prod.fst after l).filterMap (caller.shown query) := by
  rw [beyond, beyond, List.filter_filterMap, List.filterMap_filter]
  refine List.filterMap_congr fun entry _ => ?_
  cases hshown : caller.shown query entry with
  | none => simp
  | some item => rw [Option.filter_some, instanceId_of_shown hshown]

theorem items_one (hone : query.instanceId = some id) :
    caller.items query registry =
      ((registry.instances.get? id).bind fun row => caller.shown query (id, row)).toList := by
  refine eq_of_mem_iff sorted_items ?_ fun item => ?_
  · cases (registry.instances.get? id).bind fun row => caller.shown query (id, row) <;> simp
  · rw [mem_items, hone, Option.mem_toList, Option.bind_eq_some_iff]
    simp only [Option.all_some, beq_iff_eq]
    constructor
    · rintro ⟨rfl, hrow⟩
      exact hrow
    · rintro ⟨row, hrow, hshown⟩
      obtain rfl := instanceId_of_shown hshown
      exact ⟨rfl, row, hrow, hshown⟩

theorem read_eq (hid : validInstallationId id = true) :
    registry.read jsonBytes id =
      match registry.instances.get? id with
      | none => .ok none
      | some row => (readBounded jsonBytes (id, row)).map some := by
  have hvalid : ¬ validInstallationId id = false := by simp [hid]
  simp only [InstanceRegistry.read, failIf, if_neg hvalid, bind, Except.bind]
  cases registry.instances.get? id with
  | none => rfl
  | some row =>
    simp only [Except.map]
    cases readBounded jsonBytes (id, row) with
    | error e => rfl
    | ok entry => rfl

theorem scannable_one (hone : query.instanceId = some id) {after : Option Str} :
    registry.Scannable query jsonBytes after ↔ ∀ row, registry.instances.get? id = some row →
      (∀ c ∈ after, c < id) → byteLen (row.payload id) ≤ jsonBytes := by
  constructor
  · intro h row hrow hafter
    exact h (id, row) (mem_beyond.mpr ⟨SortedMap.mem_entries_iff.mpr hrow, hafter⟩) (by simp [hone])
  · rintro h ⟨key, row⟩ hentry hasked
    obtain ⟨hmem, hafter⟩ := mem_beyond.mp hentry
    obtain rfl : id = key := by simpa [hone] using hasked
    exact h row (SortedMap.mem_entries_iff.mp hmem) hafter

theorem collectOne_cases (hid : validInstallationId id = true) (hone : query.instanceId = some id) :
    (caller.collectOne query registry jsonBytes id = .error .readLimitExceeded ∧
      ¬ registry.Scannable query jsonBytes query.after) ∨
    (caller.collectOne query registry jsonBytes id =
      .ok (beyond AuthorizedInstanceListItem.instanceId query.after (caller.items query registry),
        false) ∧ registry.Scannable query jsonBytes query.after) := by
  have hkey : ∀ item ∈ caller.items query registry, item.instanceId = id := by
    intro item hitem
    have hid : id = item.instanceId := by simpa [hone] using (mem_items.mp hitem).1
    exact hid.symm
  have hskipped : (query.after.any fun after => decide (id ≤ after)) = true ↔
      ¬ ∀ c ∈ query.after, c < id := by
    cases query.after <;> simp
  rw [scannable_one hone]
  unfold collectOne
  split_ifs with hbefore
  · rw [hskipped] at hbefore
    have hnone : beyond AuthorizedInstanceListItem.instanceId query.after
        (caller.items query registry) = [] := by
      rw [List.eq_nil_iff_forall_not_mem]
      intro item hitem
      obtain ⟨hitem, hafter⟩ := mem_beyond.mp hitem
      exact hbefore (hkey item hitem ▸ hafter)
    rw [hnone]
    exact .inr ⟨rfl, fun row _ hafter => absurd hafter hbefore⟩
  · have hbeyond : ∀ c ∈ query.after, c < id := by
      by_contra h
      exact hbefore (hskipped.mpr h)
    have hall : beyond AuthorizedInstanceListItem.instanceId query.after
        (caller.items query registry) = caller.items query registry := by
      rw [beyond, List.filter_eq_self]
      intro item hitem
      rw [hkey item hitem]
      cases hkeyAfter : query.after with
      | none => rfl
      | some after => simpa using hbeyond after hkeyAfter
    rw [hall, items_one hone, read_eq hid]
    cases hrow : registry.instances.get? id with
    | none => exact .inr ⟨rfl, fun row h => by cases h⟩
    | some row =>
      by_cases hfits : byteLen (row.payload id) ≤ jsonBytes
      · refine .inr ⟨?_, fun row' h _ => Option.some.inj h ▸ hfits⟩
        simp only [@readBounded_eq_ok vendor jsonBytes (id, row) hfits, Except.map, bind,
          Except.bind, @project_eq vendor caller query (id, row) hid]
        rfl
      · refine .inl ⟨?_, fun h => hfits (h row rfl hbeyond)⟩
        simp only [@readBounded_eq_error vendor jsonBytes (id, row) hfits]
        rfl

theorem list_cases (haccepted : query.accepted vendor = true) :
    (caller.list query registry jsonBytes = .error .readLimitExceeded ∧
      ¬ registry.Scannable query jsonBytes query.after) ∨
    (caller.list query registry jsonBytes =
        .ok (page AuthorizedInstanceListItem.instanceId query.limit (caller.items query registry)
          query.after) ∧
      ((page AuthorizedInstanceListItem.instanceId query.limit (caller.items query registry)
          query.after).next = none → registry.Scannable query jsonBytes query.after) ∧
      ∀ c, (page AuthorizedInstanceListItem.instanceId query.limit (caller.items query registry)
          query.after).next = some c →
        (registry.Scannable query jsonBytes (some c) ↔
          registry.Scannable query jsonBytes query.after)) := by
  simp only [InstanceListQuery.accepted, Bool.and_eq_true, decide_eq_true_eq] at haccepted
  obtain ⟨⟨⟨⟨⟨hlimit, -⟩, hafter⟩, hone⟩, -⟩, -⟩ := haccepted
  unfold list page
  cases hid : query.instanceId with
  | none =>
    have hall : ∀ entry : Str × StoredInstanceInventory vendor,
        query.instanceId.all (· == entry.1) = true := fun entry => by rw [hid]; rfl
    have hfuel : (beyond Prod.fst query.after registry.instances.entries).length <
        registry.instances.entries.length + 1 :=
      Nat.lt_succ_of_le (List.length_filter_le ..)
    have hitems : caller.items query registry =
        registry.instances.entries.filterMap (caller.shown query) := by
      rw [items, hid]
      exact List.filter_eq_self.mpr fun _ _ => rfl
    rw [hitems, beyond_shown]
    rcases @collect_cases vendor caller query registry jsonBytes _ query.after [] hafter hfuel
        (Nat.zero_le _) (fun item hitem => absurd hitem List.not_mem_nil) with
      ⟨hfailed, entry, hentry, hlong⟩ | ⟨kept, more, hkept, htake, hmore, hpassed⟩
    · refine .inl ⟨?_, fun h => hlong (h entry hentry (hall entry))⟩
      simp only [hfailed, bind, Except.bind]
    · rw [List.nil_append] at htake hmore
      subst htake hmore
      refine .inr ⟨?_, fun hlast entry hentry _ => ?_, fun c hcursor => ?_⟩
      · simp only [hkept, bind, Except.bind, decide_eq_true_eq]
        rfl
      · refine hpassed entry hentry (.inl (decide_eq_false fun hmore => ?_))
        exact last_page_none hlimit hmore hlast
      · obtain ⟨item, hitem, rfl⟩ := cursor_of_page hcursor
        refine ⟨fun h entry hentry hasked => ?_, fun h entry hentry hasked => ?_⟩
        · -- what the page has passed is within the bound, and the rest is beyond its cursor
          by_cases hbeyond : item.instanceId < entry.1
          · refine h entry (mem_beyond.mpr ⟨(mem_beyond.mp hentry).1, ?_⟩) hasked
            rintro c ⟨⟩
            exact hbeyond
          · exact hpassed entry hentry (.inr ⟨item, hitem, not_lt.mp hbeyond⟩)
        · obtain ⟨hmem, hlt⟩ := mem_beyond.mp hentry
          obtain ⟨entry', hentry', hshown⟩ := List.mem_filterMap.mp (List.mem_of_mem_take hitem)
          refine h entry (mem_beyond.mpr ⟨hmem, fun after hkey => ?_⟩) hasked
          have hitemLt := hlt _ rfl
          rw [instanceId_of_shown hshown] at hitemLt
          exact ((mem_beyond.mp hentry').2 after hkey).trans hitemLt
  | some id =>
    rw [hid] at hone
    have hshort : (beyond AuthorizedInstanceListItem.instanceId query.after
        (caller.items query registry)).length ≤ query.limit := by
      refine (List.length_filter_le ..).trans (le_trans ?_ hlimit)
      rw [items_one hid]
      exact Option.length_toList_le
    rw [if_neg (Nat.not_lt.mpr hshort), List.take_of_length_le hshort]
    rcases @collectOne_cases vendor caller query registry jsonBytes id hone hid with
      ⟨hfailed, hlong⟩ | ⟨hok, hscan⟩
    · refine .inl ⟨?_, hlong⟩
      simp only [hfailed, bind, Except.bind]
    · refine .inr ⟨?_, fun _ => hscan, fun c hcursor => absurd hcursor.symm (Option.some_ne_none c)⟩
      simp only [hok, bind, Except.bind]
      rfl

structure Seen where
  own : Bool
  projects : List InstanceProjectVersions
  createdAt : Int
  updatedAt : Int

def seen (caller : ListCaller) (row : StoredInstanceInventory vendor) : Option Seen :=
  if caller.owns row then some ⟨true, row.projects, row.createdAt, row.updatedAt⟩
  else if (row.projects.filter fun p => caller.allows p.projectId).isEmpty then none
  else some ⟨false, row.projects.filter fun p => caller.allows p.projectId, row.createdAt,
    row.updatedAt⟩

/-- Two registries in which the caller may know the same: they differ only in rows of others that
the caller may not read. -/
def SameSeen (caller : ListCaller) (a b : InstanceRegistry vendor) : Prop :=
  ∀ id, (a.instances.get? id).bind caller.seen = (b.instances.get? id).bind caller.seen

def Seen.display (caller : ListCaller) (query : InstanceListQuery) (id : Str) (s : Seen) :
    Option AuthorizedInstanceListItem :=
  if s.projects.isEmpty then
    if query.projectId.isSome || query.version.isSome || !s.own ||
        !caller.policy.allowsAnyPrincipal caller.user presenceRead then none
    else some ⟨id, [], s.createdAt, s.updatedAt⟩
  else if (s.projects.filterMap (caller.visible query)).isEmpty then none
  else some ⟨id, s.projects.filterMap (caller.visible query), s.createdAt, s.updatedAt⟩

theorem filterMap_visible_allowed (projects : List InstanceProjectVersions) :
    (projects.filter fun p => caller.allows p.projectId).filterMap (caller.visible query) =
      projects.filterMap (caller.visible query) := by
  rw [List.filterMap_filter]
  refine List.filterMap_congr fun p _ => ?_
  split_ifs with hallowed
  · rfl
  · simp [visible, hallowed]

theorem shown_eq_seen (id : Str) (row : StoredInstanceInventory vendor) :
    caller.shown query (id, row) = (caller.seen row).bind (Seen.display caller query id) := by
  unfold seen shown
  by_cases hown : caller.owns row = true
  · simp only [hown, if_true, Option.bind_some, Seen.display]
  · rw [if_neg hown, Bool.not_eq_true] at *
    simp only [← @filterMap_visible_allowed caller query row.projects]
    by_cases hempty : (row.projects.filter fun p => caller.allows p.projectId) = []
    · simp [hempty, hown]
    · have hprojects : row.projects ≠ [] := fun h => hempty (by rw [h]; rfl)
      simp [hempty, hprojects, Seen.display]

theorem items_congr {other : InstanceRegistry vendor} (h : caller.SameSeen registry other) :
    caller.items query registry = caller.items query other := by
  have hshown : ∀ (r : InstanceRegistry vendor) (item : AuthorizedInstanceListItem),
      (∃ row, r.instances.get? item.instanceId = some row ∧
        caller.shown query (item.instanceId, row) = some item) ↔
      ((r.instances.get? item.instanceId).bind caller.seen).bind
        (Seen.display caller query item.instanceId) = some item := by
    intro r item
    cases r.instances.get? item.instanceId with
    | none => simp
    | some row => simp [shown_eq_seen]
  refine eq_of_mem_iff sorted_items sorted_items fun item => ?_
  rw [mem_items, mem_items, hshown, hshown, h]

theorem accepted_after (haccepted : query.accepted vendor = true)
    (hafter : after.all validInstallationId = true) :
    InstanceListQuery.accepted vendor { query with after := after } = true := by
  simp only [InstanceListQuery.accepted, Bool.and_eq_true] at haccepted ⊢
  obtain ⟨⟨⟨⟨hlimits, -⟩, hone⟩, hproject⟩, hversion⟩ := haccepted
  exact ⟨⟨⟨⟨hlimits, hafter⟩, hone⟩, hproject⟩, hversion⟩

theorem list_after_cases (haccepted : query.accepted vendor = true)
    (hafter : after.all validInstallationId = true) :
    ReadsPage AuthorizedInstanceListItem.instanceId query.limit (caller.items query registry)
      (fun after => caller.list { query with after := after } registry jsonBytes)
      .readLimitExceeded (registry.Scannable query jsonBytes) after :=
  list_cases (accepted_after haccepted hafter)

theorem follow_items (haccepted : query.accepted vendor = true) :
    (¬ registry.Scannable query jsonBytes none ∧
      follow (fun after => caller.list { query with after := after } registry jsonBytes)
        (registry.instances.entries.length + 1) none = .error .readLimitExceeded) ∨
    (registry.Scannable query jsonBytes none ∧
      ∃ pages, follow (fun after => caller.list { query with after := after } registry jsonBytes)
          (registry.instances.entries.length + 1) none = .ok pages ∧
        pages.flatMap Page.items = caller.items query registry) := by
  have hlimit : 0 < query.limit := by
    simp only [InstanceListQuery.accepted, Bool.and_eq_true, decide_eq_true_eq] at haccepted
    exact haccepted.1.1.1.1.1
  have hall : beyond AuthorizedInstanceListItem.instanceId none (caller.items query registry) =
      caller.items query registry := List.filter_eq_self.mpr fun _ _ => rfl
  have hfuel : (beyond AuthorizedInstanceListItem.instanceId none
      (caller.items query registry)).length < registry.instances.entries.length + 1 := by
    rw [hall]
    exact Nat.lt_succ_of_le ((List.length_filter_le ..).trans (List.length_filterMap_le ..))
  have hfollow := follow_page sorted_items hlimit (fun item hitem => by
    obtain ⟨-, row, hrow, -⟩ := mem_items.mp hitem
    exact @list_after_cases vendor caller query registry jsonBytes _ haccepted
      (registry.canonical _ (SortedMap.mem_entries_iff.mpr hrow)))
    (@list_after_cases vendor caller query registry jsonBytes none haccepted rfl) hfuel
  rwa [hall] at hfollow

theorem exists_item_iff :
    (∃ item ∈ caller.items query registry, item.instanceId = id) ↔
      query.instanceId.all (· == id) = true ∧
        ∃ row, registry.instances.get? id = some row ∧ caller.Listed query row := by
  constructor
  · rintro ⟨item, hitem, rfl⟩
    obtain ⟨hasked, row, hrow, hshown⟩ := mem_items.mp hitem
    exact ⟨hasked, row, hrow, shown_iff.1.mp (by rw [hshown]; rfl)⟩
  · rintro ⟨hasked, row, hrow, hlisted⟩
    obtain ⟨item, hshown⟩ := Option.isSome_iff_exists.mp
      ((@shown_iff vendor caller query (id, row)).1.mpr hlisted)
    obtain rfl : item.instanceId = id := instanceId_of_shown hshown
    exact ⟨item, mem_items.mpr ⟨hasked, row, hrow, hshown⟩, rfl⟩

end ListCaller

namespace Sample

def inventoryRows : List InstanceProjectVersions := [⟨projectId, ["main".toList]⟩]

theorem validProjects_inventoryRows : validProjects crates inventoryRows = true := by
  simp only [validProjects, inventoryRows, List.all_cons, List.all_nil,
    InstanceProjectVersions.valid, canonicalProjectId_projectId]
  decide +kernel

def laptop : Str := "laptop".toList

def laptopInventory : StoredInstanceInventory crates where
  ownerIssuer := "local".toList
  ownerSubject := "alice".toList
  createdAt := 0
  updatedAt := 0
  projects := inventoryRows
  validOwner := by decide +kernel
  validTimes := by decide
  valid := validProjects_inventoryRows

def laptopRegistry : InstanceRegistry crates where
  instances := ⟨[(laptop, laptopInventory)], List.pairwise_singleton _ _⟩
  canonical := by
    intro entry hentry
    obtain rfl := List.mem_singleton.mp hentry
    decide +kernel

def noInstances : InstanceRegistry crates := ⟨SortedMap.empty, fun _ h => nomatch h⟩

def lister (rules : List CompiledRule) : ListCaller where
  user := ⟨"local".toList, "bob".toList, none, none, []⟩
  policy := ⟨rules⟩

def projectRule : CompiledRule := ⟨.global, [fun _ => true], [projectId]⟩

def everyInstance : InstanceListQuery := ⟨1, none, none, none, none⟩

def onlyPhone : InstanceListQuery := ⟨1, none, some "phone".toList, none, none⟩

def desktop : StoredInstanceInventory crates := laptopInventory

def phone : StoredInstanceInventory crates where
  ownerIssuer := "local".toList
  ownerSubject := "bob".toList
  createdAt := 1
  updatedAt := 2
  projects := inventoryRows
  validOwner := by decide +kernel
  validTimes := by decide
  valid := validProjects_inventoryRows

def server : StoredInstanceInventory crates where
  ownerIssuer := "local".toList
  ownerSubject := "alice".toList
  createdAt := 3
  updatedAt := 4
  projects := [⟨ulidOf '2', ["dev".toList, "main".toList]⟩]
  validOwner := by decide +kernel
  validTimes := by decide
  valid := by decide +kernel

def officeRegistry : InstanceRegistry crates where
  instances := ⟨[("desktop".toList, desktop), ("phone".toList, phone), ("server".toList, server)],
    by decide +kernel⟩
  canonical := by decide +kernel

end Sample

namespace ListCaller

end ListCaller

end GraphitBroker
