import GraphitBroker.Lib.Paging
import GraphitBroker.Proof.SectionMasks

/-!
# The order of the rows of a snapshot

The loop of `ordered` compares a row with the one before it and keeps the ids it has seen.
-/

namespace GraphitBroker

abbrev RowKey := (WithBot ℤ)ᵒᵈ ×ₗ Str

def timeKey : Option Int → WithBot ℤ
  | none => ⊥
  | some n => (n : WithBot ℤ)

def rowKey (time : Option Int) (id : Str) : RowKey := toLex (OrderDual.toDual (timeKey time), id)

theorem timeKey_injective : Function.Injective timeKey := by
  intro a b h
  cases a with
  | none =>
    cases b with
    | none => rfl
    | some b => exact absurd h (WithBot.bot_ne_coe)
  | some a =>
    cases b with
    | none => exact absurd h (WithBot.coe_ne_bot)
    | some b => exact congrArg some (WithBot.coe_inj.mp h)

theorem timeLt_iff (a b : Option Int) : timeLt a b = true ↔ timeKey a < timeKey b := by
  cases a with
  | none =>
    cases b with
    | none => exact ⟨fun h => (Bool.false_ne_true h).elim, fun h => absurd h (lt_irrefl _)⟩
    | some b => exact ⟨fun _ => WithBot.bot_lt_coe b, fun _ => rfl⟩
  | some a =>
    cases b with
    | none => exact ⟨fun h => (Bool.false_ne_true h).elim, fun h => absurd h not_lt_bot⟩
    | some b => exact decide_eq_true_iff.trans WithBot.coe_lt_coe.symm

theorem rowKey_lt_iff {time time' : Option Int} {id id' : Str} :
    rowKey time id < rowKey time' id' ↔
      timeLt time' time = true ∨ time = time' ∧ id < id' := by
  rw [rowKey, rowKey, Prod.Lex.toLex_lt_toLex, timeLt_iff]
  exact or_congr OrderDual.toDual_lt_toDual
    (and_congr_left fun _ => (OrderDual.toDual.injective.comp timeKey_injective).eq_iff)

theorem not_follows_iff (p : Option Int × Str) (time : Option Int) (id : Str) :
    (timeLt p.1 time || (p.1 == time && !decide (p.2 < id))) = false ↔
      rowKey p.1 p.2 < rowKey time id := by
  rw [rowKey_lt_iff, Bool.or_eq_false_iff]
  constructor
  · rintro ⟨hnotLater, hid⟩
    by_cases heq : p.1 = time
    · exact .inr ⟨heq, by simpa [heq] using hid⟩
    · have hle : timeKey time ≤ timeKey p.1 := by
        by_contra hlt
        rw [(timeLt_iff _ _).mpr (not_le.mp hlt)] at hnotLater
        cases hnotLater
      exact .inl ((timeLt_iff _ _).mpr
        (lt_of_le_of_ne hle fun h => heq (timeKey_injective h).symm))
  · rintro (hlater | ⟨heq, hid⟩)
    · have hlt := (timeLt_iff _ _).mp hlater
      have hne : p.1 ≠ time := fun heq => hlt.ne (congrArg timeKey heq.symm)
      exact ⟨Bool.eq_false_iff.mpr fun h => hlt.asymm ((timeLt_iff _ _).mp h), by simp [hne]⟩
    · refine ⟨?_, by simp [hid]⟩
      rw [heq]
      exact Bool.eq_false_iff.mpr fun h => lt_irrefl _ ((timeLt_iff _ _).mp h)

section Ordered

variable {T : Type} {id : T → Str} {timestamp : T → Option (Option Int)} {validate : T → Bool}

def RowValid (timestamp : T → Option (Option Int)) (validate : T → Bool) (row : T) : Prop :=
  (timestamp row).isSome = true ∧ validate row = true

def keyOf (id : T → Str) (timestamp : T → Option (Option Int)) (row : T) : RowKey :=
  rowKey (timestamp row).join (id row)

structure RowsSorted (id : T → Str) (timestamp : T → Option (Option Int)) (validate : T → Bool)
    (rows : List T) : Prop where
  valid : ∀ row ∈ rows, RowValid timestamp validate row
  distinct : (rows.map id).Nodup
  sorted : rows.Pairwise fun a b => keyOf id timestamp a < keyOf id timestamp b

theorem orderedFrom_iff {ids : List Str} {previous : Option (Option Int × Str)} {rows : List T} :
    RawSnapshot.orderedFrom id timestamp validate ids previous rows = true ↔
      RowsSorted id timestamp validate rows ∧ (∀ row ∈ rows, id row ∉ ids) ∧
        ∀ p, previous = some p → ∀ row ∈ rows, rowKey p.1 p.2 < keyOf id timestamp row := by
  induction rows generalizing ids previous with
  | nil =>
    refine ⟨fun _ => ⟨⟨by simp, by simp, List.Pairwise.nil⟩, by simp, by simp⟩, fun _ => rfl⟩
  | cons row rest ih =>
    rw [RawSnapshot.orderedFrom]
    cases htime : timestamp row with
    | none =>
      refine ⟨fun h => (Bool.false_ne_true h).elim, fun h => ?_⟩
      have := (h.1.valid row List.mem_cons_self).1
      rw [htime] at this
      cases this
    | some time =>
      have hkey : keyOf id timestamp row = rowKey time (id row) := by
        rw [keyOf, htime]
        rfl
      dsimp only
      split_ifs with hbad hbefore
      · refine ⟨fun h => h.elim, fun h => ?_⟩
        rw [Bool.or_eq_true, Bool.not_eq_true', List.contains_iff_mem] at hbad
        rcases hbad with hbad | hbad
        · rw [(h.1.valid row List.mem_cons_self).2] at hbad
          cases hbad
        · exact absurd hbad (h.2.1 row List.mem_cons_self)
      · refine ⟨fun h => h.elim, fun h => ?_⟩
        obtain ⟨p, hp, hnot⟩ := (Option.any_eq_true _ _).mp hbefore
        have hlt := h.2.2 p hp row List.mem_cons_self
        rw [hkey, ← not_follows_iff, hnot] at hlt
        cases hlt
      · rw [Bool.or_eq_true, Bool.not_eq_true', List.contains_iff_mem, not_or,
          Bool.not_eq_false] at hbad
        rw [ih]
        constructor
        · rintro ⟨hrest, hids, hfollows⟩
          have hlater : ∀ r ∈ rest, keyOf id timestamp row < keyOf id timestamp r := by
            rw [hkey]
            exact hfollows _ rfl
          refine ⟨⟨?_, ?_, List.pairwise_cons.mpr ⟨hlater, hrest.sorted⟩⟩, ?_, ?_⟩
          · refine List.forall_mem_cons.mpr ⟨⟨by rw [htime]; rfl, hbad.1⟩, hrest.valid⟩
          · refine List.nodup_cons.mpr ⟨fun hmem => ?_, hrest.distinct⟩
            obtain ⟨r, hr, heq⟩ := List.mem_map.mp hmem
            exact hids r hr (heq ▸ List.mem_cons_self)
          · exact List.forall_mem_cons.mpr
              ⟨hbad.2, fun r hr hmem => hids r hr (List.mem_cons_of_mem _ hmem)⟩
          · intro p hp
            have hfirst : rowKey p.1 p.2 < keyOf id timestamp row := by
              rw [hkey, ← not_follows_iff]
              rw [hp] at hbefore
              simpa using hbefore
            exact List.forall_mem_cons.mpr ⟨hfirst, fun r hr => hfirst.trans (hlater r hr)⟩
        · rintro ⟨hsorted, hids, hfollows⟩
          obtain ⟨hlater, hrest⟩ := List.pairwise_cons.mp hsorted.sorted
          obtain ⟨hnew, hdistinct⟩ := List.nodup_cons.mp hsorted.distinct
          refine ⟨⟨fun r hr => hsorted.valid r (List.mem_cons_of_mem _ hr), hdistinct, hrest⟩,
            fun r hr hmem => ?_, ?_⟩
          · rcases List.mem_cons.mp hmem with heq | hmem
            · exact hnew (heq ▸ List.mem_map_of_mem hr)
            · exact hids r (List.mem_cons_of_mem _ hr) hmem
          · intro p hp
            obtain rfl := Option.some.inj hp
            rw [← hkey]
            exact hlater

theorem ordered_iff {rows : List T} :
    RawSnapshot.ordered id timestamp validate rows = true ↔ RowsSorted id timestamp validate rows := by
  rw [RawSnapshot.ordered, orderedFrom_iff]
  exact ⟨fun h => h.1, fun h => ⟨h, by simp, by simp⟩⟩

def OneOrder (id : T → Str) (timestamp : T → Option (Option Int)) (validate : T → Bool) : Prop :=
  ∀ rows : List T, (∀ row ∈ rows, RowValid timestamp validate row) → (rows.map id).Nodup →
    ∃! order : List T, order.Perm rows ∧
      RawSnapshot.ordered id timestamp validate order = true

theorem rowsSorted_insertionSort {rows : List T}
    (hvalid : ∀ row ∈ rows, RowValid timestamp validate row) (hdistinct : (rows.map id).Nodup) :
    RowsSorted id timestamp validate
      (rows.insertionSort fun a b => keyOf id timestamp a ≤ keyOf id timestamp b) := by
  have hperm := rows.perm_insertionSort fun a b => keyOf id timestamp a ≤ keyOf id timestamp b
  have hdistinct' := (hperm.map id).nodup_iff.mpr hdistinct
  refine ⟨fun row hrow => hvalid row (hperm.mem_iff.mp hrow), hdistinct', ?_⟩
  have hle := rows.pairwise_insertionSort
    fun a b => keyOf id timestamp a ≤ keyOf id timestamp b
  have hne := List.pairwise_map.mp hdistinct'
  refine hle.imp₂ (fun a b hle hne => lt_of_le_of_ne hle fun heq => hne ?_) hne
  exact congrArg (fun k : RowKey => (ofLex k).2) heq

theorem oneOrder (id : T → Str) (timestamp : T → Option (Option Int)) (validate : T → Bool) :
    OneOrder id timestamp validate := by
  intro rows hvalid hdistinct
  simp only [ordered_iff]
  have hperm := rows.perm_insertionSort fun a b => keyOf id timestamp a ≤ keyOf id timestamp b
  have hsorted := rowsSorted_insertionSort hvalid hdistinct
  refine ⟨_, ⟨hperm, hsorted⟩, ?_⟩
  rintro order ⟨hperm', horder⟩
  exact Paging.eq_of_mem_iff horder.sorted hsorted.sorted fun row =>
    hperm'.mem_iff.trans hperm.mem_iff.symm

end Ordered

/-- The counts of a section fit its rows and its availability: where there is a total, up to twenty
rows are given, and there are more exactly if the total is greater. -/
def NowSectionData.CountsConsistent {T : Type} (s : NowSectionData T) : Prop :=
  (s.availability = .available ∧ ∃ total, s.total = some total ∧ total.toNat ≤ safeCountMax ∧
    s.items.length = min total.toNat 20 ∧
    s.hasMore = some (decide (s.items.length < total.toNat)) ∧ s.error = none) ∨
  (s.availability = .noCorpus ∧ s.items = [] ∧ s.total = some 0 ∧ s.hasMore = some false ∧
    s.error = none) ∨
  (s.availability = .failed ∧ s.items = [] ∧ s.total = none ∧ s.hasMore = none ∧
    s.error.isSome = true)

theorem NowSectionData.validate_iff {T : Type} (s : NowSectionData T) :
    s.validate = true ↔ s.CountsConsistent := by
  unfold validate CountsConsistent
  cases s.availability with
  | available =>
    cases s.total with
    | none => simp
    | some total => simp [and_assoc]
  | noCorpus => simp [and_assoc]
  | failed => simp [and_assoc]

structure RawSnapshot.Accepted (vendor : Vendor) (raw : RawSnapshot) (generated : Int) : Prop where
  generatedAt : decimal raw.generatedAt = some generated
  generatedRange : 0 ≤ generated ∧ generated ≤ maxMillisecondsNs + million - 1
  projectId : canonicalProjectId vendor raw.projectId = true
  taskCounts : raw.sections.tasks.CountsConsistent
  sessionCounts : raw.sections.sessions.CountsConsistent
  memoryCounts : raw.sections.memories.CountsConsistent
  knowledgeCounts : raw.sections.knowledge.CountsConsistent
  tasks : RowsSorted NowTaskData.id (fun row => (milliseconds row.updatedAt).map some)
    (NowTaskData.validate vendor generated) raw.sections.tasks.items
  sessions : RowsSorted NowSessionData.id (fun row => (milliseconds row.updatedAt).map some)
    (NowSessionData.validate vendor generated) raw.sections.sessions.items
  memories : RowsSorted NowMemoryData.id (fun row => (milliseconds row.updatedAt).map some)
    (NowMemoryData.validate vendor) raw.sections.memories.items
  knowledge : RowsSorted NowKnowledgeData.slug NowKnowledgeData.timestamp
    (fun row => validSlug row.slug) raw.sections.knowledge.items

theorem RawSnapshot.validate_iff {vendor : Vendor} (raw : RawSnapshot) :
    raw.validate vendor = true ↔ ∃ generated, raw.Accepted vendor generated := by
  unfold validate
  constructor
  · intro h
    split at h
    · cases h
    · next generated hgenerated =>
      simp only [Bool.and_eq_true, NowSectionData.validate_iff, ordered_iff] at h
      obtain ⟨⟨⟨⟨⟨⟨⟨⟨hid, htaskCounts⟩, hsessionCounts⟩, hmemoryCounts⟩, hknowledgeCounts⟩, htasks⟩,
        hsessions⟩, hmemories⟩, hknowledge⟩ := h
      obtain ⟨hdecimal, hrange⟩ := Option.filter_eq_some_iff.mp hgenerated
      simp only [Bool.and_eq_true, decide_eq_true_eq] at hrange
      exact ⟨generated, hdecimal, hrange, hid, htaskCounts, hsessionCounts, hmemoryCounts,
        hknowledgeCounts, htasks, hsessions, hmemories, hknowledge⟩
  · rintro ⟨generated, h⟩
    have hgenerated : ((decimal raw.generatedAt).filter fun n =>
        decide (0 ≤ n) && decide (n ≤ maxMillisecondsNs + million - 1)) = some generated := by
      rw [h.generatedAt, Option.filter_eq_some_iff]
      simpa using h.generatedRange
    rw [hgenerated]
    simp only [Bool.and_eq_true, NowSectionData.validate_iff, ordered_iff]
    exact ⟨⟨⟨⟨⟨⟨⟨⟨h.projectId, h.taskCounts⟩, h.sessionCounts⟩, h.memoryCounts⟩,
      h.knowledgeCounts⟩, h.tasks⟩, h.sessions⟩, h.memories⟩, h.knowledge⟩

def RawSnapshot.LeasesLater (raw : RawSnapshot) (generated : Int) : Prop :=
  (∀ row ∈ raw.sections.tasks.items,
    ∃ lease, milliseconds row.leaseExpiresAt = some lease ∧ generated < lease) ∧
  ∀ row ∈ raw.sections.sessions.items,
    ∃ lease, milliseconds row.leaseExpiresAt = some lease ∧ generated < lease

theorem RawSnapshot.Accepted.leasesLater {vendor : Vendor} {raw : RawSnapshot} {generated : Int}
    (h : raw.Accepted vendor generated) : raw.LeasesLater generated := by
  constructor
  · intro row hrow
    have hvalid := (h.tasks.valid row hrow).2
    simp only [NowTaskData.validate, Bool.and_eq_true] at hvalid
    obtain ⟨lease, hlease, hlater⟩ := (Option.any_eq_true _ _).mp hvalid.2
    exact ⟨lease, hlease, of_decide_eq_true hlater⟩
  · intro row hrow
    have hvalid := (h.sessions.valid row hrow).2
    simp only [NowSessionData.validate, Bool.and_eq_true] at hvalid
    obtain ⟨lease, hlease, hlater⟩ := (Option.any_eq_true _ _).mp hvalid.1.1.2
    exact ⟨lease, hlease, of_decide_eq_true hlater⟩

namespace NowSnapshotData

variable {vendor : Vendor}

/-- **Snapshots are sorted and read back.** The decoder accepts exactly the snapshots whose rows are
valid one by one and sorted without a repeated id, with counts that fit and leases later than the
snapshot. What it accepts is written and read again as the same value, and the rows of a section
have exactly one accepted order. -/
theorem accepted_exact (codec : JsonCodec) :
    (∀ (bytes : codec.Text) (limit : Nat) (s : NowSnapshotData vendor),
      decode codec bytes limit = .ok s →
      (codec.parse (codec.print s.toRawSnapshot.serialize)).bind deserialize = some s ∧
      (∀ limit', codec.len (codec.print s.toRawSnapshot.serialize) ≤ limit' →
        decode codec (codec.print s.toRawSnapshot.serialize) limit' = .ok s) ∧
      ∃ generated, s.Accepted vendor generated ∧ s.LeasesLater generated) ∧
    (∀ (raw : RawSnapshot) (generated : Int), raw.Accepted vendor generated →
      ∃ s : NowSnapshotData vendor, s.toRawSnapshot = raw ∧
        ∀ limit, codec.len (codec.print raw.serialize) ≤ limit →
          decode codec (codec.print raw.serialize) limit = .ok s) ∧
    (∀ generated : Int,
      OneOrder NowTaskData.id (fun row => (milliseconds row.updatedAt).map some)
        (NowTaskData.validate vendor generated) ∧
      OneOrder NowSessionData.id (fun row => (milliseconds row.updatedAt).map some)
        (NowSessionData.validate vendor generated)) ∧
    OneOrder NowMemoryData.id (fun row => (milliseconds row.updatedAt).map some)
      (NowMemoryData.validate vendor) ∧
    OneOrder NowKnowledgeData.slug NowKnowledgeData.timestamp (fun row => validSlug row.slug) := by
  refine ⟨fun bytes limit s _ => ⟨?_, fun limit' => decode_print codec s, ?_⟩,
    fun raw generated h => ?_, fun generated => ⟨oneOrder _ _ _, oneOrder _ _ _⟩, oneOrder _ _ _,
    oneOrder _ _ _⟩
  · have hparse := codec.parse_print _ (s.toRawSnapshot.within_serialize.mono (by decide))
    rw [hparse, Option.bind_some, deserialize_serialize]
  · obtain ⟨generated, h⟩ := s.toRawSnapshot.validate_iff.mp s.valid
    exact ⟨generated, h, h.leasesLater⟩
  · have hvalid := raw.validate_iff.mpr ⟨generated, h⟩
    exact ⟨⟨raw, hvalid⟩, rfl, fun limit => decode_print codec ⟨raw, hvalid⟩⟩

/-- A text of six rows in the four sections. -/
theorem accepted_exact_work :
    ∃ s : NowSnapshotData Sample.crates, s.toRawSnapshot = Sample.workSnapshot.toRawSnapshot ∧
      decode Sample.codec (Sample.codec.print Sample.workSnapshot.toRawSnapshot.serialize) 2048 =
        .ok s ∧
      ∃ generated, s.LeasesLater generated := by
  obtain ⟨generated, haccepted⟩ :=
    Sample.workSnapshot.toRawSnapshot.validate_iff.mp Sample.workSnapshot.valid
  obtain ⟨s, hs, hdecode⟩ := (accepted_exact Sample.codec).2.1 _ generated haccepted
  have hread := hdecode 2048 (by decide +kernel)
  obtain ⟨-, -, generated', -, hleases⟩ := (accepted_exact Sample.codec).1 _ 2048 s hread
  exact ⟨s, hs, hread, generated', hleases⟩

end NowSnapshotData

end GraphitBroker
