import GraphitBroker.InstanceRegistration
import GraphitBroker.Lib.Paging

/-!
# The rows of an inventory

The constructors sort, so the order of what they are given does not matter; the rows of a canonical
inventory are compared and decoded as what they were written from.
-/

namespace GraphitBroker

open ExceptList Paging

theorem hasRepeat_eq_false_iff {α : Type} [LinearOrder α] {dec : DecidableEq α} {l : List α}
    (hl : l.Pairwise (· ≤ ·)) : @hasRepeat α dec l = false ↔ l.Pairwise (· < ·) := by
  induction l with
  | nil => simp [hasRepeat]
  | cons a rest ih =>
    cases rest with
    | nil => simp [hasRepeat]
    | cons b rest =>
      obtain ⟨ha, hrest⟩ := List.pairwise_cons.mp hl
      rw [hasRepeat, Bool.or_eq_false_iff, ih hrest, beq_eq_false_iff_ne]
      constructor
      · rintro ⟨hne, hlt⟩
        have hab : a < b := lt_of_le_of_ne (ha b List.mem_cons_self) hne
        refine List.pairwise_cons.mpr ⟨fun c hc => ?_, hlt⟩
        rcases List.mem_cons.mp hc with rfl | hc
        · exact hab
        · exact hab.trans (List.rel_of_pairwise_cons hlt hc)
      · intro hlt
        exact ⟨(List.rel_of_pairwise_cons hlt List.mem_cons_self).ne, hlt.of_cons⟩

theorem InstanceProjectVersions.new_eq_some_iff {vendor : Vendor} {projectId : Str}
    {versions : List Str} {p : InstanceProjectVersions} :
    new vendor projectId versions = some p ↔
      p.valid vendor = true ∧ p.projectId = projectId ∧ p.versions.Perm versions := by
  have hsorted := versions.pairwise_insertionSort (· ≤ ·)
  have hperm := versions.perm_insertionSort (· ≤ ·)
  simp only [valid, Bool.and_eq_true, Bool.not_eq_true', List.all_eq_true, decide_eq_true_eq,
    List.isEmpty_eq_false_iff]
  unfold new
  dsimp only
  constructor
  · intro h
    split_ifs at h with hbad hrepeat
    obtain rfl := Option.some.inj h
    simp only [Bool.or_eq_true, Bool.not_eq_true', List.isEmpty_iff, List.any_eq_true, not_or,
      not_exists, not_and, Bool.not_eq_false] at hbad
    rw [Bool.not_eq_true, hasRepeat_eq_false_iff hsorted] at hrepeat
    refine ⟨⟨⟨⟨hbad.1.1, fun hempty => hbad.1.2 ?_⟩, fun value hvalue => ?_⟩, hrepeat⟩, rfl, hperm⟩
    · exact List.perm_nil.mp (hempty ▸ hperm.symm)
    · exact hbad.2 value (hperm.mem_iff.mp hvalue)
  · rintro ⟨⟨⟨⟨hid, hne⟩, hversions⟩, hlt⟩, rfl, hp⟩
    have heq : versions.insertionSort (· ≤ ·) = p.versions :=
      (hperm.trans hp.symm).eq_of_pairwise (fun a b _ _ hab hba => le_antisymm hab hba) hsorted
        (hlt.imp le_of_lt)
    have hgood : ¬ (!canonicalProjectId vendor p.projectId || versions.isEmpty ||
        versions.any fun value => !canonicalVersion value) = true := by
      simp only [Bool.or_eq_true, Bool.not_eq_true', List.isEmpty_iff, List.any_eq_true, not_or,
        not_exists, not_and, Bool.not_eq_false]
      exact ⟨⟨hid, fun hempty => hne (List.perm_nil.mp (hempty ▸ hp))⟩,
        fun value hvalue => hversions value (hp.mem_iff.mpr hvalue)⟩
    rw [if_neg hgood, heq, if_neg (by rw [(hasRepeat_eq_false_iff (hlt.imp le_of_lt)).mpr hlt]; simp)]

theorem newProjects_eq_some_iff {projects result : List InstanceProjectVersions} :
    newProjects projects = some result ↔
      result.Perm projects ∧ result.Pairwise fun a b => a.projectId < b.projectId := by
  have hsorted := projects.pairwise_insertionSort fun a b => a.projectId ≤ b.projectId
  have hperm := projects.perm_insertionSort fun a b => a.projectId ≤ b.projectId
  have hrepeat : hasRepeat ((projects.insertionSort fun a b => a.projectId ≤ b.projectId).map
      InstanceProjectVersions.projectId) = false ↔
      (projects.insertionSort fun a b => a.projectId ≤ b.projectId).Pairwise
        fun a b => a.projectId < b.projectId :=
    (hasRepeat_eq_false_iff (List.pairwise_map.mpr hsorted)).trans List.pairwise_map
  unfold newProjects
  dsimp only
  constructor
  · intro h
    split_ifs at h with hbad
    obtain rfl := Option.some.inj h
    exact ⟨hperm, hrepeat.mp (Bool.eq_false_iff.mpr hbad)⟩
  · rintro ⟨hresult, hlt⟩
    -- the ids are different, so that the sorted list is strictly sorted too
    have hnodup : (result.map InstanceProjectVersions.projectId).Nodup :=
      List.pairwise_map.mpr (hlt.imp ne_of_lt)
    have hnodup' := ((hperm.trans hresult.symm).map InstanceProjectVersions.projectId).nodup_iff.mpr
      hnodup
    have hlt' := hsorted.imp₂ (fun a b hle hne => lt_of_le_of_ne hle hne)
      (List.pairwise_map.mp hnodup')
    rw [if_neg (by rw [hrepeat.mpr hlt']; simp)]
    exact congrArg some (eq_of_mem_iff hlt' hlt fun p =>
      hperm.mem_iff.trans hresult.mem_iff.symm)

/-- Two inputs that are equal up to the order of projects and versions. -/
def SameInventory (input input' : List (Str × List Str)) : Prop :=
  ∃ middle, List.Forall₂ (fun p q => p.1 = q.1 ∧ p.2.Perm q.2) input middle ∧ middle.Perm input'

theorem InstanceProjectVersions.new_congr {vendor : Vendor} {projectId : Str}
    {versions versions' : List Str} (h : versions.Perm versions') :
    new vendor projectId versions = new vendor projectId versions' := by
  ext p
  rw [new_eq_some_iff, new_eq_some_iff]
  exact ⟨fun ⟨hv, hid, hp⟩ => ⟨hv, hid, hp.trans h⟩, fun ⟨hv, hid, hp⟩ => ⟨hv, hid, hp.trans h.symm⟩⟩

theorem newProjects_congr {projects projects' : List InstanceProjectVersions}
    (h : projects.Perm projects') : newProjects projects = newProjects projects' := by
  ext result
  rw [newProjects_eq_some_iff, newProjects_eq_some_iff]
  exact ⟨fun ⟨hp, hlt⟩ => ⟨hp.trans h, hlt⟩, fun ⟨hp, hlt⟩ => ⟨hp.trans h.symm, hlt⟩⟩

theorem InstanceInventory.build_of_perm {vendor : Vendor} {id : Str}
    {input input' : List (Str × List Str)} (h : input.Perm input')
    {result : List InstanceProjectVersions} (hbuild : build vendor id input = some result) :
    build vendor id input' = some result := by
  simp only [build, Option.bind_eq_bind, Option.bind_eq_some_iff, mapM_eq_some_iff] at hbuild ⊢
  obtain ⟨projects, hprojects, hresult⟩ := hbuild
  have hcomp : Relation.Comp List.Perm (List.Forall₂ fun (p : Str × List Str) b =>
      InstanceProjectVersions.new vendor p.1 p.2 = some b) input' projects :=
    ⟨input, h.symm, hprojects⟩
  rw [← List.forall₂_comp_perm_eq_perm_comp_forall₂] at hcomp
  obtain ⟨projects', hprojects', hperm⟩ := hcomp
  refine ⟨projects', hprojects', ?_⟩
  split_ifs at hresult ⊢
  rw [newProjects_congr hperm, hresult]

theorem InstanceInventory.build_congr {vendor : Vendor} {id : Str}
    {input input' : List (Str × List Str)} (h : SameInventory input input') :
    build vendor id input = build vendor id input' := by
  obtain ⟨middle, hsame, hperm⟩ := h
  have hmiddle : input.mapM (fun p => InstanceProjectVersions.new vendor p.1 p.2) =
      middle.mapM fun p => InstanceProjectVersions.new vendor p.1 p.2 := by
    clear hperm
    induction hsame with
    | nil => rfl
    | @cons p q _ _ hp _ ih =>
      rw [List.mapM_cons, List.mapM_cons, ih, hp.1, InstanceProjectVersions.new_congr hp.2]
  ext result
  rw [build, hmiddle]
  exact ⟨build_of_perm hperm, build_of_perm hperm.symm⟩

section Rows

variable {vendor : Vendor}

def FollowOn (vendor : Vendor) : VersionRow → List VersionRow → Prop
  | _, [] => True
  | previous, row :: rest =>
    byteLen row.projectId ≤ 26 ∧ canonicalProjectId vendor row.projectId = true ∧
    canonicalVersion row.version = true ∧
    (row.projectId ≠ previous.projectId →
      (previous.projectId = [] ∨ previous.projectId < row.projectId) ∧ row.position = 1) ∧
    (row.projectId = previous.projectId →
      row.position = previous.position + 1 ∧ previous.version < row.version) ∧
    FollowOn vendor row rest

theorem followOn_append {previous : VersionRow} {rows rows' : List VersionRow} :
    FollowOn vendor previous (rows ++ rows') ↔
      FollowOn vendor previous rows ∧ FollowOn vendor (rows.getLast?.getD previous) rows' := by
  induction rows generalizing previous with
  | nil => simp [FollowOn]
  | cons row rest ih =>
    have hlast : (row :: rest).getLast?.getD previous = rest.getLast?.getD row := by
      cases rest with
      | nil => rfl
      | cons next rest =>
        rw [List.getLast?_cons_cons, List.getLast?_eq_some_getLast (List.cons_ne_nil next rest)]
        rfl
    rw [List.cons_append, FollowOn, FollowOn, ih, hlast]
    simp only [and_assoc]

/-- The loop finds nothing malformed, and tells whether the rows are those expected. -/
theorem compareRows_eq {stored expected : List VersionRow} {same : Bool} {count : Nat}
    {previous : VersionRow} (h : FollowOn vendor previous stored) :
    compareRows vendor stored expected same count previous =
      .ok (same && decide (stored = expected), count + stored.length) := by
  induction stored generalizing expected same count previous with
  | nil =>
    rw [compareRows]
    cases expected <;> simp
  | cons row rest ih =>
    obtain ⟨hlength, hproject, hversion, hnew, hsame, hrest⟩ := h
    simp only [compareRows, bind_eq_ok, failIf_eq_ok]
    refine ⟨(), Nat.not_lt.mpr hlength, (), by simp [hproject, hversion], (), ?_, (), ?_, ?_⟩
    · rintro ⟨hne, hbad⟩
      obtain ⟨hafter, hposition⟩ := hnew hne
      rcases hbad with ⟨hnonempty, hle⟩ | hbad
      · exact hafter.elim hnonempty fun hlt => absurd hle hlt.not_ge
      · exact hbad hposition
    · rintro ⟨heq, hbad⟩
      obtain ⟨hposition, hlt⟩ := hsame heq
      rcases hbad with hbad | hle
      · exact hbad hposition.symm
      · exact absurd hle hlt.not_ge
    · rw [ih hrest, List.length_cons]
      have hcount : count + 1 + rest.length = count + (rest.length + 1) := by omega
      have htest : (same && expected.head? == some row && decide (rest = expected.tail)) =
          (same && decide (row :: rest = expected)) := by
        cases expected with
        | nil => simp
        | cons first expected =>
          by_cases hfirst : first = row
          · simp [hfirst]
          · simp [hfirst, Ne.symm hfirst]
      rw [hcount, htest]

theorem validProjects_iff {projects : List InstanceProjectVersions} :
    validProjects vendor projects = true ↔ (∀ p ∈ projects, p.valid vendor = true) ∧
      projects.Pairwise fun p q => p.projectId < q.projectId := by
  simp only [validProjects, Bool.and_eq_true, List.all_eq_true, decide_eq_true_eq]

theorem InstanceProjectVersions.valid_iff {p : InstanceProjectVersions} :
    p.valid vendor = true ↔ canonicalProjectId vendor p.projectId = true ∧ p.versions ≠ [] ∧
      (∀ version ∈ p.versions, canonicalVersion version = true) ∧
      p.versions.Pairwise (· < ·) := by
  simp only [valid, Bool.and_eq_true, Bool.not_eq_true', List.isEmpty_eq_false_iff,
    List.all_eq_true, decide_eq_true_eq, and_assoc]

theorem getLast?_versionRowsFrom {project : Str} {n : Nat} {versions : List Str} :
    ((versionRowsFrom project n versions).getLast?.map VersionRow.projectId) =
      if versions = [] then none else some project := by
  induction versions generalizing n with
  | nil => rfl
  | cons version rest ih =>
    cases rest with
    | nil => rfl
    | cons next rest =>
      have := @ih (n + 1)
      simpa [versionRowsFrom, List.getLast?_cons_cons] using this

theorem followOn_versionRowsFrom {project : Str} (hlength : byteLen project ≤ 26)
    (hproject : canonicalProjectId vendor project = true) {n : Nat} {version : Str}
    {versions : List Str} (hversions : ∀ v ∈ versions, canonicalVersion v = true)
    (hsorted : (version :: versions).Pairwise (· < ·)) :
    FollowOn vendor ⟨project, n, version⟩ (versionRowsFrom project n versions) := by
  induction versions generalizing n version with
  | nil => trivial
  | cons next rest ih =>
    obtain ⟨hlt, hrest⟩ := List.pairwise_cons.mp hsorted
    refine ⟨hlength, hproject, hversions next List.mem_cons_self, fun h => absurd rfl h,
      fun _ => ⟨rfl, hlt next List.mem_cons_self⟩, ?_⟩
    exact ih (fun v hv => hversions v (List.mem_cons_of_mem _ hv)) hrest

theorem length_of_canonicalProjectId {id : Str} (h : canonicalProjectId vendor id = true) :
    id.length = 26 ∧ byteLen id = 26 := by
  unfold canonicalProjectId at h
  split at h
  · cases h
  · next ulid _ =>
    rw [Bool.and_eq_true, beq_iff_eq] at h
    have hascii : (crockford.all fun c => c.utf8Size == 1) = true := rfl
    rw [List.all_eq_true] at hascii
    have hlength := vendor.ulid.length_arrayToStr ulid
    have hbytes := byteLen_eq_length fun c hc =>
      beq_iff_eq.mp (hascii c (vendor.ulid.mem_arrayToStr ulid c hc))
    rw [h.2] at hlength hbytes
    exact ⟨hlength, hbytes.trans hlength⟩

theorem nil_lt_of_canonicalProjectId {id : Str} (h : canonicalProjectId vendor id = true) :
    [] < id := by
  have hlength := (length_of_canonicalProjectId h).1
  cases id with
  | nil => cases hlength
  | cons c rest => exact List.nil_lt_cons c rest

theorem followOn_registryRows {projects : List InstanceProjectVersions} {previous : VersionRow}
    (hvalid : validProjects vendor projects = true)
    (hafter : ∀ p ∈ projects, previous.projectId = [] ∨ previous.projectId < p.projectId) :
    FollowOn vendor previous (registryRows projects) := by
  induction projects generalizing previous with
  | nil => trivial
  | cons p rest ih =>
    obtain ⟨hall, hpairwise⟩ := validProjects_iff.mp hvalid
    obtain ⟨hlt, hrest⟩ := List.pairwise_cons.mp hpairwise
    obtain ⟨hproject, hne, hversions, hsorted⟩ :=
      InstanceProjectVersions.valid_iff.mp (hall p List.mem_cons_self)
    have hlength := (length_of_canonicalProjectId hproject).2.le
    rw [registryRows, List.flatMap_cons, followOn_append]
    refine ⟨?_, ih (validProjects_iff.mpr ⟨fun q hq => hall q (List.mem_cons_of_mem _ hq), hrest⟩)
      fun q hq => .inr ?_⟩
    · cases hp : p.versions with
      | nil => exact absurd hp hne
      | cons version versions =>
        rw [hp] at hversions hsorted
        refine ⟨hlength, hproject, hversions version List.mem_cons_self,
          fun _ => ⟨hafter p List.mem_cons_self, rfl⟩, fun heq => ?_, ?_⟩
        · rcases hafter p List.mem_cons_self with hempty | hlt
          · have hnil := nil_lt_of_canonicalProjectId hproject
            rw [← hempty] at hnil
            exact absurd heq hnil.ne'
          · exact absurd heq hlt.ne'
        · exact followOn_versionRowsFrom hlength hproject
            (fun v hv => hversions v (List.mem_cons_of_mem _ hv)) hsorted
    · -- the last row of the project is one of it
      have hlast := @getLast?_versionRowsFrom p.projectId 0 p.versions
      rw [if_neg hne] at hlast
      obtain ⟨row, hrow, hid⟩ := Option.map_eq_some_iff.mp hlast
      rw [hrow, Option.getD_some, hid]
      exact hlt q hq

def VersionRow.key (row : VersionRow) : Str ×ₗ ℕ := toLex (row.projectId, row.position)

theorem sorted_of_followOn {previous : VersionRow} {rows : List VersionRow}
    (h : FollowOn vendor previous rows) :
    (previous :: rows).Pairwise fun a b => a.key < b.key := by
  induction rows generalizing previous with
  | nil => exact List.pairwise_singleton _ _
  | cons row rest ih =>
    obtain ⟨-, hproject, -, hnew, hsame, hrest⟩ := h
    have hfirst : previous.key < row.key := by
      rw [VersionRow.key, VersionRow.key, Prod.Lex.toLex_lt_toLex]
      by_cases heq : row.projectId = previous.projectId
      · exact .inr ⟨heq.symm, by rw [(hsame heq).1]; exact Nat.lt_succ_self _⟩
      · refine .inl ((hnew heq).1.elim (fun hempty => ?_) id)
        rw [hempty]
        exact nil_lt_of_canonicalProjectId hproject
    refine List.pairwise_cons.mpr ⟨fun other hother => ?_, ih hrest⟩
    rcases List.mem_cons.mp hother with rfl | hother
    · exact hfirst
    · exact hfirst.trans (List.rel_of_pairwise_cons (ih hrest) hother)

theorem decodeRows_versionRowsFrom {p : InstanceProjectVersions} (hp : p.valid vendor = true)
    {before versions : List Str} (hne : before ≠ []) (hversions : before ++ versions <+: p.versions)
    {projects : List InstanceProjectVersions} {rows : List VersionRow} :
    decodeRows vendor (versionRowsFrom p.projectId before.length versions ++ rows) projects
        p.projectId before =
      decodeRows vendor rows projects p.projectId (before ++ versions) := by
  obtain ⟨hproject, -, -, hsorted⟩ := InstanceProjectVersions.valid_iff.mp hp
  induction versions generalizing before with
  | nil => simp [versionRowsFrom]
  | cons version rest ih =>
    have hstep : before ++ [version] ++ rest = before ++ version :: rest := by simp
    have hlast : ¬ before.getLast?.any (version ≤ ·) = true := by
      rw [Option.any_eq_true]
      rintro ⟨last, hlast, hle⟩
      have hlt := (List.pairwise_append.mp (List.Pairwise.sublist hversions.sublist hsorted)).2.2 last
        (List.mem_of_getLast? hlast) version List.mem_cons_self
      exact absurd (of_decide_eq_true hle) hlt.not_ge
    have hrest := @ih (before ++ [version]) (by simp) (by rwa [hstep])
    rw [List.length_append, List.length_singleton] at hrest
    rw [versionRowsFrom, List.cons_append, decodeRows]
    simp only [hproject, Bool.not_true, Bool.false_eq_true, if_false, decide_true, Bool.true_or,
      if_true, Option.bind_eq_bind, Option.bind_some, ne_eq, not_true_eq_false, false_or, hlast]
    rw [hrest, hstep]

theorem decodeRows_registryRows {p : InstanceProjectVersions}
    {rest projects : List InstanceProjectVersions} (hvalid : validProjects vendor (p :: rest) = true) :
    decodeRows vendor (registryRows rest) projects p.projectId p.versions =
      some (projects ++ p :: rest) := by
  induction rest generalizing p projects with
  | nil =>
    obtain ⟨hall, -⟩ := validProjects_iff.mp hvalid
    have hp := hall p List.mem_cons_self
    have hproject := (InstanceProjectVersions.valid_iff.mp hp).1
    have hnil := (nil_lt_of_canonicalProjectId hproject).ne'
    have hnew : InstanceProjectVersions.new vendor p.projectId p.versions = some p :=
      InstanceProjectVersions.new_eq_some_iff.mpr ⟨hp, rfl, .refl _⟩
    rw [registryRows, List.flatMap_nil, decodeRows, if_neg (by simpa using hnil), hnew]
    rfl
  | cons q rest ih =>
    obtain ⟨hall, hpairwise⟩ := validProjects_iff.mp hvalid
    obtain ⟨hlt, hrest⟩ := List.pairwise_cons.mp hpairwise
    have hp := hall p List.mem_cons_self
    have hq := hall q (List.mem_cons_of_mem _ List.mem_cons_self)
    obtain ⟨hproject, hne, -, -⟩ := InstanceProjectVersions.valid_iff.mp hq
    have hpq := hlt q List.mem_cons_self
    have hnil := (nil_lt_of_canonicalProjectId (InstanceProjectVersions.valid_iff.mp hp).1).ne'
    have hnew : InstanceProjectVersions.new vendor p.projectId p.versions = some p :=
      InstanceProjectVersions.new_eq_some_iff.mpr ⟨hp, rfl, .refl _⟩
    have htail := @ih q (projects ++ [p]) (validProjects_iff.mpr
      ⟨fun r hr => hall r (List.mem_cons_of_mem _ hr), hrest⟩)
    cases hversions : q.versions with
    | nil => exact absurd hversions hne
    | cons version versions =>
      have hfurther := @decodeRows_versionRowsFrom vendor q hq [version] versions (by simp)
        (by rw [hversions]; exact List.prefix_rfl) (projects ++ [p]) (registryRows rest)
      rw [List.singleton_append, ← hversions, htail] at hfurther
      rw [registryRows, List.flatMap_cons, hversions, versionRowsFrom, List.cons_append, decodeRows]
      have hother : ¬ (decide (q.projectId = p.projectId) || p.projectId.isEmpty) = true := by
        simp [hpq.ne', hnil]
      simp only [hproject, Bool.not_true, Bool.false_eq_true, if_false, if_neg hother,
        if_neg hpq.not_ge, hnew, Option.map_some, Option.bind_eq_bind, Option.bind_some,
        List.length_nil, List.getLast?_nil, Option.any_none, ne_eq, zero_add, not_true_eq_false,
        or_self, List.nil_append]
      have happend : projects ++ p :: q :: rest = projects ++ [p] ++ q :: rest := by simp
      rw [happend]
      exact hfurther

/-- The rows of a canonical inventory decode to it. -/
theorem decodeRows_eq {projects : List InstanceProjectVersions}
    (hvalid : validProjects vendor projects = true) :
    decodeRows vendor (registryRows projects) [] [] [] = some projects := by
  cases projects with
  | nil => rfl
  | cons p rest =>
    have hp := (validProjects_iff.mp hvalid).1 p List.mem_cons_self
    obtain ⟨hproject, hne, -, -⟩ := InstanceProjectVersions.valid_iff.mp hp
    have htail := @decodeRows_registryRows vendor p rest [] hvalid
    cases hversions : p.versions with
    | nil => exact absurd hversions hne
    | cons version versions =>
      have hfurther := @decodeRows_versionRowsFrom vendor p hp [version] versions (by simp)
        (by rw [hversions]; exact List.prefix_rfl) [] (registryRows rest)
      rw [List.singleton_append, ← hversions, htail] at hfurther
      rw [registryRows, List.flatMap_cons, hversions, versionRowsFrom, List.cons_append, decodeRows]
      simp only [hproject, Bool.not_true, Bool.false_eq_true, if_false, List.isEmpty_nil,
        Bool.or_true, if_true, Option.bind_eq_bind, Option.bind_some, List.length_nil,
        List.getLast?_nil, Option.any_none, ne_eq, zero_add, not_true_eq_false, or_self,
        List.nil_append]
      exact hfurther

end Rows

end GraphitBroker
