import GraphitBroker.HubAccess
import GraphitBroker.Proof.GrantRevisions
import GraphitBroker.Proof.StorageExactness

/-!
# The two policy engines and the catalog

The glob policy and the Hub policy compile the same stored rules.
-/

namespace GraphitBroker

open ExceptList

variable {vendor : Vendor}

def globMeta : Str := "*?[{}\\".toList

def PlainText (value : Str) : Prop := ∀ c ∈ value, c ∉ globMeta

theorem plainText_of_all {value : Str} (h : value.all (!globMeta.contains ·) = true) :
    PlainText value := fun c hc => by
  simpa using List.all_eq_true.mp h c hc

def LiteralGlobs (vendor : Vendor) : Prop :=
  ∀ value compiled, PlainText value → vendor.glob value = some compiled →
    ∀ text, compiled text = true ↔ text = value

theorem PlainText.trim {value : Str} (h : PlainText value) : PlainText (trim value) := by
  intro c hc
  refine h c ?_
  unfold GraphitBroker.trim trimMatches at hc
  have hdrop := List.dropWhile_sublist isWhitespace (l := value)
  have hdrop' := List.dropWhile_sublist isWhitespace (l := (value.dropWhile isWhitespace).reverse)
  exact hdrop.subset (List.mem_reverse.mp (hdrop'.subset (List.mem_reverse.mp hc)))

theorem pattern_plain (hvendor : LiteralGlobs vendor) {value : Str} {compiled : Str → Bool}
    (hplain : PlainText value) (h : pattern vendor value = .ok compiled) (text : Str) :
    compiled text = true ↔ text = trim value := by
  unfold pattern at h
  split_ifs at h
  split at h
  · cases h
  · rename_i found hfound
    obtain rfl := Except.ok.inj h
    exact hvendor _ _ hplain.trim hfound text

theorem compiled_matches_iff (hvendor : LiteralGlobs vendor) {rule : ResourceGrantRule}
    {selector : Selector} (hplain : PlainText rule.principal)
    (h : Selector.compile vendor rule.accessKind rule.principal = .ok selector) (user : Principal) :
    selector.matchesUser user = true ↔ rule.SelectsUser user := by
  have hpattern := fun compiled => @pattern_plain vendor hvendor rule.principal compiled hplain
  unfold Selector.compile at h
  simp only at h
  unfold ResourceGrantRule.SelectsUser
  split_ifs at h with hglobal hanonymous hauthenticated huser hteam horganization hsubject
  · cases h
    simp [Selector.matchesUser, hglobal]
  · cases h
    simp [Selector.matchesUser, hanonymous]
  · cases h
    simp [Selector.matchesUser, hauthenticated]
  · obtain ⟨compiled, hcompiled, rfl⟩ := map_eq_ok.mp h
    simp [Selector.matchesUser, huser, hpattern compiled hcompiled, Option.any_eq_true]
  · obtain ⟨compiled, hcompiled, rfl⟩ := map_eq_ok.mp h
    simp [Selector.matchesUser, hteam, hpattern compiled hcompiled]
  · obtain ⟨compiled, hcompiled, rfl⟩ := map_eq_ok.mp h
    simp [Selector.matchesUser, horganization, hpattern compiled hcompiled, Option.any_eq_true]
  · obtain ⟨compiled, hcompiled, rfl⟩ := map_eq_ok.mp h
    have hmatches : (compiled user.subject || compiled (user.issuer ++ "|".toList ++ user.subject)) =
        true ↔ trim rule.principal = user.subject ∨
          trim rule.principal = user.issuer ++ "|".toList ++ user.subject := by
      rw [Bool.or_eq_true, hpattern compiled hcompiled, hpattern compiled hcompiled,
        eq_comm (a := user.subject), eq_comm (b := trim rule.principal)]
    simpa [Selector.matchesUser, hsubject] using hmatches

theorem compiledRule_eq_ok {rule : ResourceGrantRule} {compiled : CompiledRule}
    (h : CompiledRule.compile vendor rule = .ok compiled) :
    Selector.compile vendor rule.accessKind rule.principal = .ok compiled.selector ∧
      rule.capabilities.mapM (pattern vendor) = .ok compiled.capabilities ∧
      compiled.projects = rule.projects := by
  simp only [CompiledRule.compile, bind_eq_ok] at h
  obtain ⟨selector, hselector, _, -, capabilities, hcapabilities, h⟩ := h
  obtain rfl := Except.ok.inj h
  exact ⟨hselector, hcapabilities, rfl⟩

theorem resourcePolicy_eq_ok {snapshot : ResourceGrantSnapshot} {policy : ResourcePolicy}
    (h : ResourcePolicy.compile vendor snapshot = .ok policy) :
    List.Forall₂ (fun rule compiled => CompiledRule.compile vendor rule = .ok compiled)
      snapshot.rules policy.rules := by
  simp only [ResourcePolicy.compile, bind_eq_ok] at h
  obtain ⟨rules, hrules, h⟩ := h
  obtain rfl := Except.ok.inj h
  exact mapM_eq_ok_iff.mp hrules

theorem hubPolicy_eq_ok {snapshot : ResourceGrantSnapshot} {policy : HubResourcePolicy}
    (h : HubResourcePolicy.compile vendor snapshot = .ok policy) :
    List.Forall₂ (fun rule hub => HubRule.compile vendor rule = .ok hub)
      snapshot.rules policy.rules := by
  simp only [HubResourcePolicy.compile, bind_eq_ok] at h
  obtain ⟨rules, hrules, h⟩ := h
  obtain rfl := Except.ok.inj h
  exact mapM_eq_ok_iff.mp hrules

def ResourceGrantRule.Allows (vendor : Vendor) (rule : ResourceGrantRule) (user : Principal)
    (capability project : Str) : Prop :=
  ∃ compiled, CompiledRule.compile vendor rule = .ok compiled ∧
    compiled.selector.matchesUser user = true ∧
      ResourceGrantRule.HasPattern vendor rule.capabilities capability ∧
        (rule.projects = [] ∨ "*".toList ∈ rule.projects ∨ project ∈ rule.projects)

theorem allowsPrincipal_iff {snapshot : ResourceGrantSnapshot} {policy : ResourcePolicy}
    (h : ResourcePolicy.compile vendor snapshot = .ok policy) (user : Principal)
    (capability project : Str) :
    policy.allowsPrincipal user capability project = true ↔
      ∃ rule ∈ snapshot.rules, rule.Allows vendor user capability project := by
  rw [ResourcePolicy.allowsPrincipal, List.any_eq_true]
  refine exists_mem_forall₂ (resourcePolicy_eq_ok h) fun rule compiled hcompiled => ?_
  obtain ⟨-, hcapabilities, hprojects⟩ := compiledRule_eq_ok hcompiled
  have hcovers := hasPattern_iff hcapabilities capability
  simp only [Bool.and_eq_true, List.any_eq_true, hcovers, hprojects, Bool.or_eq_true,
    List.isEmpty_iff, beq_iff_eq, ResourceGrantRule.Allows, hcompiled, Except.ok.injEq,
    exists_eq_left', and_assoc]
  have hlisted : (∃ p ∈ rule.projects, p = "*".toList ∨ p = project) ↔
      "*".toList ∈ rule.projects ∨ project ∈ rule.projects := by
    simp [and_or_left, exists_or]
  rw [hlisted]

namespace Discovered

def selectorOf : Option Str → HubProjectSelector
  | none => .all
  | some id => .project id

theorem selectorOf_injective : Function.Injective selectorOf := by
  intro a b h
  cases a <;> cases b <;> simp_all [selectorOf]

structure Orderly (found : Discovered) : Prop where
  nodup : found.seen.Nodup
  selectors : found.selectors = found.seen.map selectorOf

theorem Orderly.empty : Orderly .empty := ⟨List.nodup_nil, rfl⟩

theorem Orderly.add {found : Discovered} (h : found.Orderly) (key : Option Str) :
    (found.add key).Orderly := by
  unfold Discovered.add
  split_ifs with hseen
  · exact h
  · have hnew : key ∉ found.seen := by simpa using hseen
    refine ⟨?_, ?_⟩
    · exact List.nodup_append.mpr ⟨h.nodup, List.nodup_singleton key, by
        rintro a ha b hb rfl
        exact hnew (List.mem_singleton.mp hb ▸ ha)⟩
    · cases key <;> simp [h.selectors, selectorOf]

theorem mem_seen_add {found : Discovered} {key key' : Option Str} :
    key' ∈ (found.add key).seen ↔ key' ∈ found.seen ∨ key' = key := by
  unfold Discovered.add
  split_ifs with hseen
  · have hmem : key ∈ found.seen := by simpa using hseen
    constructor
    · exact Or.inl
    · rintro (h | rfl)
      · exact h
      · exact hmem
  · simp

theorem Orderly.addAll {found : Discovered} (h : found.Orderly) (projects : List Str) :
    (projects.foldl (fun found project => found.add (projectKey project)) found).Orderly := by
  induction projects generalizing found with
  | nil => exact h
  | cons project rest ih => exact ih (h.add _)

theorem mem_seen_addAll {found : Discovered} {projects : List Str} {key : Option Str} :
    key ∈ (projects.foldl (fun found project => found.add (projectKey project)) found).seen ↔
      key ∈ found.seen ∨ ∃ project ∈ projects, projectKey project = key := by
  induction projects generalizing found with
  | nil => simp
  | cons project rest ih =>
    rw [List.foldl_cons, ih, mem_seen_add]
    simp only [List.mem_cons, exists_eq_or_imp, or_assoc]
    rw [eq_comm (a := key)]

end Discovered

def HubRule.Names (rule : HubRule) (key : Option Str) : Prop :=
  (rule.projects = [] ∧ key = none) ∨ ∃ project ∈ rule.projects, projectKey project = key

theorem HubRule.orderly_discover {found : Discovered} (rule : HubRule) (h : found.Orderly) :
    (rule.discover found).Orderly := by
  unfold HubRule.discover
  refine Discovered.Orderly.addAll ?_ _
  split_ifs
  · exact h.add none
  · exact h

theorem HubRule.mem_seen_discover {found : Discovered} {rule : HubRule} {key : Option Str} :
    key ∈ (rule.discover found).seen ↔ key ∈ found.seen ∨ rule.Names key := by
  unfold HubRule.discover HubRule.Names
  rw [Discovered.mem_seen_addAll]
  cases hprojects : rule.projects with
  | nil => simp [Discovered.mem_seen_add]
  | cons project rest => simp

theorem discovered_rules (user : Option Principal) (rules : List HubRule) {found : Discovered}
    (h : found.Orderly) :
    (rules.foldl (fun found rule => if rule.discovers user then rule.discover found else found)
        found).Orderly ∧
      ∀ key, key ∈ (rules.foldl (fun found rule =>
          if rule.discovers user then rule.discover found else found) found).seen ↔
        key ∈ found.seen ∨ ∃ rule ∈ rules, rule.discovers user = true ∧ rule.Names key := by
  induction rules generalizing found with
  | nil => simpa using h
  | cons rule rest ih =>
    rw [List.foldl_cons]
    by_cases hrule : rule.discovers user = true
    · rw [if_pos hrule]
      obtain ⟨horderly, hseen⟩ := ih (rule.orderly_discover h)
      refine ⟨horderly, fun key => ?_⟩
      rw [hseen, HubRule.mem_seen_discover]
      simp [hrule, or_assoc]
    · rw [if_neg hrule]
      obtain ⟨horderly, hseen⟩ := ih h
      refine ⟨horderly, fun key => ?_⟩
      rw [hseen]
      simp [hrule]

theorem selectors_nodup (policy : HubResourcePolicy) (identity : HubIdentity) :
    (policy.selectors identity).Nodup := by
  obtain ⟨horderly, -⟩ := discovered_rules identity.principal policy.rules Discovered.Orderly.empty
  rw [HubResourcePolicy.selectors, horderly.selectors]
  exact horderly.nodup.map Discovered.selectorOf_injective

theorem mem_selectors_iff {policy : HubResourcePolicy} {identity : HubIdentity} {key : Option Str} :
    Discovered.selectorOf key ∈ policy.selectors identity ↔
      ∃ rule ∈ policy.rules, rule.discovers identity.principal = true ∧ rule.Names key := by
  obtain ⟨horderly, hseen⟩ := discovered_rules identity.principal policy.rules Discovered.Orderly.empty
  rw [HubResourcePolicy.selectors, horderly.selectors,
    List.mem_map_of_injective Discovered.selectorOf_injective, hseen]
  simp [Discovered.empty]

def HubAccessResolution.Offers (resolution : HubAccessResolution) (default project route : Str) : Prop :=
  ∃ rule ∈ resolution.catalogRules, rule.admits project = true ∧ rule.selected default = route

theorem catalogRoute_loop {project default : Str} {rules : List HubCatalogRoute} {found : Option Str}
    {result : Option Str} :
    rules.foldlM (HubCatalogRoute.select project default) found = .ok result ↔
      (∀ rule ∈ rules, rule.admits project = true → result = some (rule.selected default)) ∧
        (found = result ∨ (found = none ∧ ∃ rule ∈ rules, rule.admits project = true)) := by
  induction rules generalizing found with
  | nil => simp [pure, Except.pure]
  | cons rule rest ih =>
    simp only [foldlM_cons_eq_ok, ih, HubCatalogRoute.select]
    by_cases hadmits : rule.admits project = true
    · cases found with
      | none =>
        simp only [hadmits, if_true, Option.any_none, Bool.false_eq_true, if_false,
          Except.ok.injEq, exists_eq_left']
        constructor
        · rintro ⟨hrest, hsame | hnone⟩
          · exact ⟨by simpa [hadmits, hsame] using hrest, Or.inr ⟨trivial, rule, by simp, hadmits⟩⟩
          · cases hnone.1
        · rintro ⟨hall, -⟩
          exact ⟨fun r hr => hall r (List.mem_cons_of_mem _ hr),
            Or.inl (hall rule List.mem_cons_self hadmits).symm⟩
      | some route =>
        simp only [hadmits, if_true, Option.any_some, bne_iff_ne, ne_eq, ite_not]
        split_ifs with hroute
        · simp only [Except.ok.injEq, exists_eq_left']
          subst hroute
          constructor
          · rintro ⟨hrest, hsame | hnone⟩
            · exact ⟨by simpa [hadmits, hsame] using hrest, Or.inl hsame⟩
            · cases hnone.1
          · rintro ⟨hall, hsame | hnone⟩
            · exact ⟨fun r hr => hall r (List.mem_cons_of_mem _ hr), Or.inl hsame⟩
            · cases hnone.1
        · constructor
          · rintro ⟨_, herror, -⟩
            cases herror
          · rintro ⟨hall, hsame | hnone⟩
            · have hother := hall rule List.mem_cons_self hadmits
              rw [← hsame, Option.some.injEq] at hother
              exact absurd hother hroute
            · cases hnone.1
    · simp only [hadmits, Bool.false_eq_true, if_false, Except.ok.injEq, exists_eq_left']
      simp [hadmits]

theorem catalogRoute_eq_none_iff {resolution : HubAccessResolution} {project default : Str} :
    resolution.catalogRoute project default = .ok none ↔
      ∀ rule ∈ resolution.catalogRules, rule.admits project = false := by
  rw [HubAccessResolution.catalogRoute, catalogRoute_loop]
  constructor
  · rintro ⟨hall, -⟩ rule hrule
    by_contra hadmits
    cases hall rule hrule (by simpa using hadmits)
  · intro hnone
    refine ⟨fun rule hrule hadmits => ?_, Or.inl rfl⟩
    rw [hnone rule hrule] at hadmits
    cases hadmits

theorem catalogRoute_eq_some_iff {resolution : HubAccessResolution} {project default route : Str} :
    resolution.catalogRoute project default = .ok (some route) ↔
      resolution.Offers default project route ∧
        ∀ other, resolution.Offers default project other → other = route := by
  rw [HubAccessResolution.catalogRoute, catalogRoute_loop]
  constructor
  · rintro ⟨hall, hfound | ⟨-, rule, hrule, hadmits⟩⟩
    · cases hfound
    · refine ⟨⟨rule, hrule, hadmits, (Option.some.inj (hall rule hrule hadmits)).symm⟩, ?_⟩
      rintro other ⟨rule', hrule', hadmits', rfl⟩
      exact (Option.some.inj (hall rule' hrule' hadmits')).symm
  · rintro ⟨⟨rule, hrule, hadmits, rfl⟩, hunique⟩
    refine ⟨fun rule' hrule' hadmits' => ?_, Or.inr ⟨rfl, rule, hrule, hadmits⟩⟩
    rw [hunique _ ⟨rule', hrule', hadmits', rfl⟩]

theorem mem_catalogRoutes_iff {resolution : HubAccessResolution} {default route : Str} :
    route ∈ resolution.catalogRoutes default ↔ ∃ project, resolution.Offers default project route := by
  rw [HubAccessResolution.catalogRoutes, ← SortedSet.mem_def, SortedSet.mem_extend]
  simp only [SortedSet.not_mem_empty, or_false, List.mem_map]
  constructor
  · rintro ⟨rule, hrule, rfl⟩
    cases hprojects : rule.projects with
    | nil => exact ⟨[], rule, hrule, by simp [HubCatalogRoute.admits, hprojects], rfl⟩
    | cons project rest =>
      exact ⟨project, rule, hrule, by simp [HubCatalogRoute.admits, hprojects], rfl⟩
  · rintro ⟨project, rule, hrule, -, rfl⟩
    exact ⟨rule, hrule, rfl⟩

def HubResourcePolicy.resolution (policy : HubResourcePolicy) (identity : HubIdentity)
    (snapshot : ResourceGrantSnapshot) : HubAccessResolution := ⟨policy.catalogRoutes identity snapshot⟩

def HubResourcePolicy.Named (policy : HubResourcePolicy) (identity : HubIdentity) (project : Str) : Prop :=
  .all ∈ policy.selectors identity ∨ .project project ∈ policy.selectors identity

theorem HubRule.names_iff {rule : HubRule} {project : Str} :
    (rule.Names none ∨ rule.Names (some project)) ↔
      rule.projects = [] ∨ ∃ p ∈ rule.projects, trim p = "*".toList ∨ trim p = project := by
  have hkey : ∀ p : Str, (projectKey p = none ∨ projectKey p = some project) ↔
      trim p = "*".toList ∨ trim p = project := by
    intro p
    unfold projectKey
    by_cases hstar : trim p = "*".toList
    · simp [hstar]
    · rw [if_pos hstar, Option.some.injEq]
      simp only [reduceCtorEq, false_or, hstar]
  simp only [HubRule.Names, and_true, reduceCtorEq, and_false, false_or, or_assoc, ← hkey, and_or_left,
    exists_or]

theorem mem_catalogRoutes_of_compile {policy : HubResourcePolicy} {snapshot : ResourceGrantSnapshot}
    (h : HubResourcePolicy.compile vendor snapshot = .ok policy) (identity : HubIdentity)
    (P : HubRule → Prop) {Q : HubCatalogRoute → Prop}
    (hPQ : ∀ rule : HubRule, ∀ route, Q ⟨route, rule.projects.map trim⟩ ↔ P rule) :
    (∃ rule ∈ policy.catalogRoutes identity snapshot, Q rule) ↔
      ∃ rule ∈ policy.rules, rule.discovers identity.principal = true ∧ P rule := by
  have hlength : policy.rules.length = snapshot.rules.length := (hubPolicy_eq_ok h).length_eq.symm
  unfold HubResourcePolicy.catalogRoutes
  constructor
  · rintro ⟨route, hroute, hQ⟩
    obtain ⟨⟨rule, stored⟩, hpair, hsome⟩ := List.mem_filterMap.mp hroute
    split_ifs at hsome with hdiscovers
    obtain rfl := Option.some.inj hsome
    exact ⟨rule, (List.of_mem_zip hpair).1, hdiscovers, (hPQ rule _).mp hQ⟩
  · rintro ⟨rule, hrule, hdiscovers, hP⟩
    obtain ⟨index, hindex, rfl⟩ := List.getElem_of_mem hrule
    have hstored : index < snapshot.rules.length := hlength ▸ hindex
    refine ⟨⟨trim snapshot.rules[index].s3Route, policy.rules[index].projects.map trim⟩,
      List.mem_filterMap.mpr ⟨(policy.rules[index], snapshot.rules[index]), ?_, ?_⟩, (hPQ _ _).mpr hP⟩
    · rw [← List.getElem_zip (h := by simpa using ⟨hindex, hstored⟩)]
      exact List.getElem_mem _
    · rw [if_pos hdiscovers]

theorem named_iff {policy : HubResourcePolicy} {snapshot : ResourceGrantSnapshot}
    (h : HubResourcePolicy.compile vendor snapshot = .ok policy) (identity : HubIdentity)
    (default project : Str) :
    policy.Named identity project ↔
      (policy.resolution identity snapshot).catalogRoute project default ≠ .ok none := by
  have hadmitted := mem_catalogRoutes_of_compile h identity
    (fun rule => rule.Names none ∨ rule.Names (some project))
    (Q := fun rule => rule.admits project = true) fun rule route => by
      rw [HubRule.names_iff]
      simp [HubCatalogRoute.admits]
  have hnamed : policy.Named identity project ↔ ∃ rule ∈ policy.rules,
      rule.discovers identity.principal = true ∧ (rule.Names none ∨ rule.Names (some project)) := by
    unfold HubResourcePolicy.Named
    rw [← Discovered.selectorOf, ← Discovered.selectorOf, mem_selectors_iff, mem_selectors_iff]
    simp only [and_or_left, exists_or]
  rw [hnamed, ← hadmitted, ne_eq, catalogRoute_eq_none_iff]
  simp [HubResourcePolicy.resolution]

structure EnginesAgree (vendor : Vendor) (snapshot : ResourceGrantSnapshot) (resource : ResourcePolicy)
    (hub : HubResourcePolicy) : Prop where
  /-- The two selectors of a stored rule match the same callers. -/
  selectors : ∀ user, List.Forall₂ (fun (rule : CompiledRule) (rule' : HubRule) =>
    rule.selector.matchesUser user = rule'.selector.matchesUser (some user)) resource.rules hub.rules
  /-- The glob policy allows what a single stored rule allows. -/
  oneRule : ∀ user capability project, resource.allowsPrincipal user capability project = true ↔
    ∃ rule ∈ snapshot.rules, rule.SelectsUser user ∧
      ResourceGrantRule.HasPattern vendor rule.capabilities capability ∧
        (rule.projects = [] ∨ "*".toList ∈ rule.projects ∨ project ∈ rule.projects)
  /-- More rules allow more. -/
  monotone : ∀ snapshot' resource', ResourcePolicy.compile vendor snapshot' = .ok resource' →
    snapshot.rules ⊆ snapshot'.rules → ∀ user capability project,
      resource.allowsPrincipal user capability project = true →
        resource'.allowsPrincipal user capability project = true
  /-- Discovery names the projects that the catalog does not pass over. -/
  named : ∀ identity default project, hub.Named identity project ↔
    (hub.resolution identity snapshot).catalogRoute project default ≠ .ok none
  distinct : ∀ identity, (hub.selectors identity).Nodup
  /-- The catalog lists the routes that some project is offered. -/
  offered : ∀ identity default route, route ∈ (hub.resolution identity snapshot).catalogRoutes default ↔
    ∃ project, (hub.resolution identity snapshot).Offers default project route
  /-- Where no project is in conflict, these are the routes that projects have. -/
  routes : ∀ identity default, (∀ project, ∃ found,
      (hub.resolution identity snapshot).catalogRoute project default = .ok found) →
    ∀ route, route ∈ (hub.resolution identity snapshot).catalogRoutes default ↔
      ∃ project, hub.Named identity project ∧
        (hub.resolution identity snapshot).catalogRoute project default = .ok (some route)

theorem policy_engines_agree (vendor : Vendor) (hvendor : LiteralGlobs vendor)
    (snapshot : ResourceGrantSnapshot) (resource : ResourcePolicy) (hub : HubResourcePolicy)
    (hresource : ResourcePolicy.compile vendor snapshot = .ok resource)
    (hhub : HubResourcePolicy.compile vendor snapshot = .ok hub)
    (hplain : ∀ rule ∈ snapshot.rules, PlainText rule.principal) :
    EnginesAgree vendor snapshot resource hub := by
  have hrules := resourcePolicy_eq_ok hresource
  have hmatches : ∀ rule ∈ snapshot.rules, ∀ compiled,
      CompiledRule.compile vendor rule = .ok compiled → ∀ user,
        (compiled.selector.matchesUser user = true ↔ rule.SelectsUser user) :=
    fun rule hrule compiled hcompiled user =>
      compiled_matches_iff hvendor (hplain rule hrule) (compiledRule_eq_ok hcompiled).1 user
  have hallows : ∀ user capability project, resource.allowsPrincipal user capability project = true ↔
      ∃ rule ∈ snapshot.rules, rule.Allows vendor user capability project :=
    allowsPrincipal_iff hresource
  refine ⟨fun user => ?_, fun user capability project => ?_, fun snapshot' resource' hresource' hsub
    user capability project hallowed => ?_, named_iff hhub, selectors_nodup hub,
    fun identity default route => mem_catalogRoutes_iff, fun identity default hfree route => ?_⟩
  · rw [List.forall₂_iff_get] at hrules ⊢
    obtain ⟨hlength, hrules⟩ := hrules
    obtain ⟨hlength', hhubs⟩ := List.forall₂_iff_get.mp (hubPolicy_eq_ok hhub)
    refine ⟨hlength.symm.trans hlength', fun index hindex hindex' => ?_⟩
    have hstored : index < snapshot.rules.length := hlength ▸ hindex
    rw [Bool.eq_iff_iff, hmatches _ (List.get_mem _ _) _ (hrules index hstored hindex) user,
      selector_matches_user_iff (hubRule_eq_ok (hhubs index hstored hindex')).1 user]
  · rw [hallows]
    refine exists_congr fun rule => and_congr_right fun hrule => ?_
    obtain ⟨compiled, hcompiled⟩ := exists_ok_of_mem (mapM_eq_ok_iff.mpr hrules) hrule
    simp only [ResourceGrantRule.Allows, hcompiled, Except.ok.injEq, exists_eq_left',
      hmatches rule hrule compiled hcompiled]
  · rw [hallows] at hallowed
    rw [allowsPrincipal_iff hresource']
    obtain ⟨rule, hrule, hallowed⟩ := hallowed
    exact ⟨rule, hsub hrule, hallowed⟩
  · rw [mem_catalogRoutes_iff]
    refine exists_congr fun project => ?_
    rw [named_iff hhub identity default]
    constructor
    · intro hoffers
      obtain ⟨found, hfound⟩ := hfree project
      have hsome : found = some route := by
        obtain ⟨rule, hrule, hadmits, rfl⟩ := hoffers
        exact (catalogRoute_loop.mp hfound).1 rule hrule hadmits
      rw [hfound, hsome]
      exact ⟨by simp, rfl⟩
    · rintro ⟨-, hroute⟩
      exact (catalogRoute_eq_some_iff.mp hroute).1

theorem Sample.literalGlobs : LiteralGlobs Sample.crates := by
  intro value compiled hplain hglob text
  have hstar : value ≠ "*".toList := by
    rintro rfl
    exact hplain '*' (by decide) (by decide)
  simp only [Sample.crates, Sample.glob, if_neg hstar, Option.some.injEq] at hglob
  rw [← hglob, beq_iff_eq]

namespace Sample

def hubRule (kind principal route project : Str) : ResourceGrantRule where
  accessKind := kind
  principal := principal
  s3Route := route
  capabilities := ["hub".toList]
  projects := [project]
  s3Operations := []
  s3Prefixes := []

def westProject : Str := "01ARZ3NDEKTSV4RRFFQ69G5FAW".toList

/-- Grants to a user, to a team and to a qualified subject, on two routes. -/
def hubRules : List ResourceGrantRule :=
  [hubRule "user".toList "carol".toList "east".toList "01ARZ3NDEKTSV4RRFFQ69G5FAV".toList,
    hubRule "team".toList "ops".toList "west".toList westProject,
    hubRule "subject".toList "local|carol".toList "west".toList westProject]

def carol : StorageIdentity :=
  .localUser
    { username := "carol".toList, subject := "carol".toList, organization := "graphit".toList
      teams := ["ops".toList], subject_fits := by decide }

end Sample

/-- `carol` is selected by all three grants, finds each project once and both routes. -/
theorem policy_engines_agree_hubRules :
    ∃ resource hub, ResourcePolicy.compile Sample.crates ⟨Sample.hubRules⟩ = .ok resource ∧
      HubResourcePolicy.compile Sample.crates ⟨Sample.hubRules⟩ = .ok hub ∧
        EnginesAgree Sample.crates ⟨Sample.hubRules⟩ resource hub ∧
        hub.rules.map (·.selector.matchesUser (some Sample.carol.principal)) = [true, true, true] ∧
        (hub.selectors (.authenticated Sample.carol)).length = 2 ∧
        resource.allowsPrincipal Sample.carol.principal "hub".toList Sample.westProject = true ∧
        (hub.resolution (.authenticated Sample.carol) ⟨Sample.hubRules⟩).catalogRoutes [] =
          ["east".toList, "west".toList] := by
  have hplain : ∀ rule ∈ Sample.hubRules, PlainText rule.principal := by
    simp only [Sample.hubRules, List.forall_mem_cons]
    exact ⟨plainText_of_all (by decide), plainText_of_all (by decide), plainText_of_all (by decide),
      List.forall_mem_nil _⟩
  obtain ⟨resource, hresource⟩ : ∃ resource,
      ResourcePolicy.compile Sample.crates ⟨Sample.hubRules⟩ = .ok resource :=
    exists_ok_of_isOk (by decide +kernel)
  obtain ⟨hub, hhub⟩ : ∃ hub, HubResourcePolicy.compile Sample.crates ⟨Sample.hubRules⟩ = .ok hub :=
    exists_ok_of_isOk (by decide +kernel)
  have hallowed : ((ResourcePolicy.compile Sample.crates ⟨Sample.hubRules⟩).toOption.map
      (·.allowsPrincipal Sample.carol.principal "hub".toList Sample.westProject)) = some true := by
    decide +kernel
  have hfound : ((HubResourcePolicy.compile Sample.crates ⟨Sample.hubRules⟩).toOption.map fun hub =>
      (hub.rules.map (·.selector.matchesUser (some Sample.carol.principal)),
        (hub.selectors (.authenticated Sample.carol)).length,
        (hub.resolution (.authenticated Sample.carol) ⟨Sample.hubRules⟩).catalogRoutes [])) =
      some ([true, true, true], 2, ["east".toList, "west".toList]) := by
    decide +kernel
  rw [hresource] at hallowed
  rw [hhub] at hfound
  obtain ⟨hmatches, hfound⟩ := Prod.mk.inj (Option.some.inj hfound)
  obtain ⟨hlength, hroutes⟩ := Prod.mk.inj hfound
  exact ⟨resource, hub, hresource, hhub, policy_engines_agree Sample.crates Sample.literalGlobs
    ⟨Sample.hubRules⟩ resource hub hresource hhub hplain, hmatches, hlength,
    Option.some.inj hallowed, hroutes⟩

theorem append_bar_inj {issuer subject issuer' subject' : Str} (hsubject : '|' ∉ subject)
    (hsubject' : '|' ∉ subject')
    (h : issuer ++ "|".toList ++ subject = issuer' ++ "|".toList ++ subject') :
    issuer = issuer' ∧ subject = subject' := by
  have hbar : "|".toList = ['|'] := rfl
  rw [hbar, List.append_assoc, List.append_assoc, List.append_eq_append_iff] at h
  rcases h with ⟨middle, hissuer, hrest⟩ | ⟨middle, hissuer, hrest⟩
  · cases middle with
    | nil => exact ⟨by simpa using hissuer.symm, by simpa using hrest⟩
    | cons c middle =>
      -- The second bar would stand in the first subject.
      refine absurd ?_ hsubject
      simp only [List.cons_append, List.nil_append, List.cons.injEq] at hrest
      rw [hrest.2]
      simp
  · cases middle with
    | nil => exact ⟨by simpa using hissuer, by simpa using hrest.symm⟩
    | cons c middle =>
      refine absurd ?_ hsubject'
      simp only [List.cons_append, List.nil_append, List.cons.injEq] at hrest
      rw [hrest.2]
      simp

section Qualified

variable {rule : ResourceGrantRule} {issuer subject : Str}

structure ResourceGrantRule.Qualified (rule : ResourceGrantRule) (issuer subject : Str) : Prop where
  kind : toAsciiLowercase (trim rule.accessKind) = "subject".toList
  principal : trim rule.principal = issuer ++ "|".toList ++ subject

/-- The identities that a qualified principal spells: its text is their subject, or their issuer and
subject with a bar between. -/
def Spelled (issuer subject : Str) (user : Principal) : Prop :=
  issuer ++ "|".toList ++ subject = user.subject ∨
    issuer ++ "|".toList ++ subject = user.issuer ++ "|".toList ++ user.subject

theorem ResourceGrantRule.Qualified.selects_iff (h : rule.Qualified issuer subject) (user : Principal) :
    rule.SelectsUser user ↔ Spelled issuer subject user := by
  unfold ResourceGrantRule.SelectsUser
  simp only [h.kind, h.principal]
  constructor
  · rintro (hkind | hkind | ⟨hkind, -⟩ | ⟨hkind, -⟩ | ⟨hkind, -⟩ | ⟨-, hspelled⟩)
    · exact absurd hkind (by decide)
    · exact absurd hkind (by decide)
    · exact absurd hkind (by decide)
    · exact absurd hkind (by decide)
    · exact absurd hkind (by decide)
    · exact hspelled
  · exact fun hspelled => Or.inr (Or.inr (Or.inr (Or.inr (Or.inr ⟨trivial, hspelled⟩))))

theorem spelled_iff_of_no_bar (hsubject : '|' ∉ subject) {user : Principal} (huser : '|' ∉ user.subject) :
    Spelled issuer subject user ↔ user.issuer = issuer ∧ user.subject = subject := by
  constructor
  · rintro (hbare | hqualified)
    · refine absurd ?_ huser
      rw [← hbare]
      simp
    · obtain ⟨hissuer, hsame⟩ := append_bar_inj hsubject huser hqualified
      exact ⟨hissuer.symm, hsame.symm⟩
  · rintro ⟨rfl, rfl⟩
    exact Or.inr rfl

theorem forall₂_middle {α β : Type} {f : α → Except ResourcePolicyError β} {before after : List α}
    {x : α} {ys zs : List β} (h : List.Forall₂ (fun a b => f a = .ok b) (before ++ x :: after) ys)
    (h' : List.Forall₂ (fun a b => f a = .ok b) (before ++ after) zs) :
    ∃ left y right, f x = .ok y ∧ ys = left ++ y :: right ∧ zs = left ++ right ∧
      left.length = before.length := by
  induction before generalizing ys zs with
  | nil =>
    cases h with
    | cons hy hrest =>
      have hsame := (mapM_eq_ok_iff.mpr hrest).symm.trans (mapM_eq_ok_iff.mpr h')
      exact ⟨[], _, _, hy, rfl, (Except.ok.inj hsame).symm, rfl⟩
  | cons a before ih =>
    cases h with
    | cons ha hrest =>
      cases h' with
      | cons ha' hrest' =>
        obtain ⟨left, y, right, hy, rfl, rfl, hlength⟩ := ih hrest hrest'
        obtain rfl := Except.ok.inj (ha.symm.trans ha')
        exact ⟨_ :: left, y, right, hy, rfl, rfl, by simp [hlength]⟩

/-- A rule makes no difference to a caller: it is not among the rules of a storage decision, and what
discovery, inference and the project policy decide is what they decide without it. -/
structure Ignored (vendor : Vendor) (before : List ResourceGrantRule) (rule : ResourceGrantRule)
    (after : List ResourceGrantRule) (user : Principal) : Prop where
  storage : ∀ policy, HubResourcePolicy.compile vendor ⟨before ++ rule :: after⟩ = .ok policy →
    ∀ identity : StorageIdentity, identity.principal = user → ∀ project,
      ∀ found ∈ policy.storageRules identity project, found.index.val ≠ before.length
  selectors : ∀ policy policy', HubResourcePolicy.compile vendor ⟨before ++ rule :: after⟩ = .ok policy →
    HubResourcePolicy.compile vendor ⟨before ++ after⟩ = .ok policy' →
      ∀ identity : HubIdentity, identity.principal = some user →
        policy.selectors identity = policy'.selectors identity
  inference : ∀ policy policy', HubResourcePolicy.compile vendor ⟨before ++ rule :: after⟩ = .ok policy →
    HubResourcePolicy.compile vendor ⟨before ++ after⟩ = .ok policy' →
      ∀ identity : EmbeddingIdentity, identity.principal = some user → ∀ capability,
        policy.allowsInference identity capability = policy'.allowsInference identity capability
  presence : ∀ policy policy', ResourcePolicy.compile vendor ⟨before ++ rule :: after⟩ = .ok policy →
    ResourcePolicy.compile vendor ⟨before ++ after⟩ = .ok policy' → ∀ capability project,
      policy.allowsPrincipal user capability project = policy'.allowsPrincipal user capability project ∧
        policy.allowsAnyPrincipal user capability = policy'.allowsAnyPrincipal user capability

theorem ignored_of_not_selects (hvendor : LiteralGlobs vendor) (hplain : PlainText rule.principal)
    (before after : List ResourceGrantRule) {user : Principal} (hselects : ¬ rule.SelectsUser user) :
    Ignored vendor before rule after user := by
  have hhub : ∀ hub : HubRule, HubRule.compile vendor rule = .ok hub →
      hub.selector.matchesUser (some user) = false := fun hub hcompiled => by
    have hmatches := selector_matches_user_iff (hubRule_eq_ok hcompiled).1 user
    simpa [hselects] using hmatches
  have hglob : ∀ compiled : CompiledRule, CompiledRule.compile vendor rule = .ok compiled →
      compiled.selector.matchesUser user = false := fun compiled hcompiled => by
    have hmatches := compiled_matches_iff hvendor hplain (compiledRule_eq_ok hcompiled).1 user
    simpa [hselects] using hmatches
  refine ⟨?_, ?_, ?_, ?_⟩
  · rintro policy hpolicy identity rfl project found hfound hindex
    obtain ⟨hlength, hrules⟩ := List.forall₂_iff_get.mp (hubPolicy_eq_ok hpolicy)
    obtain ⟨index, -, hsome⟩ := List.mem_filterMap.mp hfound
    simp only at hsome
    split_ifs at hsome with hskip
    obtain rfl := Option.some.inj hsome
    have hcompiled := hrules index.val (Nat.lt_of_lt_of_eq index.isLt hlength.symm) index.isLt
    simp only at hindex
    simp only [List.get_eq_getElem, hindex, List.getElem_append_right (le_refl _), Nat.sub_self,
      List.getElem_cons_zero] at hcompiled
    have hmatches := hhub _ hcompiled
    simp only [Bool.or_eq_true, Bool.not_eq_true', not_or, Bool.not_eq_false] at hskip
    have hselected := hskip.1
    simp only [List.get_eq_getElem, hindex] at hselected
    rw [hmatches] at hselected
    cases hselected
  · intro policy policy' hpolicy hpolicy' identity hidentity
    obtain ⟨left, hub, right, hcompiled, hrules, hrules', -⟩ :=
      forall₂_middle (hubPolicy_eq_ok hpolicy) (hubPolicy_eq_ok hpolicy')
    have hdiscovers : hub.discovers (some user) = false := by
      rw [HubRule.discovers, hhub hub hcompiled, Bool.false_and]
    simp [HubResourcePolicy.selectors, hrules, hrules', hidentity, List.foldl_append, hdiscovers]
  · intro policy policy' hpolicy hpolicy' identity hidentity capability
    obtain ⟨left, hub, right, hcompiled, hrules, hrules', -⟩ :=
      forall₂_middle (hubPolicy_eq_ok hpolicy) (hubPolicy_eq_ok hpolicy')
    simp [HubResourcePolicy.allowsInference, hrules, hrules', hidentity, hhub hub hcompiled]
  · intro policy policy' hpolicy hpolicy' capability project
    obtain ⟨left, compiled, right, hcompiled, hrules, hrules', -⟩ :=
      forall₂_middle (resourcePolicy_eq_ok hpolicy) (resourcePolicy_eq_ok hpolicy')
    simp [ResourcePolicy.allowsPrincipal, ResourcePolicy.allowsAnyPrincipal, hrules, hrules',
      hglob compiled hcompiled]

/-- A grant to a subject of an issuer selects the identities that its principal spells, under both
engines, and makes no difference to any other. Without a bar in the subjects it spells one. -/
theorem qualified_subject_selects (vendor : Vendor) (hvendor : LiteralGlobs vendor)
    (rule : ResourceGrantRule) (issuer subject : Str) (hrule : rule.Qualified issuer subject)
    (hplain : PlainText rule.principal) (user : Principal) :
    (∀ hub, HubRule.compile vendor rule = .ok hub →
      (hub.selector.matchesUser (some user) = true ↔ Spelled issuer subject user)) ∧
    (∀ compiled, CompiledRule.compile vendor rule = .ok compiled →
      (compiled.selector.matchesUser user = true ↔ Spelled issuer subject user)) ∧
    (¬ Spelled issuer subject user → ∀ before after, Ignored vendor before rule after user) ∧
    ('|' ∉ subject → '|' ∉ user.subject →
      (Spelled issuer subject user ↔ user.issuer = issuer ∧ user.subject = subject)) := by
  have hselects := hrule.selects_iff user
  refine ⟨fun hub hhub => ?_, fun compiled hcompiled => ?_, fun hother before after => ?_,
    fun hsubject huser => spelled_iff_of_no_bar hsubject huser⟩
  · exact (selector_matches_user_iff (hubRule_eq_ok hhub).1 user).trans hselects
  · exact (compiled_matches_iff hvendor hplain (compiledRule_eq_ok hcompiled).1 user).trans hselects
  · exact ignored_of_not_selects hvendor hplain before after fun h => hother (hselects.mp h)

end Qualified

namespace Sample

def idpAlice : ResourceGrantRule where
  accessKind := "subject".toList
  principal := "idp|alice".toList
  s3Route := []
  capabilities := ["*".toList]
  projects := []
  s3Operations := []
  s3Prefixes := []

theorem plainText_idpAlice : PlainText idpAlice.principal := plainText_of_all (by decide)

def borrowed : StorageIdentity :=
  .localUser
    { username := "mallory".toList, subject := "idp|alice".toList, organization := "graphit".toList
      teams := [], subject_fits := by decide }

end Sample

/-- Between two other grants, the grant makes no difference to a LOCAL user with the subject `alice`. -/
theorem qualified_subject_selects_alice :
    Ignored Sample.crates [Sample.readWrite] Sample.idpAlice Sample.hubRules Sample.alice.principal ∧
      Spelled "idp".toList "alice".toList Sample.borrowed.principal := by
  have hselects := qualified_subject_selects Sample.crates Sample.literalGlobs Sample.idpAlice "idp".toList
    "alice".toList ⟨by decide, by decide⟩ Sample.plainText_idpAlice Sample.alice.principal
  refine ⟨hselects.2.2.1 ?_ _ _, Or.inl rfl⟩
  rw [hselects.2.2.2 (by decide) (by decide)]
  decide

/-- The grant to `alice` of the issuer `idp` is taken for one to the LOCAL user whose subject is
`idp|alice`: it counts in storage, discovery, inference and the project policy. -/
theorem borrowed_subject_matched :
    Sample.idpAlice.Qualified "idp".toList "alice".toList ∧ Sample.borrowed.issuer ≠ "idp".toList ∧
      ∃ hub resource, HubResourcePolicy.compile Sample.crates ⟨[Sample.idpAlice]⟩ = .ok hub ∧
        ResourcePolicy.compile Sample.crates ⟨[Sample.idpAlice]⟩ = .ok resource ∧
        (hub.storageRules Sample.borrowed none).length = 1 ∧
        hub.selectors (.authenticated Sample.borrowed) = [.all] ∧
        hub.allowsInference (.authenticated Sample.borrowed) "rerank".toList = true ∧
        resource.allowsPrincipal Sample.borrowed.principal "presence".toList "p".toList = true := by
  refine ⟨⟨by decide, by decide⟩, by decide, _, _, rfl, rfl, ?_, ?_, ?_, ?_⟩
  · rfl
  · rfl
  · rfl
  · rfl

end GraphitBroker
