import GraphitBroker.Proof.ScopeRoots

/-!
# What a storage decision covers

The loop of `evaluate` collects, for every operation, the prefixes of the rules that match the
caller and allow the operation.
-/

namespace GraphitBroker

open SepPath

variable {vendor : Vendor}

theorem intersect_cases {candidate root p : Str} (h : intersect candidate root = some p) :
    (Below '/' root candidate ∧ p = candidate) ∨ (Below '/' candidate root ∧ p = root) := by
  rw [intersect] at h
  split_ifs at h with hbelow habove
  · exact Or.inl ⟨atOrBelow_iff.mp hbelow, (Option.some.inj h).symm⟩
  · obtain ⟨rest, hrest⟩ := stripPrefix_any_slash.mp habove
    exact Or.inr ⟨Or.inr ⟨rest, hrest⟩, (Option.some.inj h).symm⟩

theorem below_of_intersect {candidate root p : Str} (h : intersect candidate root = some p) :
    Below '/' root p ∧ Below '/' candidate p := by
  rcases intersect_cases h with ⟨hbelow, rfl⟩ | ⟨hbelow, rfl⟩
  · exact ⟨hbelow, Below.refl _⟩
  · exact ⟨Below.refl _, hbelow⟩

theorem exists_intersect {candidate root key : Str} (hcandidate : Below '/' candidate key)
    (hroot : Below '/' root key) : ∃ p, intersect candidate root = some p ∧ Below '/' p key := by
  rw [intersect]
  split_ifs with hbelow habove
  · exact ⟨candidate, rfl, hcandidate⟩
  · exact ⟨root, rfl, hroot⟩
  · rcases hroot.comparable hcandidate with h | h
    · exact absurd (atOrBelow_iff.mpr h) hbelow
    · rcases h with rfl | hrest
      · exact absurd (atOrBelow_iff.mpr (Below.refl _)) hbelow
      · exact absurd (stripPrefix_any_slash.mpr hrest) habove

theorem safePath_of_render {template : Str} {identity : StorageIdentity} {project : Option Str}
    {rendered : Str} (h : render template identity project = .ok (some rendered)) :
    safePath rendered = true := by
  rw [render] at h
  split_ifs at h with hproject
  · cases h
  · simp only [ExceptList.bind_eq_ok] at h
    obtain ⟨first, _, second, _, third, _, fourth, _, h⟩ := h
    by_cases hsafe : safePath fourth = true
    · simp only [hsafe, Bool.not_true, Bool.false_eq_true, if_false] at h
      cases h
      exact hsafe
    · simp only [hsafe, Bool.not_false, if_true] at h
      cases h

namespace StoragePolicy

variable {identity : StorageIdentity} {project : Option Str} {roots : List Str}

def FromTemplate (identity : StorageIdentity) (project : Option Str) (roots : List Str)
    (template p : Str) : Prop :=
  ∃ candidate, render template identity project = .ok (some candidate) ∧
    ∃ root ∈ roots, intersect candidate root = some p

theorem mem_templatePrefixes {prefixes prefixes' : SortedSet Str} {template p : Str}
    (h : templatePrefixes identity project roots prefixes template = .ok prefixes') :
    p ∈ prefixes' ↔ p ∈ prefixes ∨ FromTemplate identity project roots template p := by
  rw [templatePrefixes, ExceptList.bind_eq_ok] at h
  obtain ⟨rendered, hrendered, h⟩ := h
  cases rendered with
  | none =>
    cases h
    have hnone : ¬ FromTemplate identity project roots template p := by
      rintro ⟨candidate, hcandidate, _⟩
      rw [hrendered] at hcandidate
      cases hcandidate
    simp [hnone]
  | some candidate =>
    cases h
    rw [SortedSet.mem_extend, List.mem_filterMap, or_comm]
    refine or_congr_right ?_
    constructor
    · rintro ⟨root, hroot, hp⟩
      exact ⟨candidate, hrendered, root, hroot, hp⟩
    · rintro ⟨candidate', hcandidate, root, hroot, hp⟩
      rw [hrendered] at hcandidate
      cases hcandidate
      exact ⟨root, hroot, hp⟩

variable {rule : StorageRule} {op : StorageOperation} {authority authority' : Authority}
  {scope : StorageScope vendor}

theorem mem_rulePrefixes {prefixes : SortedSet Str} {p : Str}
    (h : rulePrefixes rule identity project roots = .ok prefixes) :
    p ∈ prefixes ↔ (rule.templates = [] ∧ p ∈ roots) ∨
      ∃ template ∈ rule.templates, FromTemplate identity project roots template p := by
  rw [rulePrefixes] at h
  rw [ExceptList.foldlM_accumulates (fun s => p ∈ s) (FromTemplate identity project roots · p)
    (fun template _ s t hstep => mem_templatePrefixes hstep) h]
  refine or_congr_left ?_
  cases hempty : rule.templates with
  | nil => simp
  | cons template templates => simp

variable {defaultRoute : Str}

abbrev RulePair := HubRule × StorageRule

def pairs (policy : StoragePolicy) : List RulePair := policy.hub.rules.zip policy.rules

def pairMatches (identity : StorageIdentity) (project : Option Str) (pair : RulePair) : Bool :=
  pair.1.selector.matchesUser (some identity.principal) && pair.1.admitsProject project

def pairContribution (identity : StorageIdentity) (project : Option Str) (roots : List Str)
    (defaultRoute : Str) (pair : RulePair) :
    Except StorageAdmissionError (Option (Str × SortedSet Str)) :=
  contribution pair.2 pair.1.mask identity project roots defaultRoute

def addPair (identity : StorageIdentity) (project : Option Str) (roots : List Str)
    (defaultRoute : Str) (authority : Authority) (pair : RulePair) :
    Except StorageAdmissionError Authority :=
  addRule pair.2 pair.1.mask identity project roots defaultRoute authority

def pairAt (policy : StoragePolicy) (index : Fin policy.hub.rules.length) : RulePair :=
  (policy.hub.rules.get index, policy.ruleAt index)

def matchingIndices (policy : StoragePolicy) (identity : StorageIdentity) (project : Option Str) :
    List (Fin policy.hub.rules.length) :=
  (List.finRange policy.hub.rules.length).filter fun index =>
    pairMatches identity project (policy.pairAt index)

theorem pairs_eq_map_finRange (policy : StoragePolicy) :
    policy.pairs = (List.finRange policy.hub.rules.length).map policy.pairAt := by
  apply List.ext_getElem
  · simp [pairs, policy.aligned]
  · intro n h₁ h₂
    simp [pairs, pairAt, ruleAt]

theorem filter_pairs (policy : StoragePolicy) (identity : StorageIdentity) (project : Option Str) :
    policy.pairs.filter (pairMatches identity project) =
      (policy.matchingIndices identity project).map policy.pairAt := by
  rw [pairs_eq_map_finRange, List.filter_map]
  rfl

theorem storageRules_eq (policy : StoragePolicy) (identity : StorageIdentity)
    (project : Option Str) :
    policy.hub.storageRules identity project =
      (policy.matchingIndices identity project).map fun index =>
        { index, masks := (policy.hub.rules.get index).mask,
          hub := (policy.hub.rules.get index).hub } := by
  rw [HubResourcePolicy.storageRules, matchingIndices, ← List.filterMap_eq_filter,
    List.map_filterMap]
  apply List.filterMap_congr
  intro index _
  have hcond : (!(policy.hub.rules.get index).selector.matchesUser (some identity.principal) ||
      !(policy.hub.rules.get index).admitsProject project) =
        !pairMatches identity project (policy.pairAt index) :=
    (Bool.not_and _ _).symm
  simp only [hcond, Option.guard]
  by_cases hmatches : pairMatches identity project (policy.pairAt index) = true
  · simp [hmatches]
  · simp [hmatches]

theorem any_hub (policy : StoragePolicy) (identity : StorageIdentity) (project : Option Str) :
    (policy.hub.storageRules identity project).any (·.hub) =
      (policy.pairs.filter (pairMatches identity project)).any (·.1.hub) := by
  rw [storageRules_eq, filter_pairs, List.any_map, List.any_map]
  rfl

theorem foldlM_storageRules (policy : StoragePolicy) (authority : Authority) :
    (policy.hub.storageRules identity project).foldlM
        (fun authority m => addRule (policy.ruleAt m.index) m.masks identity project roots
          defaultRoute authority) authority =
      (policy.pairs.filter (pairMatches identity project)).foldlM
        (addPair identity project roots defaultRoute) authority := by
  rw [storageRules_eq, filter_pairs, List.foldlM_map, List.foldlM_map]
  rfl

def Authority.decision (authority : Authority) : Option StorageDecision :=
  authority.route.map fun route => { route, access := fun op => (authority.access op).toList }

theorem evaluate_eq (policy : StoragePolicy) (identity : StorageIdentity)
    (scope : StorageScope vendor) (defaultRoute : Str) :
    policy.evaluate identity scope defaultRoute =
      let admitted := policy.pairs.filter (pairMatches identity scope.projectId)
      if scope.isGlobalHub && !admitted.any (·.1.hub) then .ok none
      else
        (admitted.foldlM (addPair identity scope.projectId (scope.roots vendor identity) defaultRoute)
          Authority.empty).map Authority.decision := by
  simp only [evaluate, any_hub, foldlM_storageRules]
  split_ifs
  · rfl
  · rfl

def FromRule (identity : StorageIdentity) (project : Option Str) (roots : List Str)
    (rule : StorageRule) (p : Str) : Prop :=
  (rule.templates = [] ∧ p ∈ roots) ∨
    ∃ template ∈ rule.templates, FromTemplate identity project roots template p

theorem mem_contribution {masks : StorageOperation → Bool} {found : Option (Str × SortedSet Str)}
    (h : contribution rule masks identity project roots defaultRoute = .ok found)
    (hop : allowed rule masks op = true) (p : Str) :
    (∃ c, found = some c ∧ p ∈ c.2) ↔ FromRule identity project roots rule p := by
  have hany : StorageOperation.all.any (allowed rule masks) = true :=
    List.any_eq_true.mpr ⟨op, op.mem_all, hop⟩
  simp only [contribution, hany, Bool.not_true, Bool.false_eq_true, if_false,
    ExceptList.bind_eq_ok] at h
  obtain ⟨prefixes, hprefixes, h⟩ := h
  rw [FromRule, ← mem_rulePrefixes hprefixes]
  split_ifs at h with hempty
  · cases h
    have hnot : p ∉ prefixes := by
      rw [SortedSet.mem_def, List.isEmpty_iff.mp hempty]
      exact List.not_mem_nil
    simp [hnot]
  · cases h
    simp

theorem Authority.mem_grant {authority : Authority} {selected : Str}
    {operations : StorageOperation → Bool} {prefixes : SortedSet Str} {p : Str} :
    p ∈ (authority.grant selected operations prefixes).access op ↔
      p ∈ authority.access op ∨ (operations op = true ∧ p ∈ prefixes) := by
  simp only [Authority.grant]
  split_ifs with hop
  · simp [hop, ← SortedSet.mem_def, or_comm]
  · simp [hop]

theorem Authority.grant_comm (authority : Authority) (selected : Str)
    (operations operations' : StorageOperation → Bool) (prefixes prefixes' : SortedSet Str) :
    (authority.grant selected operations prefixes).grant selected operations' prefixes' =
      (authority.grant selected operations' prefixes').grant selected operations prefixes := by
  rw [Authority.mk.injEq]
  refine ⟨rfl, ?_⟩
  funext op
  apply SortedSet.ext_mem
  intro p
  rw [mem_grant, mem_grant, mem_grant, mem_grant, or_right_comm]

theorem addPair_eq_ok {pair : RulePair} :
    addPair identity project roots defaultRoute authority pair = .ok authority' ↔
      (pairContribution identity project roots defaultRoute pair = .ok none ∧
        authority' = authority) ∨
      ∃ selected prefixes,
        pairContribution identity project roots defaultRoute pair = .ok (some (selected, prefixes)) ∧
        (∀ prior, authority.route = some prior → prior = selected) ∧
        authority' = authority.grant selected (allowed pair.2 pair.1.mask) prefixes := by
  rw [addPair, addRule, ExceptList.bind_eq_ok]
  constructor
  · rintro ⟨found, hfound, h⟩
    cases found with
    | none =>
      cases h
      exact Or.inl ⟨hfound, rfl⟩
    | some c =>
      simp only at h
      split_ifs at h with hprior
      · cases h
      · cases h
        refine Or.inr ⟨c.1, c.2, hfound, ?_, rfl⟩
        intro prior hroute
        simpa [hroute] using hprior
  · rintro (⟨hfound, rfl⟩ | ⟨selected, prefixes, hfound, hprior, rfl⟩)
    · exact ⟨none, hfound, rfl⟩
    · refine ⟨some (selected, prefixes), hfound, ?_⟩
      have hsame : authority.route.any (· != selected) = false := by
        cases hroute : authority.route with
        | none => rfl
        | some prior => simpa using hprior prior hroute
      simp [hsame, pure, Except.pure]

theorem mem_addPair {pair : RulePair}
    (h : addPair identity project roots defaultRoute authority pair = .ok authority')
    (op : StorageOperation) (p : Str) :
    p ∈ authority'.access op ↔ p ∈ authority.access op ∨
      (allowed pair.2 pair.1.mask op = true ∧ FromRule identity project roots pair.2 p) := by
  rcases addPair_eq_ok.mp h with ⟨hnone, rfl⟩ | ⟨selected, prefixes, hsome, _, rfl⟩
  · rw [and_congr_right (fun hop => (mem_contribution hnone hop p).symm)]
    simp
  · rw [and_congr_right (fun hop => (mem_contribution hsome hop p).symm), Authority.mem_grant]
    simp

def Authority.Routed (authority : Authority) : Prop :=
  ∀ op p, p ∈ authority.access op → authority.route.isSome = true

theorem routed_addPair {pair : RulePair} (hrouted : authority.Routed)
    (h : addPair identity project roots defaultRoute authority pair = .ok authority') :
    authority'.Routed := by
  rcases addPair_eq_ok.mp h with ⟨_, rfl⟩ | ⟨selected, prefixes, _, _, rfl⟩
  · exact hrouted
  · intro op p _
    rfl

theorem addPair_comm (authority : Authority) (pair pair' : RulePair) (between final : Authority)
    (h : addPair identity project roots defaultRoute authority pair = .ok between)
    (h' : addPair identity project roots defaultRoute between pair' = .ok final) :
    ∃ between', addPair identity project roots defaultRoute authority pair' = .ok between' ∧
      addPair identity project roots defaultRoute between' pair = .ok final := by
  rcases addPair_eq_ok.mp h with ⟨hfound, rfl⟩ | ⟨selected, prefixes, hfound, hprior, rfl⟩
  · exact ⟨final, h', addPair_eq_ok.mpr (Or.inl ⟨hfound, rfl⟩)⟩
  · rcases addPair_eq_ok.mp h' with ⟨hfound', rfl⟩ | ⟨selected', prefixes', hfound', hprior', rfl⟩
    · exact ⟨authority, addPair_eq_ok.mpr (Or.inl ⟨hfound', rfl⟩), h⟩
    · -- both contribute, so the second found the route of the first
      obtain rfl : selected = selected' := hprior' selected rfl
      refine ⟨_, addPair_eq_ok.mpr (Or.inr ⟨selected, prefixes', hfound', hprior, rfl⟩),
        addPair_eq_ok.mpr (Or.inr ⟨selected, prefixes, hfound, ?_, ?_⟩)⟩
      · intro prior hroute
        exact (Option.some.inj hroute).symm
      · exact Authority.grant_comm ..

/-- The prefixes of a decision: what the admitted rules contribute to the operations they allow. For
the global Hub, some admitted rule must carry the `hub` capability. -/
theorem mem_access_iff {policy : StoragePolicy} {result : Option StorageDecision}
    (h : policy.evaluate identity scope defaultRoute = .ok result) (op : StorageOperation)
    (p : Str) :
    (∃ decision, result = some decision ∧ p ∈ decision.access op) ↔
      (scope.isGlobalHub = true → ∃ pair ∈ policy.pairs,
        pairMatches identity scope.projectId pair = true ∧ pair.1.hub = true) ∧
      ∃ pair ∈ policy.pairs, pairMatches identity scope.projectId pair = true ∧
        allowed pair.2 pair.1.mask op = true ∧
          FromRule identity scope.projectId (scope.roots vendor identity) pair.2 p := by
  rw [evaluate_eq] at h
  simp only at h
  split_ifs at h with hhub
  · cases h
    simp only [Bool.and_eq_true, Bool.not_eq_true', List.any_eq_false, List.mem_filter] at hhub
    refine iff_of_false ?_ ?_
    · rintro ⟨decision, hdecision, _⟩
      cases hdecision
    · rintro ⟨hneed, _⟩
      obtain ⟨pair, hpair, hmatches, hcarries⟩ := hneed hhub.1
      exact hhub.2 pair ⟨hpair, hmatches⟩ hcarries
  · have hneed : scope.isGlobalHub = true → ∃ pair ∈ policy.pairs,
        pairMatches identity scope.projectId pair = true ∧ pair.1.hub = true := by
      intro hglobal
      simp only [hglobal, Bool.true_and, Bool.not_eq_true', Bool.not_eq_false, List.any_eq_true,
        List.mem_filter, and_assoc] at hhub
      exact hhub
    rw [and_iff_right hneed]
    obtain ⟨authority, hfold, rfl⟩ := ExceptList.map_eq_ok.mp h
    have hrouted : authority.Routed :=
      ExceptList.foldlM_invariant Authority.Routed (fun _ _ _ => routed_addPair)
        (fun op p hp => absurd hp (SortedSet.not_mem_empty p)) hfold
    have hdecision : (∃ decision, authority.decision = some decision ∧ p ∈ decision.access op) ↔
        p ∈ authority.access op := by
      constructor
      · rintro ⟨decision, hdecision, hp⟩
        obtain ⟨route, _, rfl⟩ := Option.map_eq_some_iff.mp hdecision
        exact hp
      · intro hp
        obtain ⟨route, hroute⟩ := Option.isSome_iff_exists.mp (hrouted op p hp)
        exact ⟨_, by rw [Authority.decision, hroute]; rfl, hp⟩
    rw [hdecision, ExceptList.foldlM_accumulates (fun s => p ∈ s.access op) _
      (fun pair _ s t hstep => mem_addPair hstep op p) hfold]
    simp only [Authority.empty, SortedSet.not_mem_empty, false_or, List.mem_filter, and_assoc]

theorem safe_of_fromRule {p : Str}
    (h : FromRule identity project (scope.roots vendor identity) rule p) :
    safePath p = true ∧ ∃ root ∈ scope.roots vendor identity, Below '/' root p := by
  rcases h with ⟨_, hroot⟩ | ⟨template, _, candidate, hrender, root, hroot, hp⟩
  · exact ⟨StorageScope.safePath_root hroot, p, hroot, Below.refl p⟩
  · refine ⟨?_, root, hroot, (below_of_intersect hp).1⟩
    rcases intersect_cases hp with ⟨_, rfl⟩ | ⟨_, rfl⟩
    · exact safePath_of_render hrender
    · exact StorageScope.safePath_root hroot

theorem covered_fromRule_iff {key : Str} (hkey : ∃ root ∈ roots, Below '/' root key) :
    (∃ p, FromRule identity project roots rule p ∧ Below '/' p key) ↔
      rule.templates = [] ∨ ∃ template ∈ rule.templates, ∃ rendered,
        render template identity project = .ok (some rendered) ∧ Below '/' rendered key := by
  obtain ⟨root, hroot, hbelow⟩ := hkey
  constructor
  · rintro ⟨p, ⟨hempty, _⟩ | ⟨template, htemplate, rendered, hrender, root', _, hp⟩, hpkey⟩
    · exact Or.inl hempty
    · exact Or.inr ⟨template, htemplate, rendered, hrender, (below_of_intersect hp).2.trans hpkey⟩
  · rintro (hempty | ⟨template, htemplate, rendered, hrender, hrendered⟩)
    · exact ⟨root, Or.inl ⟨hempty, hroot⟩, hbelow⟩
    · obtain ⟨p, hp, hpkey⟩ := exists_intersect hrendered hbelow
      exact ⟨p, Or.inr ⟨template, htemplate, rendered, hrender, root, hroot, hp⟩, hpkey⟩

theorem contained_of_evaluate {policy : StoragePolicy} {decision : StorageDecision}
    (h : policy.evaluate identity scope defaultRoute = .ok (some decision)) {p : Str}
    (hp : p ∈ decision.access op) :
    safePath p = true ∧ ∃ root ∈ scope.roots vendor identity, Below '/' root p := by
  obtain ⟨_, pair, _, _, _, hfrom⟩ := (mem_access_iff h op p).mp ⟨decision, rfl, hp⟩
  exact safe_of_fromRule hfrom

/-- **Scope containment.** A decision for a scope grants safe paths under the roots of the scope
only. Roots of different scopes are unrelated as paths, so that a decision covers no key of another
scope. -/
theorem evaluate_contained (vendor : Vendor) :
    (∀ snapshot policy, StoragePolicy.compile vendor snapshot = .ok policy →
      ∀ (identity : StorageIdentity) (scope : StorageScope vendor) (defaultRoute : Str) decision,
        policy.evaluate identity scope defaultRoute = .ok (some decision) →
        ∀ op, ∀ p ∈ decision.access op,
          (safePath p = true ∧ ∃ root ∈ scope.roots vendor identity, Below '/' root p) ∧
          ∀ (identity' : StorageIdentity) (scope' : StorageScope vendor),
            NamespaceCollisionFree vendor identity identity' →
            scope.Distinct identity scope' identity' →
            ∀ root' ∈ scope'.roots vendor identity', ∀ key, Below '/' root' key →
              ¬ Below '/' p key) ∧
    ∀ (identity identity' : StorageIdentity) (scope scope' : StorageScope vendor),
      NamespaceCollisionFree vendor identity identity' →
      scope.Distinct identity scope' identity' →
      ∀ root ∈ scope.roots vendor identity, ∀ root' ∈ scope'.roots vendor identity',
        root ≠ root' ∧ ¬ Below '/' root root' ∧ ¬ Below '/' root' root := by
  constructor
  · intro snapshot policy _ identity scope defaultRoute decision heval op p hp
    have hcontained := contained_of_evaluate heval hp
    refine ⟨hcontained, ?_⟩
    intro identity' scope' hfree hdistinct root' hroot' key hkey hpkey
    obtain ⟨root, hroot, hbelow⟩ := hcontained.2
    exact StorageScope.not_below_roots hdistinct hfree hroot hroot' (hbelow.trans hpkey) hkey
  · intro identity identity' scope scope' hfree hdistinct root hroot root' hroot'
    have hright : ¬ Below '/' root root' := fun h =>
      StorageScope.not_below_roots hdistinct hfree hroot hroot' h (Below.refl root')
    have hleft : ¬ Below '/' root' root := fun h =>
      StorageScope.not_below_roots hdistinct hfree hroot hroot' (Below.refl root) h
    refine ⟨?_, hright, hleft⟩
    rintro rfl
    exact hright (Below.refl root)

end StoragePolicy

namespace Sample

def ulid : UlidCodec where
  Ulid := { s : Str // s.length = 26 ∧ s.all (crockford.contains ·) = true }
  fromString := fun s =>
    if h : s.length = 26 ∧ s.all (crockford.contains ·) = true then
      if s.head?.any (· ≤ '7') then some ⟨s, h⟩ else none
    else none
  isNil := fun id => id.val.all (· == '0')
  arrayToStr := fun id => id.val
  length_arrayToStr := fun id => id.property.1
  mem_arrayToStr := fun id c hc => by simpa using List.all_eq_true.mp id.property.2 c hc

def sha256 (bytes : Bytes) : Digest :=
  if bytes = userNamespaceInput "local".toList "alice".toList then
    ⟨beBytes 32 0xb2b0635505aacd9f5855a9941fcb68d2247d5fa652231fda657196b4f2cbf905,
      length_beBytes 32 _⟩
  else if bytes = userNamespaceInput "local".toList "bob".toList then
    ⟨beBytes 32 0xa9d8ffb61cc9be016ba7735547f72705ec7d0cdfcfa11584690c00d0dd3cf725,
      length_beBytes 32 _⟩
  else ⟨beBytes 32 0, length_beBytes 32 _⟩

def glob (pattern : Str) : Option (Str → Bool) :=
  if pattern = "*".toList then some fun _ => true else some (· == pattern)

def crates : Vendor where
  ulid := ulid
  sha256 := sha256
  glob := glob

def alice : StorageIdentity :=
  .localUser
    { username := "alice".toList, subject := "alice".toList, organization := "graphit".toList
      teams := [], subject_fits := by decide }

def bob : StorageIdentity :=
  .localUser
    { username := "bob".toList, subject := "bob".toList, organization := "graphit".toList
      teams := [], subject_fits := by decide }

def memory : StorageScope crates := ⟨.userMemory "laptop".toList, by rfl⟩

def readWrite : ResourceGrantRule where
  accessKind := "authenticated".toList
  principal := []
  s3Route := []
  capabilities := ["s3".toList]
  projects := []
  s3Operations := ["read".toList, "write".toList]
  s3Prefixes := ["v1/installations".toList]

theorem namespaceCollisionFree_alice_bob : NamespaceCollisionFree crates alice bob := by
  unfold NamespaceCollisionFree
  decide

end Sample

/-- The decision on the memory of `alice` covers no key of the memory of `bob`. -/
theorem evaluate_contained_memory :
    ∃ policy decision, StoragePolicy.compile Sample.crates ⟨[Sample.readWrite]⟩ = .ok policy ∧
      policy.evaluate Sample.alice Sample.memory "main".toList = .ok (some decision) ∧
      decision.access .read = Sample.memory.roots Sample.crates Sample.alice ∧
      ∀ p ∈ decision.access .read, safePath p = true ∧
        ∀ root' ∈ Sample.memory.roots Sample.crates Sample.bob, ¬ Below '/' p root' := by
  have happly : ∀ policy decision,
      StoragePolicy.compile Sample.crates ⟨[Sample.readWrite]⟩ = .ok policy →
      policy.evaluate Sample.alice Sample.memory "main".toList = .ok (some decision) →
      ∀ p ∈ decision.access .read, safePath p = true ∧
        ∀ root' ∈ Sample.memory.roots Sample.crates Sample.bob, ¬ Below '/' p root' := by
    intro policy decision hcompile heval p hp
    have hmain := (StoragePolicy.evaluate_contained Sample.crates).1 _ policy hcompile Sample.alice
      Sample.memory "main".toList decision heval .read p hp
    refine ⟨hmain.1.1, fun root' hroot' => ?_⟩
    exact hmain.2 Sample.bob Sample.memory Sample.namespaceCollisionFree_alice_bob
      (Or.inr ⟨⟨_, rfl⟩, by decide⟩) root' hroot' root' (Below.refl root')
  exact ⟨_, _, rfl, rfl, rfl, happly _ _ rfl rfl⟩

end GraphitBroker
