import GraphitBroker.Proof.StorageAuthority

/-!
# Storage authorization is exact

What a stored grant rule says of one request, read off the rule as it is stored, and the proof that
a decision covers a key exactly when one rule grants it.
-/

namespace GraphitBroker

open SepPath

namespace ResourceGrantRule

/-- The stored rule is for a caller: its kind and the text of its principal fit. -/
def SelectsUser (rule : ResourceGrantRule) (user : Principal) : Prop :=
  let kind := toAsciiLowercase (trim rule.accessKind)
  let value := trim rule.principal
  kind = "global".toList ∨ kind = "authenticated".toList ∨
    (kind = "user".toList ∧ user.username = some value) ∨
    (kind = "team".toList ∧ value ∈ user.teams) ∨
    (kind = "organization".toList ∧ user.organization = some value) ∨
    (kind = "subject".toList ∧ (value = user.subject ∨
      value = user.issuer ++ "|".toList ++ user.subject))

def Selects (rule : ResourceGrantRule) (identity : StorageIdentity) : Prop :=
  rule.SelectsUser identity.principal

def AdmitsProject (rule : ResourceGrantRule) (project : Option Str) : Prop :=
  rule.projects = [] ∨ ∃ entry ∈ rule.projects, trim entry = "*".toList ∨ project = some (trim entry)

def HasPattern (vendor : Vendor) (patterns : List Str) (text : Str) : Prop :=
  ∃ raw ∈ patterns, ∃ compiled, pattern vendor raw = .ok compiled ∧ compiled text = true

structure CarriesHub (vendor : Vendor) (rule : ResourceGrantRule) (identity : StorageIdentity)
    (project : Option Str) : Prop where
  selects : rule.Selects identity
  admits : rule.AdmitsProject project
  capability : HasPattern vendor rule.capabilities "hub".toList

structure Grants (vendor : Vendor) (rule : ResourceGrantRule) (identity : StorageIdentity)
    (project : Option Str) (op : StorageOperation) (key : Str) : Prop where
  selects : rule.Selects identity
  admits : rule.AdmitsProject project
  capability : HasPattern vendor rule.capabilities "s3".toList ∨
    HasPattern vendor rule.capabilities ("s3:".toList ++ op.name.toList)
  operation : rule.s3Operations = [] ∨ HasPattern vendor rule.s3Operations op.name.toList
  path : rule.s3Prefixes = [] ∨ ∃ raw ∈ rule.s3Prefixes, ∃ rendered,
    render (trimTemplate raw) identity project = .ok (some rendered) ∧ Below '/' rendered key

end ResourceGrantRule

variable {vendor : Vendor}

theorem subject_matches_iff {issuer subject value : Str} :
    (subject == value || ((stripPrefix issuer value).bind fun v => stripPrefix "|".toList v) ==
        some subject) = true ↔
      value = subject ∨ value = issuer ++ "|".toList ++ subject := by
  rw [Bool.or_eq_true, beq_iff_eq, beq_iff_eq, Option.bind_eq_some_iff, eq_comm]
  refine or_congr_right ?_
  constructor
  · rintro ⟨rest, hrest, hsubject⟩
    rw [stripPrefix_eq_some.mp hrest, stripPrefix_eq_some.mp hsubject, List.append_assoc]
  · rintro rfl
    exact ⟨"|".toList ++ subject, stripPrefix_eq_some.mpr (List.append_assoc ..),
      stripPrefix_eq_some.mpr rfl⟩

theorem selector_matches_user_iff {rule : ResourceGrantRule} {selector : HubSelector}
    (h : HubSelector.parse rule.accessKind rule.principal = .ok selector) (user : Principal) :
    selector.matchesUser (some user) = true ↔ rule.SelectsUser user := by
  unfold HubSelector.parse at h
  simp only at h
  unfold ResourceGrantRule.SelectsUser
  split_ifs at h with hglobal hanonymous hauthenticated huser hteam horganization hsubject
  · cases h
    simp [HubSelector.matchesUser, hglobal]
  · cases h
    simp [HubSelector.matchesUser, hanonymous]
  · cases h
    simp [HubSelector.matchesUser, hauthenticated]
  · cases h
    simp [HubSelector.matchesUser, huser]
  · cases h
    simp [HubSelector.matchesUser, hteam]
  · cases h
    simp [HubSelector.matchesUser, horganization]
  · cases h
    have hmatches := @subject_matches_iff user.issuer user.subject (trim rule.principal)
    simpa [HubSelector.matchesUser, hsubject] using hmatches

theorem selector_matches_iff {rule : ResourceGrantRule} {selector : HubSelector}
    (h : HubSelector.parse rule.accessKind rule.principal = .ok selector)
    (identity : StorageIdentity) :
    selector.matchesUser (some identity.principal) = true ↔ rule.Selects identity :=
  selector_matches_user_iff h identity.principal

theorem admitsProject_iff {rule : ResourceGrantRule} {hub : HubRule}
    (h : hub.projects = rule.projects) (project : Option Str) :
    hub.admitsProject project = true ↔ rule.AdmitsProject project := by
  unfold HubRule.admitsProject ResourceGrantRule.AdmitsProject
  cases project with
  | none => simp [h]
  | some id => simp [h, @eq_comm _ id]

theorem hasPattern_iff {patterns : List Str} {compiled : List (Str → Bool)}
    (h : patterns.mapM (pattern vendor) = .ok compiled) (text : Str) :
    (∃ p ∈ compiled, p text = true) ↔ ResourceGrantRule.HasPattern vendor patterns text :=
  ExceptList.exists_mem_mapM h fun p => p text = true

theorem compileTemplate_eq_ok {raw template : Str} (h : compileTemplate raw = .ok template) :
    template = trimTemplate raw := by
  unfold compileTemplate at h
  split_ifs at h
  cases h
  rfl

theorem hubRule_eq_ok {rule : ResourceGrantRule} {hub : HubRule}
    (h : HubRule.compile vendor rule = .ok hub) :
    HubSelector.parse rule.accessKind rule.principal = .ok hub.selector ∧
      rule.capabilities.mapM (pattern vendor) = .ok hub.capabilities ∧
      hub.projects = rule.projects := by
  rw [HubRule.compile, ExceptList.bind_eq_ok] at h
  obtain ⟨selector, hselector, h⟩ := h
  split_ifs at h
  · cases h
  · obtain ⟨capabilities, hcapabilities, h⟩ := ExceptList.bind_eq_ok.mp h
    obtain rfl := Except.ok.inj h
    exact ⟨hselector, hcapabilities, rfl⟩

def CompilesTo (vendor : Vendor) (rule : ResourceGrantRule) (pair : StoragePolicy.RulePair) : Prop :=
  HubRule.compile vendor rule = .ok pair.1 ∧ StorageRule.compile vendor rule = .ok pair.2

namespace CompilesTo

variable {rule : ResourceGrantRule} {pair : StoragePolicy.RulePair}

theorem hub_parts (h : CompilesTo vendor rule pair) :
    HubSelector.parse rule.accessKind rule.principal = .ok pair.1.selector ∧
      rule.capabilities.mapM (pattern vendor) = .ok pair.1.capabilities ∧
      pair.1.projects = rule.projects :=
  hubRule_eq_ok h.1

theorem storage_parts (h : CompilesTo vendor rule pair) :
    rule.s3Operations.mapM (pattern vendor) = .ok pair.2.operations ∧
      rule.s3Prefixes.mapM compileTemplate = .ok pair.2.templates := by
  obtain ⟨hub, storage⟩ := pair
  have hstorage : StorageRule.compile vendor rule = .ok storage := h.2
  rw [StorageRule.compile, ExceptList.bind_eq_ok] at hstorage
  obtain ⟨operations, hoperations, hstorage⟩ := hstorage
  obtain ⟨templates, htemplates, hstorage⟩ := ExceptList.bind_eq_ok.mp hstorage
  cases hstorage
  exact ⟨ExceptList.mapError_eq_ok.mp hoperations, htemplates⟩

theorem matches_iff (h : CompilesTo vendor rule pair) (identity : StorageIdentity)
    (project : Option Str) :
    StoragePolicy.pairMatches identity project pair = true ↔
      rule.Selects identity ∧ rule.AdmitsProject project := by
  obtain ⟨hselector, _, hprojects⟩ := h.hub_parts
  rw [StoragePolicy.pairMatches, Bool.and_eq_true, selector_matches_iff hselector,
    admitsProject_iff hprojects]

theorem hub_iff (h : CompilesTo vendor rule pair) :
    pair.1.hub = true ↔ ResourceGrantRule.HasPattern vendor rule.capabilities "hub".toList := by
  rw [HubRule.hub, List.any_eq_true, hasPattern_iff h.hub_parts.2.1]

theorem mask_iff (h : CompilesTo vendor rule pair) (op : StorageOperation) :
    pair.1.mask op = true ↔
      ResourceGrantRule.HasPattern vendor rule.capabilities "s3".toList ∨
      ResourceGrantRule.HasPattern vendor rule.capabilities ("s3:".toList ++ op.name.toList) := by
  rw [HubRule.mask, ← hasPattern_iff h.hub_parts.2.1, ← hasPattern_iff h.hub_parts.2.1]
  simp only [List.any_eq_true, Bool.or_eq_true, ← exists_or, ← and_or_left]

theorem allowed_iff (h : CompilesTo vendor rule pair) (op : StorageOperation) :
    StoragePolicy.allowed pair.2 pair.1.mask op = true ↔
      (ResourceGrantRule.HasPattern vendor rule.capabilities "s3".toList ∨
        ResourceGrantRule.HasPattern vendor rule.capabilities ("s3:".toList ++ op.name.toList)) ∧
      (rule.s3Operations = [] ∨
        ResourceGrantRule.HasPattern vendor rule.s3Operations op.name.toList) := by
  obtain ⟨hoperations, _⟩ := h.storage_parts
  have hempty : pair.2.operations = [] ↔ rule.s3Operations = [] := by
    rw [← List.length_eq_zero_iff, ExceptList.length_of_mapM_eq_ok hoperations,
      List.length_eq_zero_iff]
  rw [StoragePolicy.allowed, Bool.and_eq_true, Bool.or_eq_true, List.isEmpty_iff, List.any_eq_true,
    h.mask_iff, hasPattern_iff hoperations, hempty]

theorem path_iff (h : CompilesTo vendor rule pair) (identity : StorageIdentity)
    (project : Option Str) (key : Str) :
    (pair.2.templates = [] ∨ ∃ template ∈ pair.2.templates, ∃ rendered,
        render template identity project = .ok (some rendered) ∧ Below '/' rendered key) ↔
      (rule.s3Prefixes = [] ∨ ∃ raw ∈ rule.s3Prefixes, ∃ rendered,
        render (trimTemplate raw) identity project = .ok (some rendered) ∧
          Below '/' rendered key) := by
  obtain ⟨_, htemplates⟩ := h.storage_parts
  have hmap : pair.2.templates = rule.s3Prefixes.map trimTemplate := by
    rw [← List.forall₂_eq_eq_eq, List.forall₂_map_right_iff]
    refine (ExceptList.mapM_eq_ok_iff.mp htemplates).flip.imp ?_
    intro template raw hraw
    exact compileTemplate_eq_ok hraw
  simp [hmap]

end CompilesTo

theorem compile_eq_ok_iff {snapshot : ResourceGrantSnapshot} {policy : StoragePolicy} :
    StoragePolicy.compile vendor snapshot = .ok policy ↔
      List.Forall₂ (CompilesTo vendor) snapshot.rules policy.pairs := by
  have hpairs := @ExceptList.forall₂_zip_iff _ _ _
    (fun rule hub => HubRule.compile vendor rule = .ok hub)
    (fun rule storage => StorageRule.compile vendor rule = .ok storage) snapshot.rules
    policy.hub.rules policy.rules policy.aligned.symm
  have hhub : liftPolicy (HubResourcePolicy.compile vendor snapshot) = .ok policy.hub ↔
      snapshot.rules.mapM (HubRule.compile vendor) = .ok policy.hub.rules := by
    rw [liftPolicy, ExceptList.mapError_eq_ok, HubResourcePolicy.compile, ExceptList.bind_eq_ok]
    constructor
    · rintro ⟨rules, hrules, h⟩
      rw [← Except.ok.inj h]
      exact hrules
    · intro h
      exact ⟨_, h, rfl⟩
  refine Iff.trans ?_ hpairs.symm
  rw [← ExceptList.mapM_eq_ok_iff, ← ExceptList.mapM_eq_ok_iff, ← hhub]
  unfold StoragePolicy.compile
  constructor
  · intro h
    split at h
    · cases h
    · rename_i hub hcompiled
      split at h
      · cases h
      · rename_i rules hrules
        cases h
        exact ⟨hcompiled, hrules⟩
  · rintro ⟨hcompiled, hrules⟩
    split
    · rename_i error herror
      rw [hcompiled] at herror
      cases herror
    · rename_i hub hok
      rw [hcompiled] at hok
      cases hok
      split
      · rename_i error herror
        rw [hrules] at herror
        cases herror
      · rename_i rules hok
        rw [hrules] at hok
        cases hok
        rfl

theorem exists_pair_iff {snapshot : ResourceGrantSnapshot} {policy : StoragePolicy}
    (h : StoragePolicy.compile vendor snapshot = .ok policy)
    {P : StoragePolicy.RulePair → Prop} {Q : ResourceGrantRule → Prop}
    (hPQ : ∀ rule pair, CompilesTo vendor rule pair → (P pair ↔ Q rule)) :
    (∃ pair ∈ policy.pairs, P pair) ↔ ∃ rule ∈ snapshot.rules, Q rule :=
  ExceptList.exists_mem_forall₂ (compile_eq_ok_iff.mp h) hPQ

def Covers (result : Option StorageDecision) (op : StorageOperation) (key : Str) : Prop :=
  ∃ decision, result = some decision ∧ ∃ p ∈ decision.access op, Below '/' p key

theorem covers_iff {snapshot : ResourceGrantSnapshot} {policy : StoragePolicy}
    (hcompile : StoragePolicy.compile vendor snapshot = .ok policy)
    {identity : StorageIdentity} {scope : StorageScope vendor} {defaultRoute : Str}
    {result : Option StorageDecision}
    (heval : policy.evaluate identity scope defaultRoute = .ok result) (op : StorageOperation)
    {key : Str} (hkey : ∃ root ∈ scope.roots vendor identity, Below '/' root key) :
    Covers result op key ↔
      (scope.isGlobalHub = true →
        ∃ rule ∈ snapshot.rules, rule.CarriesHub vendor identity scope.projectId) ∧
      ∃ rule ∈ snapshot.rules, rule.Grants vendor identity scope.projectId op key := by
  have hcollect : Covers result op key ↔
      (scope.isGlobalHub = true → ∃ pair ∈ policy.pairs,
        StoragePolicy.pairMatches identity scope.projectId pair = true ∧ pair.1.hub = true) ∧
      ∃ pair ∈ policy.pairs, StoragePolicy.pairMatches identity scope.projectId pair = true ∧
        StoragePolicy.allowed pair.2 pair.1.mask op = true ∧
        ∃ p, StoragePolicy.FromRule identity scope.projectId (scope.roots vendor identity) pair.2 p ∧
          Below '/' p key := by
    constructor
    · rintro ⟨decision, hdecision, p, hp, hbelow⟩
      obtain ⟨hhub, pair, hpair, hmatches, hallowed, hfrom⟩ :=
        (StoragePolicy.mem_access_iff heval op p).mp ⟨decision, hdecision, hp⟩
      exact ⟨hhub, pair, hpair, hmatches, hallowed, p, hfrom, hbelow⟩
    · rintro ⟨hhub, pair, hpair, hmatches, hallowed, p, hfrom, hbelow⟩
      obtain ⟨decision, hdecision, hp⟩ :=
        (StoragePolicy.mem_access_iff heval op p).mpr ⟨hhub, pair, hpair, hmatches, hallowed, hfrom⟩
      exact ⟨decision, hdecision, p, hp, hbelow⟩
  rw [hcollect]
  refine and_congr (imp_congr_right fun _ => ?_) ?_
  · apply exists_pair_iff hcompile
    intro rule pair hcompiles
    rw [hcompiles.matches_iff, hcompiles.hub_iff]
    exact ⟨fun h => ⟨h.1.1, h.1.2, h.2⟩, fun h => ⟨⟨h.selects, h.admits⟩, h.capability⟩⟩
  · apply exists_pair_iff hcompile
    intro rule pair hcompiles
    rw [hcompiles.matches_iff, hcompiles.allowed_iff, StoragePolicy.covered_fromRule_iff hkey,
      hcompiles.path_iff]
    constructor
    · rintro ⟨⟨hselects, hadmits⟩, ⟨hcapability, hoperation⟩, hpath⟩
      exact ⟨hselects, hadmits, hcapability, hoperation, hpath⟩
    · intro h
      exact ⟨⟨h.selects, h.admits⟩, ⟨h.capability, h.operation⟩, h.path⟩

theorem evaluate_perm {snapshot snapshot' : ResourceGrantSnapshot} {policy : StoragePolicy}
    (hperm : snapshot'.rules.Perm snapshot.rules)
    (hcompile : StoragePolicy.compile vendor snapshot = .ok policy)
    {identity : StorageIdentity} {scope : StorageScope vendor} {defaultRoute : Str}
    {result : Option StorageDecision}
    (heval : policy.evaluate identity scope defaultRoute = .ok result) :
    ∃ policy', StoragePolicy.compile vendor snapshot' = .ok policy' ∧
      policy'.evaluate identity scope defaultRoute = .ok result := by
  obtain ⟨pairs, hpairs, hpermPairs⟩ :=
    List.perm_comp_forall₂ hperm (compile_eq_ok_iff.mp hcompile)
  let policy' : StoragePolicy :=
    { hub := ⟨pairs.map Prod.fst⟩, rules := pairs.map Prod.snd, aligned := by simp }
  have hzip : policy'.pairs = pairs := (List.zip_of_prod rfl rfl).symm
  refine ⟨policy', compile_eq_ok_iff.mpr (hzip ▸ hpairs), ?_⟩
  have hadmitted : (policy'.pairs.filter
      (StoragePolicy.pairMatches identity scope.projectId)).Perm
      (policy.pairs.filter (StoragePolicy.pairMatches identity scope.projectId)) :=
    (hzip ▸ hpermPairs).filter _
  rw [StoragePolicy.evaluate_eq] at heval ⊢
  simp only at heval ⊢
  rw [hadmitted.any_eq]
  split_ifs at heval ⊢ with hhub
  · exact heval
  · obtain ⟨authority, hfold, hdecision⟩ := ExceptList.map_eq_ok.mp heval
    exact ExceptList.map_eq_ok.mpr
      ⟨authority, ExceptList.foldlM_perm StoragePolicy.addPair_comm hadmitted.symm hfold, hdecision⟩

/-- **Exactness.** A key under the roots is covered for an operation exactly when one rule alone
grants it (and, for the global Hub, some rule that matches the caller carries `hub`). The rules in
any other order give the same decision. -/
theorem evaluate_exact {snapshot : ResourceGrantSnapshot} {policy : StoragePolicy}
    (hcompile : StoragePolicy.compile vendor snapshot = .ok policy)
    {identity : StorageIdentity} {scope : StorageScope vendor} {defaultRoute : Str}
    {result : Option StorageDecision}
    (heval : policy.evaluate identity scope defaultRoute = .ok result) :
    (∀ op key, (∃ root ∈ scope.roots vendor identity, Below '/' root key) →
      (Covers result op key ↔
        (scope.isGlobalHub = true →
          ∃ rule ∈ snapshot.rules, rule.CarriesHub vendor identity scope.projectId) ∧
        ∃ rule ∈ snapshot.rules, rule.Grants vendor identity scope.projectId op key)) ∧
    ∀ snapshot' : ResourceGrantSnapshot, snapshot'.rules.Perm snapshot.rules →
      ∃ policy', StoragePolicy.compile vendor snapshot' = .ok policy' ∧
        policy'.evaluate identity scope defaultRoute = .ok result :=
  ⟨fun op _ hkey => covers_iff hcompile heval op hkey,
    fun _ hperm => evaluate_perm hperm hcompile heval⟩

def Sample.hubMember : ResourceGrantRule where
  accessKind := " Organization".toList
  principal := "graphit".toList
  s3Route := []
  capabilities := ["hub".toList]
  projects := ["*".toList]
  s3Operations := []
  s3Prefixes := []

def Sample.readRegistry : ResourceGrantRule where
  accessKind := "user".toList
  principal := "alice".toList
  s3Route := []
  capabilities := ["s3:read".toList]
  projects := []
  s3Operations := []
  s3Prefixes := ["v1/hub/global/registry/{username}".toList]

def Sample.globalHub : StorageScope Sample.crates := StorageScope.globalHub

/-- The Hub capability comes from one rule and the prefix from another; they may be exchanged. -/
theorem evaluate_exact_globalHub :
    ∃ policy result,
      StoragePolicy.compile Sample.crates ⟨[Sample.hubMember, Sample.readRegistry]⟩ = .ok policy ∧
      policy.evaluate Sample.alice Sample.globalHub "main".toList = .ok result ∧
      Covers result .read "v1/hub/global/registry/alice/profile".toList ∧
      (∃ rule ∈ [Sample.hubMember, Sample.readRegistry], rule.Grants Sample.crates Sample.alice none
        .read "v1/hub/global/registry/alice/profile".toList) ∧
      ∃ policy',
        StoragePolicy.compile Sample.crates ⟨[Sample.readRegistry, Sample.hubMember]⟩ = .ok policy' ∧
        policy'.evaluate Sample.alice Sample.globalHub "main".toList = .ok result := by
  have hrun : ∃ policy result,
      StoragePolicy.compile Sample.crates ⟨[Sample.hubMember, Sample.readRegistry]⟩ = .ok policy ∧
      policy.evaluate Sample.alice Sample.globalHub "main".toList = .ok result ∧
      Covers result .read "v1/hub/global/registry/alice/profile".toList :=
    ⟨_, _, rfl, rfl, _, rfl, "v1/hub/global/registry/alice".toList, List.mem_cons_self, by decide⟩
  obtain ⟨policy, result, hcompile, heval, hcovers⟩ := hrun
  obtain ⟨hexact, horder⟩ := evaluate_exact hcompile heval
  have hroot : ∃ root ∈ Sample.globalHub.roots Sample.crates Sample.alice,
      Below '/' root "v1/hub/global/registry/alice/profile".toList :=
    ⟨"v1/hub/global/registry".toList, List.mem_cons_self, by decide⟩
  exact ⟨policy, result, hcompile, heval, hcovers, ((hexact .read _ hroot).mp hcovers).2,
    horder _ (List.Perm.swap ..)⟩

end GraphitBroker
