import GraphitBroker.OidcAuthorization

/-!
# Stored requests are admitted again

What `admit` stores is its own canonical form: the second admission finds the same resource and the
same scopes and fails none of the checks that the first one passed, up to the number of bytes.
-/

namespace GraphitBroker

open ExceptList

theorem trim_sublist (s : Str) : (trim s).Sublist s :=
  ( List.rdropWhile_prefix isWhitespace _).sublist.trans (List.dropWhile_sublist _)

theorem dropWhile_trim (s : Str) : (trim s).dropWhile isWhitespace = trim s := by
  rw [List.dropWhile_eq_self_iff]
  intro hlength
  have hstart : trim s <+: s.dropWhile isWhitespace := List.rdropWhile_prefix isWhitespace _
  have hlong : 0 < (s.dropWhile isWhitespace).length := hlength.trans_le hstart.length_le
  have hhead := List.dropWhile_get_zero_not isWhitespace s hlong
  obtain ⟨rest, hrest⟩ := hstart
  simp only [List.get_eq_getElem, ← hrest] at hhead
  rwa [List.getElem_append_left hlength] at hhead

theorem trim_trim (s : Str) : trim (trim s) = trim s := by
  rw [show trim (trim s) = List.rdropWhile isWhitespace ((trim s).dropWhile isWhitespace) from rfl,
    dropWhile_trim]
  exact List.rdropWhile_idempotent isWhitespace _

theorem byteLen_le_of_sublist {s t : Str} (h : s.Sublist t) : byteLen s ≤ byteLen t :=
  (h.map Char.utf8Size).sum_le_sum fun _ _ => Nat.zero_le _

theorem guardOriginal_of_early {late : Look → Bool} (h : ∀ look, late look = false) (look : Look) :
    guardOriginal late look = .ok () := by
  rw [guardOriginal, failIf_eq_ok, h look]
  simp

namespace OidcAuthorizationPolicy

variable {crates : UriCrates} {policy : OidcAuthorizationPolicy} {late : Look → Bool}

def cost (texts : List (Str × Nat)) : Nat := (texts.map fun t => byteLen t.1 + t.2).sum

theorem cost_cons (text : Str) (delimiter : Nat) (texts : List (Str × Nat)) :
    cost ((text, delimiter) :: texts) = byteLen text + delimiter + cost texts := by
  simp [cost]

theorem cost_le_of_boundTexts {round total : Nat} {texts : List (Str × Nat)}
    (h : boundTexts policy late round texts total = .ok ())
    (htotal : total ≤ policy.limits.parameterBytes) :
    total + cost texts ≤ policy.limits.parameterBytes := by
  induction texts generalizing round total with
  | nil => simpa [cost] using htotal
  | cons t texts ih =>
    simp only [boundTexts, bind_eq_ok, failIf_eq_ok, not_lt] at h
    obtain ⟨_, -, _, -, _, -, _, hnext, h⟩ := h
    have hrest := ih h hnext
    rw [cost_cons]
    omega

theorem boundTexts_of_early (hlate : ∀ look, late look = false) {round total : Nat}
    {texts : List (Str × Nat)} (htotal : total ≤ policy.limits.parameterBytes) :
    boundTexts policy late round texts total =
      if total + cost texts ≤ policy.limits.parameterBytes then .ok ()
      else .error .invalidRequest := by
  induction texts generalizing round total with
  | nil => simp [boundTexts, cost, htotal, pure, Except.pure]
  | cons t texts ih =>
    obtain ⟨text, delimiter⟩ := t
    have hlimit := policy.limits.parameterBytes_lt.2
    have hguard := guardOriginal_of_early hlate (.parameter round)
    by_cases hnext : total + byteLen text + delimiter ≤ policy.limits.parameterBytes
    · have hsmall : ¬ policy.limits.parameterBytes < byteLen text := by omega
      have hwide : ¬ (2 ^ 64 ≤ total + byteLen text ∨ 2 ^ 64 ≤ total + byteLen text + delimiter) := by
        omega
      have hsum : total + cost ((text, delimiter) :: texts) =
          total + byteLen text + delimiter + cost texts := by
        rw [cost_cons]
        omega
      simp only [boundTexts, hguard, failIf, if_neg hsmall, if_neg hwide, if_neg hnext.not_gt,
        ih hnext, hsum, bind, Except.bind]
    · -- the loop stops here, whichever of the three tests is the first to fail
      have hover : ¬ total + cost ((text, delimiter) :: texts) ≤ policy.limits.parameterBytes := by
        rw [cost_cons]
        omega
      rw [if_neg hover]
      simp only [boundTexts, hguard, failIf, if_pos (not_le.mp hnext), bind, Except.bind]
      split_ifs <;> rfl

structure ResourceAdmitted (crates : UriCrates) (policy : OidcAuthorizationPolicy) (value : Str) :
    Prop where
  trimmed : trim value = value
  nonempty : value ≠ []
  valid : validResource crates value = true
  accepted : value ∈ policy.acceptedResources

theorem admitResources_eq_ok {round : Nat} {raws : List Str} {before after : Option Str}
    (h : admitResources crates policy late round raws before = .ok after) :
    after = before ∨ ∃ raw ∈ raws, after = some (trim raw) ∧
      ResourceAdmitted crates policy (trim raw) := by
  induction raws generalizing round before with
  | nil => exact Or.inl (Except.ok.inj h).symm
  | cons raw raws ih =>
    simp only [admitResources, bind_eq_ok] at h
    obtain ⟨_, -, h⟩ := h
    split_ifs at h with hempty
    · rcases ih h with hsame | ⟨raw', hmem, hraw'⟩
      · exact Or.inl hsame
      · exact Or.inr ⟨raw', List.mem_cons_of_mem _ hmem, hraw'⟩
    · simp only [bind_eq_ok, failIf_eq_ok, not_or, Bool.not_eq_false, List.contains_iff_mem] at h
      obtain ⟨_, ⟨-, hvalid, haccepted⟩, h⟩ := h
      rcases ih h with hsame | ⟨raw', hmem, hraw'⟩
      · exact Or.inr ⟨raw, List.mem_cons_self, hsame, trim_trim raw, hempty, hvalid, haccepted⟩
      · exact Or.inr ⟨raw', List.mem_cons_of_mem _ hmem, hraw'⟩

theorem admitResources_again (hlate : ∀ look, late look = false) {resource : Option Str}
    (h : ∀ value ∈ resource, ResourceAdmitted crates policy value) :
    admitResources crates policy late 0 resource.toList none = .ok resource := by
  cases resource with
  | none => rfl
  | some value =>
    have hvalue := h value rfl
    simp only [Option.toList_some, admitResources, hvalue.trimmed, if_neg hvalue.nonempty,
      bind_eq_ok, failIf_eq_ok]
    exact ⟨(), guardOriginal_of_early hlate _, (),
      by simp [hvalue.valid, hvalue.accepted], rfl⟩

/-- The resources that are left once blank ones are skipped; `admit` accepts at most one. -/
def keptResources (raws : List Str) : List Str := (raws.map trim).filter (!·.isEmpty)

theorem keptResources_of_ok {round : Nat} {raws : List Str} {before after : Option Str}
    (h : admitResources crates policy late round raws before = .ok after) :
    before.toList ++ keptResources raws = after.toList := by
  induction raws generalizing round before with
  | nil =>
    obtain rfl := Except.ok.inj h
    simp [keptResources]
  | cons raw raws ih =>
    simp only [admitResources, bind_eq_ok] at h
    obtain ⟨_, -, h⟩ := h
    split_ifs at h with hempty
    · simpa [keptResources, hempty] using ih h
    · simp only [bind_eq_ok, failIf_eq_ok, not_or, Bool.not_eq_true, Option.isSome_eq_false_iff,
        Option.isNone_iff_eq_none] at h
      obtain ⟨_, ⟨rfl, -⟩, h⟩ := h
      simpa [keptResources, hempty] using ih h

theorem adds_iff {scope : Str} {scopes : List Str} :
    (refreshScopes.contains scope && !scopes.contains scope) = true ↔
      scope ∈ refreshScopes ∧ scope ∉ scopes := by
  simp

theorem admitScopes_eq_ok {round : Nat} {words before after : List Str}
    (h : admitScopes late round words before = .ok after) (hnodup : before.Nodup)
    (hknown : ∀ s ∈ before, s ∈ refreshScopes) :
    after.Nodup ∧ (∀ s ∈ after, s ∈ refreshScopes) ∧ after.Sublist (before ++ words) := by
  induction words generalizing round before with
  | nil =>
    obtain rfl := Except.ok.inj h
    exact ⟨hnodup, hknown, by simp⟩
  | cons scope words ih =>
    simp only [admitScopes, bind_eq_ok] at h
    obtain ⟨_, -, h⟩ := h
    split_ifs at h with hadd
    · rw [adds_iff] at hadd
      have hnext : (before ++ [scope]).Nodup := by
        rw [List.nodup_append]
        refine ⟨hnodup, List.nodup_singleton scope, ?_⟩
        rintro a ha b hb rfl
        exact hadd.2 (List.mem_singleton.mp hb ▸ ha)
      have hresult := ih h hnext (by
        intro s hs
        rcases List.mem_append.mp hs with hs | hs
        · exact hknown s hs
        · exact List.mem_singleton.mp hs ▸ hadd.1)
      simpa using hresult
    · obtain ⟨hafter, hall, hsub⟩ := ih h hnodup hknown
      have hskip := List.Sublist.append_left (List.sublist_cons_self scope words) before
      exact ⟨hafter, hall, hsub.trans hskip⟩

/-- The known scopes among the words, each where it stands first. -/
def keptScopes (words : List Str) : List Str :=
  words.foldl (fun scopes scope =>
    if refreshScopes.contains scope && !scopes.contains scope then scopes ++ [scope] else scopes) []

theorem keptScopes_of_ok {words after : List Str} (h : admitScopes late 0 words [] = .ok after) :
    after = keptScopes words := by
  suffices hfold : ∀ round before, admitScopes late round words before = .ok after →
      after = words.foldl (fun scopes scope => if refreshScopes.contains scope &&
        !scopes.contains scope then scopes ++ [scope] else scopes) before from hfold 0 [] h
  clear h
  induction words with
  | nil => exact fun round before h => (Except.ok.inj h).symm
  | cons scope words ih =>
    intro round before h
    simp only [admitScopes, bind_eq_ok] at h
    obtain ⟨_, -, h⟩ := h
    exact ih _ _ h

theorem admitScopes_again (hlate : ∀ look, late look = false) {round : Nat}
    {words before : List Str} (hnodup : (before ++ words).Nodup)
    (hknown : ∀ s ∈ words, s ∈ refreshScopes) :
    admitScopes late round words before = .ok (before ++ words) := by
  induction words generalizing round before with
  | nil => simp [admitScopes, pure, Except.pure]
  | cons scope words ih =>
    have hfresh : scope ∉ before := fun hmem =>
      (List.nodup_append.mp hnodup).2.2 scope hmem scope List.mem_cons_self rfl
    have hadd := adds_iff.mpr ⟨hknown scope List.mem_cons_self, hfresh⟩
    simp only [admitScopes, bind_eq_ok, if_pos hadd]
    refine ⟨(), guardOriginal_of_early hlate _, ?_⟩
    rw [ih (by simpa using hnodup) fun s hs => hknown s (List.mem_cons_of_mem _ hs)]
    simp

theorem space_notMem_of_known {s : Str} (h : s ∈ refreshScopes) : ' ' ∉ s ∧ s ≠ [] := by
  have hall : ∀ s ∈ refreshScopes, ' ' ∉ s ∧ s ≠ [] := by decide
  exact hall s h

theorem splitOn_joinScopes {scopes : List Str} (hne : scopes ≠ [])
    (hknown : ∀ s ∈ scopes, s ∈ refreshScopes) :
    ((joinScopes scopes).splitOn ' ').filter (!·.isEmpty) = scopes := by
  have hsplit : (joinScopes scopes).splitOn ' ' = scopes :=
    List.splitOn_intercalate ' ' (fun s hs => (space_notMem_of_known (hknown s hs)).1) hne
  rw [hsplit, List.filter_eq_self]
  intro s hs
  simpa using (space_notMem_of_known (hknown s hs)).2

theorem byteLen_joinScopes (scopes : List Str) :
    byteLen (joinScopes scopes) = (scopes.map fun s => byteLen s + 1).sum - 1 := by
  induction scopes with
  | nil => rfl
  | cons first rest ih =>
    cases rest with
    | nil => simp [joinScopes, List.intercalate]
    | cons second rest =>
      have hspace : byteLen " ".toList = 1 := rfl
      have hjoin : joinScopes (first :: second :: rest) =
          first ++ (" ".toList ++ joinScopes (second :: rest)) := by
        simp [joinScopes, List.intercalate]
      rw [hjoin, byteLen_append, byteLen_append, ih, hspace]
      simp only [List.map_cons, List.sum_cons]
      omega

theorem byteLen_joinScopes_le {xs ys : List Str} (h : xs.Sublist ys) :
    byteLen (joinScopes xs) ≤ byteLen (joinScopes ys) := by
  rw [byteLen_joinScopes, byteLen_joinScopes]
  exact Nat.sub_le_sub_right ((h.map _).sum_le_sum fun _ _ => Nat.zero_le _) 1

theorem joinScopes_splitOn (scope : Str) : joinScopes (scope.splitOn ' ') = scope :=
  List.intercalate_splitOn ' '

theorem driveSdk_again {late' : Look → Bool} (hlate : ∀ look, late' look = false)
    {input stored : OidcAuthorizationInput} {scope : Str}
    (h : driveSdk crates late input scope = .ok ())
    (hredirect : stored.redirectUri = input.redirectUri)
    (htype : stored.responseType = "code".toList)
    (hmethod : stored.codeChallengeMethod = input.codeChallengeMethod) :
    driveSdk crates late' stored scope = .ok () := by
  simp only [driveSdk, bind_eq_ok, failIf_eq_ok, hredirect, hmethod] at h ⊢
  obtain ⟨_, -, _, hexact, _, -, _, hcode, _, hs256, -⟩ := h
  have hlook := guardOriginal_of_early hlate
  refine ⟨(), hlook _, (), hexact, (), hlook _, (), ?_, (), hs256, (), hlook _, hlook _⟩
  rintro (hother | hscope)
  · exact hother htype
  · exact hcode (Or.inr hscope)

theorem responseType_of_driveSdk {input : OidcAuthorizationInput} {scope : Str}
    (h : driveSdk crates late input scope = .ok ()) : input.responseType = "code".toList := by
  simp only [driveSdk, bind_eq_ok, failIf_eq_ok] at h
  obtain ⟨_, -, _, -, _, -, _, hcode, -⟩ := h
  by_contra hother
  exact hcode (Or.inl hother)

theorem asStr_fromParameter (mode : Option Str) :
    (OidcAuthorizationResponseMode.fromParameter
      (some (OidcAuthorizationResponseMode.fromParameter mode).asStr)).asStr =
      (OidcAuthorizationResponseMode.fromParameter mode).asStr := by
  cases OidcAuthorizationResponseMode.fromParameter mode <;> decide

/-- The request that is read back from the row of an admitted one: without prompts and blank
resources, with the known scopes once and the response mode that was chosen. -/
def canonical (input : OidcAuthorizationInput) : OidcAuthorizationInput :=
  { input with
    scope := joinScopes (keptScopes ((input.scope.splitOn ' ').filter (!·.isEmpty)))
    responseMode := some (OidcAuthorizationResponseMode.fromParameter input.responseMode).asStr
    resources := keptResources input.resources
    prompts := [] }

variable {input : OidcAuthorizationInput} {client : ClientData} {fields : PendingFields}

theorem storedInput_eq_canonical (h : admission crates policy late input client = .ok fields) :
    storedInput fields = canonical input := by
  simp only [admission, bind_eq_ok] at h
  obtain ⟨_, -, _, -, _, -, _, -, _, -, resource, hresource, _, -, _, -, scopes, hscopes, _, -, _,
    hsdk, h⟩ := h
  obtain rfl := Except.ok.inj h
  have hresources : resource.toList = keptResources input.resources :=
    (keptResources_of_ok hresource).symm
  simp only [storedInput, canonical, hresources, ← keptScopes_of_ok hscopes,
    responseType_of_driveSdk hsdk]

theorem cost_storedInput_le (h : admission crates policy late input client = .ok fields) :
    cost (counted (storedInput fields)) ≤
      cost (counted { input with responseMode := some fields.responseMode }) := by
  simp only [admission, bind_eq_ok, failIf_eq_ok] at h
  obtain ⟨_, -, _, -, _, -, _, -, _, -, resource, hresource, _, -, _, -, scopes, hscopes, _, -, _,
    hsdk, h⟩ := h
  obtain rfl := Except.ok.inj h
  obtain ⟨-, -, hsub⟩ := admitScopes_eq_ok hscopes List.nodup_nil (by simp)
  have hscope : byteLen (joinScopes scopes) ≤ byteLen input.scope := by
    rw [List.nil_append] at hsub
    have hwords := byteLen_joinScopes_le (hsub.trans List.filter_sublist)
    rwa [joinScopes_splitOn] at hwords
  have htype := responseType_of_driveSdk hsdk
  have hresources : cost (resource.toList.map (·, 1)) ≤ cost (input.resources.map (·, 1)) := by
    rcases admitResources_eq_ok hresource with rfl | ⟨raw, hraw, rfl, -⟩
    · simp [cost]
    · have hmem : byteLen raw + 1 ∈
          (input.resources.map (·, 1)).map fun t => byteLen t.1 + t.2 := by
        simpa using ⟨raw, hraw, rfl⟩
      have hsum := List.single_le_sum (fun _ _ => Nat.zero_le _) _ hmem
      have htrim := byteLen_le_of_sublist (trim_sublist raw)
      simp only [cost, Option.toList_some, List.map_cons, List.map_nil, List.sum_cons, List.sum_nil]
      exact le_trans (by omega) hsum
  simp only [cost, counted, storedInput, htype, List.map_append, List.sum_append, List.map_cons,
    List.map_nil, List.sum_cons, List.sum_nil] at hresources ⊢
  omega

theorem admission_again (h : admission crates policy late input client = .ok fields)
    (hcost : cost (counted (storedInput fields)) ≤ policy.limits.parameterBytes)
    {late' : Look → Bool} (hlate : ∀ look, late' look = false) :
    admission crates policy late' (storedInput fields) client = .ok fields := by
  simp only [admission, bind_eq_ok, failIf_eq_ok] at h
  obtain ⟨_, -, _, hclient, _, hstate, _, -, _, hchallenge, resource, hresource, _, htarget, _,
    hredirect, scopes, hscopes, _, hopenid, _, hsdk, h⟩ := h
  obtain rfl := Except.ok.inj h
  obtain ⟨hnodup, hknown, -⟩ := admitScopes_eq_ok hscopes List.nodup_nil (by simp)
  have hne : scopes ≠ [] :=
    List.ne_nil_of_mem (List.contains_iff_mem.mp (Bool.not_eq_false _ ▸ hopenid))
  have hvalues : ∀ value ∈ resource, ResourceAdmitted crates policy value := by
    rintro value rfl
    rcases admitResources_eq_ok hresource with hnone | ⟨raw, -, hsome, hraw⟩
    · cases hnone
    · rwa [Option.some.inj hsome]
  have hbound : bound policy late' (storedInput _) = .ok () :=
    (boundTexts_of_early hlate (Nat.zero_le _)).trans (if_pos ((Nat.zero_add _).trans_le hcost))
  have hagain : admitScopes late' 0 scopes [] = .ok scopes := admitScopes_again hlate hnodup hknown
  simp only [admission, bind_eq_ok, failIf_eq_ok]
  refine ⟨(), hbound, (), hclient, (), hstate, (), Bool.false_ne_true, (), hchallenge, resource,
    admitResources_again hlate hvalues, (), htarget, (), hredirect, scopes, ?_, (), hopenid, (),
    driveSdk_again hlate hsdk rfl rfl rfl, ?_⟩
  · rw [show (storedInput _).scope = joinScopes scopes from rfl, splitOn_joinScopes hne hknown]
    exact hagain
  · rw [show (storedInput _).responseMode = some _ from rfl, asStr_fromParameter]
    rfl

theorem responseMode_of_admission (h : admission crates policy late input client = .ok fields) :
    fields.responseMode =
      (OidcAuthorizationResponseMode.fromParameter input.responseMode).asStr := by
  have hmode := congrArg OidcAuthorizationInput.responseMode (storedInput_eq_canonical h)
  exact Option.some.inj hmode

theorem phase_of_admission (h : admission crates policy late input client = .ok fields) :
    fields.format = pendingFormat ∧ fields.phase = pendingPhase ∧
      fields.apiAudience = policy.apiAudience := by
  simp only [admission, bind_eq_ok] at h
  obtain ⟨_, -, _, -, _, -, _, -, _, -, _, -, _, -, _, -, _, -, _, -, _, -, h⟩ := h
  obtain rfl := Except.ok.inj h
  exact ⟨rfl, rfl, rfl⟩

theorem revalidatePhase_of_admission (h : admission crates policy late input client = .ok fields)
    {late' : Look → Bool} (hlate : ∀ look, late' look = false) (phase : Str) :
    revalidatePhase crates policy late' { fields with phase := phase } client phase =
      if cost (counted (canonical input)) ≤ policy.limits.parameterBytes then .ok ()
      else .error .malformedStored := by
  obtain ⟨hformat, -, haudience⟩ := phase_of_admission h
  have hstored : storedInput { fields with phase := phase } = storedInput fields := rfl
  rw [← storedInput_eq_canonical h]
  have hrow : ¬ (fields.format ≠ pendingFormat ∨ phase ≠ phase ∨
      fields.apiAudience ≠ policy.apiAudience) := by simp [hformat, haudience]
  split_ifs with hcost
  · simp only [revalidatePhase, bind_eq_ok, failIf_eq_ok, mapError_eq_ok]
    exact ⟨(), hrow, fields, admission_again h hcost hlate, by simp⟩
  · have hbound : bound policy late' (storedInput fields) = .error .invalidRequest :=
      (boundTexts_of_early hlate (Nat.zero_le _)).trans
        (if_neg fun hfits => hcost ((Nat.zero_add _).symm.trans_le hfits))
    rw [revalidatePhase, failIf, if_neg hrow, hstored, admission, hbound]
    rfl

/-- An admitted request can be completed exactly if it fits the limit in the form that is stored: then
the row is read back without an error before it is authorized and after, and otherwise it is malformed
for every reader. A request fits if the response mode it names is no shorter than the one it is given. -/
theorem revalidates_iff_fits (h : admission crates policy late input client = .ok fields)
    {late' : Look → Bool} (hlate : ∀ look, late' look = false) :
    (revalidate crates policy late' fields client = .ok () ↔
        cost (counted (canonical input)) ≤ policy.limits.parameterBytes) ∧
      (revalidateAuthorized crates policy late' { fields with phase := authorizedPhase } client =
          .ok () ↔ cost (counted (canonical input)) ≤ policy.limits.parameterBytes) ∧
      (policy.limits.parameterBytes < cost (counted (canonical input)) →
        revalidate crates policy late' fields client = .error .malformedStored ∧
          revalidateAuthorized crates policy late' { fields with phase := authorizedPhase } client =
            .error .malformedStored) ∧
      (byteLen (OidcAuthorizationResponseMode.fromParameter input.responseMode).asStr ≤
          byteLen (input.responseMode.getD []) →
        cost (counted (canonical input)) ≤ policy.limits.parameterBytes) := by
  have hphase : { fields with phase := pendingPhase } = fields := by
    rw [← (phase_of_admission h).2.1]
  have hpending := revalidatePhase_of_admission h hlate pendingPhase
  rw [hphase] at hpending
  have hauthorized := revalidatePhase_of_admission h hlate authorizedPhase
  rw [revalidate, revalidateAuthorized, hpending, hauthorized]
  refine ⟨by simp, by simp, fun hover => by simp [hover], fun hmode => ?_⟩
  have hadmitted : cost (counted input) ≤ policy.limits.parameterBytes := by
    simp only [admission, bind_eq_ok] at h
    obtain ⟨_, hbound, -⟩ := h
    simpa using cost_le_of_boundTexts hbound (Nat.zero_le _)
  have hcost := cost_storedInput_le h
  rw [storedInput_eq_canonical h, responseMode_of_admission h] at hcost
  simp only [cost, counted, List.map_append, List.sum_append, List.map_cons, List.map_nil,
    List.sum_cons, List.sum_nil, Option.getD_some] at hcost hadmitted ⊢
  omega

end OidcAuthorizationPolicy

namespace Sample

def loopbackUri (port : Option Str) : Uri where
  scheme := "http".toList
  authority := some ⟨none, "127.0.0.1".toList, port⟩
  path := "/oauth/callback".toList
  query := none

def cliRedirect : Str := "http://127.0.0.1/oauth/callback".toList

def requestedRedirect : Str := "http://127.0.0.1:49152/oauth/callback".toList

def uriCrates : UriCrates where
  iri := fun raw =>
    if raw = cliRedirect then some (loopbackUri none)
    else if raw = requestedRedirect then some (loopbackUri (some "49152".toList))
    else none
  url := fun raw => raw == cliRedirect || raw == requestedRedirect
  loopbackIp := fun host => host == "127.0.0.1".toList
  percentDecode := utf8
  exactUrl := fun raw => raw == requestedRedirect
  scope := fun _ => true

def configuration : OidcAuthorizationConfiguration where
  cliClientId := "graphit-cli".toList
  cliRedirectPath := "/oauth/callback".toList
  apiAudience := "graphit-broker".toList
  acceptedResources := []
  dynamicRegistration := true
  authorizationTtl := 60 * 10 ^ 9

def exactLimits : OidcAuthorizationLimits := ⟨4096, 107, by decide, by decide⟩

def roomyLimits : OidcAuthorizationLimits := ⟨4096, 120, by decide, by decide⟩

def cliPolicy (limits : OidcAuthorizationLimits) : OidcAuthorizationPolicy where
  cliClientId := "graphit-cli".toList
  cliRedirect := cliRedirect
  apiAudience := "graphit-broker".toList
  acceptedResources := []
  dynamicRegistration := true
  ttlMicros := 60 * 10 ^ 6
  limits := limits

def cliClient : ClientData := ⟨"graphit-cli".toList, [cliRedirect], true⟩

def loginRequest : OidcAuthorizationInput where
  clientId := "graphit-cli".toList
  redirectUri := requestedRedirect
  responseType := "code".toList
  scope := "openid".toList
  state := "s".toList
  nonce := "n".toList
  codeChallenge := List.replicate 43 'A'
  codeChallengeMethod := "S256".toList
  responseMode := none
  resources := []
  prompts := []

def promptedRequest : OidcAuthorizationInput :=
  { loginRequest with scope := "openid openid".toList, prompts := ["login".toList] }

def loginFields : PendingFields where
  format := OidcAuthorizationPolicy.pendingFormat
  phase := OidcAuthorizationPolicy.pendingPhase
  clientId := "graphit-cli".toList
  apiAudience := "graphit-broker".toList
  resource := none
  redirectUri := requestedRedirect
  state := "s".toList
  scopes := ["openid".toList]
  responseMode := "query".toList
  nonce := "n".toList
  codeChallenge := List.replicate 43 'A'
  codeChallengeMethod := "S256".toList

def neverLate : Look → Bool := fun _ => false

end Sample

open OidcAuthorizationPolicy

/-- A request that fills the limit with a prompt and a repeated scope can be completed, since these are
not stored; one that fills it without them cannot. -/
theorem revalidates_iff_fits_prompted :
    admission Sample.uriCrates (Sample.cliPolicy Sample.roomyLimits) Sample.neverLate
        Sample.promptedRequest Sample.cliClient = .ok Sample.loginFields ∧
      revalidate Sample.uriCrates (Sample.cliPolicy Sample.roomyLimits) Sample.neverLate
        Sample.loginFields Sample.cliClient = .ok () ∧
      ¬ revalidateAuthorized Sample.uriCrates (Sample.cliPolicy Sample.exactLimits)
        Sample.neverLate { Sample.loginFields with phase := authorizedPhase } Sample.cliClient =
          .ok () := by
  have hprompted : admission Sample.uriCrates (Sample.cliPolicy Sample.roomyLimits)
      Sample.neverLate Sample.promptedRequest Sample.cliClient = .ok Sample.loginFields := rfl
  have hexact : admission Sample.uriCrates (Sample.cliPolicy Sample.exactLimits)
      Sample.neverLate Sample.loginRequest Sample.cliClient = .ok Sample.loginFields := rfl
  have hover : ¬ cost (counted (canonical Sample.loginRequest)) ≤ 107 := by decide
  exact ⟨hprompted, (revalidates_iff_fits hprompted fun _ => rfl).1.mpr (by decide),
    fun hread => hover ((revalidates_iff_fits hexact fun _ => rfl).2.1.mp hread)⟩

/-- A request without a response mode may fill the limit. It is admitted, and the row that is
written is malformed for every later reader: with the mode `query` it is five bytes too long. -/
theorem omitted_mode_rejected :
    OidcAuthorizationPolicy.new Sample.uriCrates Sample.configuration Sample.exactLimits =
        .ok (Sample.cliPolicy Sample.exactLimits) ∧
      admission Sample.uriCrates (Sample.cliPolicy Sample.exactLimits) Sample.neverLate
        Sample.loginRequest Sample.cliClient = .ok Sample.loginFields ∧
      revalidate Sample.uriCrates (Sample.cliPolicy Sample.exactLimits) Sample.neverLate
        Sample.loginFields Sample.cliClient = .error .malformedStored :=
  ⟨rfl, rfl, rfl⟩

end GraphitBroker
