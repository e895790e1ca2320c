import GraphitBroker.StoragePolicy

/-!
# Roots of storage scopes

Every root of a scope is a safe path, and no key lies below roots of two different scopes.
-/

namespace GraphitBroker

open SepPath

variable {vendor : Vendor}

theorem segmentText_iff {s : Str} :
    segmentText s = true ↔
      s ≠ [] ∧ byteLen s ≤ 128 ∧ s.head?.any Char.isAlphanum = true ∧
        ∀ c ∈ s, segmentChar c = true := by
  simp only [segmentText, Bool.and_eq_true, Bool.not_eq_true', List.isEmpty_eq_false_iff,
    decide_eq_true_eq, List.all_eq_true, and_assoc]

theorem safeSegment_iff {s : Str} : safeSegment s = true ↔ segmentText s = true := by
  rw [safeSegment, Bool.and_eq_true, Bool.and_eq_true, bne_iff_ne, bne_iff_ne]
  constructor
  · exact fun h => h.1.1
  · intro h
    have hhead := (segmentText_iff.mp h).2.2.1
    refine ⟨⟨h, ?_⟩, ?_⟩
    · rintro rfl
      revert hhead
      decide
    · rintro rfl
      revert hhead
      decide

theorem not_slash_mem_of_safeSegment {s : Str} (h : safeSegment s = true) : '/' ∉ s := by
  intro hmem
  have := (segmentText_iff.mp (safeSegment_iff.mp h)).2.2.2 '/' hmem
  revert this
  decide

theorem safePath_iff_words {s : Str} :
    safePath s = true ↔ ∀ word ∈ s.splitOn '/', safeSegment word = true := by
  rw [safePath, Bool.and_eq_true, List.all_eq_true]
  constructor
  · exact fun h => h.2
  · intro h
    refine ⟨?_, h⟩
    cases s with
    | nil =>
      have := h [] (by decide)
      revert this
      decide
    | cons c s => rfl

theorem safeSegment_of_digits {alphabet s : Str}
    (hall : alphabet.all (fun c => c.isAlphanum && c.utf8Size == 1) = true)
    (hs : ∀ c ∈ s, c ∈ alphabet) (hne : s ≠ []) (hlen : s.length ≤ 128) :
    safeSegment s = true := by
  have halphabet : ∀ c ∈ alphabet, c.isAlphanum = true ∧ c.utf8Size = 1 := by
    simpa using hall
  rw [safeSegment_iff, segmentText_iff]
  refine ⟨hne, ?_, ?_, ?_⟩
  · rw [byteLen_eq_length fun c hc => (halphabet c (hs c hc)).2]
    exact hlen
  · cases s with
    | nil => exact absurd rfl hne
    | cons c s => simpa using (halphabet c (hs c List.mem_cons_self)).1
  · intro c hc
    rw [segmentChar, (halphabet c (hs c hc)).1, Bool.true_or]

theorem safeSegment_of_canonicalProjectId {id : Str} (h : canonicalProjectId vendor id = true) :
    safeSegment id = true := by
  unfold canonicalProjectId at h
  split at h
  · exact absurd h Bool.false_ne_true
  · rename_i ulid _
    have heq : vendor.ulid.arrayToStr ulid = id := by
      simpa using (Bool.and_eq_true_iff.mp h).2
    have hlen := vendor.ulid.length_arrayToStr ulid
    rw [← heq]
    refine @safeSegment_of_digits crockford _ rfl
      (vendor.ulid.mem_arrayToStr ulid) ?_ (by omega)
    intro hnil
    rw [hnil] at hlen
    simp at hlen

theorem safeSegment_of_validInstallationId {id : Str} (h : validInstallationId id = true) :
    safeSegment id = true := by
  simp only [validInstallationId, Bool.and_eq_true, decide_eq_true_eq, List.all_eq_true] at h
  obtain ⟨⟨⟨⟨hpos, hlen⟩, hhead⟩, _⟩, hall⟩ := h
  rw [safeSegment_iff, segmentText_iff]
  refine ⟨?_, hlen, hhead, hall⟩
  rintro rfl
  simp [byteLen] at hpos

theorem safeSegment_userNamespace (issuer subject : Str) :
    safeSegment (userNamespace vendor issuer subject) = true := by
  have hlen : (userNamespace vendor issuer subject).length = 64 := by
    rw [userNamespace, length_hexEncode, (vendor.sha256 _).property]
  refine @safeSegment_of_digits hexDigits _ rfl (fun c hc => hexEncode_mem hc) ?_
    (by omega)
  intro hnil
  rw [hnil] at hlen
  simp at hlen

theorem userNamespaceInput_inj {issuer subject issuer' subject' : Str}
    (hissuer : byteLen issuer < 2 ^ 63) (hissuer' : byteLen issuer' < 2 ^ 63)
    (h : userNamespaceInput issuer subject = userNamespaceInput issuer' subject') :
    issuer = issuer' ∧ subject = subject' := by
  simp only [userNamespaceInput, List.flatMap_cons, List.flatMap_nil, List.append_nil,
    List.append_assoc] at h
  have hparts := List.append_cancel_left h
  obtain ⟨hlen, hrest⟩ := List.append_inj hparts (by simp)
  have hbytes : byteLen issuer = byteLen issuer' :=
    beBytes_inj (by omega) (by omega) hlen
  obtain ⟨hfirst, hsecond⟩ := List.append_inj hrest (by rw [length_utf8, length_utf8, hbytes])
  have hlast := (List.append_inj hsecond (by simp)).2
  exact ⟨utf8_injective hfirst, utf8_injective hlast⟩

def NamespaceCollisionFree (vendor : Vendor) (identity identity' : StorageIdentity) : Prop :=
  vendor.sha256 (userNamespaceInput identity.issuer identity.subject) =
      vendor.sha256 (userNamespaceInput identity'.issuer identity'.subject) →
    userNamespaceInput identity.issuer identity.subject =
      userNamespaceInput identity'.issuer identity'.subject

theorem NamespaceCollisionFree.symm {identity identity' : StorageIdentity}
    (h : NamespaceCollisionFree vendor identity identity') :
    NamespaceCollisionFree vendor identity' identity :=
  fun heq => (h heq.symm).symm

theorem userNamespace_ne {identity identity' : StorageIdentity}
    (hfree : NamespaceCollisionFree vendor identity identity')
    (hne : (identity.issuer, identity.subject) ≠ (identity'.issuer, identity'.subject)) :
    userNamespace vendor identity.issuer identity.subject ≠
      userNamespace vendor identity'.issuer identity'.subject := by
  intro heq
  have hdigest := Subtype.ext (hexEncode_injective heq)
  have hparts := userNamespaceInput_inj identity.issuer_fits identity'.issuer_fits (hfree hdigest)
  exact hne (Prod.ext hparts.1 hparts.2)

namespace StorageScope

def moduleWords : StorageModule → List (List Str)
  | .hub => [["registry"], ["artifacts"], ["hub", "metadata"], ["hub", "events"]].map
      (List.map String.toList)
  | storageModule => [["corpora".toList, storageModule.asStr.toList]]

def rootWords (scope : StorageScope vendor) (identity : StorageIdentity) : List (List Str) :=
  match scope.kind with
  | .globalHub =>
    [["registry".toList], ["rules".toList]].map (["v1".toList, "hub".toList, "global".toList] ++ ·)
  | .project projectId storageModule =>
    (moduleWords storageModule).map (["v1".toList, "projects".toList, projectId] ++ ·)
  | .userMemory installationId =>
    [ ["v1".toList, "installations".toList, installationId, "users".toList,
        userNamespace vendor identity.issuer identity.subject, "corpora".toList,
        "memory".toList] ]

theorem safe_moduleWords :
    ∀ storageModule, ∀ words ∈ moduleWords storageModule, ∀ word ∈ words,
      safeSegment word = true := by
  intro storageModule
  cases storageModule <;> decide

theorem moduleWords_incomparable :
    ∀ storageModule storageModule' : StorageModule, storageModule ≠ storageModule' →
      ∀ words ∈ moduleWords storageModule, ∀ words' ∈ moduleWords storageModule',
        ¬ words <+: words' := by
  intro storageModule storageModule'
  cases storageModule <;> cases storageModule' <;> decide

variable {identity : StorageIdentity} {scope : StorageScope vendor}

theorem safe_rootWords {words : List Str} (hwords : words ∈ scope.rootWords identity) :
    words ≠ [] ∧ ∀ word ∈ words, safeSegment word = true := by
  obtain ⟨kind, hvalid⟩ := scope
  cases kind with
  | globalHub =>
    have hall : ∀ words ∈ [["registry".toList], ["rules".toList]].map
        (["v1".toList, "hub".toList, "global".toList] ++ ·),
        words ≠ [] ∧ ∀ word ∈ words, safeSegment word = true := by decide
    exact hall words hwords
  | project projectId storageModule =>
    obtain ⟨tail, htail, rfl⟩ := List.mem_map.mp hwords
    have hid := safeSegment_of_canonicalProjectId hvalid
    refine ⟨by simp, ?_⟩
    simp only [List.cons_append, List.nil_append, List.forall_mem_cons]
    exact ⟨by decide, by decide, hid, safe_moduleWords storageModule tail htail⟩
  | userMemory installationId =>
    have hid := safeSegment_of_validInstallationId hvalid
    have hns := @safeSegment_userNamespace vendor identity.issuer identity.subject
    rw [List.mem_singleton.mp hwords]
    refine ⟨by simp, ?_⟩
    simp only [List.forall_mem_cons]
    exact ⟨by decide, by decide, hid, by decide, hns, by decide, by decide, by simp⟩

theorem intercalate_rootWords (scope : StorageScope vendor) (identity : StorageIdentity) :
    (scope.rootWords identity).map ['/'].intercalate = scope.roots vendor identity := by
  obtain ⟨kind, hvalid⟩ := scope
  have hjoin : ∀ (first : Str) (second : Str) (rest : List Str),
      ['/'].intercalate (first :: second :: rest) =
        first ++ '/' :: ['/'].intercalate (second :: rest) := by
    intro first second rest
    simp [List.intercalate]
  have hone : ∀ word : Str, ['/'].intercalate [word] = word := by
    intro word
    simp [List.intercalate]
  cases kind with
  | globalHub => rfl
  | project projectId storageModule =>
    by_cases hhub : storageModule = .hub
    · subst hhub
      change [['/'].intercalate [_, _, _, _], ['/'].intercalate [_, _, _, _],
        ['/'].intercalate [_, _, _, _, _], ['/'].intercalate [_, _, _, _, _]] =
        [_ ++ projectId ++ _, _ ++ projectId ++ _, _ ++ projectId ++ _, _ ++ projectId ++ _]
      simp [hjoin, hone]
    · have hroots : ['/'].intercalate ["v1".toList, "projects".toList, projectId,
          "corpora".toList, storageModule.asStr.toList] =
          "v1/projects/".toList ++ projectId ++ "/corpora/".toList ++
            storageModule.asStr.toList := by
        simp [hjoin, hone]
      cases storageModule with
      | hub => exact absurd rfl hhub
      | task => exact congrArg (fun root => [root]) hroots
      | memory => exact congrArg (fun root => [root]) hroots
      | knowledge => exact congrArg (fun root => [root]) hroots
      | ast => exact congrArg (fun root => [root]) hroots
  | userMemory installationId =>
    change [['/'].intercalate [_, _, _, _, _, _, _]] = [_ ++ installationId ++ _ ++ _ ++ _]
    simp [hjoin, hone]

theorem splitOn_root_mem {root : Str}
    (h : root ∈ scope.roots vendor identity) : root.splitOn '/' ∈ scope.rootWords identity := by
  rw [← intercalate_rootWords, List.mem_map] at h
  obtain ⟨words, hwords, rfl⟩ := h
  obtain ⟨hne, hsafe⟩ := safe_rootWords hwords
  rw [List.splitOn_intercalate '/' ?_ hne]
  · exact hwords
  · intro word hword
    exact not_slash_mem_of_safeSegment (hsafe word hword)

theorem safePath_root {root : Str} (h : root ∈ scope.roots vendor identity)
    : safePath root = true := by
  rw [safePath_iff_words]
  exact (safe_rootWords (splitOn_root_mem h)).2

/-- Two requests for different storage: scopes of different kinds, project ids, modules or
installations, or user memory of callers with a different issuer or subject. -/
def Distinct (scope : StorageScope vendor) (identity : StorageIdentity)
    (scope' : StorageScope vendor) (identity' : StorageIdentity) : Prop :=
  scope.kind ≠ scope'.kind ∨
    (∃ installationId, scope.kind = .userMemory installationId) ∧
      (identity.issuer, identity.subject) ≠ (identity'.issuer, identity'.subject)

theorem Distinct.symm {scope scope' : StorageScope vendor} {identity identity' : StorageIdentity}
    (h : Distinct scope identity scope' identity') : Distinct scope' identity' scope identity := by
  by_cases hkind : scope.kind = scope'.kind
  · rcases h with h | ⟨⟨installationId, hmemory⟩, hne⟩
    · exact absurd hkind h
    · exact Or.inr ⟨⟨installationId, hkind ▸ hmemory⟩, hne.symm⟩
  · exact Or.inl (Ne.symm hkind)

def kindWord : StorageScopeKind → String
  | .globalHub => "hub"
  | .project _ _ => "projects"
  | .userMemory _ => "installations"

theorem rootWords_kindWord {words : List Str} (h : words ∈ scope.rootWords identity) :
    [some "v1".toList, some (kindWord scope.kind).toList] = [words[0]?, words[1]?] := by
  obtain ⟨kind, hvalid⟩ := scope
  cases kind with
  | globalHub =>
    obtain ⟨tail, _, rfl⟩ := List.mem_map.mp h
    rfl
  | project projectId storageModule =>
    obtain ⟨tail, _, rfl⟩ := List.mem_map.mp h
    rfl
  | userMemory installationId =>
    rw [List.mem_singleton.mp h]
    rfl

theorem rootWords_incomparable {scope scope' : StorageScope vendor}
    {identity identity' : StorageIdentity} (hdistinct : Distinct scope identity scope' identity')
    (hfree : NamespaceCollisionFree vendor identity identity') {words words' : List Str}
    (hwords : words ∈ scope.rootWords identity) (hwords' : words' ∈ scope'.rootWords identity') :
    ¬ words <+: words' := by
  intro hprefix
  obtain ⟨kind, hvalid⟩ := scope
  obtain ⟨kind', hvalid'⟩ := scope'
  -- a common prefix fixes the kind, as it contains the second word
  have hkindWord : kindWord kind = kindWord kind' := by
    have h := rootWords_kindWord hwords
    have h' := rootWords_kindWord hwords'
    obtain ⟨tail, rfl⟩ := hprefix
    have hlen : 1 < words.length := by
      by_contra hle
      simp [List.getElem?_eq_none (Nat.le_of_not_lt hle)] at h
    rw [List.getElem?_append_left hlen] at h'
    simp only [List.cons.injEq] at h h'
    exact String.toList_injective (Option.some.inj (h.2.1.trans h'.2.1.symm))
  cases kind with
  | globalHub =>
    cases kind' with
    | globalHub => simp [Distinct] at hdistinct
    | project projectId storageModule => simp [kindWord] at hkindWord
    | userMemory installationId => simp [kindWord] at hkindWord
  | project projectId storageModule =>
    cases kind' with
    | globalHub => simp [kindWord] at hkindWord
    | project projectId' storageModule' =>
      obtain ⟨tail, htail, rfl⟩ := List.mem_map.mp hwords
      obtain ⟨tail', htail', rfl⟩ := List.mem_map.mp hwords'
      simp only [List.cons_append, List.nil_append, List.cons_prefix_cons, true_and] at hprefix
      obtain ⟨rfl, hprefix⟩ := hprefix
      refine moduleWords_incomparable storageModule storageModule' ?_ tail htail tail' htail'
        hprefix
      rintro rfl
      simp [Distinct] at hdistinct
    | userMemory installationId => simp [kindWord] at hkindWord
  | userMemory installationId =>
    cases kind' with
    | globalHub => simp [kindWord] at hkindWord
    | project projectId storageModule => simp [kindWord] at hkindWord
    | userMemory installationId' =>
      rw [List.mem_singleton.mp hwords, List.mem_singleton.mp hwords'] at hprefix
      simp only [List.cons_prefix_cons, true_and] at hprefix
      obtain ⟨rfl, hns, _⟩ := hprefix
      rcases hdistinct with hne | ⟨_, hne⟩
      · exact hne rfl
      · exact userNamespace_ne hfree hne hns

theorem not_below_roots {scope scope' : StorageScope vendor} {identity identity' : StorageIdentity}
    (hdistinct : Distinct scope identity scope' identity')
    (hfree : NamespaceCollisionFree vendor identity identity') {root root' key : Str}
    (hroot : root ∈ scope.roots vendor identity) (hroot' : root' ∈ scope'.roots vendor identity')
    (hkey : Below '/' root key) : ¬ Below '/' root' key :=
  not_below_of_words
    (rootWords_incomparable hdistinct hfree (splitOn_root_mem hroot) (splitOn_root_mem hroot'))
    (rootWords_incomparable hdistinct.symm hfree.symm (splitOn_root_mem hroot')
      (splitOn_root_mem hroot))
    hkey

end StorageScope

end GraphitBroker
