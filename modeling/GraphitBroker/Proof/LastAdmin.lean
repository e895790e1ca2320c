import GraphitBroker.AdminAccounts

/-!
# An administrator always remains

An assignment of the administrators' role is effective if its subject is not local, or is an enabled
local user.
-/

namespace GraphitBroker

open ExceptList

namespace ControlDb

variable {env : AdminEnv} {d d' : ControlDb} {subject s : Str}

def EffectiveAdmin (d : ControlDb) (subject : Str) : Prop :=
  (d.assignments.get? (toLex (subject, adminRole))).isSome ∧
    (¬"local|".toList <+: subject ∨
      ∃ username u, d.users.get? username = some u ∧ u.enabled = 1 ∧ localSubject u.subject = subject)

def HasAdmin (d : ControlDb) : Prop := ∃ subject, d.EffectiveAdmin subject

theorem localSubject_injective : Function.Injective localSubject :=
  fun _ _ h => List.append_cancel_left h

theorem isPrefix_localSubject (subject : Str) : "local|".toList <+: localSubject subject :=
  List.prefix_append _ _

theorem EffectiveAdmin.keep (h : d.EffectiveAdmin s)
    (hassignment : (d.assignments.get? (toLex (s, adminRole))).isSome →
      (d'.assignments.get? (toLex (s, adminRole))).isSome)
    (husers : ∀ username u, d.users.get? username = some u → u.enabled = 1 → localSubject u.subject = s →
      ∃ username' u', d'.users.get? username' = some u' ∧ u'.enabled = 1 ∧
        localSubject u'.subject = s) : d'.EffectiveAdmin s := by
  refine ⟨hassignment h.1, h.2.imp_right ?_⟩
  rintro ⟨username, u, hu, henabled, hsubject⟩
  exact husers username u hu henabled hsubject

def SameAccounts (d d' : ControlDb) : Prop := d'.users = d.users ∧ d'.assignments = d.assignments

theorem SameAccounts.refl (d : ControlDb) : SameAccounts d d := ⟨rfl, rfl⟩

theorem SameAccounts.effectiveAdmin (h : SameAccounts d d') : d'.EffectiveAdmin s ↔ d.EffectiveAdmin s := by
  rw [EffectiveAdmin, EffectiveAdmin, h.1, h.2]

theorem SameAccounts.hasAdmin (h : SameAccounts d d') : d'.HasAdmin ↔ d.HasAdmin :=
  exists_congr fun _ => h.effectiveAdmin

theorem another_of_anotherAdmin (h : d.anotherAdmin env s = .ok ()) :
    ∃ s', s' ≠ s ∧ d.EffectiveAdmin s' := by
  simp only [anotherAdmin, bind_eq_ok] at h
  obtain ⟨-, -, -, -, -, -, h⟩ := h
  split_ifs at h with hexternal
  · obtain ⟨⟨k, v⟩, hmem, hk⟩ := List.any_eq_true.mp hexternal
    simp only [Bool.and_eq_true, beq_iff_eq, bne_iff_ne, Bool.not_eq_true', ne_eq] at hk
    obtain ⟨⟨hrole, hne⟩, hlocal⟩ := hk
    refine ⟨(ofLex k).1, hne, ?_, Or.inl fun hbegin => ?_⟩
    · have hkey : toLex ((ofLex k).1, adminRole) = k := by rw [← hrole]; rfl
      rw [hkey, SortedMap.mem_entries_iff.mp hmem]
      rfl
    · rw [List.isPrefixOf_iff_prefix.mpr hbegin] at hlocal
      cases hlocal
  · simp only [bind_eq_ok] at h
    obtain ⟨-, -, h⟩ := h
    split at h
    · cases h
    · next entry hentry =>
      have hmem := List.mem_filter.mp (List.mem_of_getElem? hentry)
      simp only [Bool.and_eq_true, beq_iff_eq, bne_iff_ne, ne_eq] at hmem
      obtain ⟨huser, ⟨hassigned, hne⟩, henabled⟩ := hmem
      exact ⟨_, hne, hassigned,
        Or.inr ⟨entry.1, entry.2, SortedMap.mem_entries_iff.mp huser, henabled, rfl⟩⟩

variable {error : AdminUsersError} {username : Str} {input : AdminUserInput} {status : Nat}

theorem another_of_lastAdmin (h : d.lastAdmin env subject error = .ok ())
    (hd : d.HasAdmin) : ∃ s, s ≠ localSubject subject ∧ d.EffectiveAdmin s := by
  simp only [lastAdmin, bind_eq_ok, checkIf_eq_ok, mapError_eq_ok] at h
  obtain ⟨-, -, h⟩ := h
  by_cases hassigned : (d.assignments.get? (toLex (localSubject subject, adminRole))).isSome
  · exact another_of_anotherAdmin (h hassigned)
  · obtain ⟨s, hs⟩ := hd
    refine ⟨s, ?_, hs⟩
    rintro rfl
    exact hassigned hs.1

theorem sameAccounts_dropRequests {env : TxEnv} (rows : List (Str × AuthRequestRow)) {round : Nat}
    (h : dropRequests env subject round rows d = .ok d') : SameAccounts d d' := by
  induction rows generalizing round d with
  | nil =>
    obtain rfl := Except.ok.inj h
    exact .refl d
  | cons row rest ih =>
    simp only [dropRequests, bind_eq_ok] at h
    obtain ⟨-, -, h⟩ := h
    split_ifs at h with hsubject
    · exact ih h
    · simp only [bind_eq_ok] at h
      obtain ⟨preserve, -, -, -, h⟩ := h
      split_ifs at h with hpreserve
      · exact ih h
      · simp only [bind_eq_ok] at h
        obtain ⟨-, -, h⟩ := h
        obtain ⟨husers, hassignments⟩ := ih h
        exact ⟨husers, hassignments⟩

theorem sameAccounts_invalidateLocalUser {env : TxEnv} {preserveDevice : Bool} {now : Int}
    (h : invalidateLocalUser env subject preserveDevice now d = .ok d') : SameAccounts d d' := by
  simp only [invalidateLocalUser, bind_eq_ok] at h
  obtain ⟨-, -, d₁, hdrop, -, -, h⟩ := h
  have hsame : SameAccounts d d₁ := by
    obtain ⟨husers, hassignments⟩ := sameAccounts_dropRequests _ hdrop
    exact ⟨husers, hassignments⟩
  split_ifs at h with hpreserve
  · obtain rfl := Except.ok.inj h
    exact hsame
  · simp only [bind_eq_ok] at h
    obtain ⟨-, -, h⟩ := h
    obtain rfl := Except.ok.inj h
    exact hsame

theorem insertRoles_spec {now : Int} (roles : List Str) {round : Nat}
    (h : insertRoles env subject now error round roles d = .ok d') :
    d'.users = d.users ∧ ∀ k, (d'.assignments.get? k).isSome ↔
      (d.assignments.get? k).isSome ∨ ∃ role ∈ roles, k = toLex (localSubject subject, role) := by
  induction roles generalizing round d with
  | nil =>
    obtain rfl := Except.ok.inj h
    exact ⟨rfl, fun k => by simp⟩
  | cons role rest ih =>
    simp only [insertRoles, bind_eq_ok] at h
    obtain ⟨-, -, -, -, -, -, h⟩ := h
    obtain ⟨husers, hassignments⟩ := ih h
    refine ⟨husers, fun k => ?_⟩
    rw [hassignments, SortedMap.get?_insert]
    by_cases hk : k = toLex (localSubject subject, role)
    · simp [hk]
    · simp [hk]

theorem replaceRoles_spec {roles : SortedSet Str} {now : Int}
    (h : replaceRoles env subject roles now error d = .ok d') :
    d'.users = d.users ∧
      (s ≠ localSubject subject → (d.assignments.get? (toLex (s, adminRole))).isSome →
        (d'.assignments.get? (toLex (s, adminRole))).isSome) ∧
      (adminRole ∈ roles → (d'.assignments.get? (toLex (localSubject subject, adminRole))).isSome) := by
  simp only [replaceRoles, bind_eq_ok] at h
  obtain ⟨-, -, h⟩ := h
  obtain ⟨husers, hassignments⟩ := insertRoles_spec _ h
  refine ⟨husers, fun hne hsome => ?_, fun hrole => ?_⟩
  · rw [hassignments]
    left
    obtain ⟨at_, hat⟩ := Option.isSome_iff_exists.mp hsome
    rw [SortedMap.get?_filter, hat]
    simp [Option.filter, hne]
  · rw [hassignments]
    exact Or.inr ⟨adminRole, hrole, rfl⟩

theorem writeUser_spec {old new : Str} {row : LocalUser}
    (h : d.writeUser env old new row error = .ok d') :
    (new = old ∨ d.users.get? new = none) ∧
      d' = { d with users := (d.users.erase old).insert new row } := by
  simp only [writeUser, bind_eq_ok, failIf_eq_ok] at h
  obtain ⟨-, -, -, hfree, h⟩ := h
  refine ⟨?_, (Except.ok.inj h).symm⟩
  by_cases hname : new = old
  · exact Or.inl hname
  · right
    rw [not_and] at hfree
    simpa using hfree hname

theorem target_spec {current : Str × LocalUser} (h : d.target env username error = .ok current) :
    current.1 = trim username ∧ d.users.get? current.1 = some current.2 := by
  simp only [target, bind_eq_ok] at h
  obtain ⟨-, -, -, -, h⟩ := h
  split at h
  · cases h
  · next u hu =>
    simp only [bind_eq_ok] at h
    obtain ⟨-, -, h⟩ := h
    obtain rfl := Except.ok.inj h
    exact ⟨rfl, hu⟩

theorem effectiveAdmin_write {old new : Str} {u row : LocalUser} (hu : d.users.get? old = some u)
    (hnew : new = old ∨ d.users.get? new = none)
    (hrow : row.subject = u.subject) (h : d.EffectiveAdmin s)
    (hsame : s ≠ localSubject u.subject ∨ row.enabled = u.enabled) :
    EffectiveAdmin { d with users := (d.users.erase old).insert new row } s := by
  refine h.keep id fun username v hv henabled hsubject => ?_
  by_cases hname : username = old
  · subst hname
    obtain rfl := Option.some.inj (hu.symm.trans hv)
    refine ⟨new, row, ?_, ?_, hrow ▸ hsubject⟩
    · show ((d.users.erase username).insert new row).get? new = some row
      rw [SortedMap.get?_insert, if_pos rfl]
    · rw [hsame.resolve_left fun hne => hne hsubject.symm, henabled]
  · refine ⟨username, v, ?_, henabled, hsubject⟩
    have hne : username ≠ new := by
      rintro rfl
      rcases hnew with heq | hnone
      · exact hname heq
      · rw [hv] at hnone
        cases hnone
    show ((d.users.erase old).insert new row).get? username = some v
    rw [SortedMap.get?_insert, if_neg hne, SortedMap.get?_erase, if_neg hname, hv]

theorem hasAdmin_createUser (hd : d.HasAdmin)
    (h : createUser env input d = .ok (status, d')) : d'.HasAdmin := by
  simp only [createUser, bind_eq_ok, failIf_eq_ok] at h
  obtain ⟨u, -, phc, -, now, -, -, -, -, hfree, d₁, hroles, h⟩ := h
  obtain ⟨-, rfl⟩ := Prod.mk.inj (Except.ok.inj h)
  rw [not_or] at hfree
  obtain ⟨s, hs⟩ := hd
  -- the subject of the new user had no effective assignment, since no user had it
  have hne : s ≠ localSubject u.subject := by
    rintro rfl
    rcases hs.2 with hexternal | ⟨username, v, hv, -, hsubject⟩
    · exact hexternal (isPrefix_localSubject _)
    · refine hfree.2 (List.any_eq_true.mpr ⟨(username, v), SortedMap.mem_entries_iff.mpr hv, ?_⟩)
      exact beq_iff_eq.mpr (localSubject_injective hsubject)
  obtain ⟨husers, hkept, -⟩ := replaceRoles_spec hroles
  refine ⟨s, hs.keep (hkept hne) fun username v hv henabled hsubject => ⟨username, v, ?_, henabled, hsubject⟩⟩
  have hname : username ≠ u.username := by
    rintro rfl
    rw [hv] at hfree
    exact hfree.1 rfl
  rw [husers]
  show (d.users.insert u.username _).get? username = some v
  rw [SortedMap.get?_insert, if_neg hname, hv]

theorem hasAdmin_updateUser (hd : d.HasAdmin)
    (h : updateUser env username input d = .ok (status, d')) : d'.HasAdmin := by
  simp only [updateUser, bind_eq_ok, failIf_eq_ok, checkIf_eq_ok] at h
  obtain ⟨current, htarget, u, -, -, -, -, hlast, revision, -, now, -, d₁, hwrite, d₂, hroles, d₃,
    hinvalidate, h⟩ := h
  obtain ⟨-, rfl⟩ := Prod.mk.inj (Except.ok.inj h)
  obtain ⟨hnew, hwritten⟩ := writeUser_spec hwrite
  have hcurrent := (target_spec htarget).2
  have hsame : SameAccounts d₂ d₃ :=
    sameAccounts_invalidateLocalUser (mapError_eq_ok.mp hinvalidate)
  rw [hsame.hasAdmin]
  by_cases hremoves : u.enabled = false ∨ adminRole ∉ u.roles
  · obtain ⟨s, hne, hs⟩ := another_of_lastAdmin (hlast hremoves) hd
    obtain ⟨husers, hkept, -⟩ := replaceRoles_spec hroles
    have heffective : d₁.EffectiveAdmin s := by
      rw [hwritten]
      refine effectiveAdmin_write hcurrent hnew ?_ hs (Or.inl hne)
      rfl
    exact ⟨s, heffective.keep (hkept hne) fun name v hv henabled hsubject =>
      ⟨name, v, husers ▸ hv, henabled, hsubject⟩⟩
  · rw [not_or, Bool.not_eq_false, not_not] at hremoves
    obtain ⟨husers, -, hrole⟩ := @replaceRoles_spec env _ _ current.2.subject [] _ _ _ hroles
    have hrow : ∃ row, d₁.users.get? u.username = some row ∧ row.enabled = 1 ∧
        row.subject = current.2.subject := by
      rw [hwritten]
      exact ⟨_, (SortedMap.get?_insert _ _ _ _).trans (if_pos rfl), if_pos hremoves.1, rfl⟩
    obtain ⟨row, hrow, henabled, hsubject⟩ := hrow
    exact ⟨localSubject current.2.subject, hrole hremoves.2,
      Or.inr ⟨u.username, row, husers ▸ hrow, henabled, congrArg localSubject hsubject⟩⟩

theorem hasAdmin_deleteUser (hd : d.HasAdmin)
    (h : deleteUser env username d = .ok (status, d')) : d'.HasAdmin := by
  simp only [deleteUser, bind_eq_ok] at h
  obtain ⟨current, htarget, _, hlast, now, -, d₁, hinvalidate, -, -, h⟩ := h
  obtain ⟨-, rfl⟩ := Prod.mk.inj (Except.ok.inj h)
  obtain ⟨s, hne, hs⟩ := another_of_lastAdmin hlast hd
  have hsame : SameAccounts d d₁ :=
    sameAccounts_invalidateLocalUser (mapError_eq_ok.mp hinvalidate)
  have hcurrent : d₁.users.get? current.1 = some current.2 := hsame.1 ▸ (target_spec htarget).2
  refine ⟨s, (hsame.effectiveAdmin.mpr hs).keep (fun hsome => ?_) fun name v hv henabled hsubject =>
    ⟨name, v, ?_, henabled, hsubject⟩⟩
  · obtain ⟨since, hsince⟩ := Option.isSome_iff_exists.mp hsome
    show ((d₁.assignments.filter _).get? _).isSome
    rw [SortedMap.get?_filter, hsince]
    simp [Option.filter, hne]
  · have hname : name ≠ current.1 := by
      rintro rfl
      obtain rfl := Option.some.inj (hcurrent.symm.trans hv)
      exact hne hsubject.symm
    show (d₁.users.erase current.1).get? name = some v
    rw [SortedMap.get?_erase, if_neg hname, hv]

theorem hasAdmin_resetMfa (hd : d.HasAdmin)
    (h : resetMfa env username d = .ok (status, d')) : d'.HasAdmin := by
  simp only [resetMfa, bind_eq_ok] at h
  obtain ⟨current, htarget, -, -, revision, -, now, -, -, -, d₁, hwrite, d₂, hinvalidate, h⟩ := h
  obtain ⟨-, rfl⟩ := Prod.mk.inj (Except.ok.inj h)
  obtain ⟨-, hwritten⟩ := writeUser_spec hwrite
  have hsame := sameAccounts_invalidateLocalUser (mapError_eq_ok.mp hinvalidate)
  rw [hsame.hasAdmin, hwritten]
  obtain ⟨s, hs⟩ := hd
  refine ⟨s, effectiveAdmin_write (target_spec htarget).2 (Or.inl rfl) ?_ hs (Or.inr ?_)⟩
  · rfl
  · rfl

theorem sameAccounts_issueCredential {input : AdminServiceCredentialInput}
    (h : issueCredential env username input d = .ok (status, d')) : SameAccounts d d' := by
  simp only [issueCredential, bind_eq_ok] at h
  obtain ⟨current, -, -, -, -, -, -, -, seconds, -, now, -, -, -, -, -, h⟩ := h
  split at h
  · cases h
  · simp only [bind_eq_ok] at h
    obtain ⟨-, -, -, -, -, -, h⟩ := h
    obtain ⟨-, rfl⟩ := Prod.mk.inj (Except.ok.inj h)
    exact ⟨rfl, rfl⟩

theorem sameAccounts_revokeCredential {username id : Str}
    (h : revokeCredential env username id d = .ok (status, d')) : SameAccounts d d' := by
  simp only [revokeCredential, bind_eq_ok] at h
  obtain ⟨current, -, -, -, -, -, now, -, -, -, -, -, h⟩ := h
  obtain ⟨-, rfl⟩ := Prod.mk.inj (Except.ok.inj h)
  exact ⟨rfl, rfl⟩

theorem hasAdmin_applyUsers {request : AdminUsersRequest} (hd : d.HasAdmin)
    (h : applyUsers env request d = .ok (status, d')) : d'.HasAdmin := by
  simp only [applyUsers, bind_eq_ok] at h
  obtain ⟨-, -, h⟩ := h
  cases request with
  | create user => exact hasAdmin_createUser hd h
  | update username user => exact hasAdmin_updateUser hd h
  | delete username => exact hasAdmin_deleteUser hd h
  | resetMfa username => exact hasAdmin_resetMfa hd h
  | issueCredential username input => exact (sameAccounts_issueCredential h).hasAdmin.mpr hd
  | revokeCredential username id => exact (sameAccounts_revokeCredential h).hasAdmin.mpr hd

theorem hasAdmin_deleteRole {name : Str} (hd : d.HasAdmin) (h : deleteRole env name d = .ok d') :
    d'.HasAdmin := by
  simp only [deleteRole, bind_eq_ok, failIf_eq_ok] at h
  obtain ⟨-, hname, -, -, -, -, h⟩ := h
  obtain rfl := Except.ok.inj h
  obtain ⟨s, hs⟩ := hd
  refine ⟨s, hs.keep (fun hsome => ?_) fun username u hu henabled hsubject =>
    ⟨username, u, hu, henabled, hsubject⟩⟩
  obtain ⟨since, hsince⟩ := Option.isSome_iff_exists.mp hsome
  have hadmin : adminRole ≠ trim name := fun heq => hname (Or.inr (Or.inl heq.symm))
  show ((d.assignments.filter _).get? _).isSome
  rw [SortedMap.get?_filter, hsince]
  simp [Option.filter, hadmin]

theorem hasAdmin_assign {role : Str} (hd : d.HasAdmin) (h : assign env subject role d = .ok d') :
    d'.HasAdmin := by
  simp only [assign, bind_eq_ok] at h
  obtain ⟨pair, -, -, -, -, -, now, -, h⟩ := h
  split_ifs at h with hassigned
  · obtain rfl := Except.ok.inj h
    exact hd
  · obtain rfl := Except.ok.inj h
    obtain ⟨s, hs⟩ := hd
    refine ⟨s, hs.keep (fun hsome => ?_) fun username u hu henabled hsubject =>
      ⟨username, u, hu, henabled, hsubject⟩⟩
    show ((d.assignments.insert _ _).get? _).isSome
    rw [SortedMap.get?_insert]
    split_ifs
    · rfl
    · exact hsome

theorem hasAdmin_revoke {role : Str} (hd : d.HasAdmin) (h : revoke env subject role d = .ok d') :
    d'.HasAdmin := by
  simp only [revoke, bind_eq_ok] at h
  obtain ⟨pair, -, -, -, h⟩ := h
  split_ifs at h with hassigned
  · obtain rfl := Except.ok.inj h
    exact hd
  · simp only [bind_eq_ok, checkIf_eq_ok] at h
    obtain ⟨-, hanother, -, -, h⟩ := h
    obtain rfl := Except.ok.inj h
    have hother : ∃ s, toLex (s, adminRole) ≠ toLex (pair.1, pair.2) ∧ d.EffectiveAdmin s := by
      by_cases hrole : pair.2 = adminRole
      · obtain ⟨s, hne, hs⟩ := another_of_anotherAdmin (hanother hrole)
        exact ⟨s, fun heq => hne (Prod.mk.inj (toLex.injective heq)).1, hs⟩
      · obtain ⟨s, hs⟩ := hd
        exact ⟨s, fun heq => hrole (Prod.mk.inj (toLex.injective heq)).2.symm, hs⟩
    obtain ⟨s, hne, hs⟩ := hother
    refine ⟨s, hs.keep (fun hsome => ?_) fun username u hu henabled hsubject =>
      ⟨username, u, hu, henabled, hsubject⟩⟩
    show ((d.assignments.erase _).get? _).isSome
    rw [SortedMap.get?_erase, if_neg hne]
    exact hsome

theorem hasAdmin_mutate {request : AdminRbacRequest} (hd : d.HasAdmin)
    (h : mutate env request d = .ok d') : d'.HasAdmin := by
  simp only [mutate, bind_eq_ok] at h
  obtain ⟨-, -, d₁, hrequest, -, -, h⟩ := h
  obtain rfl := Except.ok.inj h
  cases request with
  | setRole name permissions =>
    simp only [applyRbac, setRole, bind_eq_ok] at hrequest
    obtain ⟨-, -, actions, -, -, -, -, -, now, -, hrequest⟩ := hrequest
    obtain rfl := Except.ok.inj hrequest
    exact hd
  | deleteRole name => exact hasAdmin_deleteRole hd hrequest
  | assign subject role => exact hasAdmin_assign hd hrequest
  | revoke subject role => exact hasAdmin_revoke hd hrequest

theorem anotherAdmin_ne_ok (honly : ∀ s', d.EffectiveAdmin s' → s' = s) :
    d.anotherAdmin env s ≠ .ok () := by
  intro h
  obtain ⟨s', hne, hs'⟩ := another_of_anotherAdmin h
  exact hne (honly s' hs')

theorem lastAdmin_ne_ok (hs : d.EffectiveAdmin (localSubject subject))
    (honly : ∀ s', d.EffectiveAdmin s' → s' = localSubject subject) :
    d.lastAdmin env subject error ≠ .ok () := by
  intro h
  obtain ⟨s', hne, hs'⟩ := another_of_lastAdmin h ⟨_, hs⟩
  exact hne (honly s' hs')

theorem values_spec {kind : Str} {creating : Bool}
    {u : UserValues} (h : values input kind creating error = .ok u) :
    u.enabled = input.enabled.getD true ∧ (adminRole ∈ u.roles → ∃ role ∈ input.roles, trim role = adminRole) := by
  simp only [values, bind_eq_ok] at h
  obtain ⟨-, -, -, -, h⟩ := h
  obtain rfl := Except.ok.inj h
  refine ⟨rfl, fun hrole => ?_⟩
  rcases SortedSet.mem_extend.mp hrole with hrole | hrole
  · exact List.mem_map.mp (List.mem_filter.mp hrole).1
  · exact absurd hrole (SortedSet.not_mem_empty _)

end ControlDb

inductive AdminOp where
  | users (env : AdminEnv) (request : AdminUsersRequest)
  | rbac (env : AdminEnv) (request : AdminRbacRequest)

namespace AdminOp

open ControlDb

def apply (d : ControlDb) : AdminOp → ControlDb
  | .users env request => (adminUsers env request d).2
  | .rbac env request => (adminRbac env request d).2

def run (ops : List AdminOp) (d : ControlDb) : ControlDb := ops.foldl apply d

def Refused (d : ControlDb) : AdminOp → Prop
  | .users env request => ∃ e, adminUsers env request d = (.error e, d)
  | .rbac env request => ∃ e, adminRbac env request d = (.error e, d)

/-- The operations that would take the assignment of an administrator away or make it ineffective. -/
inductive Removes (d : ControlDb) (s : Str) : AdminOp → Prop
  | revoke {env : AdminEnv} {subject role : Str} (hsubject : trim subject = s)
      (hrole : trim role = adminRole) : Removes d s (.rbac env (.revoke subject role))
  | delete {env : AdminEnv} {username : Str} {u : LocalUser}
      (hu : d.users.get? (trim username) = some u) (hsubject : localSubject u.subject = s) :
      Removes d s (.users env (.delete username))
  | update {env : AdminEnv} {username : Str} {input : AdminUserInput} {u : LocalUser}
      (hu : d.users.get? (trim username) = some u) (hsubject : localSubject u.subject = s)
      (hremoves : input.enabled = some false ∨ ∀ role ∈ input.roles, trim role ≠ adminRole) :
      Removes d s (.users env (.update username input))
  | deleteRole {env : AdminEnv} {name : Str} (hname : trim name = adminRole) :
      Removes d s (.rbac env (.deleteRole name))

variable {d : ControlDb}

theorem hasAdmin_apply (hd : d.HasAdmin) (op : AdminOp) : (op.apply d).HasAdmin := by
  cases op with
  | users env request =>
    simp only [apply, adminUsers]
    rcases Transactions.transact_snd (usersBody env request)
      (env.commit.mapError fun e => (AdminUsersError.control e.1, e.2)) d with h | ⟨status, h⟩
    · rw [h]
      exact hd
    · simp only [usersBody, bind_eq_ok] at h
      obtain ⟨-, -, -, -, -, -, result, happly, -, -, h⟩ := h
      obtain rfl := Except.ok.inj h
      exact hasAdmin_applyUsers hd happly
  | rbac env request =>
    simp only [apply, adminRbac]
    rcases Transactions.transact_snd (rbacBody env request)
      (env.commit.mapError fun e => (AdminRbacError.control e.1, e.2)) d with h | ⟨u, h⟩
    · rw [h]
      exact hd
    · simp only [rbacBody, bind_eq_ok] at h
      obtain ⟨-, -, -, -, -, -, d', hmutate, -, -, h⟩ := h
      rw [← (Prod.mk.inj (Except.ok.inj h)).2]
      exact hasAdmin_mutate hd hmutate

theorem refused_users {env : AdminEnv} {request : AdminUsersRequest}
    (h : ∀ result, applyUsers env request d ≠ .ok result) : Refused d (.users env request) := by
  cases hbody : usersBody env request d with
  | error e => exact ⟨e, Transactions.transact_of_error hbody⟩
  | ok made =>
    simp only [usersBody, bind_eq_ok] at hbody
    obtain ⟨-, -, -, -, -, -, result, happly, -⟩ := hbody
    exact absurd happly (h result)

theorem refused_rbac {env : AdminEnv} {request : AdminRbacRequest}
    (h : ∀ d', mutate env request d ≠ .ok d') : Refused d (.rbac env request) := by
  cases hbody : rbacBody env request d with
  | error e => exact ⟨e, Transactions.transact_of_error hbody⟩
  | ok made =>
    simp only [rbacBody, bind_eq_ok] at hbody
    obtain ⟨-, -, -, -, -, -, d', hmutate, -⟩ := hbody
    exact absurd hmutate (h d')

theorem Removes.refused {s : Str} {op : AdminOp} (h : Removes d s op)
    (hs : d.EffectiveAdmin s) (honly : ∀ s', d.EffectiveAdmin s' → s' = s) : op.Refused d := by
  cases h with
  | @revoke env subject role hsubject hrole =>
    refine refused_rbac fun d' hmutate => ?_
    simp only [mutate, applyRbac, ControlDb.revoke, bind_eq_ok] at hmutate
    obtain ⟨-, -, _, ⟨pair, hvalues, -, -, hrevoke⟩, -⟩ := hmutate
    simp only [assignmentValues, bind_eq_ok] at hvalues
    obtain ⟨-, -, hvalues⟩ := hvalues
    obtain rfl := Except.ok.inj hvalues
    simp only [hsubject, hrole] at hrevoke
    split_ifs at hrevoke with hassigned
    · rw [Option.isNone_iff_eq_none] at hassigned
      rw [EffectiveAdmin, hassigned] at hs
      cases hs.1
    · simp only [bind_eq_ok, checkIf_eq_ok] at hrevoke
      obtain ⟨-, hanother, -⟩ := hrevoke
      exact anotherAdmin_ne_ok honly (hanother trivial)
  | @delete env username u hu hsubject =>
    refine refused_users fun result happly => ?_
    simp only [applyUsers, deleteUser, bind_eq_ok] at happly
    obtain ⟨-, -, current, htarget, _, hlast, -⟩ := happly
    obtain ⟨hname, hcurrent⟩ := target_spec htarget
    rw [hname, hu] at hcurrent
    obtain rfl := Option.some.inj hcurrent
    subst hsubject
    exact lastAdmin_ne_ok hs honly hlast
  | @update env username input u hu hsubject hremoves =>
    refine refused_users fun result happly => ?_
    simp only [applyUsers, updateUser, bind_eq_ok, checkIf_eq_ok] at happly
    obtain ⟨-, -, current, htarget, v, hvalues, -, -, -, hlast, -⟩ := happly
    obtain ⟨hname, hcurrent⟩ := target_spec htarget
    rw [hname, hu] at hcurrent
    obtain rfl := Option.some.inj hcurrent
    subst hsubject
    obtain ⟨henabled, hroles⟩ := values_spec hvalues
    refine lastAdmin_ne_ok hs honly (hlast ?_)
    rcases hremoves with hdisabled | hdemoted
    · left
      rw [henabled, hdisabled]
      rfl
    · right
      intro hrole
      obtain ⟨role, hmem, htrim⟩ := hroles hrole
      exact hdemoted role hmem htrim
  | @deleteRole env name hname =>
    refine refused_rbac fun d' hmutate => ?_
    simp only [mutate, applyRbac, ControlDb.deleteRole, bind_eq_ok, failIf_eq_ok, not_or] at hmutate
    obtain ⟨-, -, _, ⟨-, ⟨-, hrole, -⟩, -⟩, -⟩ := hmutate
    exact hrole hname

end AdminOp

/-- **An administrator remains.** After any run from a state with an effective administrator there is
one, and an operation that would take the last one away is refused. -/
theorem administrator_remains (d : ControlDb) (hd : d.HasAdmin) (ops : List AdminOp) :
    (AdminOp.run ops d).HasAdmin ∧
      ∀ (s : Str) (op : AdminOp), (AdminOp.run ops d).EffectiveAdmin s →
        (∀ s', (AdminOp.run ops d).EffectiveAdmin s' → s' = s) → op.Removes (AdminOp.run ops d) s →
        op.Refused (AdminOp.run ops d) :=
  ⟨@Transactions.foldl_keeps ControlDb AdminOp d ControlDb.HasAdmin AdminOp.apply
      (fun _ op h => AdminOp.hasAdmin_apply h op) hd ops,
    fun _ _ hs honly hremoves => hremoves.refused hs honly⟩

namespace Sample

def adminAlice : LocalUser :=
  ⟨"alice".toList, human, "phc".toList, [], [], [], [], 1, 0, 1, 0, 0⟩

def oneAdmin : ControlDb :=
  { users := SortedMap.empty.insert "alice".toList adminAlice
    roles := SortedMap.empty.insert adminRole 0
    permissions := .empty
    assignments := SortedMap.empty.insert (toLex ("local|alice".toList, adminRole)) 0
    tokens := .empty
    requests := .empty
    challenges := .empty
    devices := .empty
    sessions := .empty
    mfa := .empty
    recoveryCodes := .empty }

def disabledAlice : AdminUserInput where
  username := "alice".toList
  subject := "alice".toList
  kind := []
  password := []
  name := []
  email := []
  organization := []
  teams := []
  roles := [adminRole]
  enabled := some false
  passwordChangeRequired := false

def adminEnv : AdminEnv :=
  { fault := fun _ _ => none
    now := fun _ => .ok 7
    federated := fun _ => .ok false
    observe := fun _ => none
    csrf := true
    hash := none
    pick := 0
    storedPermission := some
    maxTtl := 3600
    audience := []
    credential := none
    timestamp := fun _ => .ok []
    encodes := true
    commit := .ok () }

end Sample

/-- After a run in which `alice` could not be deleted, `alice` is the last administrator, and none of the
four ways to take that assignment away is accepted. -/
theorem administrator_remains_alice :
    let d := AdminOp.run [.users Sample.adminEnv (.delete "alice".toList),
      .rbac Sample.adminEnv (.setRole "reader".toList [])] Sample.oneAdmin
    d.HasAdmin ∧
      ∀ op ∈ [AdminOp.rbac Sample.adminEnv (.revoke "local|alice".toList adminRole),
        .users Sample.adminEnv (.delete "alice".toList),
        .users Sample.adminEnv (.update "alice".toList Sample.disabledAlice),
        .rbac Sample.adminEnv (.deleteRole adminRole)], op.Refused d := by
  intro d
  have hadmin : Sample.oneAdmin.HasAdmin :=
    ⟨"local|alice".toList, by decide, Or.inr ⟨"alice".toList, Sample.adminAlice, by decide, rfl, rfl⟩⟩
  obtain ⟨hremains, hrefused⟩ := administrator_remains Sample.oneAdmin hadmin
    [.users Sample.adminEnv (.delete "alice".toList), .rbac Sample.adminEnv (.setRole "reader".toList [])]
  refine ⟨hremains, fun op hop => ?_⟩
  have hassignments : d.assignments.entries = [(toLex ("local|alice".toList, adminRole), 0)] := by
    decide +kernel
  have honly : ∀ s, d.EffectiveAdmin s → s = "local|alice".toList := by
    rintro s ⟨hassigned, -⟩
    obtain ⟨time, hget⟩ := Option.isSome_iff_exists.mp hassigned
    have hmem := SortedMap.mem_entries_iff.mpr hget
    rw [hassignments, List.mem_singleton] at hmem
    exact (Prod.mk.inj (toLex.injective (Prod.mk.inj hmem).1)).1
  have halice : d.EffectiveAdmin "local|alice".toList :=
    ⟨by decide +kernel, Or.inr ⟨"alice".toList, Sample.adminAlice, by decide +kernel, rfl, rfl⟩⟩
  have huser : d.users.get? (trim "alice".toList) = some Sample.adminAlice := by decide +kernel
  refine hrefused "local|alice".toList op halice honly ?_
  simp only [List.mem_cons, List.not_mem_nil, or_false] at hop
  rcases hop with rfl | rfl | rfl | rfl
  · exact .revoke (by decide) (by decide)
  · exact .delete huser rfl
  · exact .update huser rfl (Or.inl rfl)
  · exact .deleteRole (by decide)

end GraphitBroker
