import GraphitBroker.LocalAuth
import GraphitBroker.Proof.LastAdmin

/-!
# Proofs of a login become stale

A proof names the user name, the subject and the revision of the row that it was made from.
-/

namespace GraphitBroker

open ExceptList Transactions

variable {username : Str} {u : LocalUser} {purpose : LocalAuthPurpose} {step : LocalAuthStep}
  {login : CompletedLocalLogin}

namespace ControlDb

variable {d d' : ControlDb} {s : Str} {r : Int}

theorem userBySubject_eq_some {subject : Str} {entry : Str × LocalUser}
    (h : d.userBySubject subject = some entry) :
    d.users.get? entry.1 = some entry.2 ∧ entry.2.subject = subject := by
  refine ⟨SortedMap.mem_entries_iff.mp (List.mem_of_find?_eq_some h), ?_⟩
  simpa using List.find?_some h

theorem loginUser_eq_some {subject : Str} {entry : Str × LocalUser}
    (h : d.loginUser subject = some entry) :
    d.users.get? entry.1 = some entry.2 ∧ entry.2.subject = subject :=
  userBySubject_eq_some (Option.filter_eq_some_iff.mp h).1

def Created (d d' : ControlDb) : Prop :=
  ∃ username u, (∀ n v, d.users.get? n = some v → v.subject ≠ u.subject) ∧
    ∀ n v, d'.users.get? n = some v → (n = username ∧ v = u) ∨ d.users.get? n = some v

def Written (d d' : ControlDb) (u : LocalUser) : Prop :=
  ∃ old new u', d.users.get? old = some u ∧ u'.subject = u.subject ∧ u.revision < u'.revision ∧
    ∀ n v, d'.users.get? n = some v →
      (n = new ∧ v = u') ∨ (n ≠ old ∧ d.users.get? n = some v)

def Removed (d d' : ControlDb) (u : LocalUser) : Prop :=
  ∃ old, d.users.get? old = some u ∧
    ∀ n v, d'.users.get? n = some v → n ≠ old ∧ d.users.get? n = some v

def UsersEffect (d d' : ControlDb) : Prop :=
  d'.users = d.users ∨ Created d d' ∨ (∃ u, Written d d' u) ∨ ∃ u, Removed d d' u

theorem UsersEffect.of_same (h : d'.users = d.users) : UsersEffect d d' := Or.inl h

theorem UsersEffect.of_written (h : Written d d' u) : UsersEffect d d' :=
  Or.inr (Or.inr (Or.inl ⟨u, h⟩))

def SubjectsUnique (d : ControlDb) : Prop :=
  ∀ n n' u u', d.users.get? n = some u → d.users.get? n' = some u' → u.subject = u'.subject → n = n'

def AtLeast (r : Int) (s : Str) (d : ControlDb) : Prop :=
  ∀ n u, d.users.get? n = some u → u.subject = s → r ≤ u.revision

def Creates (s : Str) (d d' : ControlDb) : Prop :=
  (∀ n u, d.users.get? n = some u → u.subject ≠ s) ∧
    ∃ n u, d'.users.get? n = some u ∧ u.subject = s

theorem SubjectsUnique.created (hd : d.SubjectsUnique) (h : Created d d') : d'.SubjectsUnique := by
  obtain ⟨username, u, hfresh, hrows⟩ := h
  intro n n' v v' hv hv' hsubject
  rcases hrows n v hv with ⟨hn, rfl⟩ | hv <;> rcases hrows n' v' hv' with ⟨hn', rfl⟩ | hv'
  · rw [hn, hn']
  · exact absurd hsubject.symm (hfresh n' v' hv')
  · exact absurd hsubject (hfresh n v hv)
  · exact hd n n' v v' hv hv' hsubject

theorem SubjectsUnique.written (hd : d.SubjectsUnique) (h : Written d d' u) :
    d'.SubjectsUnique := by
  obtain ⟨old, new, u', hu, hsubject', -, hrows⟩ := h
  -- another row of the written subject would have been a second one before
  have hother : ∀ n v, n ≠ old → d.users.get? n = some v → v.subject ≠ u'.subject := by
    intro n v hn hv heq
    exact hn (hd n old v u hv hu (heq.trans hsubject'))
  intro n n' v v' hv hv' hsubject
  rcases hrows n v hv with ⟨hn, rfl⟩ | ⟨hn, hv⟩ <;>
    rcases hrows n' v' hv' with ⟨hn', rfl⟩ | ⟨hn', hv'⟩
  · rw [hn, hn']
  · exact absurd hsubject.symm (hother n' v' hn' hv')
  · exact absurd hsubject (hother n v hn hv)
  · exact hd n n' v v' hv hv' hsubject

theorem SubjectsUnique.effect (hd : d.SubjectsUnique) (h : UsersEffect d d') :
    d'.SubjectsUnique := by
  rcases h with hsame | hcreated | ⟨u, hwritten⟩ | ⟨u, old, -, hrows⟩
  · rwa [SubjectsUnique, hsame]
  · exact hd.created hcreated
  · exact hd.written hwritten
  · intro n n' v v' hv hv' hsubject
    exact hd n n' v v' (hrows n v hv).2 (hrows n' v' hv').2 hsubject

theorem AtLeast.effect (hd : AtLeast r s d) (h : UsersEffect d d') (hcreates : ¬ Creates s d d') :
    AtLeast r s d' := by
  rcases h with hsame | ⟨username, u, hfresh, hrows⟩ | ⟨u, old, new, u', hu, hsubject, hlt, hrows⟩ |
    ⟨u, old, -, hrows⟩
  · rwa [AtLeast, hsame]
  · intro n v hv hs
    rcases hrows n v hv with ⟨-, rfl⟩ | hv'
    · refine absurd ⟨fun m w hw heq => ?_, n, v, hv, hs⟩ hcreates
      exact hfresh m w hw (heq.trans hs.symm)
    · exact hd n v hv' hs
  · intro n v hv hs
    rcases hrows n v hv with ⟨-, rfl⟩ | ⟨-, hv'⟩
    · exact (hd old u hu (hsubject.symm.trans hs)).trans hlt.le
    · exact hd n v hv' hs
  · intro n v hv hs
    exact hd n v (hrows n v hv).2 hs

theorem AtLeast.written (hd : AtLeast r s d) (hunique : d.SubjectsUnique)
    (h : Written d d' u) (hs : u.subject = s) : AtLeast (r + 1) s d' := by
  obtain ⟨old, new, u', hu, hsubject, hlt, hrows⟩ := h
  intro n v hv hvs
  rcases hrows n v hv with ⟨-, rfl⟩ | ⟨hn, hv'⟩
  · exact (Int.add_one_le_iff.mpr ((hd old u hu hs).trans_lt hlt))
  · exact absurd (hunique n old v u hv' hu (hvs.trans hs.symm)) hn

theorem AtLeast.removed (hunique : d.SubjectsUnique) (h : Removed d d' u)
    (hs : u.subject = s) : AtLeast r s d' := by
  obtain ⟨old, hu, hrows⟩ := h
  intro n v hv hvs
  obtain ⟨hn, hv'⟩ := hrows n v hv
  exact absurd (hunique n old v u hv' hu (hvs.trans hs.symm)) hn

theorem mem_insert {m : SortedMap Str LocalUser} {k n : Str} {u v : LocalUser}
    (h : (m.insert k u).get? n = some v) : (n = k ∧ v = u) ∨ (n ≠ k ∧ m.get? n = some v) := by
  rw [SortedMap.get?_insert] at h
  split_ifs at h with hn
  · exact Or.inl ⟨hn, (Option.some.inj h).symm⟩
  · exact Or.inr ⟨hn, h⟩

theorem mem_erase {m : SortedMap Str LocalUser} {k n : Str} {v : LocalUser}
    (h : (m.erase k).get? n = some v) : n ≠ k ∧ m.get? n = some v := by
  rw [SortedMap.get?_erase] at h
  split_ifs at h with hn
  exact ⟨hn, h⟩

theorem written_of_update {old new : Str} {u u' : LocalUser} (hu : d.users.get? old = some u)
    (husers : d'.users = (d.users.erase old).insert new u') (hsubject : u'.subject = u.subject)
    (hrevision : u.revision < u'.revision) : Written d d' u := by
  refine ⟨old, new, u', hu, hsubject, hrevision, fun n v hv => ?_⟩
  rw [husers] at hv
  exact (mem_insert hv).imp_right fun h => mem_erase h.2

theorem written_of_insert {u u' : LocalUser} (hu : d.users.get? username = some u)
    (husers : d'.users = d.users.insert username u') (hsubject : u'.subject = u.subject)
    (hrevision : u.revision < u'.revision) : Written d d' u := by
  refine ⟨username, username, u', hu, hsubject, hrevision, fun n v hv => ?_⟩
  rw [husers] at hv
  exact mem_insert hv

variable {env : AdminEnv} {status : Nat}

theorem nextRevision_eq_ok {revision next : Int} {error : AdminUsersError}
    (h : nextRevision revision error = .ok next) : next = revision + 1 := by
  unfold nextRevision at h
  split_ifs at h
  exact (Except.ok.inj h).symm

theorem created_createUser {input : AdminUserInput}
    (h : createUser env input d = .ok (status, d')) : Created d d' := by
  simp only [createUser, bind_eq_ok, failIf_eq_ok, not_or] at h
  obtain ⟨u, -, phc, -, now, -, -, -, -, ⟨-, htaken⟩, d₁, hroles, h⟩ := h
  obtain ⟨-, rfl⟩ := Prod.mk.inj (Except.ok.inj h)
  have husers := (replaceRoles_spec (s := []) hroles).1
  refine ⟨u.username, _, fun n v hv heq => htaken ?_,
    fun n v hv => (mem_insert (husers ▸ hv)).imp_right fun h => h.2⟩
  exact List.any_eq_true.mpr ⟨(n, v), SortedMap.mem_entries_iff.mpr hv, by simpa using heq⟩

theorem written_updateUser {input : AdminUserInput}
    (h : updateUser env username input d = .ok (status, d')) :
    ∃ u, d.users.get? (trim username) = some u ∧ Written d d' u := by
  simp only [updateUser, bind_eq_ok, failIf_eq_ok] at h
  obtain ⟨current, htarget, u, -, -, -, -, -, revision, hrevision, now, -, d₁, hwrite, d₂, hroles, d₃,
    hinvalidate, h⟩ := h
  obtain ⟨-, rfl⟩ := Prod.mk.inj (Except.ok.inj h)
  obtain ⟨-, hwritten⟩ := writeUser_spec hwrite
  obtain ⟨hname, hcurrent⟩ := target_spec htarget
  have hsame := sameAccounts_invalidateLocalUser (mapError_eq_ok.mp hinvalidate)
  rw [hname] at hcurrent
  have husers : d₃.users = (d.users.erase current.1).insert u.username _ :=
    (hsame.1.trans (replaceRoles_spec (s := []) hroles).1).trans (congrArg ControlDb.users hwritten)
  refine ⟨current.2, hcurrent, written_of_update (hname ▸ hcurrent) husers rfl ?_⟩
  exact Int.lt_iff_add_one_le.mpr (nextRevision_eq_ok hrevision).ge

theorem written_resetMfa (h : resetMfa env username d = .ok (status, d')) :
    ∃ u, d.users.get? (trim username) = some u ∧ Written d d' u := by
  simp only [resetMfa, bind_eq_ok] at h
  obtain ⟨current, htarget, -, -, revision, hrevision, now, -, -, -, d₁, hwrite, d₂, hinvalidate, h⟩ := h
  obtain ⟨-, rfl⟩ := Prod.mk.inj (Except.ok.inj h)
  obtain ⟨-, hwritten⟩ := writeUser_spec hwrite
  obtain ⟨hname, hcurrent⟩ := target_spec htarget
  have hsame := sameAccounts_invalidateLocalUser (mapError_eq_ok.mp hinvalidate)
  rw [hname] at hcurrent
  have husers : d₂.users = (d.users.erase current.1).insert current.1 _ :=
    hsame.1.trans (congrArg ControlDb.users hwritten)
  refine ⟨current.2, hcurrent, written_of_update (hname ▸ hcurrent) husers rfl ?_⟩
  exact Int.lt_iff_add_one_le.mpr (nextRevision_eq_ok hrevision).ge

theorem removed_deleteUser (h : deleteUser env username d = .ok (status, d')) :
    ∃ u, d.users.get? (trim username) = some u ∧ Removed d d' u := by
  simp only [deleteUser, bind_eq_ok] at h
  obtain ⟨current, htarget, _, -, now, -, d₁, hinvalidate, -, -, h⟩ := h
  obtain ⟨-, rfl⟩ := Prod.mk.inj (Except.ok.inj h)
  obtain ⟨hname, hcurrent⟩ := target_spec htarget
  have hsame := sameAccounts_invalidateLocalUser (mapError_eq_ok.mp hinvalidate)
  rw [hname] at hcurrent
  refine ⟨current.2, hcurrent, current.1, hname ▸ hcurrent, fun n v hv => ?_⟩
  rw [dropUserRows, hsame.1] at hv
  exact mem_erase hv

theorem effect_applyUsers {request : AdminUsersRequest}
    (h : applyUsers env request d = .ok (status, d')) : UsersEffect d d' := by
  simp only [applyUsers, bind_eq_ok] at h
  obtain ⟨-, -, h⟩ := h
  cases request with
  | create user => exact Or.inr (Or.inl (created_createUser h))
  | update username user =>
    obtain ⟨u, -, hwritten⟩ := written_updateUser h
    exact Or.inr (Or.inr (Or.inl ⟨u, hwritten⟩))
  | delete username =>
    obtain ⟨u, -, hremoved⟩ := removed_deleteUser h
    exact Or.inr (Or.inr (Or.inr ⟨u, hremoved⟩))
  | resetMfa username =>
    obtain ⟨u, -, hwritten⟩ := written_resetMfa h
    exact Or.inr (Or.inr (Or.inl ⟨u, hwritten⟩))
  | issueCredential username input => exact .of_same (sameAccounts_issueCredential h).1
  | revokeCredential username id => exact .of_same (sameAccounts_revokeCredential h).1

theorem applyUsers_of_usersBody {request : AdminUsersRequest}
    (h : usersBody env request d = .ok (status, d')) : applyUsers env request d = .ok (status, d') := by
  simp only [usersBody, bind_eq_ok] at h
  obtain ⟨-, -, -, -, -, -, result, hresult, -, -, h⟩ := h
  obtain rfl := Except.ok.inj h
  exact hresult

theorem users_rbacBody {request : AdminRbacRequest} {u : Unit}
    (h : rbacBody env request d = .ok (u, d')) : d'.users = d.users := by
  simp only [rbacBody, mutate, bind_eq_ok] at h
  obtain ⟨-, -, -, -, -, -, d₁, ⟨-, -, d₂, hrequest, -, -, h₁⟩, -, -, h⟩ := h
  obtain ⟨-, rfl⟩ := Prod.mk.inj (Except.ok.inj h)
  obtain rfl := Except.ok.inj h₁
  cases request with
  | setRole name permissions =>
    simp only [applyRbac, setRole, bind_eq_ok] at hrequest
    obtain ⟨-, -, actions, -, -, -, -, -, now, -, hrequest⟩ := hrequest
    rw [← Except.ok.inj hrequest]
  | deleteRole name =>
    simp only [applyRbac, deleteRole, bind_eq_ok] at hrequest
    obtain ⟨-, -, -, -, -, -, hrequest⟩ := hrequest
    rw [← Except.ok.inj hrequest]
  | assign subject role =>
    simp only [applyRbac, assign, bind_eq_ok] at hrequest
    obtain ⟨pair, -, -, -, -, -, now, -, hrequest⟩ := hrequest
    split_ifs at hrequest
    · rw [← Except.ok.inj hrequest]
    · rw [← Except.ok.inj hrequest]
  | revoke subject role =>
    simp only [applyRbac, revoke, bind_eq_ok] at hrequest
    obtain ⟨pair, -, -, -, hrequest⟩ := hrequest
    split_ifs at hrequest
    · rw [← Except.ok.inj hrequest]
    · simp only [bind_eq_ok] at hrequest
      obtain ⟨-, -, -, -, hrequest⟩ := hrequest
      rw [← Except.ok.inj hrequest]

end ControlDb

open ControlDb

variable {d d' : ControlDb} {s : Str} {r : Int}

variable {env : LoginEnv}

theorem users_newChallenge {stage : LocalAuthStage} {now : Int}
    (h : newChallenge env stage u purpose now d = .ok (step, d')) : d'.users = d.users := by
  simp only [newChallenge, bind_eq_ok] at h
  obtain ⟨-, -, -, -, pair, -, -, -, -, -, h⟩ := h
  rw [← (Prod.mk.inj (Except.ok.inj h)).2]

theorem users_advance {factor : Bool}
    (h : advance env username u factor purpose d = .ok (step, d')) : d'.users = d.users := by
  simp only [advance, bind_eq_ok] at h
  obtain ⟨now, -, -, -, h⟩ := h
  split at h
  · rw [← (Prod.mk.inj (Except.ok.inj h)).2]
  · exact users_newChallenge h

theorem login_of_advance {factor : Bool}
    (h : advance env username u factor purpose d = .ok (.complete login, d')) :
    login.username = username ∧ login.subject = u.subject ∧ login.revision = u.revision := by
  simp only [advance, bind_eq_ok] at h
  obtain ⟨now, -, -, -, h⟩ := h
  split at h
  · obtain ⟨hlogin, -⟩ := Prod.mk.inj (Except.ok.inj h)
    obtain rfl := LocalAuthStep.complete.inj hlogin
    exact ⟨rfl, rfl, rfl⟩
  · simp only [newChallenge, bind_eq_ok] at h
    obtain ⟨-, -, -, -, pair, -, -, -, -, -, h⟩ := h
    cases (Prod.mk.inj (Except.ok.inj h)).1

def ProofRow (username subject : Str) (revision : Int) (d : ControlDb) : Prop :=
  ∃ u, d.users.get? username = some u ∧ u.subject = subject ∧ u.revision = revision

theorem ProofRow.of_same {username subject : Str} {revision : Int}
    (h : ProofRow username subject revision d) (hsame : d'.users = d.users) :
    ProofRow username subject revision d' := by
  rwa [ProofRow, hsame]

theorem beginBody_eq_ok {proof : VerifiedLocalPassword}
    (h : beginBody env proof purpose d = .ok (step, d')) :
    d'.users = d.users ∧ ProofRow proof.username proof.subject proof.revision d ∧
      ∀ login, step = .complete login → ProofRow login.username login.subject login.revision d := by
  simp only [beginBody, bind_eq_ok] at h
  obtain ⟨-, -, h⟩ := h
  split at h
  · cases h
  · next username u huser =>
    simp only [bind_eq_ok, failIf_eq_ok, not_or, not_not] at h
    obtain ⟨-, ⟨hname, hsubject, hrevision⟩, result, hadvance, -, -, h⟩ := h
    obtain rfl := Except.ok.inj h
    have hrow := (loginUser_eq_some huser).1
    refine ⟨users_advance hadvance, ⟨u, hname ▸ hrow, hsubject, hrevision⟩, ?_⟩
    rintro login rfl
    obtain ⟨h1, h2, h3⟩ := login_of_advance hadvance
    exact ⟨u, by rw [h1]; exact hrow, h2.symm, h3.symm⟩

theorem checkedRevision_eq_ok {revision next : Int} (h : checkedRevision revision = .ok next) :
    next = revision + 1 := by
  unfold checkedRevision at h
  split_ifs at h
  exact (Except.ok.inj h).symm

theorem changeBody_eq_ok {hash newHash : Str}
    {initial : LocalChallenge} {password : CurrentPassword}
    (h : changeBody env hash newHash purpose initial password d = .ok (step, d')) :
    (∃ u, u.subject = password.subject ∧ Written d d' u) ∧
      ∀ login, step = .complete login → ProofRow login.username login.subject login.revision d' := by
  simp only [changeBody, bind_eq_ok] at h
  obtain ⟨-, -, row, -, h⟩ := h
  split at h
  · cases h
  · next username u huser =>
    simp only [bind_eq_ok, failIf_eq_ok, not_or, not_not, mapError_eq_ok] at h
    obtain ⟨-, ⟨-, hpassword, -⟩, next, hnext, now, -, -, -, d₁, hinvalidate, result, hadvance, -, -, h⟩ :=
      h
    obtain rfl := Except.ok.inj h
    have hrow := (userBySubject_eq_some huser).1
    have husers := (users_advance hadvance).trans (sameAccounts_invalidateLocalUser hinvalidate).1
    have hsubject : u.subject = password.subject := by
      unfold currentPassword at hpassword
      split_ifs at hpassword
      rw [← Option.some.inj hpassword]
    refine ⟨⟨u, hsubject, written_of_insert hrow husers rfl ?_⟩, ?_⟩
    · exact Int.lt_iff_add_one_le.mpr (checkedRevision_eq_ok hnext).ge
    · rintro login rfl
      obtain ⟨h1, h2, h3⟩ := login_of_advance hadvance
      refine ⟨_, ?_, h2.symm, h3.symm⟩
      rw [husers, SortedMap.get?_insert, if_pos h1]

theorem enroll_eq_ok {u u' : LocalUser} {now : Int}
    (h : enroll env username u purpose now d = .ok (u', d')) :
    u'.subject = u.subject ∧ u.revision < u'.revision ∧ d'.users = d.users.insert username u' := by
  simp only [enroll, bind_eq_ok, mapError_eq_ok] at h
  obtain ⟨next, hnext, -, -, d₁, hinvalidate, h⟩ := h
  obtain ⟨rfl, rfl⟩ := Prod.mk.inj (Except.ok.inj h)
  refine ⟨rfl, ?_, (sameAccounts_invalidateLocalUser hinvalidate).1⟩
  exact Int.lt_iff_add_one_le.mpr (checkedRevision_eq_ok hnext).ge

theorem mfaBody_eq_ok {raw hash : Str} (h : mfaBody env raw hash purpose d = .ok (step, d')) :
    (d'.users = d.users ∧ ∀ login, step = .complete login → login.recoveryCodes = none ∧
        ProofRow login.username login.subject login.revision d') ∨
      ∃ login u, step = .complete login ∧ u.subject = login.subject ∧ Written d d' u ∧
        ProofRow login.username login.subject login.revision d' := by
  simp only [mfaBody, bind_eq_ok] at h
  obtain ⟨-, -, row, -, -, -, h⟩ := h
  split at h
  · cases h
  · next username u huser =>
    simp only [bind_eq_ok] at h
    obtain ⟨-, -, -, -, -, -, now, -, -, -, h⟩ := h
    have hrow := (loginUser_eq_some huser).1
    split_ifs at h with henrolling htotp hverified
    · simp only [bind_eq_ok] at h
      obtain ⟨pair, henroll, -, -, h⟩ := h
      obtain ⟨rfl, rfl⟩ := Prod.mk.inj (Except.ok.inj h)
      obtain ⟨hsubject, hrevision, husers⟩ := enroll_eq_ok henroll
      refine Or.inr ⟨_, u, rfl, hsubject.symm, written_of_insert hrow husers hsubject hrevision,
        pair.1, ?_, rfl, rfl⟩
      rw [husers, SortedMap.get?_insert, if_pos rfl]
    · obtain ⟨rfl, rfl⟩ := Prod.mk.inj (Except.ok.inj h)
      refine Or.inl ⟨rfl, fun login hlogin => ?_⟩
      cases hlogin
    · simp only [bind_eq_ok] at h
      obtain ⟨-, -, h⟩ := h
      obtain ⟨rfl, rfl⟩ := Prod.mk.inj (Except.ok.inj h)
      refine Or.inl ⟨rfl, fun login hlogin => ?_⟩
      obtain rfl := LocalAuthStep.complete.inj hlogin
      exact ⟨rfl, u, hrow, rfl, rfl⟩
    · obtain ⟨rfl, rfl⟩ := Prod.mk.inj (Except.ok.inj h)
      refine Or.inl ⟨rfl, fun login hlogin => ?_⟩
      cases hlogin

theorem currentPrincipal_eq_ok {fails : Nat → Option OidcAuthorizationError} {subject username : Str}
    {revision : Int} {principal : LocalPrincipal}
    (h : currentPrincipal fails subject username revision d = .ok principal) :
    ProofRow username subject revision d := by
  simp only [currentPrincipal, bind_eq_ok] at h
  obtain ⟨-, -, h⟩ := h
  split at h
  · cases h
  · next name u huser =>
    simp only [bind_eq_ok, failIf_eq_ok, not_or, not_not] at h
    obtain ⟨-, ⟨-, -, hname, hsubject, hrevision, -⟩, -⟩ := h
    exact ⟨u, hname ▸ (userBySubject_eq_some huser).1, hsubject, hrevision⟩

theorem completeBody_eq_ok {env : CompletionEnv} {hash : Str}
    {principal : LocalPrincipal} (h : completeBody env hash login d = .ok (principal, d')) :
    d'.users = d.users ∧ ProofRow login.username login.subject login.revision d := by
  simp only [completeBody, bind_eq_ok] at h
  obtain ⟨-, -, h⟩ := h
  split at h
  · cases h
  · simp only [bind_eq_ok] at h
    obtain ⟨-, -, -, -, now, -, -, -, -, -, h⟩ := h
    split at h
    · cases h
    · simp only [bind_eq_ok] at h
      obtain ⟨_, hprincipal, client, -, -, -, secret, -, -, -, h⟩ := h
      rw [← (Prod.mk.inj (Except.ok.inj h)).2]
      exact ⟨rfl, currentPrincipal_eq_ok hprincipal⟩

theorem prepareBody_eq_ok {env : DeviceEnv} {userHash : Str}
    {device : DeviceCodeRow} (h : prepareBody env userHash login d = .ok (device, d')) :
    d'.users = d.users ∧ ProofRow login.username login.subject login.revision d := by
  simp only [prepareBody, bind_eq_ok, mapError_eq_ok] at h
  obtain ⟨-, -, principal, hprincipal, h⟩ := h
  split at h
  · cases h
  · simp only [bind_eq_ok] at h
    obtain ⟨-, -, -, -, -, -, present, -, -, -, now, -, secret, -, -, -, -, -, h⟩ := h
    rw [← (Prod.mk.inj (Except.ok.inj h)).2]
    exact ⟨rfl, currentPrincipal_eq_ok hprincipal⟩

theorem issueBody_eq_ok {env : CookieEnv} (h : issueBody env login d = .ok (u, d')) :
    d'.users = d.users ∧ ProofRow login.username login.subject login.revision d := by
  simp only [issueBody, observeLogin, bind_eq_ok] at h
  obtain ⟨-, -, -, -, _, ⟨-, -, -, -, hobserve⟩, secret, -, -, -, -, -, h⟩ := h
  rw [← (Prod.mk.inj (Except.ok.inj h)).2]
  refine ⟨rfl, ?_⟩
  split at hobserve
  · cases hobserve
  · next v hv =>
    simp only [bind_eq_ok, failIf_eq_ok, not_or, not_not] at hobserve
    obtain ⟨-, -, -, ⟨-, -, hsubject, hrevision⟩, -⟩ := hobserve
    exact ⟨v, hv, hsubject, hrevision⟩

theorem created_bootstrapBody {env : ServiceEnv LocalAdministratorBootstrapError} {phc : Str}
    {u : Unit} (h : bootstrapBody env phc d = .ok (u, d')) : Created d d' := by
  simp only [bootstrapBody, bind_eq_ok, failIf_eq_ok, Bool.not_eq_false, List.isEmpty_iff] at h
  obtain ⟨-, -, -, -, -, hempty, now, -, -, -, h⟩ := h
  obtain ⟨-, rfl⟩ := Prod.mk.inj (Except.ok.inj h)
  refine ⟨"admin".toList, _, fun n v hv => ?_, fun n v hv => (mem_insert hv).imp_right (·.2)⟩
  have hmem := SortedMap.mem_entries_iff.mpr hv
  rw [hempty] at hmem
  cases hmem

namespace AccountOp

theorem effect_apply (op : AccountOp) (d : ControlDb) : UsersEffect d (op.apply d) := by
  have hkeep : ∀ {ε α : Type} {body : ControlDb → Except ε (α × ControlDb)}
      {commit : Except (ε × Bool) Unit},
      (∀ a d', body d = .ok (a, d') → UsersEffect d d') →
        UsersEffect d (transact body commit d).2 := by
    intro ε α body commit hbody
    rcases transact_snd body commit d with hsame | ⟨a, hmade⟩
    · rw [hsame]
      exact .of_same rfl
    · exact hbody a _ hmade
  cases op with
  | users env request =>
    exact hkeep fun _ _ h => effect_applyUsers (applyUsers_of_usersBody h)
  | rbac env request => exact hkeep fun _ _ h => .of_same (users_rbacBody h)
  | bootstrap env phc => exact hkeep fun _ _ h => Or.inr (Or.inl (created_bootstrapBody h))
  | begin env proof purpose => exact hkeep fun _ _ h => .of_same (beginBody_eq_ok h).1
  | change env hash newHash purpose initial password =>
    refine hkeep fun _ _ h => ?_
    obtain ⟨⟨u, -, hwritten⟩, -⟩ := changeBody_eq_ok h
    exact .of_written hwritten
  | mfa env raw hash purpose =>
    refine hkeep fun _ _ h => ?_
    rcases mfaBody_eq_ok h with ⟨hsame, -⟩ | ⟨_, u, -, -, hwritten, -⟩
    · exact .of_same hsame
    · exact .of_written hwritten
  | complete env hash login => exact hkeep fun _ _ h => .of_same (completeBody_eq_ok h).1
  | prepare env userHash login => exact hkeep fun _ _ h => .of_same (prepareBody_eq_ok h).1
  | issue env login => exact hkeep fun _ _ h => .of_same (issueBody_eq_ok h).1
  | other f users_eq => exact .of_same (users_eq d)

def changedUser : AdminUsersRequest → Option Str
  | .update username _ => some username
  | .delete username => some username
  | .resetMfa username => some username
  | _ => none

/-- The transaction commits an update, a deletion or a reset of the user with the subject, or a
mandatory password change or an enrollment of that user. -/
def Mutates (s : Str) (d : ControlDb) : AccountOp → Prop
  | .users env request =>
    (∃ status, usersBody env request d = .ok (status, (d.adminUsers env request).2)) ∧
      ∃ username u, changedUser request = some username ∧
        d.users.get? (trim username) = some u ∧ u.subject = s
  | .change env hash newHash purpose initial password =>
    (∃ step, changeBody env hash newHash purpose initial password d =
      .ok (step, (AccountOp.change env hash newHash purpose initial password).apply d)) ∧
      password.subject = s
  | .mfa env raw hash purpose =>
    ∃ login, mfaBody env raw hash purpose d =
      .ok (.complete login, (AccountOp.mfa env raw hash purpose).apply d) ∧
      login.subject = s ∧ login.recoveryCodes.isSome
  | _ => False

theorem atLeast_of_mutates {op : AccountOp} (hunique : d.SubjectsUnique) (hd : AtLeast r s d)
    (h : op.Mutates s d) : AtLeast (r + 1) s (op.apply d) := by
  cases op with
  | users env request =>
    obtain ⟨⟨status, hbody⟩, username, u, hname, hu, hs⟩ := h
    have happly := applyUsers_of_usersBody hbody
    simp only [applyUsers, bind_eq_ok] at happly
    obtain ⟨-, -, happly⟩ := happly
    cases request with
    | update name user =>
      obtain rfl := Option.some.inj hname
      obtain ⟨v, hv, hwritten⟩ := written_updateUser happly
      obtain rfl := Option.some.inj (hu.symm.trans hv)
      exact hd.written hunique hwritten hs
    | delete name =>
      obtain rfl := Option.some.inj hname
      obtain ⟨v, hv, hremoved⟩ := removed_deleteUser happly
      obtain rfl := Option.some.inj (hu.symm.trans hv)
      exact .removed hunique hremoved hs
    | resetMfa name =>
      obtain rfl := Option.some.inj hname
      obtain ⟨v, hv, hwritten⟩ := written_resetMfa happly
      obtain rfl := Option.some.inj (hu.symm.trans hv)
      exact hd.written hunique hwritten hs
    | create user => cases hname
    | issueCredential name input => cases hname
    | revokeCredential name id => cases hname
  | change env hash newHash purpose initial password =>
    obtain ⟨⟨step, hbody⟩, hs⟩ := h
    obtain ⟨⟨u, hsubject, hwritten⟩, -⟩ := changeBody_eq_ok hbody
    exact hd.written hunique hwritten (hsubject.trans hs)
  | mfa env raw hash purpose =>
    obtain ⟨login, hbody, hs, hcodes⟩ := h
    rcases mfaBody_eq_ok hbody with ⟨-, hnone⟩ | ⟨login', u, hlogin, hsubject, hwritten, -⟩
    · rw [(hnone login rfl).1] at hcodes
      cases hcodes
    · obtain rfl := LocalAuthStep.complete.inj hlogin
      exact hd.written hunique hwritten (hsubject.trans hs)
  | _ => exact h.elim

theorem run_append (pre post : List AccountOp) (d : ControlDb) :
    run (pre ++ post) d = run post (run pre d) := List.foldl_append

def NotRecreated (s : Str) (ops : List AccountOp) (d : ControlDb) : Prop :=
  ∀ pre op post, ops = pre ++ op :: post → ¬ Creates s (run pre d) (op.apply (run pre d))

theorem NotRecreated.of_append {pre post : List AccountOp} (h : NotRecreated s (pre ++ post) d) :
    NotRecreated s pre d ∧ NotRecreated s post (run pre d) := by
  constructor
  · rintro pre' op post' rfl
    exact h pre' op (post' ++ post) (by simp)
  · rintro pre' op post' rfl
    rw [← run_append]
    exact h (pre ++ pre') op post' (by simp)

theorem NotRecreated.tail {op : AccountOp} {ops : List AccountOp}
    (h : NotRecreated s (op :: ops) d) : NotRecreated s ops (op.apply d) := by
  rintro pre op' post rfl
  exact h (op :: pre) op' post rfl

theorem keeps_run {ops : List AccountOp} (hunique : d.SubjectsUnique) (hd : AtLeast r s d)
    (h : NotRecreated s ops d) : (run ops d).SubjectsUnique ∧ AtLeast r s (run ops d) := by
  induction ops generalizing d with
  | nil => exact ⟨hunique, hd⟩
  | cons op ops ih =>
    have heffect := op.effect_apply d
    have hstep : ¬ Creates s d (op.apply d) := h [] op ops rfl
    exact ih (hunique.effect heffect) (hd.effect heffect hstep) h.tail

theorem atLeast_run_of_mutates {pre post : List AccountOp} {op : AccountOp}
    (hunique : d.SubjectsUnique) (hd : AtLeast r s d) (hmutates : op.Mutates s (run pre d))
    (h : NotRecreated s (pre ++ op :: post) d) : AtLeast (r + 1) s (run (pre ++ op :: post) d) := by
  obtain ⟨hpre, hpost⟩ := h.of_append
  obtain ⟨hunique', hd'⟩ := keeps_run hunique hd hpre
  have hraised := atLeast_of_mutates hunique' hd' hmutates
  rw [run_append]
  refine (keeps_run (d := op.apply (run pre d)) (hunique'.effect (op.effect_apply _)) hraised ?_).2
  exact hpost.tail

end AccountOp

def VerifiedIn (proof : VerifiedLocalPassword) (d : ControlDb) : Prop :=
  ∃ initial now, finishCurrent initial now d = .ok proof

def CompletedIn (login : CompletedLocalLogin) (d : ControlDb) : Prop :=
  (∃ env proof purpose d₀, beginBody env proof purpose d₀ = .ok (.complete login, d)) ∨
    (∃ env hash newHash purpose initial password d₀,
      changeBody env hash newHash purpose initial password d₀ = .ok (.complete login, d)) ∨
    ∃ env raw hash purpose d₀, mfaBody env raw hash purpose d₀ = .ok (.complete login, d)

theorem proofRow_of_verifiedIn {proof : VerifiedLocalPassword} (h : VerifiedIn proof d) :
    ProofRow proof.username proof.subject proof.revision d := by
  obtain ⟨initial, now, h⟩ := h
  unfold finishCurrent at h
  split at h
  · cases h
  · next current hcurrent =>
    split_ifs at h
    obtain rfl := Except.ok.inj h
    obtain ⟨entry, hentry, hpassword⟩ := Option.bind_eq_some_iff.mp hcurrent
    unfold currentPassword at hpassword
    split_ifs at hpassword
    obtain rfl := Option.some.inj hpassword
    exact ⟨entry.2, (userBySubject_eq_some hentry).1, rfl, rfl⟩

theorem proofRow_of_completedIn (h : CompletedIn login d) :
    ProofRow login.username login.subject login.revision d := by
  rcases h with ⟨env, proof, purpose, d₀, h⟩ |
    ⟨env, hash, newHash, purpose, initial, password, d₀, h⟩ | ⟨env, raw, hash, purpose, d₀, h⟩
  · obtain ⟨hsame, -, hlogin⟩ := beginBody_eq_ok h
    exact (hlogin login rfl).of_same hsame
  · exact (changeBody_eq_ok h).2 login rfl
  · rcases mfaBody_eq_ok h with ⟨-, hlogin⟩ | ⟨login', u, hlogin, -, -, hrow⟩
    · exact (hlogin login rfl).2
    · rwa [LocalAuthStep.complete.inj hlogin]

theorem ProofRow.atLeast (hunique : d.SubjectsUnique) (h : ProofRow username s r d) : AtLeast r s d := by
  obtain ⟨u, hu, hs, hr⟩ := h
  intro n v hv hvs
  obtain rfl := hunique n username v u hv hu (hvs.trans hs.symm)
  rw [← hr, Option.some.inj (hu.symm.trans hv)]

theorem ProofRow.not_atLeast (h : ProofRow username s r d) :
    ¬ AtLeast (r + 1) s d := by
  obtain ⟨u, hu, hs, hr⟩ := h
  intro hd
  have := hd username u hu hs
  omega

/-- A proof from before a committed change of its user is refused by every later use, unless the user
was created anew in between. -/
theorem stale_proofs_refused (hunique : d.SubjectsUnique) (pre post : List AccountOp)
    (op : AccountOp) :
    (∀ proof : VerifiedLocalPassword, VerifiedIn proof d →
      op.Mutates proof.subject (AccountOp.run pre d) →
      AccountOp.NotRecreated proof.subject (pre ++ op :: post) d →
      ∀ env purpose result,
        beginBody env proof purpose (AccountOp.run (pre ++ op :: post) d) ≠ .ok result) ∧
    (∀ login : CompletedLocalLogin, CompletedIn login d →
      op.Mutates login.subject (AccountOp.run pre d) →
      AccountOp.NotRecreated login.subject (pre ++ op :: post) d →
      (∀ env hash result,
        completeBody env hash login (AccountOp.run (pre ++ op :: post) d) ≠ .ok result) ∧
      (∀ env userHash result,
        prepareBody env userHash login (AccountOp.run (pre ++ op :: post) d) ≠ .ok result) ∧
      ∀ env result, issueBody env login (AccountOp.run (pre ++ op :: post) d) ≠ .ok result) := by
  constructor
  · intro proof hproof hmutates hnot env purpose result haccepted
    have hbefore := (proofRow_of_verifiedIn hproof).atLeast hunique
    have hafter := AccountOp.atLeast_run_of_mutates hunique hbefore hmutates hnot
    exact (beginBody_eq_ok haccepted).2.1.not_atLeast hafter
  · intro login hlogin hmutates hnot
    have hbefore := (proofRow_of_completedIn hlogin).atLeast hunique
    have hafter := AccountOp.atLeast_run_of_mutates hunique hbefore hmutates hnot
    refine ⟨fun env hash result haccepted => ?_, fun env userHash result haccepted => ?_,
      fun env result haccepted => ?_⟩
    · exact (completeBody_eq_ok haccepted).2.not_atLeast hafter
    · exact (prepareBody_eq_ok haccepted).2.not_atLeast hafter
    · exact (issueBody_eq_ok haccepted).2.not_atLeast hafter

namespace Sample

def newBob (phc : Str) : LocalUser :=
  ⟨"bob".toList, human, phc, [], [], [], [], 1, 1, 1, 7, 7⟩

def bobAccount : ControlDb :=
  { oneAdmin with users := oneAdmin.users.insert "bob".toList (newBob "old".toList) }

def bobInput : AdminUserInput where
  username := "bob".toList
  subject := "bob".toList
  kind := []
  password := "a new password for bob".toList
  name := []
  email := []
  organization := []
  teams := []
  roles := []
  enabled := none
  passwordChangeRequired := false

def resetMfa (username : Str) : AccountOp := .users adminEnv (.resetMfa username)

def deleteBob : AccountOp := .users adminEnv (.delete "bob".toList)

def createBob : AccountOp := .users { adminEnv with hash := some "new".toList } (.create bobInput)

def bobProof : VerifiedLocalPassword := ⟨"bob".toList, "bob".toList, 1, 8⟩

def aliceLogin : CompletedLocalLogin :=
  ⟨"alice".toList, "alice".toList, 1, 9, .adminLogin, "binding".toList, false, none⟩

def loginEnv : LoginEnv where
  fault := fun _ _ => none
  now := fun _ => .ok 9
  federated := fun _ => .ok false
  fails := fun _ => none
  secret := some ("secret".toList, "hash".toList)
  commit := .ok ()
  required := true
  challengeTtl := 100
  bindingHash := "binding".toList
  cipher := []
  validates := fun _ _ => none
  totp := false
  recovery := none
  newCodes := []

end Sample

theorem Sample.subjectsUnique_bobAccount : Sample.bobAccount.SubjectsUnique := by
  -- every user of the store is its own subject
  have hown : ∀ n u, bobAccount.users.get? n = some u → u.subject = n := by
    intro n u h
    have hmem := SortedMap.mem_entries_iff.mpr h
    have hentries : bobAccount.users.entries =
      [("alice".toList, adminAlice), ("bob".toList, newBob "old".toList)] := rfl
    rw [hentries, List.mem_cons, List.mem_singleton] at hmem
    rcases hmem with hmem | hmem
    · obtain ⟨rfl, rfl⟩ := Prod.mk.inj hmem
      rfl
    · obtain ⟨rfl, rfl⟩ := Prod.mk.inj hmem
      rfl
  intro n n' u u' hu hu' hsubject
  rw [← hown n u hu, hsubject, hown n' u' hu']

theorem Sample.verifiedIn_bobAccount : VerifiedIn Sample.bobProof Sample.bobAccount :=
  ⟨⟨"bob".toList, "bob".toList, "old".toList, 1, true⟩, 8, by rfl⟩

theorem Sample.completedIn_bobAccount : CompletedIn Sample.aliceLogin Sample.bobAccount :=
  .inl ⟨{ Sample.loginEnv with required := false }, ⟨"alice".toList, "alice".toList, 1, 8⟩,
    .adminLogin, Sample.bobAccount, by rfl⟩

theorem AccountOp.notRecreated_singleton {op : AccountOp} (username : Str) (u : LocalUser)
    (hu : d.users.get? username = some u) (hs : u.subject = s) : NotRecreated s [op] d := by
  intro pre op' post hsplit hcreates
  cases pre with
  | nil => exact hcreates.1 username u hu hs
  | cons first pre => simp at hsplit

/-- A proof of `bob` and a login of `alice` are refused after a reset of their second factor. -/
theorem stale_proofs_refused_reset :
    (VerifiedIn Sample.bobProof Sample.bobAccount ∧
      ∀ env purpose result, beginBody env Sample.bobProof purpose
        (AccountOp.run [Sample.resetMfa "bob".toList] Sample.bobAccount) ≠ .ok result) ∧
    CompletedIn Sample.aliceLogin Sample.bobAccount ∧
      ∀ env result, issueBody env Sample.aliceLogin
        (AccountOp.run [Sample.resetMfa "alice".toList] Sample.bobAccount) ≠ .ok result := by
  have hbob : (Sample.resetMfa "bob".toList).Mutates "bob".toList Sample.bobAccount :=
    ⟨⟨204, by rfl⟩, "bob".toList, Sample.newBob "old".toList, rfl, by rfl, rfl⟩
  have halice : (Sample.resetMfa "alice".toList).Mutates "alice".toList Sample.bobAccount :=
    ⟨⟨204, by rfl⟩, "alice".toList, Sample.adminAlice, rfl, by rfl, rfl⟩
  constructor
  · exact ⟨Sample.verifiedIn_bobAccount,
      (stale_proofs_refused Sample.subjectsUnique_bobAccount [] [] _).1 Sample.bobProof
        Sample.verifiedIn_bobAccount hbob
        (AccountOp.notRecreated_singleton "bob".toList (Sample.newBob "old".toList) (by rfl) rfl)⟩
  · exact ⟨Sample.completedIn_bobAccount,
      ((stale_proofs_refused Sample.subjectsUnique_bobAccount [] [] _).2 Sample.aliceLogin
        Sample.completedIn_bobAccount halice
        (AccountOp.notRecreated_singleton "alice".toList Sample.adminAlice (by rfl) rfl)).2.2⟩

/-- A user is deleted and created again under the same name and subject, with a new password. The
proof of the old password is accepted for the new user, who is asked for a new password in its name. -/
theorem recreated_user_accepts_old_proof :
    Sample.bobAccount.SubjectsUnique ∧ VerifiedIn Sample.bobProof Sample.bobAccount ∧
      Sample.deleteBob.Mutates "bob".toList Sample.bobAccount ∧
      (AccountOp.run [Sample.deleteBob, Sample.createBob] Sample.bobAccount).users.get? "bob".toList =
        some (Sample.newBob "new".toList) ∧
      ∃ d', beginBody Sample.loginEnv Sample.bobProof .adminLogin
        (AccountOp.run [Sample.deleteBob, Sample.createBob] Sample.bobAccount) =
          .ok (.pending .passwordChange "secret".toList, d') := by
  refine ⟨Sample.subjectsUnique_bobAccount, Sample.verifiedIn_bobAccount, ?_, ?_, ?_⟩
  · exact ⟨⟨204, by rfl⟩, "bob".toList, Sample.newBob "old".toList, rfl, by rfl, rfl⟩
  · rfl
  · exact ⟨_, by rfl⟩

end GraphitBroker
