import GraphitBroker.PasswordAdmission
import GraphitBroker.Lib.Refusals

/-!
# Password admission over every run

The accounts of leases are exact in every reachable state, a lockout holds until its end unless a
success lifts it, and eviction is noticed only where a full table refuses a username: all other
answers are those of a table that keeps everything.
-/

namespace GraphitBroker

open Refusals

namespace PasswordAdmissionState

variable {policy : PasswordAdmissionPolicy} {s s' : PasswordAdmissionState} {name other : Str}
  {id original elapsed : Nat} {attempt : PasswordAttempt} {username : Option Str}

def liveLeases (s : PasswordAdmissionState) (name : Str) : Nat :=
  s.leases.countP fun lease => lease.2 == some name

def counted (s : PasswordAdmissionState) (name : Str) : Nat :=
  ((s.attempts.get? name).map PasswordAttempt.active).getD 0

structure Exact (policy : PasswordAdmissionPolicy) (s : PasswordAdmissionState) : Prop where
  occupied : s.occupied = s.leases.length
  capacity : s.occupied ≤ policy.capacity
  nodup : (s.leases.map Prod.fst).Nodup
  fresh : ∀ lease ∈ s.leases, lease.1 < s.nextLease
  active : ∀ name, s.counted name = s.liveLeases name
  times : ∀ name attempt, s.attempts.get? name = some attempt →
    attempt.windowStart ≤ attempt.lastSeen ∧ attempt.lastSeen ≤ s.clock
  size : s.attempts.size ≤ trackedUsernames

theorem exact_initial : initial.Exact policy where
  occupied := rfl
  capacity := Nat.zero_le _
  nodup := List.nodup_nil
  fresh := fun _ h => absurd h List.not_mem_nil
  active := fun _ => rfl
  times := fun _ _ h => nomatch h
  size := Nat.zero_le _

theorem Exact.exists_entry (hs : s.Exact policy) (h : (id, some name) ∈ s.leases) :
    ∃ attempt, s.attempts.get? name = some attempt ∧ 0 < attempt.active := by
  have hpos : 0 < s.counted name := by
    rw [hs.active]
    exact List.countP_pos_iff.mpr ⟨_, h, beq_self_eq_true _⟩
  unfold counted at hpos
  cases hget : s.attempts.get? name with
  | none =>
    rw [hget] at hpos
    exact absurd hpos (Nat.lt_irrefl 0)
  | some attempt =>
    rw [hget] at hpos
    exact ⟨attempt, rfl, hpos⟩

theorem perm_filter_leases {leases : List (Nat × Option Str)} (hnodup : (leases.map Prod.fst).Nodup)
    (h : (id, username) ∈ leases) :
    leases.Perm ((id, username) :: leases.filter fun lease => lease.1 != id) := by
  induction leases with
  | nil => cases h
  | cons first rest ih =>
    obtain ⟨hfirst, hrest⟩ := List.nodup_cons.mp hnodup
    by_cases hid : first.1 = id
    · have hnot : (id, username) ∉ rest := by
        intro hmem
        exact hfirst (hid ▸ List.mem_map_of_mem hmem)
      obtain rfl : (id, username) = first := (List.mem_cons.mp h).resolve_right hnot
      have hkeep : rest.filter (fun lease => lease.1 != id) = rest := by
        refine List.filter_eq_self.mpr fun lease hlease => ?_
        rw [bne_iff_ne]
        rintro rfl
        exact hfirst (List.mem_map.mpr ⟨lease, hlease, rfl⟩)
      rw [List.filter_cons_of_neg (by simp), hkeep]
    · have hmem : (id, username) ∈ rest :=
        (List.mem_cons.mp h).resolve_left fun heq => hid (by rw [← heq])
      rw [List.filter_cons_of_pos (by simpa using hid)]
      exact ((ih hrest hmem).cons first).trans (.swap _ _ _)

theorem Exact.tick (hs : s.Exact policy) (elapsed : Nat) :
    Exact policy { s with clock := s.clock + elapsed } where
  occupied := hs.occupied
  capacity := hs.capacity
  nodup := hs.nodup
  fresh := hs.fresh
  active := hs.active
  times := fun name attempt h =>
    ⟨(hs.times name attempt h).1, (hs.times name attempt h).2.trans (Nat.le_add_right _ _)⟩
  size := hs.size

theorem get?_sweep : (s.sweep policy).attempts.get? name =
    (s.attempts.get? name).filter fun attempt => attempt.retained policy s.clock :=
  SortedMap.get?_filter _ _ _

theorem counted_sweep : (s.sweep policy).counted name = s.counted name := by
  unfold counted
  rw [get?_sweep]
  cases hget : s.attempts.get? name with
  | none => rfl
  | some attempt =>
    rw [Option.filter_some]
    split_ifs with hretained
    · rfl
    · simp only [PasswordAttempt.retained, Bool.or_eq_true, not_or] at hretained
      have hactive : attempt.active = 0 := by simpa using hretained.1.1
      simp [hactive]

theorem Exact.sweep (hs : s.Exact policy) : (s.sweep policy).Exact policy where
  occupied := hs.occupied
  capacity := hs.capacity
  nodup := hs.nodup
  fresh := hs.fresh
  active := fun name => counted_sweep.trans (hs.active name)
  times := fun name attempt h => by
    rw [get?_sweep] at h
    exact hs.times name attempt (Option.eq_some_of_filter_eq_some h)
  size := SortedMap.size_filter_le.trans hs.size

theorem Exact.update (hs : s.Exact policy) (hget : s.attempts.get? name = some attempt)
    {attempt' : PasswordAttempt} (hactive : attempt'.active = attempt.active)
    (htimes : attempt'.windowStart ≤ attempt'.lastSeen ∧ attempt'.lastSeen ≤ s.clock) :
    Exact policy { s with attempts := s.attempts.insert name attempt' } where
  occupied := hs.occupied
  capacity := hs.capacity
  nodup := hs.nodup
  fresh := hs.fresh
  active := by
    intro other
    rw [counted, SortedMap.get?_insert]
    split_ifs with heq
    · subst heq
      refine Eq.trans ?_ (hs.active other)
      rw [counted, hget]
      exact hactive
    · exact hs.active other
  times := by
    intro other a h
    rw [SortedMap.get?_insert] at h
    split_ifs at h
    · obtain rfl := Option.some.inj h
      exact htimes
    · exact hs.times other a h
  size := (SortedMap.size_insert_of_isSome (by rw [hget]; rfl)).trans hs.size

theorem refreshWindow_times (h : attempt.windowStart ≤ attempt.lastSeen ∧ attempt.lastSeen ≤ s.clock) :
    (attempt.refreshWindow s.clock policy.window).windowStart ≤ s.clock := by
  unfold PasswordAttempt.refreshWindow
  split_ifs
  · exact le_refl _
  · exact h.1.trans h.2

theorem active_refreshWindow (now window : Nat) :
    (attempt.refreshWindow now window).active = attempt.active := by
  unfold PasswordAttempt.refreshWindow
  split_ifs <;> rfl

variable {attempts : SortedMap Str PasswordAttempt} {update : PasswordAttempt → PasswordAttempt}

theorem Exact.lease (hs : s.Exact policy) (hroom : s.occupied ≠ policy.capacity)
    (hactive : ∀ other, ((attempts.get? other).map PasswordAttempt.active).getD 0 =
      s.counted other + if username = some other then 1 else 0)
    (htimes : ∀ other a, attempts.get? other = some a →
      a.windowStart ≤ a.lastSeen ∧ a.lastSeen ≤ s.clock)
    (hsize : attempts.size ≤ trackedUsernames) :
    ({ s with attempts }.lease username).2.Exact policy where
  occupied := congrArg (· + 1) hs.occupied
  capacity := Nat.lt_of_le_of_ne hs.capacity hroom
  nodup := by
    refine List.nodup_cons.mpr ⟨fun hmem => ?_, hs.nodup⟩
    obtain ⟨lease, hlease, heq⟩ := List.mem_map.mp hmem
    exact absurd heq (hs.fresh lease hlease).ne
  fresh := by
    intro lease hlease
    rcases List.mem_cons.mp hlease with rfl | hlease
    · exact Nat.lt_succ_self _
    · exact (hs.fresh lease hlease).trans (Nat.lt_succ_self _)
  active := by
    intro other
    refine (hactive other).trans ?_
    rw [hs.active other]
    show _ = List.countP _ (_ :: s.leases)
    rw [List.countP_cons]
    simp only [beq_iff_eq, liveLeases]
  times := htimes
  size := hsize

theorem Exact.admitEntry (hs : s.Exact policy) (hroom : s.occupied ≠ policy.capacity)
    (hplace : (s.attempts.get? name).isSome = true ∨ s.attempts.size < trackedUsernames) :
    (s.admitEntry policy name).2.Exact policy := by
  have hattempt : ((s.attempts.get? name).getD (.fresh s.clock)).active = s.counted name ∧
      ((s.attempts.get? name).getD (.fresh s.clock)).windowStart ≤
        ((s.attempts.get? name).getD (.fresh s.clock)).lastSeen ∧
      ((s.attempts.get? name).getD (.fresh s.clock)).lastSeen ≤ s.clock := by
    unfold counted
    cases hget : s.attempts.get? name with
    | none => exact ⟨rfl, le_refl _, le_refl _⟩
    | some a => exact ⟨rfl, hs.times name a hget⟩
  obtain ⟨hactive, htimes⟩ := hattempt
  unfold PasswordAdmissionState.admitEntry
  generalize (s.attempts.get? name).getD (.fresh s.clock) = attempt at hactive htimes
  dsimp only
  cases attempt.blocked s.clock with
  | some wait => exact hs
  | none =>
    refine hs.lease hroom (fun other => ?_) (fun other a h => ?_) ?_
    · rw [SortedMap.get?_insert]
      by_cases heq : other = name
      · subst heq
        rw [if_pos rfl, if_pos rfl]
        show (attempt.refreshWindow s.clock policy.window).active + 1 = _
        rw [active_refreshWindow, hactive]
      · rw [if_neg heq, if_neg fun h => heq (Option.some.inj h).symm]
        rfl
    · rw [SortedMap.get?_insert] at h
      split_ifs at h
      · obtain rfl := Option.some.inj h
        exact ⟨refreshWindow_times htimes, le_refl _⟩
      · exact hs.times other a h
    · rcases hplace with hplace | hplace
      · exact (SortedMap.size_insert_of_isSome hplace).trans hs.size
      · exact SortedMap.size_insert_le.trans hplace

theorem Exact.admitNamed (hs : s.Exact policy) (hroom : s.occupied ≠ policy.capacity) :
    (s.admitNamed policy name).2.Exact policy := by
  unfold PasswordAdmissionState.admitNamed
  dsimp only
  split_ifs with hfull
  · exact hs.sweep
  · refine hs.sweep.admitEntry hroom ?_
    rw [Bool.and_eq_true, not_and_or, Bool.not_eq_true, Option.isNone_eq_false_iff, beq_iff_eq] at hfull
    exact hfull.imp_right fun hne => Nat.lt_of_le_of_ne hs.sweep.size hne

theorem Exact.admitWith (hs : s.Exact policy) :
    (s.admitWith policy (PasswordAdmissionState.admitNamed policy) username original).2.Exact policy := by
  unfold PasswordAdmissionState.admitWith
  cases s.checkOpen original with
  | error e => exact hs
  | ok u =>
    dsimp only
    split_ifs with hfull
    · exact hs
    · cases username with
      | none =>
        exact hs.lease hfull (fun other => by rw [if_neg (by simp)]; rfl) hs.times hs.size
      | some name => exact hs.admitNamed hfull

theorem Exact.updateEntry (hs : s.Exact policy)
    (hupdate : ∀ a, a.windowStart ≤ a.lastSeen ∧ a.lastSeen ≤ s.clock →
      (update a).active = a.active ∧ (update a).windowStart ≤ (update a).lastSeen ∧
        (update a).lastSeen ≤ s.clock) :
    (s.updateEntry username original update).2.Exact policy := by
  unfold PasswordAdmissionState.updateEntry
  cases s.checkOpen original with
  | error e => exact hs
  | ok u =>
    cases username with
    | none => exact hs
    | some name =>
      cases hget : s.attempts.get? name with
      | none =>
        simp only [hget]
        exact hs
      | some attempt =>
        simp only [hget]
        obtain ⟨hactive, htimes⟩ := hupdate attempt (hs.times name attempt hget)
        exact hs.update hget hactive htimes

theorem Exact.incorrect (hs : s.Exact policy) :
    (s.incorrect policy username original).2.Exact policy :=
  hs.updateEntry fun _ ha => ⟨active_refreshWindow _ _, refreshWindow_times ha, le_refl _⟩

theorem Exact.succeeded (hs : s.Exact policy) :
    (s.succeeded username original).2.Exact policy :=
  hs.updateEntry fun _ _ => ⟨rfl, le_refl _, le_refl _⟩

theorem get?_release (hget : attempts.get? name = some attempt) :
    (release attempts name).get? other =
      if other = name then
        if attempt.active - 1 = 0 ∧ attempt.failures = 0 ∧ attempt.blockedUntil = none then none
        else some { attempt with active := attempt.active - 1 }
      else attempts.get? other := by
  unfold release
  simp only [hget]
  split_ifs with hgone heq heq
  · rw [SortedMap.get?_erase, if_pos heq]
  · rw [SortedMap.get?_erase, if_neg heq]
  · rw [SortedMap.get?_insert, if_pos heq]
  · rw [SortedMap.get?_insert, if_neg heq]

theorem size_release_le :
    (release attempts name).size ≤ attempts.size := by
  unfold release
  cases hget : attempts.get? name with
  | none => exact le_refl _
  | some attempt =>
    dsimp only
    split_ifs
    · exact SortedMap.size_erase_le
    · exact SortedMap.size_insert_of_isSome (by rw [hget]; rfl)

theorem Exact.released (hs : s.Exact policy) (h : (id, username) ∈ s.leases) :
    (∀ other, (((username.elim s.attempts (release s.attempts)).get? other).map
        PasswordAttempt.active).getD 0 + (if username = some other then 1 else 0) =
      s.counted other) ∧
    (∀ other a, (username.elim s.attempts (release s.attempts)).get? other = some a →
      a.windowStart ≤ a.lastSeen ∧ a.lastSeen ≤ s.clock) ∧
    (username.elim s.attempts (release s.attempts)).size ≤ trackedUsernames := by
  cases username with
  | none => exact ⟨fun other => by rw [if_neg (by simp)]; rfl, hs.times, hs.size⟩
  | some name =>
    obtain ⟨attempt, hget, hpos⟩ := hs.exists_entry h
    refine ⟨fun other => ?_, fun other a ha => ?_, size_release_le.trans hs.size⟩
    · show (((release s.attempts name).get? other).map _).getD 0 + _ = _
      rw [get?_release hget, counted]
      by_cases heq : other = name
      · subst heq
        rw [if_pos rfl, if_pos rfl, hget]
        split_ifs with hgone
        · show 0 + 1 = attempt.active
          omega
        · show attempt.active - 1 + 1 = attempt.active
          omega
      · rw [if_neg heq, if_neg fun h => heq (Option.some.inj h).symm, Nat.add_zero]
    · have ha' : (release s.attempts name).get? other = some a := ha
      rw [get?_release hget] at ha'
      split_ifs at ha'
      · obtain rfl := Option.some.inj ha'
        exact hs.times name attempt hget
      · exact hs.times other a ha'

theorem Exact.drop (hs : s.Exact policy) (h : (id, username) ∈ s.leases) :
    (s.drop id username).Exact policy := by
  have hperm := perm_filter_leases hs.nodup h
  have hlength := hperm.length_eq
  rw [List.length_cons] at hlength
  obtain ⟨hactive, htimes, hsize⟩ := hs.released h
  have hoccupied : s.occupied - 1 = (s.leases.filter fun lease => lease.1 != id).length := by
    have := hs.occupied
    omega
  refine ⟨hoccupied, (Nat.sub_le _ _).trans hs.capacity, hs.nodup.sublist
    (List.filter_sublist.map Prod.fst), fun lease hlease => hs.fresh lease (List.mem_filter.mp hlease).1,
    fun other => ?_, htimes, hsize⟩
  have hcount := hperm.countP_eq fun lease => lease.2 == some other
  rw [List.countP_cons] at hcount
  simp only [beq_iff_eq] at hcount
  have hsum := (hactive other).trans (hs.active other)
  show (((username.elim s.attempts (release s.attempts)).get? other).map
    PasswordAttempt.active).getD 0 = List.countP (fun lease => lease.2 == some other)
      (s.leases.filter fun lease => lease.1 != id)
  unfold liveLeases at hsum
  omega

theorem find?_lease {found : Nat × Option Str}
    (h : s.leases.find? (fun lease => lease.1 == id) = some found) :
    found.1 = id ∧ (id, found.2) ∈ s.leases := by
  have hid : found.1 = id := by simpa using List.find?_some h
  exact ⟨hid, hid ▸ List.mem_of_find?_eq_some h⟩

theorem step_lease
    {named : PasswordAdmissionState → Str → Except PasswordAdmissionError Nat × PasswordAdmissionState}
    {operation : LeaseOperation} {found : Nat × Option Str}
    (h : s.leases.find? (fun lease => lease.1 == id) = some found) :
    s.step policy named elapsed (.lease id operation) =
      { s with clock := s.clock + elapsed }.leaseStep policy id found.2 operation := by
  simp only [step, h]

theorem step_lease_none
    {named : PasswordAdmissionState → Str → Except PasswordAdmissionError Nat × PasswordAdmissionState}
    {operation : LeaseOperation} (h : s.leases.find? (fun lease => lease.1 == id) = none) :
    s.step policy named elapsed (.lease id operation) =
      (.done, { s with clock := s.clock + elapsed }) := by
  simp only [step, h]

theorem Exact.step (hs : s.Exact policy) (elapsed : Nat) (event : PasswordAdmissionEvent) :
    (s.step policy (PasswordAdmissionState.admitNamed policy) elapsed event).2.Exact policy := by
  have htick := hs.tick elapsed
  cases event with
  | admission username original => exact htick.admitWith
  | close =>
    exact ⟨htick.occupied, htick.capacity, htick.nodup, htick.fresh, htick.active, htick.times,
      htick.size⟩
  | lease id operation =>
    cases hfind : s.leases.find? fun lease => lease.1 == id with
    | none =>
      rw [step_lease_none hfind]
      exact htick
    | some found =>
      obtain ⟨-, hmem⟩ := find?_lease hfind
      rw [step_lease hfind]
      cases operation with
      | recheckAttempt original => exact htick
      | incorrect original => exact htick.incorrect
      | succeeded original => exact htick.succeeded
      | drop => exact htick.drop hmem

theorem Exact.runFrom (hs : s.Exact policy) (events : List (Nat × PasswordAdmissionEvent)) :
    (runFrom policy (PasswordAdmissionState.admitNamed policy) s events).2.Exact policy := by
  induction events generalizing s with
  | nil => exact hs
  | cons first rest ih => exact ih (hs.step first.1 first.2)

theorem exact_run (events : List (Nat × PasswordAdmissionEvent)) :
    (run policy events).2.Exact policy :=
  exact_initial.runFrom events

structure LockedOut (policy : PasswordAdmissionPolicy) (name : Str) (deadline : Nat)
    (s : PasswordAdmissionState) : Prop where
  recent : deadline ≤ s.clock + policy.lockout
  blocked : s.clock < deadline → ∃ attempt u, s.attempts.get? name = some attempt ∧
    attempt.blockedUntil = some u ∧ deadline ≤ u

variable {deadline : Nat}

theorem LockedOut.tick (h : LockedOut policy name deadline s) (elapsed : Nat) :
    LockedOut policy name deadline { s with clock := s.clock + elapsed } where
  recent := h.recent.trans (by show _ ≤ s.clock + elapsed + _; omega)
  blocked := fun hlt => h.blocked ((Nat.le_add_right _ _).trans_lt hlt)

theorem LockedOut.of_entry (h : LockedOut policy name deadline s) (hclock : s'.clock = s.clock)
    (hentry : ∀ attempt u, s.attempts.get? name = some attempt → attempt.blockedUntil = some u →
      deadline ≤ u → s.clock < deadline →
      ∃ attempt' u', s'.attempts.get? name = some attempt' ∧ attempt'.blockedUntil = some u' ∧
        deadline ≤ u') :
    LockedOut policy name deadline s' where
  recent := hclock ▸ h.recent
  blocked := fun hlt => by
    rw [hclock] at hlt
    obtain ⟨attempt, u, hget, hblocked, hle⟩ := h.blocked hlt
    exact hentry attempt u hget hblocked hle hlt

theorem LockedOut.sweep (h : LockedOut policy name deadline s) :
    LockedOut policy name deadline (s.sweep policy) := by
  refine h.of_entry rfl fun attempt u hget hblocked hle hlt => ⟨attempt, u, ?_, hblocked, hle⟩
  rw [get?_sweep, hget, Option.filter_some, if_pos]
  have hlater : s.clock < u := hlt.trans_le hle
  simp [PasswordAttempt.retained, hblocked, hlater]

theorem blocked_of_lt {u now : Nat} (hblocked : attempt.blockedUntil = some u) (h : now < u) :
    attempt.blocked now = some (u - now) := by
  rw [PasswordAttempt.blocked, hblocked, Option.filter_some, if_pos (decide_eq_true h)]
  rfl

theorem LockedOut.admitEntry_refused (h : LockedOut policy name deadline s)
    (hlt : s.clock < deadline) :
    ∃ wait, s.admitEntry policy name = (.error (.rateLimited wait), s) := by
  obtain ⟨attempt, u, hget, hblocked, hle⟩ := h.blocked hlt
  refine ⟨u - s.clock, ?_⟩
  unfold admitEntry
  simp only [hget, Option.getD_some, blocked_of_lt hblocked (hlt.trans_le hle)]

theorem LockedOut.admitEntry (h : LockedOut policy name deadline s) :
    LockedOut policy name deadline (s.admitEntry policy other).2 := by
  by_cases hlt : s.clock < deadline
  · by_cases heq : other = name
    · subst heq
      obtain ⟨wait, hrefused⟩ := h.admitEntry_refused hlt
      rw [hrefused]
      exact h
    · unfold PasswordAdmissionState.admitEntry
      dsimp only
      split
      · exact h
      · refine h.of_entry rfl fun attempt u hget hblocked hle _ => ⟨attempt, u, ?_, hblocked, hle⟩
        show (s.attempts.insert other _).get? name = _
        rw [SortedMap.get?_insert, if_neg (Ne.symm heq), hget]
  · have hclock : (s.admitEntry policy other).2.clock = s.clock := by
      unfold PasswordAdmissionState.admitEntry
      dsimp only
      split <;> rfl
    exact ⟨hclock ▸ h.recent, fun hlt' => absurd (hclock ▸ hlt') hlt⟩

theorem LockedOut.admitNamed (h : LockedOut policy name deadline s) :
    LockedOut policy name deadline (s.admitNamed policy other).2 := by
  unfold PasswordAdmissionState.admitNamed
  dsimp only
  split_ifs
  · exact h.sweep
  · exact h.sweep.admitEntry

theorem LockedOut.admitWith (h : LockedOut policy name deadline s) :
    LockedOut policy name deadline
      (s.admitWith policy (PasswordAdmissionState.admitNamed policy) username original).2 := by
  unfold PasswordAdmissionState.admitWith
  cases s.checkOpen original with
  | error e => exact h
  | ok u =>
    dsimp only
    split_ifs
    · exact h
    · cases username with
      | none => exact h.of_entry rfl fun attempt u hget hblocked hle _ => ⟨attempt, u, hget, hblocked, hle⟩
      | some name' => exact h.admitNamed

theorem LockedOut.updateEntry (h : LockedOut policy name deadline s)
    (hupdate : username = some name → (s.updateEntry username original update).1 = .ok () →
      ∀ attempt u, attempt.blockedUntil = some u → deadline ≤ u → s.clock < deadline →
        ∃ u', (update attempt).blockedUntil = some u' ∧ deadline ≤ u') :
    LockedOut policy name deadline (s.updateEntry username original update).2 := by
  unfold PasswordAdmissionState.updateEntry at hupdate ⊢
  cases hopen : s.checkOpen original with
  | error e =>
    simp only
    exact h
  | ok u =>
    cases username with
    | none => exact h
    | some name' =>
      cases hget : s.attempts.get? name' with
      | none =>
        simp only [hget]
        exact h
      | some attempt =>
        simp only [hopen, hget] at hupdate ⊢
        refine h.of_entry rfl fun a u ha hblocked hle hlt => ?_
        show ∃ attempt' u', (s.attempts.insert name' _).get? name = _ ∧ _
        rw [SortedMap.get?_insert]
        by_cases heq : name = name'
        · subst heq
          obtain rfl := Option.some.inj (hget.symm.trans ha)
          obtain ⟨u', hblocked', hle'⟩ := hupdate rfl trivial attempt u hblocked hle hlt
          exact ⟨_, u', if_pos rfl, hblocked', hle'⟩
        · rw [if_neg heq]
          exact ⟨a, u, ha, hblocked, hle⟩

theorem LockedOut.incorrect (h : LockedOut policy name deadline s) :
    LockedOut policy name deadline (s.incorrect policy username original).2 := by
  refine h.updateEntry fun _ _ attempt u hblocked hle hlt => ?_
  -- The lockout survives a new window, and a new lockout ends later.
  have hkept : (attempt.refreshWindow s.clock policy.window).blockedUntil = some u := by
    unfold PasswordAttempt.refreshWindow
    split_ifs
    · show attempt.blockedUntil.filter _ = _
      rw [hblocked, Option.filter_some, if_pos (decide_eq_true (hlt.trans_le hle))]
    · exact hblocked
  unfold recordFailure
  dsimp only
  split_ifs
  · exact ⟨_, rfl, h.recent⟩
  · exact ⟨u, hkept, hle⟩

theorem LockedOut.drop (h : LockedOut policy name deadline s) :
    LockedOut policy name deadline (s.drop id username) := by
  refine h.of_entry rfl fun attempt u hget hblocked hle _ => ?_
  cases username with
  | none => exact ⟨attempt, u, hget, hblocked, hle⟩
  | some name' =>
    show ∃ attempt' u', (release s.attempts name').get? name = _ ∧ _
    cases hget' : s.attempts.get? name' with
    | none =>
      rw [release, hget']
      exact ⟨attempt, u, hget, hblocked, hle⟩
    | some attempt' =>
      rw [get?_release hget']
      by_cases heq : name = name'
      · subst heq
        obtain rfl := Option.some.inj (hget.symm.trans hget')
        rw [if_pos rfl, if_neg (by rw [hblocked]; simp)]
        exact ⟨_, u, rfl, hblocked, hle⟩
      · rw [if_neg heq]
        exact ⟨attempt, u, hget, hblocked, hle⟩

def Succeeds (policy : PasswordAdmissionPolicy) (name : Str) (s : PasswordAdmissionState)
    (elapsed : Nat) (event : PasswordAdmissionEvent) : Prop :=
  ∃ id original, event = .lease id (.succeeded original) ∧ (id, some name) ∈ s.leases ∧
    (s.step policy (admitNamed policy) elapsed event).1 = .answered (.ok ())

theorem LockedOut.step (h : LockedOut policy name deadline s) {event : PasswordAdmissionEvent}
    (hno : ¬Succeeds policy name s elapsed event) :
    LockedOut policy name deadline
      (s.step policy (PasswordAdmissionState.admitNamed policy) elapsed event).2 := by
  have htick := h.tick elapsed
  cases event with
  | admission username original => exact htick.admitWith
  | close => exact ⟨htick.recent, htick.blocked⟩
  | lease id operation =>
    cases hfind : s.leases.find? fun lease => lease.1 == id with
    | none =>
      rw [step_lease_none hfind]
      exact htick
    | some found =>
      obtain ⟨-, hmem⟩ := find?_lease hfind
      rw [step_lease hfind]
      cases operation with
      | recheckAttempt original => exact htick
      | incorrect original => exact htick.incorrect
      | drop => exact htick.drop
      | succeeded original =>
        refine htick.updateEntry fun hname hok => absurd ?_ hno
        refine ⟨id, original, rfl, hname ▸ hmem, ?_⟩
        rw [step_lease hfind]
        exact congrArg PasswordAdmissionAnswer.answered hok

def NoSuccess (policy : PasswordAdmissionPolicy) (name : Str) :
    PasswordAdmissionState → List (Nat × PasswordAdmissionEvent) → Prop
  | _, [] => True
  | s, (elapsed, event) :: rest => ¬Succeeds policy name s elapsed event ∧
      NoSuccess policy name (s.step policy (admitNamed policy) elapsed event).2 rest

theorem LockedOut.runFrom (h : LockedOut policy name deadline s)
    {events : List (Nat × PasswordAdmissionEvent)} (hno : NoSuccess policy name s events) :
    LockedOut policy name deadline
      (runFrom policy (PasswordAdmissionState.admitNamed policy) s events).2 := by
  induction events generalizing s with
  | nil => exact h
  | cons first rest ih => exact ih (h.step hno.1) hno.2

theorem lockedOut_of_failures (hs : s.Exact policy) (h : (id, some name) ∈ s.leases)
    (hok : (s.step policy (admitNamed policy) elapsed (.lease id (.incorrect original))).1 =
      .answered (.ok ()))
    (hlimit : ∀ a, (s.step policy (admitNamed policy) elapsed
      (.lease id (.incorrect original))).2.attempts.get? name = some a →
        policy.maxFailures ≤ a.failures) :
    LockedOut policy name (s.clock + elapsed + policy.lockout)
      (s.step policy (admitNamed policy) elapsed (.lease id (.incorrect original))).2 := by
  have hfind : s.leases.find? (fun lease => lease.1 == id) = some (id, some name) := by
    cases hfind : s.leases.find? fun lease => lease.1 == id with
    | none => exact absurd (beq_self_eq_true id) (List.find?_eq_none.mp hfind _ h)
    | some found =>
      have hid : found.1 = id := by simpa using List.find?_some hfind
      exact congrArg some (List.inj_on_of_nodup_map hs.nodup (List.mem_of_find?_eq_some hfind) h hid)
  rw [step_lease hfind] at hok hlimit ⊢
  obtain ⟨attempt, hget, -⟩ := hs.exists_entry h
  have hopen : ({ s with clock := s.clock + elapsed } : PasswordAdmissionState).checkOpen original =
      .ok () := by
    have hanswer := PasswordAdmissionAnswer.answered.inj hok
    unfold incorrect updateEntry at hanswer
    split at hanswer
    · cases hanswer
    · assumption
  simp only [leaseStep, incorrect, updateEntry, hopen, hget] at hlimit ⊢
  have hentry := hlimit _ (by rw [SortedMap.get?_insert, if_pos rfl])
  refine ⟨le_refl _, fun _ => ⟨_, s.clock + elapsed + policy.lockout,
    by rw [SortedMap.get?_insert, if_pos rfl], ?_, le_refl _⟩⟩
  unfold recordFailure at hentry ⊢
  dsimp only at hentry ⊢
  rw [if_pos hentry]

theorem LockedOut.refused (h : LockedOut policy name deadline s) (hlt : s.clock + elapsed < deadline) :
    (∀ occupancy, (s.step policy (PasswordAdmissionState.admitNamed policy) elapsed
      (.admission (some name) original)).1 ≠ .admitted (.ok occupancy)) ∧
    ({ s with clock := s.clock + elapsed } : PasswordAdmissionState).recheckAttempt (some name)
      original ≠ .ok () := by
  have htick := h.tick elapsed
  refine ⟨fun occupancy hadmitted => ?_, fun hok => ?_⟩
  · have hanswer := PasswordAdmissionAnswer.admitted.inj hadmitted
    unfold PasswordAdmissionState.admitWith at hanswer
    split at hanswer
    · cases hanswer
    · dsimp only at hanswer
      split_ifs at hanswer
      unfold PasswordAdmissionState.admitNamed at hanswer
      dsimp only at hanswer
      split_ifs at hanswer
      obtain ⟨wait, hrefused⟩ := htick.sweep.admitEntry_refused hlt
      rw [hrefused] at hanswer
      cases hanswer
  · obtain ⟨attempt, u, hget, hblocked, hle⟩ := htick.blocked hlt
    unfold recheckAttempt at hok
    split at hok
    · cases hok
    · rw [Option.bind_some, hget, Option.bind_some, blocked_of_lt hblocked (hlt.trans_le hle)] at hok
      cases hok

structure Stale (policy : PasswordAdmissionPolicy) (now : Nat) (attempt : PasswordAttempt) : Prop where
  idle : attempt.active = 0
  unblocked : ∀ u, attempt.blockedUntil = some u → u ≤ now
  old : policy.window + policy.lockout < now - attempt.lastSeen
  ordered : attempt.windowStart ≤ attempt.lastSeen

def Evicted (policy : PasswordAdmissionPolicy) (s : PasswordAdmissionState)
    (table : SortedMap Str PasswordAttempt) : Prop :=
  ∀ name, table.get? name = s.attempts.get? name ∨
    s.attempts.get? name = none ∧ ∃ attempt, table.get? name = some attempt ∧
      Stale policy s.clock attempt

theorem Stale.mono {now later : Nat} (h : Stale policy now attempt) (hle : now ≤ later) :
    Stale policy later attempt :=
  ⟨h.idle, fun u hu => (h.unblocked u hu).trans hle, h.old.trans_le (Nat.sub_le_sub_right hle _),
    h.ordered⟩

theorem stale_of_not_retained {now : Nat} (h : attempt.retained policy now = false)
    (hordered : attempt.windowStart ≤ attempt.lastSeen) : Stale policy now attempt := by
  simp only [PasswordAttempt.retained, Bool.or_eq_false_iff, bne_eq_false_iff_eq,
    decide_eq_false_iff_not, Nat.not_le] at h
  refine ⟨h.1.1, fun u hu => ?_, h.2, hordered⟩
  have hany := h.1.2
  rw [hu] at hany
  simpa using hany

theorem Stale.admitted {now : Nat} (h : Stale policy now attempt) :
    attempt.blocked now = none ∧
      attempt.refreshWindow now policy.window =
        { attempt with windowStart := now, failures := 0, blockedUntil := none } := by
  have hfilter : (attempt.blockedUntil.filter fun u => now < u) = none := by
    cases hblocked : attempt.blockedUntil with
    | none => rfl
    | some u =>
      rw [Option.filter_some, if_neg]
      have := h.unblocked u hblocked
      simpa using this
  have hold := h.old
  have hordered := h.ordered
  constructor
  · rw [PasswordAttempt.blocked, hfilter]
    rfl
  · rw [PasswordAttempt.refreshWindow, if_pos (by omega), hfilter]

theorem refreshWindow_fresh (now window : Nat) :
    (PasswordAttempt.fresh now).refreshWindow now window = .fresh now := by
  unfold PasswordAttempt.refreshWindow
  split_ifs <;> rfl

variable {table : SortedMap Str PasswordAttempt}

def withTable (s : PasswordAdmissionState) (table : SortedMap Str PasswordAttempt) :
    PasswordAdmissionState :=
  { s with attempts := table }

def Follows {α : Type} (policy : PasswordAdmissionPolicy) (r r' : α × PasswordAdmissionState) : Prop :=
  r'.1 = r.1 ∧ ∃ table, r'.2 = r.2.withTable table ∧ Evicted policy r.2 table

theorem Follows.refl {α : Type} {answer : α} (h : Evicted policy s table) :
    Follows policy (answer, s) (answer, s.withTable table) :=
  ⟨rfl, table, rfl, h⟩

theorem Evicted.insert (h : Evicted policy s table) (name : Str) (attempt : PasswordAttempt) :
    Evicted policy { s with attempts := s.attempts.insert name attempt }
      (table.insert name attempt) := by
  intro other
  show (table.insert name attempt).get? other = (s.attempts.insert name attempt).get? other ∨
    (s.attempts.insert name attempt).get? other = none ∧ _
  rw [SortedMap.get?_insert, SortedMap.get?_insert]
  split_ifs
  · exact .inl rfl
  · exact h other

theorem Evicted.tick (h : Evicted policy s table) (elapsed : Nat) :
    Evicted policy { s with clock := s.clock + elapsed } table := by
  intro other
  refine (h other).imp_right fun ⟨hnone, attempt, hget, hstale⟩ => ⟨hnone, attempt, hget, ?_⟩
  exact hstale.mono (Nat.le_add_right _ _)

theorem Evicted.sweep (hs : s.Exact policy) (h : Evicted policy s table) :
    Evicted policy (s.sweep policy) table := by
  intro other
  rw [get?_sweep]
  rcases h other with hsame | ⟨hnone, hstale⟩
  · rw [hsame]
    cases hget : s.attempts.get? other with
    | none => exact .inl rfl
    | some attempt =>
      rw [Option.filter_some]
      split_ifs with hretained
      · exact .inl rfl
      · rw [Bool.not_eq_true] at hretained
        exact .inr ⟨rfl, attempt, rfl, stale_of_not_retained hretained (hs.times other attempt hget).1⟩
  · rw [hnone]
    exact .inr ⟨rfl, hstale⟩

theorem Evicted.admitEntry (h : Evicted policy s table) (name : Str) :
    Follows policy (s.admitEntry policy name) ((s.withTable table).admitEntry policy name) := by
  unfold PasswordAdmissionState.admitEntry
  dsimp only [withTable]
  rcases h name with hsame | ⟨hnone, attempt, hget, hstale⟩
  · rw [hsame]
    cases ((s.attempts.get? name).getD (.fresh s.clock)).blocked s.clock with
    | some wait => exact .refl h
    | none => exact ⟨rfl, _, rfl, h.insert name _⟩
  · -- The evicted entry would have been admitted as the new one is.
    obtain ⟨hblocked, hrefresh⟩ := hstale.admitted
    rw [hnone, hget, Option.getD_none, Option.getD_some, hblocked]
    have hfresh : (PasswordAttempt.fresh s.clock).blocked s.clock = none := rfl
    rw [hfresh]
    dsimp only
    rw [hrefresh, refreshWindow_fresh, hstale.idle]
    exact ⟨rfl, _, rfl, h.insert name _⟩

theorem Evicted.get?_of_lease (hs : s.Exact policy) (h : Evicted policy s table)
    (hlease : (id, some name) ∈ s.leases) : table.get? name = s.attempts.get? name := by
  obtain ⟨attempt, hget, -⟩ := hs.exists_entry hlease
  refine (h name).resolve_right fun ⟨hnone, _⟩ => ?_
  rw [hnone] at hget
  cases hget

theorem Evicted.updateEntry (hs : s.Exact policy) (h : Evicted policy s table)
    (hlease : (id, username) ∈ s.leases) (original : Nat)
    (update : PasswordAttempt → PasswordAttempt) :
    Follows policy (s.updateEntry username original update)
      ((s.withTable table).updateEntry username original update) := by
  unfold PasswordAdmissionState.updateEntry
  have hopen : (s.withTable table).checkOpen original = s.checkOpen original := rfl
  rw [hopen]
  cases s.checkOpen original with
  | error e => exact .refl h
  | ok u =>
    cases username with
    | none => exact .refl h
    | some name =>
      dsimp only [withTable]
      rw [h.get?_of_lease hs hlease]
      cases hget : s.attempts.get? name with
      | none => exact .refl h
      | some attempt => exact ⟨rfl, _, rfl, h.insert name _⟩

theorem Evicted.release (hs : s.Exact policy) (h : Evicted policy s table)
    (hlease : (id, username) ∈ s.leases) :
    Evicted policy (s.drop id username) (username.elim table (release table)) := by
  cases username with
  | none => exact h
  | some name =>
    intro other
    obtain ⟨attempt, hget, -⟩ := hs.exists_entry hlease
    have htable : table.get? name = some attempt := (h.get?_of_lease hs hlease).trans hget
    show (PasswordAdmissionState.release table name).get? other =
      (PasswordAdmissionState.release s.attempts name).get? other ∨
      (PasswordAdmissionState.release s.attempts name).get? other = none ∧
        ∃ a, (PasswordAdmissionState.release table name).get? other = some a ∧
          Stale policy s.clock a
    rw [get?_release htable, get?_release hget]
    by_cases heq : other = name
    · rw [if_pos heq, if_pos heq]
      exact .inl rfl
    · rw [if_neg heq, if_neg heq]
      exact h other

theorem Evicted.leaseStep (hs : s.Exact policy) (h : Evicted policy s table)
    (hlease : (id, username) ∈ s.leases) (operation : LeaseOperation) :
    Follows policy (s.leaseStep policy id username operation)
      ((s.withTable table).leaseStep policy id username operation) := by
  cases operation with
  | recheckAttempt original =>
    refine ⟨?_, table, rfl, h⟩
    have hentry : username.bind table.get? = username.bind s.attempts.get? := by
      cases username with
      | none => rfl
      | some name => exact h.get?_of_lease hs hlease
    refine congrArg PasswordAdmissionAnswer.answered ?_
    unfold recheckAttempt
    dsimp only [withTable]
    rw [hentry]
    rfl
  | incorrect original =>
    obtain ⟨hanswer, hstate⟩ := h.updateEntry hs hlease original
      fun attempt => recordFailure policy attempt s.clock
    exact ⟨congrArg PasswordAdmissionAnswer.answered hanswer, hstate⟩
  | succeeded original =>
    obtain ⟨hanswer, hstate⟩ := h.updateEntry hs hlease original
      fun attempt => { attempt with
        failures := 0
        blockedUntil := none
        windowStart := s.clock
        lastSeen := s.clock }
    exact ⟨congrArg PasswordAdmissionAnswer.answered hanswer, hstate⟩
  | drop => exact ⟨rfl, _, rfl, h.release hs hlease⟩

theorem Evicted.admitWith (hs : s.Exact policy) (h : Evicted policy s table)
    (hroom : (s.admitWith policy (admitNamed policy) username original).1 ≠
      .error .capacity) :
    Follows policy (s.admitWith policy (admitNamed policy) username original)
      ((s.withTable table).admitWith policy (PasswordAdmissionState.admitEntry policy) username
        original) := by
  unfold PasswordAdmissionState.admitWith at hroom ⊢
  have hopen : (s.withTable table).checkOpen original = s.checkOpen original := rfl
  rw [hopen]
  cases hchecked : s.checkOpen original with
  | error e => exact .refl h
  | ok u =>
    rw [hchecked] at hroom
    dsimp only at hroom ⊢
    have hoccupied : (s.withTable table).occupied = s.occupied := rfl
    by_cases hfull : s.occupied = policy.capacity
    · rw [if_pos hfull, if_pos (hoccupied.trans hfull)]
      exact .refl h
    · rw [if_neg hfull] at hroom
      rw [if_neg hfull, if_neg (hoccupied ▸ hfull)]
      cases username with
      | none => exact ⟨rfl, table, rfl, h⟩
      | some name =>
        unfold admitNamed at hroom ⊢
        dsimp only at hroom ⊢
        split_ifs with hplace
        · rw [if_pos hplace] at hroom
          exact absurd rfl hroom
        · exact (h.sweep hs).admitEntry name

theorem Evicted.step (hs : s.Exact policy) (h : Evicted policy s table) (elapsed : Nat)
    (event : PasswordAdmissionEvent)
    (hroom : (s.step policy (admitNamed policy) elapsed event).1 ≠
      .admitted (.error .capacity)) :
    Follows policy (s.step policy (admitNamed policy) elapsed event)
      ((s.withTable table).step policy (PasswordAdmissionState.admitEntry policy) elapsed event) := by
  have hs' := hs.tick elapsed
  have htick := h.tick elapsed
  cases event with
  | close => exact ⟨rfl, table, rfl, htick⟩
  | lease id operation =>
    cases hfind : s.leases.find? fun lease => lease.1 == id with
    | none =>
      rw [step_lease_none hfind, step_lease_none (s := s.withTable table) hfind]
      exact .refl htick
    | some found =>
      rw [step_lease hfind, step_lease (s := s.withTable table) hfind]
      exact htick.leaseStep hs' (find?_lease hfind).2 operation
  | admission username original =>
    obtain ⟨hanswer, hstate⟩ := htick.admitWith hs' fun hcapacity =>
      hroom (congrArg PasswordAdmissionAnswer.admitted hcapacity)
    exact ⟨congrArg PasswordAdmissionAnswer.admitted hanswer, hstate⟩

/-- The answer of an admission that finds the table full. -/
def refusedFull : PasswordAdmissionAnswer → Bool
  | .admitted (.error .capacity) => true
  | _ => false

theorem runFrom_eq_run
    (named : PasswordAdmissionState → Str → Except PasswordAdmissionError Nat × PasswordAdmissionState)
    (s : PasswordAdmissionState) (events : List (Nat × PasswordAdmissionEvent)) :
    s.runFrom policy named events = Refusals.run (step policy named) s events := by
  induction events generalizing s with
  | nil => rfl
  | cons first rest ih => rw [PasswordAdmissionState.runFrom, Refusals.run, ih]

theorem admitEntry_ne_capacity :
    (s.admitEntry policy name).1 ≠ .error .capacity := by
  unfold admitEntry
  dsimp only
  split
  · simp
  · simp [lease]

/-- An admission is refused for want of room only to a username without an entry, in a table that is
full after the eviction; nothing but the eviction remains of it. -/
theorem admitWith_capacity
    (h : (s.admitWith policy (admitNamed policy) username original).1 =
      .error .capacity) :
    (∃ name, username = some name ∧ (s.sweep policy).attempts.get? name = none) ∧
      (s.sweep policy).attempts.size = trackedUsernames ∧
      (s.admitWith policy (admitNamed policy) username original).2 =
        s.sweep policy := by
  unfold admitWith at h ⊢
  cases hopen : s.checkOpen original with
  | error e =>
    rw [hopen] at h
    unfold checkOpen at hopen
    split_ifs at hopen <;> cases hopen <;> cases h
  | ok u =>
    rw [hopen] at h
    dsimp only at h ⊢
    by_cases hfull : s.occupied = policy.capacity
    · rw [if_pos hfull] at h
      cases h
    rw [if_neg hfull] at h ⊢
    cases username with
    | none => cases h
    | some name =>
      unfold admitNamed at h ⊢
      dsimp only at h ⊢
      split_ifs at h ⊢ with hplace
      · rw [Bool.and_eq_true, Option.isNone_iff_eq_none, beq_iff_eq] at hplace
        exact ⟨⟨name, rfl, hplace.1⟩, hplace.2, rfl⟩
      · exact absurd h admitEntry_ne_capacity

theorem step_capacity {event : PasswordAdmissionEvent}
    (h : refusedFull (s.step policy (admitNamed policy) elapsed event).1 =
      true) :
    ∃ username original, event = .admission username original ∧
      ({ s with clock := s.clock + elapsed }.admitWith policy
        (admitNamed policy) username original).1 = .error .capacity := by
  cases event with
  | close => cases h
  | lease id operation =>
    unfold step at h
    dsimp only at h
    split at h
    · cases operation <;> cases h
    · cases h
  | admission username original =>
    refine ⟨username, original, rfl, ?_⟩
    unfold step at h
    dsimp only at h
    revert h
    generalize ({ s with clock := s.clock + elapsed }.admitWith policy
      (admitNamed policy) username original).1 = answer
    intro h
    unfold refusedFull at h
    split at h
    · next heq => exact PasswordAdmissionAnswer.admitted.inj heq
    · cases h

/-- The state of a table that evicts nothing, as it was some time ago. -/
def Behind (policy : PasswordAdmissionPolicy) (lag : Nat) (s u : PasswordAdmissionState) : Prop :=
  s.Exact policy ∧ ∃ table, Evicted policy s table ∧
    { u with clock := u.clock + lag } = s.withTable table

theorem simulates_unbounded :
    Simulates (step policy (admitNamed policy))
      (step policy (admitEntry policy)) refusedFull (Behind policy) where
  refuse := by
    rintro lag s u elapsed event ⟨hs, table, hevicted, hu⟩ hrefused
    refine ⟨hs.step elapsed event, table, ?_⟩
    obtain ⟨username, original, rfl, hcapacity⟩ := step_capacity hrefused
    obtain ⟨-, -, hstate⟩ := admitWith_capacity hcapacity
    have hstep : (s.step policy (admitNamed policy) elapsed
        (.admission username original)).2 = { s with clock := s.clock + elapsed }.sweep policy :=
      hstate
    rw [hstep]
    refine ⟨(hevicted.tick elapsed).sweep (hs.tick elapsed), ?_⟩
    rw [← Nat.add_assoc]
    exact congrArg (fun u => { u with clock := u.clock + elapsed }) hu
  follow := by
    rintro lag s u elapsed event ⟨hs, table, hevicted, hu⟩ hrefused
    have hroom : (s.step policy (admitNamed policy) elapsed event).1 ≠
        .admitted (.error .capacity) := by
      intro heq
      rw [heq] at hrefused
      cases hrefused
    -- both start from the table that keeps everything, at the same time
    have hstep : u.step policy (admitEntry policy) (lag + elapsed) event =
        (s.withTable table).step policy (admitEntry policy) elapsed event := by
      have hnow : { u with clock := u.clock + (lag + elapsed) } =
          { s.withTable table with clock := (s.withTable table).clock + elapsed } := by
        rw [← Nat.add_assoc]
        exact congrArg (fun u => { u with clock := u.clock + elapsed }) hu
      unfold step
      rw [hnow]
    obtain ⟨hanswer, table', hstate, hevicted'⟩ := hevicted.step hs elapsed event hroom
    rw [hstep, hstate]
    exact ⟨hanswer, hs.step elapsed event, table', hevicted', rfl⟩

theorem updateEntry_ne_configuration (hget : s.attempts.get? name = some attempt) :
    (s.updateEntry (some name) original update).1 ≠ .error .configuration := by
  unfold updateEntry checkOpen
  split_ifs
  · intro h
    cases h
  · intro h
    cases h
  · dsimp only
    rw [hget]
    intro h
    cases h

/-- Password admission over every run: the accounts are exact, so no operation of a live lease meets a
missing entry; a lockout holds until its end unless a success for its username is recorded; and apart
from the admissions that find the table full, the answers are those of a table that evicts nothing and
is not given these. Such an admission is of a username without an entry. -/
theorem admission_exact (policy : PasswordAdmissionPolicy)
    (events : List (Nat × PasswordAdmissionEvent)) :
    ((run policy events).2.occupied = (run policy events).2.leases.length ∧
      (run policy events).2.occupied ≤ policy.capacity ∧
      (run policy events).2.attempts.size ≤ trackedUsernames) ∧
    (∀ name, (((run policy events).2.attempts.get? name).map PasswordAttempt.active).getD 0 =
      (run policy events).2.leases.countP fun lease => lease.2 == some name) ∧
    (∀ id name, (id, some name) ∈ (run policy events).2.leases →
      (∃ attempt, (run policy events).2.attempts.get? name = some attempt ∧ 0 < attempt.active) ∧
      ∀ elapsed original,
        ({ (run policy events).2 with clock := (run policy events).2.clock + elapsed }.incorrect
          policy (some name) original).1 ≠ .error .configuration ∧
        ({ (run policy events).2 with clock := (run policy events).2.clock + elapsed }.succeeded
          (some name) original).1 ≠ .error .configuration) ∧
    (∀ id name elapsed original after,
      let failure : PasswordAdmissionEvent := .lease id (.incorrect original)
      let failed := ((run policy events).2.step policy (admitNamed policy) elapsed failure).2
      (id, some name) ∈ (run policy events).2.leases →
      ((run policy events).2.step policy (admitNamed policy) elapsed failure).1 = .answered (.ok ()) →
      (∀ attempt, failed.attempts.get? name = some attempt →
        policy.maxFailures ≤ attempt.failures) →
      NoSuccess policy name failed after →
      ∀ elapsed' original',
        (runFrom policy (admitNamed policy) failed after).2.clock + elapsed' <
          (run policy events).2.clock + elapsed + policy.lockout →
        (∀ occupancy, ((runFrom policy (admitNamed policy) failed after).2.step policy
          (admitNamed policy) elapsed' (.admission (some name) original')).1 ≠
            .admitted (.ok occupancy)) ∧
        { (runFrom policy (admitNamed policy) failed after).2 with
          clock := (runFrom policy (admitNamed policy) failed after).2.clock + elapsed'
          }.recheckAttempt (some name) original' ≠ .ok ()) ∧
    (runUnbounded policy (unrefused refusedFull 0 events (run policy events).1)).1 =
      (run policy events).1.filter (fun answer => !refusedFull answer) ∧
    (∀ elapsed username original,
      ((run policy events).2.step policy (admitNamed policy) elapsed
        (.admission username original)).1 = .admitted (.error .capacity) →
      let swept := { (run policy events).2 with
        clock := (run policy events).2.clock + elapsed }.sweep policy
      (∃ name, username = some name ∧ swept.attempts.get? name = none) ∧
        swept.attempts.size = trackedUsernames) := by
  have hs := @exact_run policy events
  refine ⟨⟨hs.occupied, hs.capacity, hs.size⟩, hs.active, fun id name hlease => ?_,
    fun id name elapsed original after hlease hok hlimit hno elapsed' original' hlt => ?_,
    ?_, fun elapsed username original hcapacity => ?_⟩
  · obtain ⟨attempt, hget, hpos⟩ := hs.exists_entry hlease
    refine ⟨⟨attempt, hget, hpos⟩, fun elapsed original => ⟨?_, ?_⟩⟩
    · exact updateEntry_ne_configuration hget
    · exact updateEntry_ne_configuration hget
  · exact ((lockedOut_of_failures hs hlease hok hlimit).runFrom hno).refused hlt
  · have hstart : Behind policy 0 initial initial := ⟨exact_initial, .empty, fun _ => .inl rfl, rfl⟩
    have hsimulates := simulates_unbounded.run hstart events
    rwa [← runFrom_eq_run, ← runFrom_eq_run] at hsimulates
  · obtain ⟨hname, hsize, -⟩ := admitWith_capacity (PasswordAdmissionAnswer.admitted.inj hcapacity)
    exact ⟨hname, hsize⟩

/-! ### A username that is refused because its entry was evicted -/

section Crowd

/-- `admit` for a username as it is without the eviction. -/
def admitKept (policy : PasswordAdmissionPolicy) (s : PasswordAdmissionState) (name : Str) :
    Except PasswordAdmissionError Nat × PasswordAdmissionState :=
  if (s.attempts.get? name).isNone && s.attempts.size == trackedUsernames then (.error .capacity, s)
  else s.admitEntry policy name

/-- Only usernames with a lease are tracked once the others are evicted. -/
structure Crowded (policy : PasswordAdmissionPolicy) (s : PasswordAdmissionState) : Prop where
  exact : s.Exact policy
  isOpen : s.closed = false
  live : ∀ name attempt, s.attempts.get? name = some attempt →
    attempt.retained policy s.clock = true → attempt.active ≠ 0

theorem Crowded.exists_lease (hs : Crowded policy s)
    (hget : (s.sweep policy).attempts.get? name = some attempt) : ∃ id, (id, some name) ∈ s.leases := by
  rw [get?_sweep, Option.filter_eq_some_iff] at hget
  have hcounted : s.counted name ≠ 0 := by
    rw [counted, hget.1]
    exact hs.live name attempt hget.1 hget.2
  rw [hs.exact.active] at hcounted
  obtain ⟨⟨id, username⟩, hmem, heq⟩ := List.countP_pos_iff.mp (Nat.pos_of_ne_zero hcounted)
  obtain rfl := eq_of_beq heq
  exact ⟨id, hmem⟩

theorem Crowded.size_sweep_le (hs : Crowded policy s) :
    (s.sweep policy).attempts.size ≤ s.leases.length := by
  have hsub : (s.sweep policy).attempts.entries.map (fun entry => some entry.1) ⊆
      s.leases.map Prod.snd := by
    intro username hmem
    obtain ⟨⟨name, attempt⟩, hentry, rfl⟩ := List.mem_map.mp hmem
    obtain ⟨id, hlease⟩ := hs.exists_lease (SortedMap.mem_entries_iff.mp hentry)
    exact List.mem_map_of_mem hlease
  have hnodup : ((s.sweep policy).attempts.entries.map fun entry => some entry.1).Nodup := by
    have := (s.sweep policy).attempts.nodup_keys.map (Option.some_injective Str)
    rwa [List.map_map] at this
  simpa [SortedMap.size] using (List.subperm_of_subset hnodup hsub).length_le

theorem Crowded.admits (hs : Crowded policy s) (hclock : s.clock < original)
    (hroom : s.leases.length < policy.capacity) (hfew : s.leases.length < trackedUsernames)
    (hnew : ∀ id, (id, some name) ∉ s.leases) :
    Crowded policy (s.step policy (admitNamed policy) 0 (.admission (some name) original)).2 ∧
      (s.step policy (admitNamed policy) 0 (.admission (some name) original)).2.leases =
        (s.nextLease, some name) :: s.leases ∧
      (s.step policy (admitNamed policy) 0 (.admission (some name) original)).2.clock = s.clock := by
  have hexact := hs.exact.step 0 (.admission (some name) original)
  have hopen : s.checkOpen original = .ok () := by
    unfold checkOpen
    rw [if_neg (Nat.not_le.mpr hclock), hs.isOpen]
    rfl
  have hnone : (s.sweep policy).attempts.get? name = none := by
    cases hget : (s.sweep policy).attempts.get? name with
    | none => rfl
    | some attempt =>
      obtain ⟨id, hlease⟩ := hs.exists_lease hget
      exact absurd hlease (hnew id)
  have hsize := hs.size_sweep_le
  have hstep : s.step policy (admitNamed policy) 0 (.admission (some name) original) =
      (.admitted (.ok (s.occupied + 1)), ({ s.sweep policy with
        attempts := (s.sweep policy).attempts.insert name
          { PasswordAttempt.fresh s.clock with active := 1 } }.lease (some name)).2) := by
    show (PasswordAdmissionAnswer.admitted (s.admitWith policy (admitNamed policy) (some name)
      original).1, (s.admitWith policy (admitNamed policy) (some name) original).2) = _
    unfold admitWith
    rw [hopen]
    dsimp only
    rw [if_neg (by rw [hs.exact.occupied]; exact hroom.ne)]
    unfold admitNamed
    dsimp only
    rw [if_neg (by rw [Bool.and_eq_true, beq_iff_eq]; omega)]
    unfold admitEntry
    rw [hnone, Option.getD_none]
    have hfresh : (PasswordAttempt.fresh (s.sweep policy).clock).blocked (s.sweep policy).clock =
        none := rfl
    dsimp only
    rw [hfresh]
    dsimp only
    rw [refreshWindow_fresh]
    rfl
  rw [hstep] at hexact ⊢
  refine ⟨⟨hexact, hs.isOpen, fun other attempt hget hretained => ?_⟩, rfl, rfl⟩
  have hget' : ((s.sweep policy).attempts.insert name
      { PasswordAttempt.fresh s.clock with active := 1 }).get? other = some attempt := hget
  rw [SortedMap.get?_insert] at hget'
  split_ifs at hget' with heq
  · rw [← Option.some.inj hget']
    exact Nat.one_ne_zero
  · rw [get?_sweep, Option.filter_eq_some_iff] at hget'
    exact hs.live other attempt hget'.1 hget'.2

def admissions (original : Nat) (names : List Str) : List (Nat × PasswordAdmissionEvent) :=
  names.map fun name => (0, .admission (some name) original)

theorem Crowded.runFrom (hs : Crowded policy s) (names : List Str) (original : Nat)
    (hclock : s.clock < original)
    (hroom : s.leases.length + names.length ≤ policy.capacity)
    (hfew : s.leases.length + names.length ≤ trackedUsernames)
    (hnodup : (s.leases.map Prod.snd ++ names.map some).Nodup) :
    Crowded policy (s.runFrom policy (admitNamed policy) (admissions original names)).2 ∧
      ((s.runFrom policy (admitNamed policy) (admissions original names)).2.leases.map
        Prod.snd).Perm (s.leases.map Prod.snd ++ names.map some) ∧
      (s.runFrom policy (admitNamed policy) (admissions original names)).2.clock = s.clock := by
  induction names generalizing s with
  | nil => exact ⟨hs, by simp [admissions, PasswordAdmissionState.runFrom], rfl⟩
  | cons name names ih =>
    rw [List.length_cons] at hroom hfew
    have hnew : ∀ id, (id, some name) ∉ s.leases := fun id hmem =>
      (List.nodup_append.mp hnodup).2.2 _ (List.mem_map_of_mem hmem) _ List.mem_cons_self rfl
    obtain ⟨hcrowded, hleases, hsame⟩ :=
      hs.admits hclock (by omega) (by omega) hnew
    have hperm : ((s.step policy (admitNamed policy) 0 (.admission (some name) original)).2.leases.map
        Prod.snd ++ names.map some).Perm (s.leases.map Prod.snd ++ (name :: names).map some) := by
      rw [hleases]
      exact List.perm_middle.symm
    obtain ⟨hrest, hrestPerm, hrestClock⟩ := ih hcrowded (hsame ▸ hclock)
      (by rw [hleases, List.length_cons]; omega) (by rw [hleases, List.length_cons]; omega)
      (hperm.nodup_iff.mpr hnodup)
    exact ⟨hrest, hrestPerm.trans hperm, hrestClock.trans hsame⟩

/-- As many usernames have leases as are tracked: another one has no entry and is refused; with an
entry, it is admitted. -/
theorem Crowded.refuses {names : List Str} (hs : Crowded policy s) (original : Nat)
    (attempt : PasswordAttempt) (hclock : s.clock < original) (hroom : s.leases.length < policy.capacity) (hlength : names.length = trackedUsernames)
    (hnodup : names.Nodup) (hperm : (s.leases.map Prod.snd).Perm (names.map some))
    (hname : name ∉ names) (hunblocked : attempt.blocked s.clock = none) :
    s.attempts.get? name = none ∧
      (s.admitWith policy (admitNamed policy) (some name) original).1 = .error .capacity ∧
      ({ s with attempts := s.attempts.insert name attempt }.admitWith policy (admitKept policy)
        (some name) original).1 = .ok (s.leases.length + 1) := by
  have hopen : ∀ table, { s with attempts := table }.checkOpen original = .ok () := by
    intro table
    unfold checkOpen
    rw [if_neg (Nat.not_le.mpr hclock), hs.isOpen]
    rfl
  have hlive : ∀ name ∈ names, (s.attempts.get? name).isSome = true ∧
      ((s.sweep policy).attempts.get? name).isSome = true := by
    intro name hmem
    obtain ⟨⟨id, username⟩, hlease, heq⟩ :=
      List.mem_map.mp (hperm.mem_iff.mpr (List.mem_map_of_mem hmem))
    obtain rfl : username = some name := heq
    obtain ⟨attempt, hget, -⟩ := hs.exact.exists_entry hlease
    have hlease' : (id, some name) ∈ (s.sweep policy).leases := hlease
    obtain ⟨attempt', hget', -⟩ := hs.exact.sweep.exists_entry hlease'
    rw [hget, hget']
    exact ⟨rfl, rfl⟩
  -- one more username would not fit
  have hnone : s.attempts.get? name = none := by
    by_contra hsome
    have hall : ∀ other ∈ name :: names, (s.attempts.get? other).isSome = true := by
      rintro other (_ | ⟨_, hmem⟩)
      · exact Option.isSome_iff_ne_none.mpr hsome
      · exact (hlive other hmem).1
    have hmore := SortedMap.le_size_of_keys (List.nodup_cons.mpr ⟨hname, hnodup⟩) hall
    have hbound := hs.exact.size
    rw [List.length_cons, hlength] at hmore
    omega
  have hfull : (s.sweep policy).attempts.size = trackedUsernames :=
    Nat.le_antisymm hs.exact.sweep.size
      (hlength ▸ SortedMap.le_size_of_keys hnodup fun other hmem => (hlive other hmem).2)
  have hswept : (s.sweep policy).attempts.get? name = none := by
    rw [get?_sweep, hnone]
    rfl
  have hplace : ¬ s.occupied = policy.capacity := hs.exact.occupied ▸ hroom.ne
  refine ⟨hnone, ?_, ?_⟩
  · unfold admitWith
    rw [hopen s.attempts]
    dsimp only
    rw [if_neg hplace, admitNamed]
    rw [hswept, hfull]
    rfl
  · unfold admitWith
    rw [hopen]
    dsimp only
    rw [if_neg hplace, admitKept, admitEntry]
    dsimp only
    rw [SortedMap.get?_insert, if_pos rfl, Option.getD_some, hunblocked, ← hs.exact.occupied]
    rfl

def patient : PasswordAdmissionPolicy := ⟨3, 4, 5, 5000⟩

/-- One failure, and the lease is dropped. -/
def aliceFails : List (Nat × PasswordAdmissionEvent) :=
  [(0, .admission (some "alice".toList) 100), (0, .lease 0 (.incorrect 100)), (0, .lease 0 .drop)]

def others : List Str := (List.range trackedUsernames).map fun n => List.replicate (n + 1) 'x'

theorem length_others : others.length = trackedUsernames := by
  rw [others, List.length_map, List.length_range]

theorem nodup_others : others.Nodup := by
  refine (List.nodup_map_iff_inj_on List.nodup_range).mpr fun m _ n _ heq => ?_
  simpa using congrArg List.length heq

theorem alice_not_mem_others : "alice".toList ∉ others := by
  intro hmem
  obtain ⟨n, -, heq⟩ := List.mem_map.mp hmem
  rw [List.replicate_succ] at heq
  exact absurd (List.cons.inj heq).1 (by decide)

theorem crowded_aliceFails : Crowded patient { (run patient aliceFails).2 with clock := 10 } := by
  refine ⟨exact_run aliceFails |>.tick 10, rfl, fun name attempt hget hretained => ?_⟩
  have hentries : ∀ entry ∈ (run patient aliceFails).2.attempts.entries,
      entry.2.retained patient 10 = false := by decide +kernel
  rw [hentries _ (SortedMap.mem_entries_iff.mpr hget)] at hretained
  cases hretained

/-- Alice fails once; ten units later as many others are admitted as are tracked, and evict alice's
entry. Then alice is refused for want of room, and admitted if the entry were still there. -/
theorem evicted_username_refused :
    ∃ attempt, (run patient aliceFails).2.attempts.get? "alice".toList = some attempt ∧
      ∃ s, s = ({ (run patient aliceFails).2 with clock := 10 }.runFrom patient (admitNamed patient)
          (admissions 100 others)).2 ∧
        s.attempts.get? "alice".toList = none ∧
        (s.admitWith patient (admitNamed patient) (some "alice".toList) 100).1 = .error .capacity ∧
        ({ s with attempts := s.attempts.insert "alice".toList attempt }.admitWith patient
          (admitKept patient) (some "alice".toList) 100).1 = .ok 4097 := by
  refine ⟨⟨0, 1, none, 0, 0⟩, rfl, ?_⟩
  have hstart := crowded_aliceFails
  have hleases : { (run patient aliceFails).2 with clock := 10 }.leases = [] := rfl
  have hclock : { (run patient aliceFails).2 with clock := 10 }.clock = 10 := rfl
  generalize ({ (run patient aliceFails).2 with clock := 10 } : PasswordAdmissionState) = start at *
  have hlength := length_others
  have hnodup := nodup_others
  have halice := alice_not_mem_others
  -- nothing may compute with the list of the others
  generalize others = names at *
  have hempty : start.leases.length = 0 := by rw [hleases, List.length_nil]
  obtain ⟨hcrowded, hperm, hsame⟩ := hstart.runFrom names 100 (by omega)
    (by rw [hempty, hlength]; decide) (by rw [hempty, hlength, Nat.zero_add])
    (by rw [hleases]; exact hnodup.map (Option.some_injective Str))
  rw [hleases, List.map_nil, List.nil_append] at hperm
  refine ⟨_, rfl, ?_⟩
  generalize (start.runFrom patient (admitNamed patient) (admissions 100 names)).2 = s at *
  have hfull : s.leases.length = trackedUsernames := by
    rw [← List.length_map Prod.snd, hperm.length_eq, List.length_map, hlength]
  have hrefuses := hcrowded.refuses 100 ⟨0, 1, none, 0, 0⟩ (by omega)
    (by rw [hfull]; decide) hlength hnodup hperm halice rfl
  rwa [hfull] at hrefuses

end Crowd

end PasswordAdmissionState

end GraphitBroker
