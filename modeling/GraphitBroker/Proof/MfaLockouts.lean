import GraphitBroker.Proof.MfaViews
import GraphitBroker.Lib.Refusals

/-!
# MFA attempts over every run

Every operation of the limiter is, for every subject, a step of what it holds about the subject. All
answers but the refusals of a full table are those of a table that keeps everything.
-/

namespace GraphitBroker

open FailureWindows

variable {policy : LocalMfaAttemptPolicy} {id : Nat}

def LiveIs (attempts : SortedMap Nat LocalMfaAttempt) (subject : Str) (live : Option (Nat × Bool)) :
    Prop :=
  ∀ id failed, attempts.get? id = some ⟨subject, failed⟩ ↔ live = some (id, failed)

section LiveIs

variable {attempts : SortedMap Nat LocalMfaAttempt} {subject other : Str}
  {live : Option (Nat × Bool)} {failed : Bool}

theorem LiveIs.insert_self (h : LiveIs attempts subject live)
    (hid : ∀ found, live = some found → found.1 = id) :
    LiveIs (attempts.insert id ⟨subject, failed⟩) subject (some (id, failed)) := by
  intro id' failed'
  rw [SortedMap.get?_insert]
  split_ifs with heq
  · subst heq
    simp
  · rw [h id' failed']
    constructor
    · intro hlive
      exact absurd (hid _ hlive) heq
    · intro hsame
      obtain ⟨rfl, -⟩ := Prod.mk.inj (Option.some.inj hsame)
      exact absurd rfl heq

theorem LiveIs.insert_other (h : LiveIs attempts other live) (hne : other ≠ subject)
    (hid : ∀ attempt, attempts.get? id = some attempt → attempt.subject = subject) :
    LiveIs (attempts.insert id ⟨subject, failed⟩) other live := by
  intro id' failed'
  rw [SortedMap.get?_insert, ← h id' failed']
  split_ifs with heq
  · subst heq
    constructor
    · intro hsame
      exact absurd (congrArg LocalMfaAttempt.subject (Option.some.inj hsame)) (Ne.symm hne)
    · intro hget
      exact absurd (hid _ hget) hne
  · exact Iff.rfl

theorem LiveIs.erase_self (h : LiveIs attempts subject (some (id, failed))) :
    LiveIs (attempts.erase id) subject none := by
  intro id' failed'
  rw [SortedMap.get?_erase]
  split_ifs with heq
  · simp
  · rw [h id' failed']
    constructor
    · intro hsame
      obtain ⟨rfl, -⟩ := Prod.mk.inj (Option.some.inj hsame)
      exact absurd rfl heq
    · intro hnone
      cases hnone

theorem LiveIs.erase_other (h : LiveIs attempts other live) (hne : other ≠ subject)
    (hid : ∀ attempt, attempts.get? id = some attempt → attempt.subject = subject) :
    LiveIs (attempts.erase id) other live := by
  intro id' failed'
  rw [SortedMap.get?_erase, ← h id' failed']
  split_ifs with heq
  · subst heq
    constructor
    · intro hnone
      cases hnone
    · intro hget
      exact absurd (hid _ hget) hne
  · exact Iff.rfl

end LiveIs

namespace LocalMfaAttemptLimiter

variable {s s' : LocalMfaAttemptLimiter} {subject other : Str} {elapsed : Nat} {v : MfaView}
  {failed : Bool}

structure HasView (s : LocalMfaAttemptLimiter) (subject : Str) (v : MfaView) : Prop where
  entry : s.entries.get? subject = v.entry
  live : LiveIs s.attempts subject v.live
  times : s.streak subject = v.times

structure Exact (policy : LocalMfaAttemptPolicy) (s : LocalMfaAttemptLimiter) : Prop where
  views : ∀ subject, ∃ v, s.HasView subject v ∧ Accounted policy s.clock v
  ids : ∀ id attempt, s.attempts.get? id = some attempt → id < s.nextAttempt
  size : s.entries.size ≤ policy.maxTracked

theorem streak_of_failure {time : Nat} (h : s'.records = s.records ++ [.failure subject time]) :
    s'.streak other = if subject = other then s.streak other ++ [time] else s.streak other := by
  unfold streak
  rw [h, List.foldl_append]
  rfl

theorem streak_of_success (h : s'.records = s.records ++ [.success subject]) :
    s'.streak other = if subject = other then [] else s.streak other := by
  unfold streak
  rw [h, List.foldl_append]
  rfl

theorem HasView.unique {v' : MfaView} (h : s.HasView subject v) (h' : s.HasView subject v') :
    v = v' := by
  obtain ⟨entry, live, times⟩ := v
  obtain ⟨entry', live', times'⟩ := v'
  obtain rfl : entry = entry' := h.entry.symm.trans h'.entry
  obtain rfl : times = times' := h.times.symm.trans h'.times
  have hlive : live = live' := by
    ext ⟨id, failed⟩
    exact (h.live id failed).symm.trans (h'.live id failed)
  rw [hlive]

theorem HasView.makeRoom {once : Prop} (h : s.HasView subject v) (hv : Accounted policy s.clock v) :
    ∃ v', (s.makeRoom policy).HasView subject v' ∧ MfaView.Step policy s.clock once v v' := by
  unfold LocalMfaAttemptLimiter.makeRoom
  split_ifs
  · have hget : (s.sweep policy).entries.get? subject =
        v.entry.filter fun entry => entry.retained policy s.clock :=
      (SortedMap.get?_filter _ _ _).trans (by rw [h.entry])
    obtain ⟨entry, live, times⟩ := v
    cases entry with
    | none => exact ⟨_, ⟨hget, h.live, h.times⟩, .stays _⟩
    | some e =>
      by_cases hretained : e.retained policy s.clock = true
      · refine ⟨_, ⟨hget.trans ?_, h.live, h.times⟩, .stays _⟩
        rw [Option.filter_some, if_pos hretained]
      · rw [Bool.not_eq_true] at hretained
        have hidle := (retained_eq_false hretained).1
        have hnone : live = none := by
          have hflight := hv.flight
          simp only [Option.any_some, hidle] at hflight
          simpa using hflight
        subst hnone
        refine ⟨⟨none, none, times⟩, ⟨hget.trans ?_, h.live, h.times⟩, .evicted e times hretained⟩
        rw [Option.filter_some, if_neg (by simp [hretained])]
  · exact ⟨v, h, .stays v⟩

theorem HasView.makeRoom_none (h : s.HasView subject v) (hnone : v.entry = none) :
    (s.makeRoom policy).HasView subject v := by
  unfold LocalMfaAttemptLimiter.makeRoom
  split_ifs
  · refine ⟨?_, h.live, h.times⟩
    refine (SortedMap.get?_filter _ _ _).trans ?_
    rw [h.entry, hnone]
    rfl
  · exact h

def Numbered (s : LocalMfaAttemptLimiter) : Prop :=
  ∀ id attempt, s.attempts.get? id = some attempt → id < s.nextAttempt

theorem Numbered.next (h : s.Numbered) : s.attempts.get? s.nextAttempt = none := by
  cases hget : s.attempts.get? s.nextAttempt with
  | none => rfl
  | some attempt => exact absurd (h _ _ hget) (Nat.lt_irrefl _)

variable {e : MfaRateEntry} {times : List Nat}

theorem HasView.admitted_self {found : Option MfaRateEntry}
    (h : s.HasView subject ⟨found, none, times⟩) :
    (s.admitted subject e).HasView subject
      ⟨some { e with inFlight := true, lastSeen := s.clock }, some (s.nextAttempt, false), times⟩ where
  entry := (SortedMap.get?_insert _ _ _ _).trans (if_pos rfl)
  live := LiveIs.insert_self h.live fun _ hnone => by cases hnone
  times := h.times

theorem HasView.admitted_other (h : s.HasView other v) (hs : s.Numbered)
    (hne : other ≠ subject) : (s.admitted subject e).HasView other v where
  entry := (SortedMap.get?_insert _ _ _ _).trans ((if_neg hne).trans h.entry)
  live := h.live.insert_other hne fun attempt hget => by
    rw [hs.next] at hget
    cases hget
  times := h.times

theorem HasView.admitEntry {once : Prop} (hs : s.Numbered)
    (hget : s.entries.get? subject = some e) (h : s.HasView other v)
    (hv : Accounted policy s.clock v) :
    ∃ v', (s.admitEntry subject e).2.HasView other v' ∧ MfaView.Step policy s.clock once v v' := by
  unfold LocalMfaAttemptLimiter.admitEntry
  split_ifs with hflight
  · exact ⟨v, h, .stays v⟩
  · rw [Bool.not_eq_true] at hflight
    cases hblocked : e.blocked s.clock with
    | some u => exact ⟨v, h, .stays v⟩
    | none =>
      by_cases heq : other = subject
      · subst heq
        obtain ⟨entry, live, times⟩ := v
        obtain rfl : entry = some e := h.entry.symm.trans hget
        have hnone : live = none := by
          have hlive := hv.flight
          simp only [Option.any_some, hflight] at hlive
          simpa using hlive
        subst hnone
        exact ⟨_, h.admitted_self, .returns e _ times hflight hblocked⟩
      · exact ⟨v, h.admitted_other hs heq, .stays v⟩

theorem HasView.admitNew_self (h : s.HasView subject ⟨none, none, times⟩) :
    (s.admitNew subject).2.HasView subject
      ⟨some { MfaRateEntry.fresh s.clock with inFlight := true, lastSeen := s.clock },
        some (s.nextAttempt, false), times⟩ := by
  have hfresh : HasView { s with entries := s.entries.insert subject (.fresh s.clock) } subject
      ⟨some (.fresh s.clock), none, times⟩ :=
    ⟨(SortedMap.get?_insert _ _ _ _).trans (if_pos rfl), h.live, h.times⟩
  exact hfresh.admitted_self

theorem HasView.admitNew_other (h : s.HasView other v) (hs : s.Numbered) (hne : other ≠ subject) :
    (s.admitNew subject).2.HasView other v := by
  refine HasView.admitted_other ⟨?_, h.live, h.times⟩ hs hne
  exact (SortedMap.get?_insert _ _ _ _).trans ((if_neg hne).trans h.entry)

theorem makeRoom_clock : (s.makeRoom policy).clock = s.clock := by
  unfold makeRoom
  split_ifs <;> rfl

theorem makeRoom_numbered (h : s.Numbered) : (s.makeRoom policy).Numbered := by
  unfold makeRoom
  split_ifs
  · exact h
  · exact h

theorem HasView.admitAt {once : Prop} (hs : s.Numbered) (h : s.HasView other v)
    (hv : Accounted policy s.clock v) :
    ∃ v', (s.admitAt policy subject).2.HasView other v' ∧ MfaView.Step policy s.clock once v v' := by
  unfold LocalMfaAttemptLimiter.admitAt
  cases hget : s.entries.get? subject with
  | some e => exact h.admitEntry hs hget hv
  | none =>
    dsimp only
    obtain ⟨v', h', hstep⟩ := h.makeRoom hv
    split_ifs
    · exact ⟨v', h', hstep⟩
    · by_cases heq : other = subject
      · subst heq
        obtain ⟨entry, live, times⟩ := v
        obtain rfl : entry = none := h.entry.symm.trans hget
        have hnone : live = none := by simpa using hv.flight
        subst hnone
        have hnew := (h.makeRoom_none rfl : (s.makeRoom policy).HasView _ _).admitNew_self
        rw [makeRoom_clock] at hnew
        exact ⟨_, hnew, .enters _ times⟩
      · exact ⟨v', h'.admitNew_other (makeRoom_numbered hs) heq, hstep⟩

theorem HasView.of_live (h : s.HasView subject v) (hv : Accounted policy s.clock v)
    (hlive : s.attempts.get? id = some ⟨subject, failed⟩) :
    ∃ e times, v = ⟨some e, some (id, failed), times⟩ := by
  obtain ⟨entry, live, times⟩ := v
  obtain rfl : live = some (id, failed) := (h.live id failed).mp hlive
  cases entry with
  | none => cases hv.flight
  | some e => exact ⟨e, times, rfl⟩

theorem failureAt_eq (hget : s.entries.get? subject = some e) :
    s.failureAt policy id subject = (.ok (), { s with
      entries := s.entries.insert subject (e.failureAt policy s.clock)
      attempts := s.attempts.insert id ⟨subject, true⟩
      records := s.records ++ [.failure subject s.clock] }) := by
  unfold failureAt
  rw [hget]

theorem get?_released (hget : s.entries.get? subject = some e) :
    (released s.entries subject).get? other =
      if other = subject then
        (if e.failures = 0 then none else some { e with inFlight := false })
      else s.entries.get? other := by
  unfold released
  rw [hget]
  dsimp only
  by_cases hzero : e.failures = 0
  · rw [if_pos hzero, if_pos hzero, SortedMap.get?_erase]
    split_ifs <;> rfl
  · rw [if_neg hzero, if_neg hzero, SortedMap.get?_insert]
    split_ifs <;> rfl

theorem HasView.failureAt_self (h : s.HasView subject ⟨some e, some (id, failed), times⟩) :
    (s.failureAt policy id subject).2.HasView subject
      ⟨some (e.failureAt policy s.clock), some (id, true), times ++ [s.clock]⟩ := by
  rw [failureAt_eq h.entry]
  refine ⟨(SortedMap.get?_insert _ _ _ _).trans (if_pos rfl), h.live.insert_self ?_, ?_⟩
  · intro found hfound
    obtain rfl := Option.some.inj hfound
    rfl
  · refine (streak_of_failure (s := s) rfl).trans ?_
    rw [if_pos rfl, h.times]

theorem HasView.success_self (h : s.HasView subject ⟨some e, some (id, failed), times⟩) :
    (s.success id subject).HasView subject ⟨none, none, []⟩ where
  entry := (SortedMap.get?_erase _ _ _).trans (if_pos rfl)
  live := h.live.erase_self
  times := (streak_of_success (s := s) rfl).trans (if_pos rfl)

theorem HasView.drop_self (h : s.HasView subject ⟨some e, some (id, failed), times⟩) :
    (s.drop id subject).HasView subject
      ⟨if e.failures = 0 then none else some { e with inFlight := false }, none, times⟩ where
  entry := (get?_released h.entry).trans (if_pos rfl)
  live := h.live.erase_self
  times := h.times

theorem HasView.operate_other (h : s.HasView other v)
    (hlive : s.attempts.get? id = some ⟨subject, failed⟩) (hget : s.entries.get? subject = some e)
    (hne : other ≠ subject) (operation : MfaOperation) :
    (s.operate policy id subject operation).2.HasView other v := by
  have hid : ∀ attempt, s.attempts.get? id = some attempt → attempt.subject = subject := by
    intro attempt hattempt
    obtain rfl := Option.some.inj (hlive.symm.trans hattempt)
    rfl
  cases operation with
  | failure =>
    show (s.failureAt policy id subject).2.HasView other v
    rw [failureAt_eq hget]
    refine ⟨(SortedMap.get?_insert _ _ _ _).trans ((if_neg hne).trans h.entry),
      h.live.insert_other hne hid, ?_⟩
    exact (streak_of_failure (s := s) rfl).trans ((if_neg (Ne.symm hne)).trans h.times)
  | success =>
    refine ⟨(SortedMap.get?_erase _ _ _).trans ((if_neg hne).trans h.entry),
      h.live.erase_other hne hid, ?_⟩
    exact (streak_of_success (s := s) rfl).trans ((if_neg (Ne.symm hne)).trans h.times)
  | drop =>
    exact ⟨(get?_released hget).trans ((if_neg hne).trans h.entry), h.live.erase_other hne hid,
      h.times⟩

theorem act_attempt (hlive : s.attempts.get? id = some ⟨subject, failed⟩) (operation : MfaOperation) :
    s.act policy (admitAt policy) (.attempt id operation) = s.operate policy id subject operation := by
  unfold act
  dsimp only
  rw [hlive]

theorem usedOnce_failure (hlive : s.attempts.get? id = some ⟨subject, failed⟩)
    (h : s.usedOnce (.attempt id .failure) = true) : failed = false := by
  simpa [usedOnce, hlive] using h

theorem usedOnce_success (hlive : s.attempts.get? id = some ⟨subject, failed⟩)
    (h : s.usedOnce (.attempt id .success) = true) : failed = false := by
  simpa [usedOnce, hlive] using h

theorem HasView.act (hs : s.Exact policy) (h : s.HasView other v) (hv : Accounted policy s.clock v)
    (event : MfaEvent) :
    ∃ v', (s.act policy (LocalMfaAttemptLimiter.admitAt policy) event).2.HasView other v' ∧
      MfaView.Step policy s.clock (s.usedOnce event = true) v v' := by
  cases event with
  | admission subject => exact h.admitAt hs.ids hv
  | attempt id operation =>
    cases hlive : s.attempts.get? id with
    | none =>
      refine ⟨v, ?_, .stays v⟩
      unfold LocalMfaAttemptLimiter.act
      dsimp only
      rw [hlive]
      exact h
    | some attempt =>
      obtain ⟨subject, failed⟩ := attempt
      rw [act_attempt hlive]
      obtain ⟨w, hw, hacc⟩ := hs.views subject
      obtain ⟨e, times, rfl⟩ := hw.of_live hacc hlive
      by_cases heq : other = subject
      · subst heq
        obtain ⟨e, times, rfl⟩ := h.of_live hv hlive
        cases operation with
        | failure => exact ⟨_, h.failureAt_self, .fails e id failed times (usedOnce_failure hlive)⟩
        | success => exact ⟨_, h.success_self, .succeeds e id failed times (usedOnce_success hlive)⟩
        | drop => exact ⟨_, h.drop_self, .drops e id failed times⟩
      · exact ⟨v, h.operate_other hlive hw.entry heq operation, .stays v⟩

theorem Numbered.admitted (h : s.Numbered) : (s.admitted subject e).Numbered := by
  intro id attempt hget
  show id < s.nextAttempt + 1
  change (s.attempts.insert s.nextAttempt ⟨subject, false⟩).get? id = some attempt at hget
  rw [SortedMap.get?_insert] at hget
  split_ifs at hget with heq
  · omega
  · exact (h id attempt hget).trans (Nat.lt_succ_self _)

theorem Numbered.admitEntry (h : s.Numbered) :
    (s.admitEntry subject e).2.Numbered := by
  unfold LocalMfaAttemptLimiter.admitEntry
  split_ifs
  · exact h
  · split
    · exact h
    · exact h.admitted

theorem Numbered.admitAt (h : s.Numbered) : (s.admitAt policy subject).2.Numbered := by
  unfold LocalMfaAttemptLimiter.admitAt
  split
  · exact h.admitEntry
  · split_ifs
    · exact makeRoom_numbered h
    · exact Numbered.admitEntry (makeRoom_numbered h)

theorem Numbered.erase (h : s.Numbered) :
    ∀ id' attempt, (s.attempts.erase id).get? id' = some attempt → id' < s.nextAttempt := by
  intro id' attempt hget
  rw [SortedMap.get?_erase] at hget
  split_ifs at hget
  exact h id' attempt hget

theorem Numbered.operate {attempt : LocalMfaAttempt} (h : s.Numbered)
    (hlive : s.attempts.get? id = some attempt) (operation : MfaOperation) :
    (s.operate policy id subject operation).2.Numbered := by
  cases operation with
  | failure =>
    show (s.failureAt policy id subject).2.Numbered
    unfold LocalMfaAttemptLimiter.failureAt
    split
    · exact h
    · intro id' attempt' hget
      change (s.attempts.insert id _).get? id' = some attempt' at hget
      rw [SortedMap.get?_insert] at hget
      split_ifs at hget with heq
      · exact heq ▸ h id attempt hlive
      · exact h id' attempt' hget
  | success => exact h.erase
  | drop => exact h.erase

theorem size_admitEntry (hget : s.entries.get? subject = some e)
    (hsize : s.entries.size ≤ policy.maxTracked) :
    (s.admitEntry subject e).2.entries.size ≤ policy.maxTracked := by
  unfold admitEntry
  split_ifs
  · exact hsize
  · split
    · exact hsize
    · exact (SortedMap.size_insert_of_isSome (by rw [hget]; rfl)).trans hsize

theorem size_makeRoom (hsize : s.entries.size ≤ policy.maxTracked) :
    (s.makeRoom policy).entries.size ≤ policy.maxTracked := by
  unfold makeRoom
  split_ifs
  · exact SortedMap.size_filter_le.trans hsize
  · exact hsize

theorem size_admitAt (hsize : s.entries.size ≤ policy.maxTracked) :
    (s.admitAt policy subject).2.entries.size ≤ policy.maxTracked := by
  unfold admitAt
  split
  · rename_i e hget
    exact size_admitEntry hget hsize
  · split_ifs with hfull
    · exact size_makeRoom hsize
    · refine size_admitEntry ((SortedMap.get?_insert _ _ _ _).trans (if_pos rfl)) ?_
      exact SortedMap.size_insert_le.trans (Nat.lt_of_not_le hfull)

theorem size_operate (hsize : s.entries.size ≤ policy.maxTracked) (operation : MfaOperation) :
    (s.operate policy id subject operation).2.entries.size ≤ policy.maxTracked := by
  cases operation with
  | failure =>
    show (s.failureAt policy id subject).2.entries.size ≤ policy.maxTracked
    unfold failureAt
    split
    · exact hsize
    · rename_i e hget
      exact (SortedMap.size_insert_of_isSome (by rw [hget]; rfl)).trans hsize
  | success => exact SortedMap.size_erase_le.trans hsize
  | drop =>
    show (released s.entries subject).size ≤ policy.maxTracked
    unfold released
    split
    · exact hsize
    · rename_i e hget
      split_ifs
      · exact SortedMap.size_erase_le.trans hsize
      · exact (SortedMap.size_insert_of_isSome (by rw [hget]; rfl)).trans hsize

theorem admitEntry_clock (s : LocalMfaAttemptLimiter) (subject : Str) (e : MfaRateEntry) :
    (s.admitEntry subject e).2.clock = s.clock := by
  unfold admitEntry
  split_ifs
  · rfl
  · split <;> rfl

theorem admitAt_clock : (s.admitAt policy subject).2.clock = s.clock := by
  unfold admitAt
  split
  · exact admitEntry_clock _ _ _
  · split_ifs
    · exact makeRoom_clock
    · exact (admitEntry_clock _ _ _).trans makeRoom_clock

theorem operate_clock (operation : MfaOperation) :
    (s.operate policy id subject operation).2.clock = s.clock := by
  cases operation with
  | failure =>
    show (s.failureAt policy id subject).2.clock = s.clock
    unfold failureAt
    split <;> rfl
  | success => rfl
  | drop => rfl

theorem act_clock (event : MfaEvent) : (s.act policy (admitAt policy) event).2.clock = s.clock := by
  cases event with
  | admission subject => exact admitAt_clock
  | attempt id operation =>
    unfold act
    dsimp only
    split
    · exact operate_clock operation
    · rfl

theorem Exact.tick (hs : s.Exact policy) (elapsed : Nat) : (s.tick elapsed).Exact policy where
  views := fun subject => by
    obtain ⟨v, hv, hacc⟩ := hs.views subject
    exact ⟨v, ⟨hv.entry, hv.live, hv.times⟩, hacc.mono (Nat.le_add_right _ _)⟩
  ids := hs.ids
  size := hs.size

theorem Exact.act (hs : s.Exact policy) (event : MfaEvent) :
    (s.act policy (admitAt policy) event).2.Exact policy where
  views := fun subject => by
    obtain ⟨v, hv, hacc⟩ := hs.views subject
    obtain ⟨v', hv', hstep⟩ := hv.act hs hacc event
    rw [act_clock]
    exact ⟨v', hv', hacc.step hstep⟩
  ids := by
    cases event with
    | admission subject => exact Numbered.admitAt hs.ids
    | attempt id operation =>
      unfold LocalMfaAttemptLimiter.act
      dsimp only
      split
      · rename_i hlive
        exact Numbered.operate hs.ids hlive operation
      · exact hs.ids
  size := by
    cases event with
    | admission subject => exact size_admitAt hs.size
    | attempt id operation =>
      unfold LocalMfaAttemptLimiter.act
      dsimp only
      split
      · exact size_operate hs.size operation
      · exact hs.size

theorem Exact.step (hs : s.Exact policy) (elapsed : Nat) (event : MfaEvent) :
    (s.step policy (admitAt policy) elapsed event).2.Exact policy :=
  (hs.tick elapsed).act event

theorem Exact.runFrom (hs : s.Exact policy) (events : List (Nat × MfaEvent)) :
    (s.runFrom policy (admitAt policy) events).2.Exact policy := by
  induction events generalizing s with
  | nil => exact hs
  | cons first rest ih => exact ih (hs.step first.1 first.2)

theorem hasView_initial (subject : Str) : initial.HasView subject ⟨none, none, []⟩ :=
  ⟨rfl, fun _ _ => by simp [initial], rfl⟩

theorem exact_initial : initial.Exact policy where
  views := fun subject => ⟨_, hasView_initial subject, accounted_nil⟩
  ids := fun _ _ h => by cases h
  size := Nat.zero_le _

theorem exact_run (events : List (Nat × MfaEvent)) : (run policy events).2.Exact policy :=
  exact_initial.runFrom events

structure Kept (policy : LocalMfaAttemptPolicy) (P : Nat → MfaView → Prop) : Prop where
  mono : ∀ {now later v}, P now v → now ≤ later → P later v
  step : ∀ {now v v'} {once : Prop}, once → Accounted policy now v → P now v →
    MfaView.Step policy now once v v' → P now v'

theorem Kept.runFrom {P : Nat → MfaView → Prop} (hP : Kept policy P) {events : List (Nat × MfaEvent)}
    (hs : s.Exact policy) (honce : Disciplined policy s events) (h : s.HasView subject v)
    (hv : P s.clock v) :
    ∃ v', (s.runFrom policy (admitAt policy) events).2.HasView subject v' ∧
      P (s.runFrom policy (admitAt policy) events).2.clock v' := by
  induction events generalizing s v with
  | nil => exact ⟨v, h, hv⟩
  | cons first rest ih =>
    have htick := hs.tick first.1
    have hview : (s.tick first.1).HasView subject v := ⟨h.entry, h.live, h.times⟩
    obtain ⟨w, hw, hacc⟩ := htick.views subject
    obtain rfl : w = v := hw.unique hview
    obtain ⟨v', hv', hstep⟩ := hview.act htick hacc first.2
    have hkept := hP.step honce.1 hacc (hP.mono hv (Nat.le_add_right s.clock first.1)) hstep
    refine ih (htick.act first.2) honce.2 hv' ?_
    show P ((s.tick first.1).act policy (admitAt policy) first.2).2.clock v'
    rw [act_clock]
    exact hkept

theorem kept_measured : Kept policy (Measured policy) :=
  ⟨Measured.mono, Measured.step⟩

theorem kept_locked {deadline : Nat} : Kept policy (Locked deadline) :=
  ⟨Locked.mono, Locked.step⟩

theorem paced_run {events : List (Nat × MfaEvent)} (h : Disciplined policy initial events)
    (subject : Str) :
    Paced policy.window policy.maxFailures policy.lockout ((run policy events).2.streak subject) := by
  obtain ⟨v, hview, hmeasured⟩ :=
    kept_measured.runFrom exact_initial h (hasView_initial subject) measured_nil
  exact hview.times ▸ hmeasured.paced

theorem locked_of_failure (hs : s.Exact policy) (hlive : s.attempts.get? id = some ⟨subject, failed⟩)
    (hlimit : ∀ e, (s.step policy (admitAt policy) elapsed (.attempt id .failure)).2.entries.get?
      subject = some e → policy.maxFailures ≤ e.failures) :
    ∃ v, (s.step policy (admitAt policy) elapsed (.attempt id .failure)).2.HasView subject v ∧
      Locked (s.clock + elapsed + policy.lockout)
        (s.step policy (admitAt policy) elapsed (.attempt id .failure)).2.clock v := by
  obtain ⟨v, hv, hacc⟩ := (hs.tick elapsed).views subject
  have hlive' : (s.tick elapsed).attempts.get? id = some ⟨subject, failed⟩ := hlive
  obtain ⟨e, times, rfl⟩ := hv.of_live hacc hlive'
  have hstep : s.step policy (admitAt policy) elapsed (.attempt id .failure) =
      (s.tick elapsed).operate policy id subject .failure := act_attempt hlive' .failure
  rw [hstep] at hlimit ⊢
  have hview : ((s.tick elapsed).failureAt policy id subject).2.HasView subject _ := hv.failureAt_self
  refine ⟨_, hview, fun _ => ⟨⟨_, _, rfl, failureAt_blockUntil (hlimit _ hview.entry), le_refl _⟩, ?_⟩⟩
  intro id' hsame
  cases hsame

theorem Locked.refused {deadline : Nat} (hview : s.HasView subject v)
    (h : Locked deadline s.clock v) (hlt : s.clock + elapsed < deadline) (id : Nat) :
    (s.step policy (admitAt policy) elapsed (.admission subject)).1 ≠ .admitted (.ok id) := by
  obtain ⟨⟨e, u, he, hu, hle⟩, -⟩ := h (by omega)
  have hget : (s.tick elapsed).entries.get? subject = some e := hview.entry.trans he
  have hblocked : e.blocked (s.tick elapsed).clock = some u := by
    unfold MfaRateEntry.blocked
    rw [hu, Option.filter_some, if_pos]
    exact decide_eq_true (hlt.trans_le hle)
  show MfaAnswer.admitted ((s.tick elapsed).admitAt policy subject).1 ≠ _
  unfold admitAt
  rw [hget]
  dsimp only
  unfold admitEntry
  rw [hblocked]
  split_ifs
  · intro hsame
    cases hsame
  · intro hsame
    cases hsame

variable {table : SortedMap Str MfaRateEntry} {e e' : MfaRateEntry}

def withTable (s : LocalMfaAttemptLimiter) (table : SortedMap Str MfaRateEntry) :
    LocalMfaAttemptLimiter :=
  { s with entries := table }

def Shadows (policy : LocalMfaAttemptPolicy) (s : LocalMfaAttemptLimiter)
    (table : SortedMap Str MfaRateEntry) : Prop :=
  ∀ subject, EntriesMatch policy s.clock (s.entries.get? subject) (table.get? subject)

def Follows {α : Type} (policy : LocalMfaAttemptPolicy) (r r' : α × LocalMfaAttemptLimiter) : Prop :=
  r'.1 = r.1 ∧ ∃ table, r'.2 = r.2.withTable table ∧ Shadows policy r.2 table

theorem Shadows.tick (h : Shadows policy s table) (elapsed : Nat) :
    Shadows policy (s.tick elapsed) table :=
  fun subject => (h subject).mono (Nat.le_add_right _ _)

theorem Shadows.insert (h : Shadows policy s table)
    (hmatch : EntriesMatch policy s.clock (some e) (some e')) (subject : Str) :
    Shadows policy { s with entries := s.entries.insert subject e } (table.insert subject e') := by
  intro other
  show EntriesMatch policy s.clock ((s.entries.insert subject e).get? other)
    ((table.insert subject e').get? other)
  rw [SortedMap.get?_insert, SortedMap.get?_insert]
  split_ifs
  · exact hmatch
  · exact h other

theorem Shadows.makeRoom (hs : s.Exact policy) (h : Shadows policy s table) :
    Shadows policy (s.makeRoom policy) table := by
  unfold LocalMfaAttemptLimiter.makeRoom
  split_ifs
  · intro subject
    show EntriesMatch policy s.clock ((s.entries.filter _).get? subject) (table.get? subject)
    rw [SortedMap.get?_filter]
    have hmatch := h subject
    obtain ⟨v, hview, hacc⟩ := hs.views subject
    cases hget : s.entries.get? subject with
    | none =>
      rw [hget] at hmatch
      exact hmatch
    | some e =>
      rw [hget] at hmatch
      rw [Option.filter_some]
      split_ifs with hretained
      · exact hmatch
      · rw [Bool.not_eq_true] at hretained
        obtain ⟨entry, live, times⟩ := v
        obtain rfl : entry = some e := hview.entry.symm.trans hget
        exact hmatch.evict hacc hretained
  · exact h

theorem Shadows.admitEntry (h : Shadows policy s table)
    (hmatch : EntriesMatch policy s.clock (some e) (some e')) :
    Follows policy (s.admitEntry subject e) ((s.withTable table).admitEntry subject e') := by
  unfold LocalMfaAttemptLimiter.admitEntry
  rw [hmatch.inFlight]
  by_cases hflight : e.inFlight = true
  · rw [if_pos hflight, if_pos hflight]
    exact ⟨rfl, table, rfl, h⟩
  · rw [if_neg hflight, if_neg hflight]
    have hblocked : e'.blocked (s.withTable table).clock = e.blocked s.clock := hmatch.blocked
    rw [hblocked]
    rw [Bool.not_eq_true] at hflight
    cases e.blocked s.clock with
    | some u => exact ⟨rfl, table, rfl, h⟩
    | none => exact ⟨rfl, _, rfl, h.insert (hmatch.returns hflight) subject⟩

theorem Shadows.admitNew_evicted (h : Shadows policy s table) (hlapsed : Lapsed policy s.clock e')
    (hidle : e'.inFlight = false) :
    Follows policy (s.admitNew subject) ((s.withTable table).admitEntry subject e') := by
  have hadmitted : (s.withTable table).admitEntry subject e' =
      (.ok s.nextAttempt, (s.withTable table).admitted subject e') := by
    have hblocked : e'.blocked (s.withTable table).clock = none := hlapsed.unblocked
    unfold LocalMfaAttemptLimiter.admitEntry
    rw [if_neg (by simp [hidle]), hblocked]
    rfl
  rw [hadmitted]
  refine ⟨rfl, table.insert subject { e' with inFlight := true, lastSeen := s.clock }, rfl,
    fun other => ?_⟩
  show EntriesMatch policy s.clock (((s.entries.insert subject _).insert subject _).get? other)
    ((table.insert subject _).get? other)
  rw [SortedMap.get?_insert, SortedMap.get?_insert, SortedMap.get?_insert]
  split_ifs
  · exact .renewed _ _ ⟨hlapsed.counts, hlapsed.ended, hlapsed.unblocked⟩ rfl rfl rfl rfl
  · exact h other

theorem Shadows.admitNew (h : Shadows policy s table) :
    Follows policy (s.admitNew subject) ((s.withTable table).admitNew subject) := by
  have hfresh : EntriesMatch policy s.clock (some (.fresh s.clock)) (some (.fresh s.clock)) :=
    .same _ _ rfl rfl rfl rfl
  exact (h.insert hfresh subject).admitEntry hfresh

theorem Shadows.admitAt (hs : s.Exact policy) (h : Shadows policy s table)
    (hroom : (s.admitAt policy subject).1 ≠ .error .mfaCapacity) :
    Follows policy (s.admitAt policy subject) ((s.withTable table).admitUnbounded subject) := by
  have hmatch := h subject
  unfold LocalMfaAttemptLimiter.admitAt at hroom ⊢
  unfold LocalMfaAttemptLimiter.admitUnbounded
  dsimp only [withTable]
  cases hget : s.entries.get? subject with
  | some e =>
    rw [hget] at hmatch
    cases hget' : table.get? subject with
    | none =>
      rw [hget'] at hmatch
      cases hmatch
    | some e' =>
      rw [hget'] at hmatch
      exact h.admitEntry hmatch
  | none =>
    rw [hget] at hmatch hroom
    dsimp only at hroom ⊢
    by_cases hfull : policy.maxTracked ≤ (s.makeRoom policy).entries.size
    · rw [if_pos hfull] at hroom
      exact absurd rfl hroom
    · rw [if_neg hfull]
      have hshadows := h.makeRoom hs
      have htable : ∀ s' : LocalMfaAttemptLimiter, s' = s.makeRoom policy →
          s.withTable table = s'.withTable table := by
        rintro s' rfl
        unfold LocalMfaAttemptLimiter.makeRoom
        split_ifs <;> rfl
      have hsame := htable _ rfl
      cases hget' : table.get? subject with
      | none =>
        show Follows policy _ ((s.withTable table).admitNew subject)
        rw [hsame]
        exact hshadows.admitNew
      | some e' =>
        rw [hget'] at hmatch
        show Follows policy _ ((s.withTable table).admitEntry subject e')
        rw [hsame]
        cases hmatch with
        | evicted _ hlapsed hidle =>
          exact hshadows.admitNew_evicted (by rw [makeRoom_clock]; exact hlapsed) hidle

theorem Shadows.erase (h : Shadows policy s table) (subject : Str) :
    Shadows policy { s with entries := s.entries.erase subject } (table.erase subject) := by
  intro other
  show EntriesMatch policy s.clock ((s.entries.erase subject).get? other)
    ((table.erase subject).get? other)
  rw [SortedMap.get?_erase, SortedMap.get?_erase]
  split_ifs
  · exact .absent
  · exact h other

theorem Shadows.released (h : Shadows policy s table) (hget : s.entries.get? subject = some e)
    (hget' : table.get? subject = some e') :
    Shadows policy { s with entries := released s.entries subject }
      (LocalMfaAttemptLimiter.released table subject) := by
  have hmatch := h subject
  rw [hget, hget'] at hmatch
  intro other
  show EntriesMatch policy s.clock ((LocalMfaAttemptLimiter.released s.entries subject).get? other)
    ((LocalMfaAttemptLimiter.released (s.withTable table).entries subject).get? other)
  rw [get?_released hget, get?_released (s := s.withTable table) hget']
  by_cases heq : other = subject
  · rw [if_pos heq, if_pos heq]
    exact hmatch.drops
  · rw [if_neg heq, if_neg heq]
    exact h other

theorem Shadows.operate (hs : s.Exact policy) (h : Shadows policy s table)
    (hlive : s.attempts.get? id = some ⟨subject, failed⟩) (operation : MfaOperation) :
    Follows policy (s.operate policy id subject operation)
      ((s.withTable table).operate policy id subject operation) := by
  obtain ⟨v, hview, hacc⟩ := hs.views subject
  obtain ⟨e, times, rfl⟩ := hview.of_live hacc hlive
  have hget : s.entries.get? subject = some e := hview.entry
  have hmatch := h subject
  rw [hget] at hmatch
  cases hget' : table.get? subject with
  | none =>
    rw [hget'] at hmatch
    cases hmatch
  | some e' =>
    rw [hget'] at hmatch
    cases operation with
    | failure =>
      unfold LocalMfaAttemptLimiter.operate
      dsimp only
      rw [failureAt_eq hget, failureAt_eq (s := s.withTable table) hget']
      exact ⟨rfl, _, rfl, h.insert hmatch.fails subject⟩
    | success => exact ⟨rfl, _, rfl, h.erase subject⟩
    | drop => exact ⟨rfl, _, rfl, h.released hget hget'⟩

theorem Shadows.act (hs : s.Exact policy) (h : Shadows policy s table) (event : MfaEvent)
    (hroom : (s.act policy (LocalMfaAttemptLimiter.admitAt policy) event).1 ≠
      .admitted (.error .mfaCapacity)) :
    Follows policy (s.act policy (LocalMfaAttemptLimiter.admitAt policy) event)
      ((s.withTable table).act policy admitUnbounded event) := by
  cases event with
  | admission subject =>
    have hfollows : Follows policy (s.admitAt policy subject)
        ((s.withTable table).admitUnbounded subject) :=
      h.admitAt hs fun hcapacity => hroom (congrArg MfaAnswer.admitted hcapacity)
    obtain ⟨hanswer, hstate⟩ := hfollows
    exact ⟨congrArg MfaAnswer.admitted hanswer, hstate⟩
  | attempt id operation =>
    unfold LocalMfaAttemptLimiter.act
    dsimp only [withTable]
    cases hlive : s.attempts.get? id with
    | none => exact ⟨rfl, table, rfl, h⟩
    | some attempt => exact h.operate hs hlive operation

/-- The answer of an admission that finds the table full. -/
def refusedFull : MfaAnswer → Bool
  | .admitted (.error .mfaCapacity) => true
  | _ => false

theorem runFrom_eq_run
    (admission : LocalMfaAttemptLimiter → Str → Except MfaAttemptError Nat × LocalMfaAttemptLimiter)
    (s : LocalMfaAttemptLimiter) (events : List (Nat × MfaEvent)) :
    s.runFrom policy admission events = Refusals.run (step policy admission) s events := by
  induction events generalizing s with
  | nil => rfl
  | cons first rest ih => rw [LocalMfaAttemptLimiter.runFrom, Refusals.run, ih]

theorem admitEntry_ne_capacity : (s.admitEntry subject e).1 ≠ .error .mfaCapacity := by
  unfold admitEntry
  split_ifs
  · simp
  · split <;> simp

/-- An admission that finds the table full leaves nothing but the eviction. -/
theorem act_capacity {event : MfaEvent}
    (h : refusedFull (s.act policy (admitAt policy) event).1 = true) :
    (s.act policy (admitAt policy) event).2 = s.makeRoom policy := by
  cases event with
  | attempt id operation =>
    unfold act at h
    dsimp only at h
    split at h
    · cases operation <;> cases h
    · cases h
  | admission subject =>
    have hcapacity : (s.admitAt policy subject).1 = .error .mfaCapacity := by
      unfold act refusedFull at h
      dsimp only at h
      split at h
      · next heq => exact MfaAnswer.admitted.inj heq
      · cases h
    show (s.admitAt policy subject).2 = s.makeRoom policy
    unfold admitAt at hcapacity ⊢
    split at hcapacity
    · exact absurd hcapacity admitEntry_ne_capacity
    · split_ifs at hcapacity ⊢
      · rfl
      · exact absurd hcapacity admitEntry_ne_capacity

/-- The limiter with a table that evicts nothing, as it was some time ago. -/
def Behind (policy : LocalMfaAttemptPolicy) (lag : Nat) (s u : LocalMfaAttemptLimiter) : Prop :=
  s.Exact policy ∧ ∃ table, Shadows policy s table ∧ u.tick lag = s.withTable table

theorem Behind.tick {lag : Nat} {u : LocalMfaAttemptLimiter} (hu : u.tick lag = s.withTable table)
    (elapsed : Nat) : u.tick (lag + elapsed) = (s.tick elapsed).withTable table := by
  have htick : u.tick (lag + elapsed) = (u.tick lag).tick elapsed := by
    unfold LocalMfaAttemptLimiter.tick
    rw [← Nat.add_assoc]
  rw [htick, hu]
  rfl

theorem simulates_unbounded :
    Refusals.Simulates (step policy (admitAt policy))
      (step policy admitUnbounded) refusedFull (Behind policy) where
  refuse := by
    rintro lag s u elapsed event ⟨hs, table, hshadows, hu⟩ hrefused
    refine ⟨hs.step elapsed event, table, ?_⟩
    have hstep : (s.step policy (admitAt policy) elapsed event).2 =
        (s.tick elapsed).makeRoom policy := act_capacity hrefused
    rw [hstep]
    refine ⟨(hshadows.tick elapsed).makeRoom (hs.tick elapsed), ?_⟩
    rw [Behind.tick hu]
    unfold makeRoom
    split_ifs <;> rfl
  follow := by
    rintro lag s u elapsed event ⟨hs, table, hshadows, hu⟩ hrefused
    have hroom : ((s.tick elapsed).act policy (admitAt policy) event).1 ≠
        .admitted (.error .mfaCapacity) := by
      intro heq
      rw [step, heq] at hrefused
      cases hrefused
    obtain ⟨hanswer, table', hstate, hshadows'⟩ :=
      (hshadows.tick elapsed).act (hs.tick elapsed) event hroom
    have hstep : u.step policy admitUnbounded (lag + elapsed) event =
        ((s.tick elapsed).withTable table).act policy admitUnbounded event := by
      rw [step, Behind.tick hu]
    rw [hstep, hstate]
    exact ⟨hanswer, hs.step elapsed event, table', hshadows', rfl⟩

theorem record_spec (policy : LocalMfaAttemptPolicy) (id : Nat)
    (hget : s.entries.get? subject = some e) (here : Bool) :
    (MfaCall.record policy s id subject here).1 = none ∧
      (MfaCall.record policy s id subject here).2.records =
        s.records ++ (if here then [.failure subject s.clock] else []) ∧
      (MfaCall.record policy s id subject here).2.clock = s.clock ∧
      ∃ e, (MfaCall.record policy s id subject here).2.entries.get? subject = some e := by
  unfold MfaCall.record
  cases here with
  | false => exact ⟨rfl, (List.append_nil _).symm, rfl, e, hget⟩
  | true =>
    rw [if_pos rfl, failureAt_eq hget]
    exact ⟨rfl, rfl, rfl, _, (SortedMap.get?_insert _ _ _ _).trans (if_pos rfl)⟩

theorem wrongCode_records {call : MfaCall}
    (hget : s.entries.get? subject = some e)
    (hcommitted : (call.wrongCode policy s id subject).committed = true)
    (hgate : call.fails .gateAfter = none) :
    (call.wrongCode policy s id subject).limiter.records =
      s.records ++ [.failure subject s.clock] := by
  obtain ⟨-, hrecords, hclock, e', hget'⟩ := record_spec policy id hget call.enrolling
  obtain ⟨-, hrecords', -, -⟩ := record_spec policy id hget' (!call.enrolling)
  have hall : (MfaCall.record policy (MfaCall.record policy s id subject call.enrolling).2 id subject
      (!call.enrolling)).2.records = s.records ++ [.failure subject s.clock] := by
    rw [hrecords', hrecords, hclock]
    cases call.enrolling <;> simp
  unfold MfaCall.wrongCode at hcommitted ⊢
  dsimp only at hcommitted ⊢
  rw [hgate] at hcommitted ⊢
  split at hcommitted
  · cases hcommitted
  · dsimp only
    split
    · exact hall
    · exact hall

theorem finish_records (hs : s.Exact policy) {call : MfaCall}
    (hlive : s.attempts.get? id = some ⟨subject, failed⟩) (hwrong : call.verified = false)
    (hcommitted : (call.finish policy s id subject).committed = true)
    (hgate : call.fails .gateAfter = none) :
    (call.finish policy s id subject).limiter.records =
      s.records ++ [.failure subject (s.clock + call.elapsed)] := by
  obtain ⟨v, hview, hacc⟩ := hs.views subject
  obtain ⟨e, times, rfl⟩ := hview.of_live hacc hlive
  have hget : (s.tick call.elapsed).entries.get? subject = some e := hview.entry
  unfold MfaCall.finish at hcommitted ⊢
  dsimp only at hcommitted ⊢
  cases hverify : call.fails .verify with
  | some error =>
    rw [hverify] at hcommitted
    cases hcommitted
  | none =>
    rw [hverify] at hcommitted
    dsimp only at hcommitted ⊢
    rw [if_neg (by simp [hwrong])] at hcommitted ⊢
    exact wrongCode_records hget hcommitted hgate

def UsedProperly (policy : LocalMfaAttemptPolicy) (s s' : LocalMfaAttemptLimiter) : Prop :=
  ∃ events, s' = (s.runFrom policy (admitAt policy) events).2 ∧ Disciplined policy s events

section Uses

variable (hlive : s.attempts.get? id = some ⟨subject, false⟩) (elapsed : Nat)

include hlive

theorem usedProperly_drop : UsedProperly policy s ((s.tick elapsed).drop id subject) := by
  refine ⟨[(elapsed, .attempt id .drop)], ?_, rfl, trivial⟩
  show _ = ((s.tick elapsed).act policy (admitAt policy) (.attempt id .drop)).2
  rw [act_attempt (s := s.tick elapsed) hlive]
  rfl

theorem usedProperly_success : UsedProperly policy s ((s.tick elapsed).success id subject) := by
  refine ⟨[(elapsed, .attempt id .success)], ?_, by simp [usedOnce, hlive], trivial⟩
  show _ = ((s.tick elapsed).act policy (admitAt policy) (.attempt id .success)).2
  rw [act_attempt (s := s.tick elapsed) hlive]
  rfl

theorem usedProperly_failure (hget : s.entries.get? subject = some e) :
    UsedProperly policy s (((s.tick elapsed).failureAt policy id subject).2.drop id subject) := by
  have hstep : s.step policy (admitAt policy) elapsed (.attempt id .failure) =
      (s.tick elapsed).operate policy id subject .failure :=
    act_attempt (s := s.tick elapsed) hlive .failure
  have hlive' : (((s.tick elapsed).failureAt policy id subject).2.tick 0).attempts.get? id =
      some ⟨subject, true⟩ := by
    rw [failureAt_eq (s := s.tick elapsed) hget]
    exact (SortedMap.get?_insert _ _ _ _).trans (if_pos rfl)
  refine ⟨[(elapsed, .attempt id .failure), (0, .attempt id .drop)], ?_, by simp [usedOnce, hlive],
    rfl, trivial⟩
  show _ = ((s.step policy (admitAt policy) elapsed (.attempt id .failure)).2.step policy
    (admitAt policy) 0 (.attempt id .drop)).2
  rw [hstep]
  show _ = ((((s.tick elapsed).failureAt policy id subject).2.tick 0).act policy (admitAt policy)
    (.attempt id .drop)).2
  rw [act_attempt hlive']
  rfl

end Uses

theorem finish_usedProperly (hs : s.Exact policy)
    (hlive : s.attempts.get? id = some ⟨subject, false⟩) (call : MfaCall) :
    UsedProperly policy s (call.finish policy s id subject).limiter := by
  obtain ⟨v, hview, hacc⟩ := hs.views subject
  obtain ⟨e, times, rfl⟩ := hview.of_live hacc hlive
  have hget : s.entries.get? subject = some e := hview.entry
  have hdrop : UsedProperly policy s ((s.tick call.elapsed).drop id subject) :=
    usedProperly_drop hlive call.elapsed
  have hsuccess : UsedProperly policy s ((s.tick call.elapsed).success id subject) :=
    usedProperly_success hlive call.elapsed
  have hfailure : UsedProperly policy s
      (((s.tick call.elapsed).failureAt policy id subject).2.drop id subject) :=
    usedProperly_failure hlive call.elapsed hget
  have hearly : MfaCall.record policy (s.tick call.elapsed) id subject true =
      (none, ((s.tick call.elapsed).failureAt policy id subject).2) := by
    unfold MfaCall.record
    rw [if_pos rfl, failureAt_eq (s := s.tick call.elapsed) hget]
  have hnot : ∀ s', MfaCall.record policy s' id subject false = (none, s') := fun _ => rfl
  unfold MfaCall.finish
  dsimp only
  split
  · exact hdrop
  · split_ifs
    · unfold MfaCall.rightCode
      split
      · exact hdrop
      · split
        · exact hdrop
        · split
          · exact hsuccess
          · exact hsuccess
    · unfold MfaCall.wrongCode
      dsimp only
      cases call.enrolling with
      | true =>
        rw [hearly, Bool.not_true, hnot]
        split
        · exact hfailure
        · split
          · exact hfailure
          · split
            · exact hfailure
            · exact hfailure
      | false =>
        rw [hnot, Bool.not_false, hearly]
        split
        · exact hdrop
        · split
          · exact hdrop
          · split
            · exact hfailure
            · exact hfailure

theorem Exact.eq_of_subject (hs : s.Exact policy) {id' : Nat} {failed' : Bool}
    (h : s.attempts.get? id = some ⟨subject, failed⟩)
    (h' : s.attempts.get? id' = some ⟨subject, failed'⟩) : id = id' := by
  obtain ⟨v, hview, -⟩ := hs.views subject
  have hsame := ((hview.live id failed).mp h).symm.trans ((hview.live id' failed').mp h')
  exact congrArg Prod.fst (Option.some.inj hsame)

def strictPolicy : LocalMfaAttemptPolicy where
  maxFailures := 1
  window := 10
  lockout := 5
  maxTracked := 1
  maxFailures_pos := by decide
  maxFailures_le := by decide
  window_pos := by decide
  lockout_pos := by decide
  maxTracked_pos := by decide

/-- A login with a wrong code whose challenge expires between the commit and the gate after it. -/
def expiringCall : MfaCall where
  enrolling := false
  verified := false
  elapsed := 0
  fails := fun part => if part = .gateAfter then some .invalidChallenge else none

end LocalMfaAttemptLimiter

end GraphitBroker
