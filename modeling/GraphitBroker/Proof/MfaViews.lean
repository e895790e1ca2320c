import GraphitBroker.MfaAttempts
import GraphitBroker.Lib.FailureWindows

/-!
# MFA attempts of one subject

What the limiter holds about one subject is a small state machine.
-/

namespace GraphitBroker

open FailureWindows

variable {policy : LocalMfaAttemptPolicy} {now later id : Nat} {entry : MfaRateEntry}

/-- What the limiter holds about a subject: its entry, its live attempt and its failures. -/
structure MfaView where
  entry : Option MfaRateEntry
  live : Option (Nat × Bool)
  times : List Nat

inductive MfaView.Step (policy : LocalMfaAttemptPolicy) (now : Nat) (once : Prop) :
    MfaView → MfaView → Prop
  | stays (v : MfaView) : Step policy now once v v
  | evicted (e : MfaRateEntry) (times : List Nat) : e.retained policy now = false →
      Step policy now once ⟨some e, none, times⟩ ⟨none, none, times⟩
  | returns (e : MfaRateEntry) (id : Nat) (times : List Nat) : e.inFlight = false →
      e.blocked now = none →
      Step policy now once ⟨some e, none, times⟩
        ⟨some { e with inFlight := true, lastSeen := now }, some (id, false), times⟩
  | enters (id : Nat) (times : List Nat) :
      Step policy now once ⟨none, none, times⟩
        ⟨some { MfaRateEntry.fresh now with inFlight := true, lastSeen := now },
          some (id, false), times⟩
  | fails (e : MfaRateEntry) (id : Nat) (failed : Bool) (times : List Nat) :
      (once → failed = false) →
      Step policy now once ⟨some e, some (id, failed), times⟩
        ⟨some (e.failureAt policy now), some (id, true), times ++ [now]⟩
  | succeeds (e : MfaRateEntry) (id : Nat) (failed : Bool) (times : List Nat) :
      (once → failed = false) →
      Step policy now once ⟨some e, some (id, failed), times⟩ ⟨none, none, []⟩
  | drops (e : MfaRateEntry) (id : Nat) (failed : Bool) (times : List Nat) :
      Step policy now once ⟨some e, some (id, failed), times⟩
        ⟨if e.failures = 0 then none else some { e with inFlight := false }, none, times⟩

def Cleared (policy : LocalMfaAttemptPolicy) (now : Nat) (times : List Nat) : Prop :=
  ∀ start failures last, count policy.window times = some (start, failures) →
    policy.maxFailures ≤ failures → times.getLast? = some last → last + policy.lockout ≤ now

/-- The entry of a subject says what its failures and its live attempt say. -/
structure Accounted (policy : LocalMfaAttemptPolicy) (now : Nat) (v : MfaView) : Prop where
  flight : v.live.isSome = v.entry.any MfaRateEntry.inFlight
  idle : ∀ e, v.entry = some e → e.inFlight = false → e.failures ≠ 0
  clean : ∀ e, v.entry = some e → e.failures = 0 → e.blockUntil = none
  ordered : ∀ e, v.entry = some e → e.windowStart ≤ e.lastSeen ∧ e.lastSeen ≤ now
  counted : ∀ e, v.entry = some e → e.failures ≠ 0 → ∃ failures,
    count policy.window v.times = some (e.windowStart, failures) ∧
      e.failures = min failures maxFailureCount
  lapsed : (∀ e, v.entry = some e → e.failures = 0) → ∀ start failures,
    count policy.window v.times = some (start, failures) → policy.window ≤ now - start
  locked : Cleared policy now v.times ∨ ∃ e u, v.entry = some e ∧ e.blockUntil = some u ∧
    ∀ last, v.times.getLast? = some last → last + policy.lockout ≤ u

variable {times : List Nat} {v : MfaView}

theorem Cleared.mono (h : Cleared policy now times) (hle : now ≤ later) :
    Cleared policy later times :=
  fun start failures last hcount hlimit hlast =>
    (h start failures last hcount hlimit hlast).trans hle

theorem cleared_nil : Cleared policy now [] :=
  fun _ _ _ hcount => by cases hcount

theorem accounted_none
    (hlapsed : ∀ start failures, count policy.window times = some (start, failures) →
      policy.window ≤ now - start)
    (hcleared : Cleared policy now times) : Accounted policy now ⟨none, none, times⟩ where
  flight := rfl
  idle := fun _ h => by cases h
  clean := fun _ h => by cases h
  ordered := fun _ h => by cases h
  counted := fun _ h => by cases h
  lapsed := fun _ => hlapsed
  locked := .inl hcleared

theorem accounted_nil : Accounted policy now ⟨none, none, []⟩ :=
  accounted_none (fun _ _ h => by cases h) cleared_nil

theorem Accounted.mono (h : Accounted policy now v) (hle : now ≤ later) :
    Accounted policy later v where
  flight := h.flight
  idle := h.idle
  clean := h.clean
  ordered := fun e he => ⟨(h.ordered e he).1, (h.ordered e he).2.trans hle⟩
  counted := h.counted
  lapsed := fun hnone start failures hcount =>
    (h.lapsed hnone start failures hcount).trans (Nat.sub_le_sub_right hle _)
  locked := h.locked.imp_left fun hcleared => hcleared.mono hle

theorem Accounted.cleared (h : Accounted policy now v)
    (hblocked : ∀ e u, v.entry = some e → e.blockUntil = some u → u ≤ now) :
    Cleared policy now v.times := by
  rcases h.locked with hcleared | ⟨e, u, he, hu, hlast⟩
  · exact hcleared
  · exact fun _ _ last _ _ hmem => (hlast last hmem).trans (hblocked e u he hu)

theorem blocked_eq_none : entry.blocked now = none ↔ ∀ u, entry.blockUntil = some u → u ≤ now := by
  unfold MfaRateEntry.blocked
  cases entry.blockUntil with
  | none => simp
  | some u => simp [Option.filter_some]

theorem retained_eq_false (h : entry.retained policy now = false) :
    entry.inFlight = false ∧ entry.blocked now = none ∧
      policy.window + policy.lockout < now - entry.lastSeen := by
  simp only [MfaRateEntry.retained, Bool.or_eq_false_iff, decide_eq_false_iff_not, Nat.not_le] at h
  refine ⟨h.1.1, blocked_eq_none.mpr fun u hu => ?_, h.2⟩
  have hany := h.1.2
  rw [hu] at hany
  simpa using hany

theorem Accounted.evicted (h : Accounted policy now ⟨some entry, none, times⟩)
    (hretained : entry.retained policy now = false) : Accounted policy now ⟨none, none, times⟩ := by
  obtain ⟨hidle, hblocked, hold⟩ := retained_eq_false hretained
  refine accounted_none (fun start failures hcount => ?_) (h.cleared fun e u he hu => ?_)
  · obtain ⟨f, hf, -⟩ := h.counted entry rfl (h.idle entry rfl hidle)
    obtain ⟨rfl, -⟩ := Prod.mk.inj (Option.some.inj (hf.symm.trans hcount))
    have := (h.ordered entry rfl).1
    omega
  · obtain rfl := Option.some.inj he
    exact blocked_eq_none.mp hblocked u hu

theorem Accounted.returns (h : Accounted policy now ⟨some entry, none, times⟩) :
    Accounted policy now
      ⟨some { entry with inFlight := true, lastSeen := now }, some (id, false), times⟩ where
  flight := rfl
  idle := fun e he hidle => by
    obtain rfl := Option.some.inj he
    cases hidle
  clean := fun e he => by
    obtain rfl := Option.some.inj he
    exact h.clean entry rfl
  ordered := fun e he => by
    obtain rfl := Option.some.inj he
    exact ⟨(h.ordered entry rfl).1.trans (h.ordered entry rfl).2, le_refl _⟩
  counted := fun e he => by
    obtain rfl := Option.some.inj he
    exact h.counted entry rfl
  lapsed := fun hnone => h.lapsed fun e he => by
    obtain rfl := Option.some.inj he
    exact hnone { entry with inFlight := true, lastSeen := now } rfl
  locked := by
    refine h.locked.imp_right ?_
    rintro ⟨e, u, he, hu, hlast⟩
    obtain rfl := Option.some.inj he
    exact ⟨_, u, rfl, hu, hlast⟩

theorem Accounted.enters (h : Accounted policy now ⟨none, none, times⟩) :
    Accounted policy now
      ⟨some { MfaRateEntry.fresh now with inFlight := true, lastSeen := now },
        some (id, false), times⟩ where
  flight := rfl
  idle := fun e he hidle => by
    obtain rfl := Option.some.inj he
    cases hidle
  clean := fun e he _ => by
    obtain rfl := Option.some.inj he
    rfl
  ordered := fun e he => by
    obtain rfl := Option.some.inj he
    exact ⟨le_refl _, le_refl _⟩
  counted := fun e he hne => by
    obtain rfl := Option.some.inj he
    exact absurd rfl hne
  lapsed := fun _ => h.lapsed fun _ he => by cases he
  locked := .inl (h.cleared fun _ _ he => by cases he)

theorem maxFailureCount_pos : 1 ≤ maxFailureCount := by decide

theorem Accounted.counted_failure {live : Option (Nat × Bool)}
    (h : Accounted policy now ⟨some entry, live, times⟩) :
    ∃ failures, count policy.window (times ++ [now]) =
        some ((entry.failureAt policy now).windowStart, failures) ∧
      (entry.failureAt policy now).failures = min failures maxFailureCount := by
  rw [count_append]
  by_cases hrestarts : entry.restarts policy now = true
  · refine ⟨1, ?_, by simp [MfaRateEntry.failureAt, hrestarts]⟩
    have hstart : (entry.failureAt policy now).windowStart = now := by
      simp [MfaRateEntry.failureAt, hrestarts]
    rw [hstart]
    cases hcount : count policy.window times with
    | none => rfl
    | some state =>
      refine congrArg some (record_of_le ?_)
      simp only [MfaRateEntry.restarts, Bool.or_eq_true, beq_iff_eq, decide_eq_true_eq] at hrestarts
      by_cases hzero : entry.failures = 0
      · refine h.lapsed (fun e he => ?_) state.1 state.2 hcount
        obtain rfl := Option.some.inj he
        exact hzero
      · obtain ⟨f, hf, -⟩ := h.counted entry rfl hzero
        obtain rfl := Option.some.inj (hf.symm.trans hcount)
        exact hrestarts.resolve_left hzero
  · have hstart : (entry.failureAt policy now).windowStart = entry.windowStart := by
      simp [MfaRateEntry.failureAt, hrestarts]
    have hfailures : (entry.failureAt policy now).failures =
        min (entry.failures + 1) maxFailureCount := by
      simp [MfaRateEntry.failureAt, hrestarts]
    simp only [MfaRateEntry.restarts, Bool.or_eq_true, beq_iff_eq, decide_eq_true_eq, not_or]
      at hrestarts
    obtain ⟨f, hf, hmin⟩ := h.counted entry rfl hrestarts.1
    rw [hstart, hfailures]
    refine ⟨f + 1, ?_, by omega⟩
    show some (record policy.window (count policy.window times) now) = _
    rw [show count policy.window times = some (entry.windowStart, f) from hf,
      record_of_not_le hrestarts.2]

theorem failureAt_ne_zero : (entry.failureAt policy now).failures ≠ 0 := by
  have := maxFailureCount_pos
  unfold MfaRateEntry.failureAt
  dsimp only
  omega

theorem failureAt_blockUntil (h : policy.maxFailures ≤ (entry.failureAt policy now).failures) :
    (entry.failureAt policy now).blockUntil = some (now + policy.lockout) :=
  if_pos h

theorem Accounted.fails {failed : Bool}
    (h : Accounted policy now ⟨some entry, some (id, failed), times⟩) :
    Accounted policy now
      ⟨some (entry.failureAt policy now), some (id, true), times ++ [now]⟩ where
  flight := by
    have hflight := h.flight
    exact hflight
  idle := fun e he _ => by
    obtain rfl := Option.some.inj he
    exact failureAt_ne_zero
  clean := fun e he hzero => by
    obtain rfl := Option.some.inj he
    exact absurd hzero failureAt_ne_zero
  ordered := fun e he => by
    obtain rfl := Option.some.inj he
    have := h.ordered entry rfl
    refine ⟨?_, le_refl _⟩
    show (if entry.restarts policy now then now else entry.windowStart) ≤ now
    split_ifs
    · exact le_refl _
    · exact this.1.trans this.2
  counted := fun e he _ => by
    obtain rfl := Option.some.inj he
    exact h.counted_failure
  lapsed := fun hzero => absurd (hzero _ rfl) failureAt_ne_zero
  locked := by
    by_cases hlimit : policy.maxFailures ≤ (entry.failureAt policy now).failures
    · refine .inr ⟨_, _, rfl, failureAt_blockUntil hlimit, fun last hlast => ?_⟩
      rw [List.getLast?_concat] at hlast
      obtain rfl := Option.some.inj hlast
      exact le_refl _
    · refine .inl fun start failures last hcount hreached => absurd ?_ hlimit
      obtain ⟨f, hf, hmin⟩ := h.counted_failure
      obtain ⟨-, rfl⟩ := Prod.mk.inj (Option.some.inj (hf.symm.trans hcount))
      have := policy.maxFailures_le
      omega

theorem Accounted.drops {live : Option (Nat × Bool)}
    (h : Accounted policy now ⟨some entry, live, times⟩) :
    Accounted policy now
      ⟨if entry.failures = 0 then none else some { entry with inFlight := false }, none, times⟩ := by
  split_ifs with hzero
  · refine accounted_none (h.lapsed fun e he => ?_) (h.cleared fun e u he hu => ?_)
    · obtain rfl := Option.some.inj he
      exact hzero
    · obtain rfl := Option.some.inj he
      rw [h.clean entry rfl hzero] at hu
      cases hu
  · refine ⟨rfl, fun e he _ => ?_, fun e he hclean => ?_, fun e he => ?_, fun e he => ?_,
      fun hnone => absurd (hnone _ rfl) hzero, ?_⟩
    · obtain rfl := Option.some.inj he
      exact hzero
    · obtain rfl := Option.some.inj he
      exact absurd hclean hzero
    · obtain rfl := Option.some.inj he
      exact h.ordered entry rfl
    · obtain rfl := Option.some.inj he
      exact h.counted entry rfl
    · refine h.locked.imp_right ?_
      rintro ⟨e, u, he, hu, hlast⟩
      obtain rfl := Option.some.inj he
      exact ⟨_, u, rfl, hu, hlast⟩

theorem Accounted.step {v v' : MfaView} {once : Prop} (h : Accounted policy now v)
    (hstep : MfaView.Step policy now once v v') : Accounted policy now v' := by
  cases hstep with
  | stays => exact h
  | evicted e times hretained => exact h.evicted hretained
  | returns e id times hidle hblocked => exact h.returns
  | enters id times => exact h.enters
  | fails e id failed times _ => exact h.fails
  | succeeds e id failed times _ => exact accounted_nil
  | drops e id failed times => exact h.drops

structure Measured (policy : LocalMfaAttemptPolicy) (now : Nat) (v : MfaView) : Prop where
  paced : Paced policy.window policy.maxFailures policy.lockout v.times
  ready : ∀ id, v.live = some (id, false) → Cleared policy now v.times

theorem measured_nil : Measured policy now ⟨none, none, []⟩ :=
  ⟨paced_nil, fun _ _ => cleared_nil⟩

theorem Measured.mono (h : Measured policy now v) (hle : now ≤ later) :
    Measured policy later v :=
  ⟨h.paced, fun id hlive => (h.ready id hlive).mono hle⟩

theorem Measured.step {v v' : MfaView} {once : Prop} (honce : once) (hv : Accounted policy now v)
    (h : Measured policy now v) (hstep : MfaView.Step policy now once v v') :
    Measured policy now v' := by
  cases hstep with
  | stays => exact h
  | evicted e times hretained => exact ⟨h.paced, fun _ hlive => by cases hlive⟩
  | returns e id times hidle hblocked =>
    refine ⟨h.paced, fun _ _ => hv.cleared fun e' u he hu => ?_⟩
    obtain rfl := Option.some.inj he
    exact blocked_eq_none.mp hblocked u hu
  | enters id times => exact ⟨h.paced, fun _ _ => hv.cleared fun _ _ he => by cases he⟩
  | fails e id failed times hfailed =>
    obtain rfl := hfailed honce
    refine ⟨h.paced.append fun before last hsplit start failures hcount hlimit => ?_,
      fun id' hlive => ?_⟩
    · refine h.ready id rfl start failures last hcount hlimit ?_
      rw [hsplit, List.getLast?_concat]
    · cases hlive
  | succeeds e id failed times _ => exact measured_nil
  | drops e id failed times => exact ⟨h.paced, fun _ hlive => by cases hlive⟩

/-- A subject is locked out: no attempt of it can be admitted or end the lockout. -/
def Locked (deadline : Nat) (now : Nat) (v : MfaView) : Prop :=
  now < deadline → (∃ e u, v.entry = some e ∧ e.blockUntil = some u ∧ deadline ≤ u) ∧
    ∀ id, v.live ≠ some (id, false)

theorem Locked.mono {deadline : Nat} (h : Locked deadline now v) (hle : now ≤ later) :
    Locked deadline later v :=
  fun hlt => h (hle.trans_lt hlt)

theorem Locked.step {v v' : MfaView} {once : Prop} {deadline : Nat} (honce : once)
    (hv : Accounted policy now v) (h : Locked deadline now v)
    (hstep : MfaView.Step policy now once v v') : Locked deadline now v' := by
  intro hlt
  obtain ⟨⟨e', u, he', hu, hle⟩, hlive⟩ := h hlt
  cases hstep with
  | stays => exact ⟨⟨e', u, he', hu, hle⟩, hlive⟩
  | evicted e times hretained =>
    obtain rfl := Option.some.inj he'
    have := blocked_eq_none.mp (retained_eq_false hretained).2.1 u hu
    omega
  | returns e id times hidle hblocked =>
    obtain rfl := Option.some.inj he'
    have := blocked_eq_none.mp hblocked u hu
    omega
  | enters id times => cases he'
  | fails e id failed times hfailed =>
    obtain rfl := hfailed honce
    exact absurd rfl (hlive id)
  | succeeds e id failed times hfailed =>
    obtain rfl := hfailed honce
    exact absurd rfl (hlive id)
  | drops e id failed times =>
    obtain rfl := Option.some.inj he'
    have hzero : e.failures ≠ 0 := fun hzero => by
      rw [hv.clean e rfl hzero] at hu
      cases hu
    refine ⟨⟨_, u, if_neg hzero, hu, hle⟩, fun _ hnone => by cases hnone⟩

structure Lapsed (policy : LocalMfaAttemptPolicy) (now : Nat) (entry : MfaRateEntry) : Prop where
  counts : entry.failures ≠ 0
  ended : policy.window ≤ now - entry.windowStart
  unblocked : entry.blocked now = none

/-- The entry of a subject in the table, and in one from which nothing is evicted. -/
inductive EntriesMatch (policy : LocalMfaAttemptPolicy) (now : Nat) :
    Option MfaRateEntry → Option MfaRateEntry → Prop
  | absent : EntriesMatch policy now none none
  | same (e e' : MfaRateEntry) : e'.windowStart = e.windowStart → e'.failures = e.failures →
      e'.inFlight = e.inFlight → e'.blocked now = e.blocked now →
      EntriesMatch policy now (some e) (some e')
  | evicted (e' : MfaRateEntry) : Lapsed policy now e' → e'.inFlight = false →
      EntriesMatch policy now none (some e')
  | renewed (e e' : MfaRateEntry) : Lapsed policy now e' → e'.inFlight = true → e.inFlight = true →
      e.failures = 0 → e.blockUntil = none → EntriesMatch policy now (some e) (some e')

theorem blocked_later (hle : now ≤ later) :
    entry.blocked later = (entry.blocked now).filter fun u => later < u := by
  unfold MfaRateEntry.blocked
  cases entry.blockUntil with
  | none => rfl
  | some u =>
    by_cases hlt : later < u
    · simp [Option.filter_some, hlt, hle.trans_lt hlt]
    · by_cases hnow : now < u
      · simp [Option.filter_some, hlt, hnow]
      · simp [Option.filter_some, hlt, hnow]

theorem Lapsed.mono (h : Lapsed policy now entry) (hle : now ≤ later) : Lapsed policy later entry :=
  ⟨h.counts, h.ended.trans (Nat.sub_le_sub_right hle _), by rw [blocked_later hle, h.unblocked]; rfl⟩

section EntriesMatch

variable {e e' : MfaRateEntry} {found found' : Option MfaRateEntry}

theorem EntriesMatch.mono (h : EntriesMatch policy now found found') (hle : now ≤ later) :
    EntriesMatch policy later found found' := by
  cases h with
  | absent => exact .absent
  | same e e' hstart hfailures hflight hblocked =>
    exact .same e e' hstart hfailures hflight (by rw [blocked_later hle, hblocked, blocked_later hle])
  | evicted e' hlapsed hidle => exact .evicted e' (hlapsed.mono hle) hidle
  | renewed e e' hlapsed hflight' hflight hzero hnone =>
    exact .renewed e e' (hlapsed.mono hle) hflight' hflight hzero hnone

theorem EntriesMatch.evict {live : Option (Nat × Bool)} {times : List Nat}
    (h : EntriesMatch policy now (some e) found') (hv : Accounted policy now ⟨some e, live, times⟩)
    (hretained : e.retained policy now = false) : EntriesMatch policy now none found' := by
  obtain ⟨hidle, hblocked, hold⟩ := retained_eq_false hretained
  cases h with
  | same _ e' hstart hfailures hflight hblocked' =>
    refine .evicted e' ⟨?_, ?_, hblocked'.trans hblocked⟩ (hflight.trans hidle)
    · rw [hfailures]
      exact hv.idle e rfl hidle
    · have := (hv.ordered e rfl).1
      omega
  | renewed _ e' _ _ hflight _ _ =>
    rw [hidle] at hflight
    cases hflight

theorem EntriesMatch.inFlight (h : EntriesMatch policy now (some e) (some e')) :
    e'.inFlight = e.inFlight := by
  cases h with
  | same _ _ _ _ hflight _ => exact hflight
  | renewed _ _ _ hflight' hflight _ _ => rw [hflight', hflight]

theorem EntriesMatch.blocked (h : EntriesMatch policy now (some e) (some e')) :
    e'.blocked now = e.blocked now := by
  cases h with
  | same _ _ _ _ _ hblocked => exact hblocked
  | renewed _ _ hlapsed _ _ _ hnone =>
    rw [hlapsed.unblocked, MfaRateEntry.blocked, hnone]
    rfl

theorem EntriesMatch.returns (h : EntriesMatch policy now (some e) (some e'))
    (hidle : e.inFlight = false) :
    EntriesMatch policy now (some { e with inFlight := true, lastSeen := now })
      (some { e' with inFlight := true, lastSeen := now }) := by
  cases h with
  | same _ _ hstart hfailures _ hblocked => exact .same _ _ hstart hfailures rfl hblocked
  | renewed _ _ _ _ hflight _ _ =>
    rw [hidle] at hflight
    cases hflight

theorem blocked_failureAt (hblocked : e'.blocked now = e.blocked now)
    (hfailures : (e'.failureAt policy now).failures = (e.failureAt policy now).failures) :
    (e'.failureAt policy now).blocked now = (e.failureAt policy now).blocked now := by
  have hblock : ∀ e : MfaRateEntry, (e.failureAt policy now).blocked now =
      if policy.maxFailures ≤ (e.failureAt policy now).failures
        then (some (now + policy.lockout)).filter fun u => now < u
      else e.blocked now := by
    intro e
    unfold MfaRateEntry.blocked
    by_cases hlimit : policy.maxFailures ≤ (e.failureAt policy now).failures
    · rw [failureAt_blockUntil hlimit, if_pos hlimit]
    · have hkept : (e.failureAt policy now).blockUntil = e.blockUntil := if_neg hlimit
      rw [hkept, if_neg hlimit]
  rw [hblock e', hblock e, hfailures, hblocked]

theorem EntriesMatch.fails (h : EntriesMatch policy now (some e) (some e')) :
    EntriesMatch policy now (some (e.failureAt policy now)) (some (e'.failureAt policy now)) := by
  have hblocked := h.blocked
  have hflight := h.inFlight
  have hcounts : (e'.failureAt policy now).windowStart = (e.failureAt policy now).windowStart ∧
      (e'.failureAt policy now).failures = (e.failureAt policy now).failures := by
    cases h with
    | same _ _ hstart hfailures _ _ =>
      have hrestarts : e'.restarts policy now = e.restarts policy now := by
        unfold MfaRateEntry.restarts
        rw [hfailures, hstart]
      unfold MfaRateEntry.failureAt
      dsimp only
      rw [hrestarts, hfailures, hstart]
      exact ⟨rfl, rfl⟩
    | renewed _ _ hlapsed _ _ hzero _ =>
      have hrestarts : e.restarts policy now = true := by simp [MfaRateEntry.restarts, hzero]
      have hrestarts' : e'.restarts policy now = true := by
        simp [MfaRateEntry.restarts, hlapsed.ended]
      unfold MfaRateEntry.failureAt
      dsimp only
      rw [hrestarts, hrestarts']
      exact ⟨rfl, rfl⟩
  exact .same _ _ hcounts.1 hcounts.2 hflight (blocked_failureAt hblocked hcounts.2)

theorem EntriesMatch.drops (h : EntriesMatch policy now (some e) (some e')) :
    EntriesMatch policy now (if e.failures = 0 then none else some { e with inFlight := false })
      (if e'.failures = 0 then none else some { e' with inFlight := false }) := by
  cases h with
  | same _ _ hstart hfailures _ hblocked =>
    by_cases hzero : e.failures = 0
    · rw [if_pos hzero, if_pos (hfailures.trans hzero)]
      exact .absent
    · rw [if_neg hzero, if_neg (hfailures ▸ hzero)]
      exact .same _ _ hstart hfailures rfl hblocked
  | renewed _ _ hlapsed _ _ hzero _ =>
    rw [if_pos hzero, if_neg hlapsed.counts]
    exact .evicted _ ⟨hlapsed.counts, hlapsed.ended, hlapsed.unblocked⟩ rfl

end EntriesMatch

end GraphitBroker
