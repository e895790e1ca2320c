import GraphitBroker.Proof.DeviceRedemption

/-!
# Logins pass their stages

`begin`, `complete_password_change` and `complete_mfa` hand a login from one challenge to the next.
-/

namespace GraphitBroker

open ExceptList Transactions ControlDb

/-- A challenge of a login, not the consent of a device. -/
def isLogin (row : LocalChallenge) : Bool := row.stage != deviceConsent

/-- An environment whose `Challenge::decode` refuses stages that `LocalAuthStage::parse` does not know. -/
structure StageEnv extends LoginEnv where
  parses : ∀ hash row, validates hash row = none → isLogin row = true

/-- The transactions of a login, and those of other services, which make neither a challenge of a login
nor a recovery code. -/
inductive LoginOp where
  | begin (env : StageEnv) (proof : VerifiedLocalPassword) (purpose : LocalAuthPurpose)
  | change (env : StageEnv) (hash newHash : Str) (purpose : LocalAuthPurpose)
      (initial : LocalChallenge) (password : CurrentPassword)
  | mfa (env : StageEnv) (raw hash : Str) (purpose : LocalAuthPurpose)
  | other (f : ControlDb → ControlDb) (leaves : ∀ d hash row, (f d).challenges.get? hash = some row →
      isLogin row = true → d.challenges.get? hash = some row)
      (codes : ∀ d code, code ∈ (f d).recoveryCodes → code ∈ d.recoveryCodes)

/-- What one transaction has written: whose password was verified, which challenges it has used and
made, the login it has completed, and the recovery codes it has spent and issued. -/
structure LoginEvent where
  verified : Option Str := none
  used : Option Str := none
  made : Option Str := none
  completed : Option CompletedLocalLogin := none
  spent : Option (Str ×ₗ Str) := none
  issued : List (Str ×ₗ Str) := []

def LoginEnv.drawn (env : LoginEnv) : LocalAuthStep → Option Str
  | .complete _ => none
  | .pending _ _ => env.secret.map Prod.snd

def LocalAuthStep.login : LocalAuthStep → Option CompletedLocalLogin
  | .complete login => some login
  | .pending _ _ => none

def LoginEnv.advanceEvent (env : LoginEnv) (verified used : Option Str) (answer : LocalAuthStep) :
    LoginEvent :=
  { verified, used, made := env.drawn answer, completed := answer.login }

/-- A login that a second factor has completed; an enrollment shows its codes. -/
def LoginEnv.factorEvent (env : LoginEnv) (hash : Str) (login : CompletedLocalLogin) : LoginEvent :=
  let code (hash : Str) := toLex (login.subject, hash)
  match login.recoveryCodes with
  | some _ => { used := some hash, completed := some login, issued := env.newCodes.map fun c => code c.2 }
  | none =>
    { used := some hash
      completed := some login
      spent := if env.totp then none else env.recovery.map code }

/-- A code that is not accepted leaves the challenge as it is. -/
def LoginEnv.factorEvents (env : LoginEnv) (hash : Str) : LocalAuthStep → List LoginEvent
  | .complete login => [env.factorEvent hash login]
  | .pending _ _ => []

namespace LoginOp

def step : LoginOp → ControlDb → List LoginEvent × ControlDb
  | .begin env proof purpose =>
    record (fun answer => [env.advanceEvent (some proof.subject) none answer])
      (beginBody env.toLoginEnv proof purpose) env.commit
  | .change env hash newHash purpose initial password =>
    record (fun answer => [env.advanceEvent none (some hash) answer])
      (changeBody env.toLoginEnv hash newHash purpose initial password) env.commit
  | .mfa env raw hash purpose =>
    record (env.factorEvents hash) (mfaBody env.toLoginEnv raw hash purpose) env.commit
  | .other f .. => fun d => ([], f d)

def run (d : ControlDb) (ops : List LoginOp) : List LoginEvent × ControlDb :=
  historyFrom step ([], d) ops

/-- The policy asks for a second factor. -/
def required : LoginOp → Bool
  | .begin env .. | .change env .. | .mfa env .. => env.required
  | .other .. => true

end LoginOp

variable {env : LoginEnv} {d d' d'' : ControlDb} {hash subject username : Str} {u : LocalUser}
  {purpose : LocalAuthPurpose} {answer : LocalAuthStep} {used made : Option Str} {history : List LoginEvent}

/-! ### The challenges that a transaction writes -/

/-- The challenges of logins after a transaction that uses and makes one. -/
def Hands (d d' : ControlDb) (used made : Option Str) (subject : Str) : Prop :=
  ∀ hash row, d'.challenges.get? hash = some row → isLogin row = true →
    (made = some hash ∧ row.subject = subject) ∨
      (used ≠ some hash ∧ d.challenges.get? hash = some row)

theorem challenges_invalidateLocalUser {env : TxEnv} {preserve : Bool} {now : Int}
    (h : invalidateLocalUser env subject preserve now d = .ok d') :
    (d'.challenges = d.challenges.filter fun _ c => c.subject ≠ subject) ∧
      d'.recoveryCodes = d.recoveryCodes := by
  simp only [invalidateLocalUser, bind_eq_ok] at h
  obtain ⟨-, -, d₁, hdrop, -, -, h⟩ := h
  obtain ⟨-, hchallenges, hcodes⟩ := SqliteDeviceAuthorizations.tables_dropRequests _ hdrop
  split_ifs at h
  · rw [← Except.ok.inj h, hchallenges]
    exact ⟨rfl, hcodes⟩
  · simp only [bind_eq_ok] at h
    obtain ⟨-, -, h⟩ := h
    rw [← Except.ok.inj h, hchallenges]
    exact ⟨rfl, hcodes⟩

/-- An invalidation takes every challenge of the subject with it. -/
theorem Hands.of_invalidate {row : LocalChallenge} {env : TxEnv} {preserve : Bool} {now : Int}
    (hrow : d.challenges.get? hash = some row) (hsubject : row.subject = subject)
    (h : invalidateLocalUser env subject preserve now d' = .ok d'') (hchallenges : d'.challenges = d.challenges) :
    Hands d d'' (some hash) none subject := by
  intro other row' hrow' _
  rw [(challenges_invalidateLocalUser h).1, hchallenges, SortedMap.get?_filter, Option.filter_eq_some_iff] at hrow'
  obtain ⟨hold, hne⟩ := hrow'
  refine Or.inr ⟨?_, hold⟩
  rintro ⟨⟩
  obtain rfl := Option.some.inj (hrow.symm.trans hold)
  exact of_decide_eq_true hne hsubject

theorem Hands.trans (h : Hands d d' used none subject) (h' : Hands d' d'' none made subject) :
    Hands d d'' used made subject := by
  intro hash row hrow hlogin
  rcases h' hash row hrow hlogin with hmade | ⟨-, hold⟩
  · exact Or.inl hmade
  · exact Or.inr ((h hash row hold hlogin).resolve_left fun hmade => Option.some_ne_none _ hmade.1.symm)

/-- The next stage draws a challenge for the user, or the login is complete without a second factor. -/
theorem hands_advance {factor : Bool} (h : advance env username u factor purpose d = .ok (answer, d')) :
    Hands d d' none (env.drawn answer) u.subject ∧ d'.recoveryCodes = d.recoveryCodes ∧
      ∀ login, answer.login = some login → login.subject = u.subject ∧ env.required = false := by
  simp only [advance, bind_eq_ok] at h
  obtain ⟨now, -, -, -, h⟩ := h
  split at h
  · next hstage =>
    obtain ⟨rfl, rfl⟩ := Prod.mk.inj (Except.ok.inj h)
    refine ⟨fun _ _ hrow _ => Or.inr ⟨(Option.some_ne_none _).symm, hrow⟩, rfl, fun login hlogin => ?_⟩
    obtain rfl := Option.some.inj hlogin
    unfold nextStage at hstage
    split_ifs at hstage with _ hrequired
    exact ⟨rfl, by simpa using hrequired⟩
  · simp only [newChallenge, bind_eq_ok, ServiceEnv.draw] at h
    obtain ⟨-, -, -, -, pair, hpair, -, -, -, -, h⟩ := h
    obtain ⟨rfl, rfl⟩ := Prod.mk.inj (Except.ok.inj h)
    refine ⟨fun hash row hrow _ => ?_, rfl, fun _ hlogin => absurd hlogin.symm (Option.some_ne_none _)⟩
    split at hpair
    · cases hpair
    · next secret hsecret =>
      obtain rfl := Except.ok.inj hpair
      rw [SortedMap.get?_insert] at hrow
      by_cases hnew : hash = secret.2
      · rw [if_pos hnew] at hrow
        obtain rfl := Option.some.inj hrow
        exact Or.inl ⟨by rw [LoginEnv.drawn, hsecret, hnew]; rfl, rfl⟩
      · rw [if_neg hnew] at hrow
        exact Or.inr ⟨(Option.some_ne_none _).symm, SqliteDeviceAuthorizations.get?_of_filter hrow⟩

theorem storedChallenge_eq_ok {env : StageEnv} {row : LocalChallenge}
    (h : storedChallenge env.toLoginEnv hash d = .ok row) :
    d.challenges.get? hash = some row ∧ isLogin row = true := by
  unfold storedChallenge at h
  split at h
  · cases h
  · next stored hstored =>
    cases hvalid : env.validates hash stored with
    | some e => simp [hvalid, refuse] at h
    | none =>
      simp only [hvalid, refuse, bind_eq_ok] at h
      obtain ⟨-, -, h⟩ := h
      obtain rfl := Except.ok.inj h
      exact ⟨hstored, env.parses hash _ hvalid⟩

/-- The recovery codes after a transaction that spends one or issues some. -/
structure Spends (d d' : ControlDb) (spent : Option (Str ×ₗ Str)) (issued : List (Str ×ₗ Str)) : Prop where
  left : ∀ code, code ∈ d'.recoveryCodes → code ∈ issued ∨ spent ≠ some code ∧ code ∈ d.recoveryCodes
  stored : ∀ code, spent = some code → code ∈ d.recoveryCodes

theorem Spends.of_subset (h : ∀ code, code ∈ d'.recoveryCodes → code ∈ d.recoveryCodes) :
    Spends d d' none [] :=
  ⟨fun code hcode => Or.inr ⟨(Option.some_ne_none _).symm, h code hcode⟩,
    fun _ hspent => absurd hspent.symm (Option.some_ne_none _)⟩

theorem Spends.of_same (h : d'.recoveryCodes = d.recoveryCodes) : Spends d d' none [] :=
  .of_subset fun _ hcode => h ▸ hcode

/-- A code that is accepted as a second factor spends no recovery code. -/
theorem Spends.of_recovery {totp : Bool} {recovery : Option Str}
    (hverified : (totp || (recovery.filter fun code =>
      decide (toLex (subject, code) ∈ d.recoveryCodes)).isSome) = true)
    (hcodes : d'.recoveryCodes = d.recoveryCodes.filter fun k => totp = true ∨
      some k ≠ (recovery.filter fun code => decide (toLex (subject, code) ∈ d.recoveryCodes)).map
        fun code => toLex (subject, code)) :
    Spends d d' (if totp then none else recovery.map fun code => toLex (subject, code)) [] := by
  cases totp with
  | true => exact .of_subset fun code hcode => (SortedSet.mem_filter.mp (hcodes ▸ hcode)).1
  | false =>
    obtain ⟨code, hcode⟩ := Option.isSome_iff_exists.mp hverified
    obtain ⟨rfl, hstored⟩ := Option.filter_eq_some_iff.mp hcode
    rw [hcode] at hcodes
    refine ⟨fun other hother => ?_, fun other hother => ?_⟩
    · rw [hcodes, SortedSet.mem_filter] at hother
      exact Or.inr ⟨fun heq => by simp [Option.some.inj heq] at hother, hother.1⟩
    · rw [← Option.some.inj hother]
      exact of_decide_eq_true hstored

/-! ### Effects -/

/-- What the transactions do: none makes a challenge or completes a login of a subject but by a verified
password or a challenge of that subject. -/
inductive LoginEffect (required : Bool) (d : ControlDb) : List LoginEvent → ControlDb → Prop where
  | leaves {d' : ControlDb} (h : Hands d d' none none []) (spends : Spends d d' none []) :
      LoginEffect required d [] d'
  | hands {d' : ControlDb} (event : LoginEvent) (subject : Str)
      (hands : Hands d d' event.used event.made subject) (spends : Spends d d' event.spent event.issued)
      (founded : event.verified = some subject ∨ event.used ≠ none)
      (stored : ∀ hash, event.used = some hash →
        ∃ row, d.challenges.get? hash = some row ∧ isLogin row = true ∧ row.subject = subject)
      (completed : ∀ login, event.completed = some login → login.subject = subject ∧
        (required = true → event.used ≠ none ∧ login.factorVerified = true)) :
      LoginEffect required d [event] d'

theorem LoginEffect.refl {required : Bool} (d : ControlDb) : LoginEffect required d [] d :=
  .leaves (fun _ _ hrow _ => Or.inr ⟨(Option.some_ne_none _).symm, hrow⟩) (.of_same rfl)

theorem effect_begin {proof : VerifiedLocalPassword} (h : beginBody env proof purpose d = .ok (answer, d')) :
    LoginEffect env.required d [env.advanceEvent (some proof.subject) none answer] d' := by
  simp only [beginBody, bind_eq_ok] at h
  obtain ⟨-, -, h⟩ := h
  split at h
  · cases h
  · simp only [bind_eq_ok, failIf_eq_ok, not_or, not_not] at h
    obtain ⟨-, ⟨-, hsubject, -⟩, result, hadvance, -, -, h⟩ := h
    obtain rfl := Except.ok.inj h
    obtain ⟨hhands, hcodes, hlogin⟩ := hands_advance hadvance
    refine .hands _ proof.subject (hsubject ▸ hhands) (.of_same hcodes) (Or.inl rfl)
      (fun _ hused => absurd hused.symm (Option.some_ne_none _)) fun login hcompleted => ?_
    obtain ⟨hlogin, hfree⟩ := hlogin login hcompleted
    exact ⟨hlogin.trans hsubject, fun hrequired => absurd hrequired (by simp [hfree])⟩

theorem effect_change {env : StageEnv} {newHash : Str} {initial : LocalChallenge} {password : CurrentPassword}
    (h : changeBody env.toLoginEnv hash newHash purpose initial password d = .ok (answer, d')) :
    LoginEffect env.required d [env.advanceEvent none (some hash) answer] d' := by
  simp only [changeBody, bind_eq_ok] at h
  obtain ⟨-, -, row, hstored, h⟩ := h
  split at h
  · cases h
  · next username u huser =>
    simp only [bind_eq_ok, mapError_eq_ok] at h
    obtain ⟨-, -, next, -, now, -, -, -, d₁, hinvalidate, result, hadvance, -, -, h⟩ := h
    obtain rfl := Except.ok.inj h
    obtain ⟨hrow, hislogin⟩ := storedChallenge_eq_ok hstored
    have hsubject : u.subject = row.subject := (userBySubject_eq_some huser).2
    obtain ⟨hhands, hcodes, hlogin⟩ := hands_advance hadvance
    refine .hands _ u.subject ((Hands.of_invalidate hrow hsubject.symm hinvalidate rfl).trans hhands)
      (.of_same (hcodes.trans (challenges_invalidateLocalUser hinvalidate).2)) (Or.inr (Option.some_ne_none _))
      (fun other hother => ?_) fun login hcompleted => ?_
    · obtain rfl := Option.some.inj hother
      exact ⟨row, hrow, hislogin, hsubject.symm⟩
    · obtain ⟨hlogin, hfree⟩ := hlogin login hcompleted
      exact ⟨hlogin, fun hrequired => absurd hrequired (by simp [hfree])⟩

/-- A login that a second factor has completed. -/
theorem LoginEffect.of_factor {row : LocalChallenge} {login : CompletedLocalLogin} {required : Bool}
    {event : LoginEvent} (hrow : d.challenges.get? hash = some row) (hislogin : isLogin row = true)
    (hused : event.used = some hash) (hcompleted : event.completed = some login)
    (hhands : Hands d d' (some hash) event.made row.subject) (hspends : Spends d d' event.spent event.issued)
    (hsubject : login.subject = row.subject) (hfactor : login.factorVerified = true) :
    LoginEffect required d [event] d' := by
  refine .hands _ row.subject (hused ▸ hhands) hspends (Or.inr (by simp [hused])) (fun other hother => ?_)
    fun other hother => ?_
  · obtain rfl := Option.some.inj (hused.symm.trans hother)
    exact ⟨row, hrow, hislogin, rfl⟩
  · obtain rfl := Option.some.inj (hcompleted.symm.trans hother)
    exact ⟨hsubject, fun _ => ⟨by simp [hused], hfactor⟩⟩

theorem effect_mfa {env : StageEnv} {raw : Str}
    (h : mfaBody env.toLoginEnv raw hash purpose d = .ok (answer, d')) :
    LoginEffect env.required d (env.factorEvents hash answer) d' := by
  simp only [mfaBody, bind_eq_ok] at h
  obtain ⟨-, -, row, hstored, -, -, h⟩ := h
  obtain ⟨hrow, hislogin⟩ := storedChallenge_eq_ok hstored
  split at h
  · cases h
  · next username u huser =>
    simp only [bind_eq_ok] at h
    obtain ⟨-, -, -, -, -, -, now, -, -, -, h⟩ := h
    have hsubject : u.subject = row.subject := (loginUser_eq_some huser).2
    split_ifs at h with henrolling htotp hverified
    · simp only [bind_eq_ok, enroll, mapError_eq_ok] at h
      obtain ⟨pair, ⟨next, -, -, -, d₁, hinvalidate, hpair⟩, -, -, h⟩ := h
      obtain rfl := Except.ok.inj hpair
      obtain ⟨rfl, rfl⟩ := Prod.mk.inj (Except.ok.inj h)
      have hcodes := (challenges_invalidateLocalUser hinvalidate).2
      refine .of_factor hrow hislogin rfl rfl (hsubject ▸ Hands.of_invalidate hrow hsubject.symm hinvalidate rfl)
        ⟨fun code hcode => ?_, fun _ hspent => absurd hspent.symm (Option.some_ne_none _)⟩ hsubject rfl
      rw [hcodes, SortedSet.mem_extend] at hcode
      exact hcode.imp_right fun hold => ⟨(Option.some_ne_none _).symm, hold⟩
    · obtain ⟨rfl, rfl⟩ := Prod.mk.inj (Except.ok.inj h)
      exact .refl d
    · simp only [bind_eq_ok] at h
      obtain ⟨-, -, h⟩ := h
      obtain ⟨rfl, rfl⟩ := Prod.mk.inj (Except.ok.inj h)
      refine .of_factor hrow hislogin rfl rfl (fun other row' hrow' _ => ?_) (.of_recovery hverified rfl) hsubject rfl
      rw [SortedMap.get?_erase] at hrow'
      split_ifs at hrow' with hother
      exact Or.inr ⟨fun heq => hother (Option.some.inj heq).symm, hrow'⟩
    · obtain ⟨rfl, rfl⟩ := Prod.mk.inj (Except.ok.inj h)
      exact .refl d

theorem effect_login (op : LoginOp) (d : ControlDb) :
    LoginEffect op.required d (op.step d).1 (op.step d).2 := by
  cases op with
  | begin env proof purpose => exact record_cases (.refl d) fun _ _ h => effect_begin h
  | change env hash newHash purpose initial password =>
    exact record_cases (.refl d) fun _ _ h => effect_change h
  | mfa env raw hash purpose => exact record_cases (.refl d) fun _ _ h => effect_mfa h
  | other f leaves codes =>
    exact .leaves (fun hash row hrow hlogin => Or.inr ⟨(Option.some_ne_none _).symm, leaves d hash row hrow hlogin⟩)
      (.of_subset (codes d))

/-! ### Runs -/

def isMade (hash : Str) (event : LoginEvent) : Bool := event.made == some hash

def isUsed (hash : Str) (event : LoginEvent) : Bool := event.used == some hash

def VerifiedBy (history : List LoginEvent) (subject : Str) : Prop :=
  ∃ event ∈ history, event.verified = some subject

/-- The challenges of a state are what the history has made and not used, for verified subjects. -/
structure Staged (history : List LoginEvent) (d : ControlDb) : Prop where
  tally : ∀ hash, Tallied (isMade hash) (isUsed hash) history (held isLogin (d.challenges.get? hash))
  rows : ∀ hash row, d.challenges.get? hash = some row → isLogin row = true →
    VerifiedBy history row.subject
  completed : ∀ event ∈ history, ∀ login, event.completed = some login → VerifiedBy history login.subject

theorem VerifiedBy.cons (event : LoginEvent) (h : VerifiedBy history subject) :
    VerifiedBy (event :: history) subject :=
  h.imp fun _ h => ⟨List.mem_cons_of_mem _ h.1, h.2⟩

theorem Hands.held_le (h : Hands d d' used made subject)
    (hstored : used = some hash → ∃ row, d.challenges.get? hash = some row ∧ isLogin row = true) :
    held isLogin (d'.challenges.get? hash) + (used == some hash).toNat ≤
      held isLogin (d.challenges.get? hash) + (made == some hash).toNat := by
  refine toNat_add_toNat_le (fun hused => ?_) fun hafter => ?_
  · obtain ⟨row, hrow, hlogin⟩ := hstored (beq_iff_eq.mp hused)
    rw [hrow]
    exact hlogin
  · cases hrow : d'.challenges.get? hash with
    | none => simp [hrow] at hafter
    | some row =>
      have hlogin : isLogin row = true := by simpa [hrow] using hafter
      refine (h hash row hrow hlogin).imp (fun hnew => beq_iff_eq.mpr hnew.1) fun hold => ?_
      rw [hold.2]
      exact ⟨beq_eq_false_iff_ne.mpr hold.1, hlogin⟩

theorem Staged.step {required : Bool} {events : List LoginEvent} (hd : Staged history d)
    (h : LoginEffect required d events d') : Staged (events ++ history) d' := by
  cases h with
  | leaves h _ =>
    have hold := fun hash row hrow hlogin =>
      ((h hash row hrow hlogin).resolve_left fun hnew => Option.some_ne_none _ hnew.1.symm).2
    refine ⟨fun hash => (hd.tally hash).mono ?_, fun hash row hrow hlogin => ?_, hd.completed⟩
    · exact held_mono fun row hrow hlogin => ⟨row, hold hash row hrow hlogin, hlogin⟩
    · exact hd.rows hash row (hold hash row hrow hlogin) hlogin
  | hands event subject hhands _ founded stored completed =>
    -- the password of the subject was verified here, or before the challenge that is used was made
    have hsubject : VerifiedBy (event :: history) subject := by
      rcases founded with hverified | hused
      · exact ⟨event, List.mem_cons_self, hverified⟩
      · obtain ⟨hash, hused⟩ := Option.ne_none_iff_exists'.mp hused
        obtain ⟨row, hrow, hlogin, rfl⟩ := stored hash hused
        exact (hd.rows hash row hrow hlogin).cons event
    refine ⟨fun hash => (hd.tally hash).cons (hhands.held_le fun hused => ?_), fun hash row hrow hlogin => ?_,
      fun other hother login hcompleted => ?_⟩
    · obtain ⟨row, hrow, hlogin, -⟩ := stored hash hused
      exact ⟨row, hrow, hlogin⟩
    · rcases hhands hash row hrow hlogin with ⟨-, hnew⟩ | ⟨-, hold⟩
      · exact hnew ▸ hsubject
      · exact (hd.rows hash row hold hlogin).cons event
    · rcases List.mem_cons.mp hother with rfl | hother
      · exact (completed login hcompleted).1 ▸ hsubject
      · exact (hd.completed other hother login hcompleted).cons event

/-- A completed login has used a challenge, and its second factor was verified. -/
def ByFactor (history : List LoginEvent) : Prop :=
  ∀ event ∈ history, ∀ login, event.completed = some login →
    event.used ≠ none ∧ login.factorVerified = true

theorem ByFactor.step {events : List LoginEvent} (hd : ByFactor history)
    (h : LoginEffect true d events d') : ByFactor (events ++ history) := by
  cases h with
  | leaves => exact hd
  | hands event subject _ _ _ _ completed =>
    intro other hother login hcompleted
    rcases List.mem_cons.mp hother with rfl | hother
    · exact (completed login hcompleted).2 rfl
    · exact hd other hother login hcompleted

/-- Whatever is replayed, and in whatever order: a challenge is used at most as often as it was drawn,
no login completes whose password was not verified, and where the policy asks for a second factor, none
completes without one. -/
theorem logins_pass_stages (d : ControlDb)
    (hnone : ∀ hash row, d.challenges.get? hash = some row → isLogin row = false) (ops : List LoginOp) :
    (∀ hash, (LoginOp.run d ops).1.countP (isUsed hash) ≤ (LoginOp.run d ops).1.countP (isMade hash)) ∧
      (∀ event ∈ (LoginOp.run d ops).1, ∀ login, event.completed = some login →
        VerifiedBy (LoginOp.run d ops).1 login.subject) ∧
      ((∀ op ∈ ops, op.required = true) → ByFactor (LoginOp.run d ops).1) := by
  have hstart : Staged [] d := by
    refine ⟨fun hash => ?_, fun hash row hrow hlogin => ?_, fun _ hevent => absurd hevent List.not_mem_nil⟩
    · cases hrow : d.challenges.get? hash with
      | none => simp [Tallied, held]
      | some row => simp [Tallied, held, hnone hash row hrow]
    · rw [hnone hash row hrow] at hlogin
      cases hlogin
  have hrun := historyFrom_keeps (P := Staged) (fun op (_ : op ∈ ops) _ d hd => hd.step (effect_login op d))
    (s := ([], d)) hstart
  refine ⟨fun hash => (Nat.le_add_right _ _).trans (hrun.tally hash), hrun.completed, fun hrequired => ?_⟩
  refine historyFrom_keeps (P := fun history _ => ByFactor history) (fun op hop history d hd => ?_)
    (s := ([], d)) (fun _ hevent => absurd hevent List.not_mem_nil)
  have heffect := effect_login op d
  rw [hrequired op hop] at heffect
  exact hd.step heffect

/-! ### Recovery codes -/

def isIssued (code : Str ×ₗ Str) (event : LoginEvent) : Bool := decide (code ∈ event.issued)

def isSpent (code : Str ×ₗ Str) (event : LoginEvent) : Bool := event.spent == some code

/-- How many of a recovery code are stored. -/
def inStock (code : Str ×ₗ Str) (d : ControlDb) : Nat := (decide (code ∈ d.recoveryCodes)).toNat

theorem Spends.inStock_le {spent : Option (Str ×ₗ Str)} {issued : List (Str ×ₗ Str)}
    (h : Spends d d' spent issued) (code : Str ×ₗ Str) :
    inStock code d' + (spent == some code).toNat ≤ inStock code d + (decide (code ∈ issued)).toNat := by
  refine toNat_add_toNat_le (fun hspent => ?_) fun hafter => ?_
  · exact decide_eq_true (h.stored code (beq_iff_eq.mp hspent))
  · refine (h.left code (of_decide_eq_true hafter)).imp decide_eq_true fun hold => ?_
    exact ⟨beq_eq_false_iff_ne.mpr hold.1, decide_eq_true hold.2⟩

/-- However often it is tried, a recovery code is spent at most as often as it was issued or was there
from the beginning. -/
theorem recovery_codes_spent_once (d : ControlDb) (ops : List LoginOp) (code : Str ×ₗ Str) :
    (LoginOp.run d ops).1.countP (isSpent code) + inStock code (LoginOp.run d ops).2 ≤
      (LoginOp.run d ops).1.countP (isIssued code) + inStock code d := by
  refine historyFrom_keeps (s := ([], d)) (P := fun history d' => history.countP (isSpent code) + inStock code d' ≤
    history.countP (isIssued code) + inStock code d) (fun op _ history d₁ hd => ?_) (by simp)
  have heffect := effect_login op d₁
  generalize (op.step d₁).1 = events, (op.step d₁).2 = d₂ at heffect
  cases heffect with
  | leaves _ spends =>
    have hstep := spends.inStock_le code
    simp at hstep ⊢
    omega
  | hands event _ _ spends =>
    have hstep := spends.inStock_le code
    rw [List.singleton_append, List.countP_cons, List.countP_cons, isSpent, isIssued]
    cases hspent : event.spent == some code <;> cases hissued : decide (code ∈ event.issued) <;>
      simp [hspent, hissued] at hstep ⊢ <;> omega

/-- The policy of the sample, for a user who enrolls. -/
def Sample.enrollEnv (secret : Str) : StageEnv where
  toLoginEnv := { loginEnv with
    secret := some (secret, secret)
    totp := true
    validates := fun _ row => if isLogin row then none else some .invalidChallenge }
  parses _ row h := by
    by_contra hlogin
    simp [hlogin] at h

/-- `bob` logs in for the first time, changes the password and enrolls; the last code is sent twice. -/
def Sample.firstLogin : List LoginOp :=
  [.begin (enrollEnv ['A']) bobProof .adminLogin,
    .change (enrollEnv ['B']) ['A'] "new".toList .adminLogin
      ⟨"bob".toList, 1, LocalAuthPurpose.adminLogin.sql, "binding".toList, LocalAuthStage.passwordChange.sql, [], 109, 9⟩
      ((loadCurrent "bob".toList bobAccount).getD ⟨[], [], [], 0, false⟩),
    .mfa (enrollEnv ['C']) ['B'] ['B'] .adminLogin,
    .mfa (enrollEnv ['C']) ['B'] ['B'] .adminLogin]

theorem logins_pass_stages_firstLogin :
    (LoginOp.run Sample.bobAccount Sample.firstLogin).1.map (fun event => (event.used, event.made)) =
        [(some ['B'], none), (some ['A'], some ['B']), (none, some ['A'])] ∧
      ByFactor (LoginOp.run Sample.bobAccount Sample.firstLogin).1 :=
  ⟨by decide +kernel,
    (logins_pass_stages Sample.bobAccount (fun _ _ h => absurd h.symm (Option.some_ne_none _)) Sample.firstLogin).2.2 (by decide)⟩

end GraphitBroker
