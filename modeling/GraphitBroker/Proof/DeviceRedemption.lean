import GraphitBroker.DeviceGrants
import GraphitBroker.Proof.DigestSeparation
import GraphitBroker.Proof.StaleProofs
import GraphitBroker.Proof.TokenFamilies

/-!
# Device codes are redeemed once, by the user who approved them

A row of `oauth_device_codes` stems from `issue`, its approval from a decision, the decision from a
consent that a login has prepared for the same user code.
-/

namespace GraphitBroker

open ExceptList Transactions ControlDb

namespace SqliteDeviceAuthorizations

variable {service : SqliteDeviceAuthorizations} {env : DeviceEnv} {d d' d'' : ControlDb}
  {hash userHash user consent binding client device : Str} {row : DeviceCodeRow}
  {history events : List DeviceEvent} {reads : Int → Prop}

/-! ### Invalidation -/

theorem Leaves.of_same (hdevices : d'.devices = d.devices) (hchallenges : d'.challenges = d.challenges) :
    Leaves d d' := by
  constructor
  · intro hash row h
    rwa [hdevices] at h
  · intro hash row h _
    rwa [hchallenges] at h

theorem Leaves.refl (d : ControlDb) : Leaves d d := .of_same rfl rfl

theorem Leaves.trans (h : Leaves d d') (h' : Leaves d' d'') : Leaves d d'' :=
  ⟨fun hash row hrow => h.devices hash row (h'.devices hash row hrow),
    fun hash row hrow hstage => h.consents hash row (h'.consents hash row hrow hstage) hstage⟩

theorem Leaves.of_eq {d₀ : ControlDb} (h : Leaves d d') (hdevices : d.devices = d₀.devices)
    (hchallenges : d.challenges = d₀.challenges) : Leaves d₀ d' :=
  .trans (.of_same hdevices hchallenges) h

theorem get?_of_filter {υ : Type} {m : SortedMap Str υ} {p : Str → υ → Bool} {k : Str} {v : υ}
    (h : (m.filter p).get? k = some v) : m.get? k = some v := by
  rw [SortedMap.get?_filter] at h
  exact (Option.filter_eq_some_iff.mp h).1

theorem tables_dropRequests {env : TxEnv} {subject : Str} (rows : List (Str × AuthRequestRow))
    {round : Nat} (h : dropRequests env subject round rows d = .ok d') :
    d'.devices = d.devices ∧ d'.challenges = d.challenges ∧ d'.recoveryCodes = d.recoveryCodes := by
  induction rows generalizing round d with
  | nil =>
    rw [← Except.ok.inj h]
    exact ⟨rfl, rfl, rfl⟩
  | cons row rest ih =>
    simp only [dropRequests, bind_eq_ok] at h
    obtain ⟨-, -, h⟩ := h
    split_ifs at h with hsubject
    · exact ih h
    · simp only [bind_eq_ok] at h
      obtain ⟨preserve, -, -, -, h⟩ := h
      split_ifs at h with hpreserve
      · exact ih h
      · simp only [bind_eq_ok] at h
        obtain ⟨-, -, h⟩ := h
        have hsame := ih h
        exact hsame

theorem leaves_invalidateLocalUser {env : TxEnv} {subject : Str} {preserve : Bool} {now : Int}
    (h : invalidateLocalUser env subject preserve now d = .ok d') : Leaves d d' := by
  simp only [invalidateLocalUser, bind_eq_ok] at h
  obtain ⟨-, -, d₁, hdrop, -, -, h⟩ := h
  obtain ⟨hdevices, hchallenges, -⟩ := tables_dropRequests _ hdrop
  refine ((Leaves.of_same hdevices hchallenges).trans ?_).of_eq rfl rfl
  split_ifs at h
  · obtain rfl := Except.ok.inj h
    exact ⟨fun _ _ hrow => hrow, fun _ _ hrow _ => get?_of_filter hrow⟩
  · simp only [bind_eq_ok] at h
    obtain ⟨-, -, h⟩ := h
    obtain rfl := Except.ok.inj h
    exact ⟨fun _ _ hrow => get?_of_filter hrow, fun _ _ hrow _ => get?_of_filter hrow⟩

/-! ### Digests and rows -/

theorem digest_eq_ok {kind : TokenKind} {raw : Str} (h : service.digest kind raw = .ok hash) :
    (parseSqlHex hash).isOk = true := by
  simp only [digest, mapError_eq_ok, map_eq_ok] at h
  obtain ⟨digest, -, rfl⟩ := h
  rw [parseSqlHex_toSqlHex]
  rfl

theorem read_eq_ok {found : Option (Str × DeviceCodeRow)} {entry : Str × DeviceCodeRow}
    (h : service.read env found = .ok entry) : found = some entry ∧ statusFits entry.2 = true := by
  unfold read at h
  split at h
  · cases h
  · simp only [decode, bind_eq_ok, failIf_eq_ok, not_or, Bool.not_eq_false] at h
    obtain ⟨-, ⟨-, -, -, -, now, -, hvalid⟩, -, -, h⟩ := h
    obtain rfl := Except.ok.inj h
    exact ⟨rfl, hvalid.2.2.2.2.2.2.2.2.2⟩

theorem byUser_eq_some {entry : Str × DeviceCodeRow} (h : byUser d userHash = some entry) :
    d.devices.get? entry.1 = some entry.2 ∧ entry.2.userHash = userHash :=
  ⟨SortedMap.mem_entries_iff.mp (List.mem_of_find?_eq_some h), by simpa using List.find?_some h⟩

/-- The user of a subject as the grant requires it. -/
def Current (d : ControlDb) (subject : Str) (revision : Int) : Prop :=
  ∃ name u, d.users.get? name = some u ∧ u.subject = subject ∧ u.revision = revision ∧ u.kind = human ∧
    u.enabled = 1 ∧ u.change = 0

theorem principal_eq_ok {subject : Str} {revision : Int} {p : LocalPrincipal}
    (h : principal env subject revision d = .ok p) :
    p.subject = subject ∧ p.revision = revision ∧ Current d subject revision := by
  unfold principal at h
  split at h
  · cases h
  · simp only [bind_eq_ok, mapError_eq_ok, currentPrincipal] at h
    obtain ⟨-, -, -, -, h⟩ := h
    split at h
    · cases h
    · next name u huser =>
      simp only [bind_eq_ok, failIf_eq_ok, not_or, not_not] at h
      obtain ⟨-, ⟨-, -, -, hsubject, hrevision, -, hkind, henabled, hchange⟩, -, -, -, -, -, -, h⟩ := h
      obtain rfl := Except.ok.inj h
      exact ⟨hsubject, hrevision, name, u, (userBySubject_eq_some huser).1, hsubject, hrevision, hkind,
        henabled, hchange⟩

/-! ### What a step can do -/

def newRow (service : SqliteDeviceAuthorizations) (userHash : Str) (created : Int) : DeviceCodeRow :=
  ⟨userHash, service.authorization.cliClientId, [], [], 0, pending, service.policy.intervalSeconds, none,
    created + service.policy.ttlMicros, created⟩

def DevicePending (row : DeviceCodeRow) : Bool := row.status == pending

def decidedRow (device : DeviceCodeRow) (row : LocalChallenge) (allow : Bool) : DeviceCodeRow :=
  { device with
    subject := row.subject
    revision := row.revision
    status := if allow then approved else denied }

theorem statuses_ne : pending ≠ approved ∧ denied ≠ approved ∧ denied ≠ pending := by decide

/-- The effects of a step that reads the clock at `reads`. -/
inductive Effect (service : SqliteDeviceAuthorizations) (reads : Int → Prop) (d : ControlDb) :
    List DeviceEvent → ControlDb → Prop where
  | leaves {d' : ControlDb} (h : Leaves d d') : Effect service reads d [] d'
  | issued {hash userHash : Str} {created : Int} (hhash : (parseSqlHex hash).isOk = true)
      (huser : (parseSqlHex userHash).isOk = true) (hbytes : 2 ≤ service.authorization.jsonBytes)
      (hcreated : reads created) (hnew : d.devices.get? hash = none) :
      Effect service reads d [.issued hash userHash]
        { d with devices := d.devices.insert hash (service.newRow userHash created) }
  | prepared (row : LocalChallenge) {consent hash : Str} {device : DeviceCodeRow}
      (hnew : d.challenges.get? consent = none) (hdevice : d.devices.get? hash = some device) :
      Effect service reads d [.prepared consent device.userHash row.bindingHash row.subject row.revision]
        { d with challenges := d.challenges.insert consent row }
  | decided {consent hash : Str} {row : LocalChallenge} {device : DeviceCodeRow} {allow : Bool}
      (hrow : d.challenges.get? consent = some row) (hstage : row.stage = deviceConsent)
      (hsubject : validIdentitySubject row.subject 512 = true) (hrevision : 1 ≤ row.revision)
      (hdevice : d.devices.get? hash = some device) (hpending : device.status = pending) :
      Effect service reads d
        [.decided hash device.userHash row.bindingHash consent row.subject row.revision allow]
        { d with
          devices := d.devices.insert hash (decidedRow device row allow)
          challenges := d.challenges.erase consent }
  | polled (interval : Int) {hash : Str} {row : DeviceCodeRow} {now : Int} (hnow : reads now)
      (hrow : d.devices.get? hash = some row)
      (hinterval : interval = row.interval ∨ interval = row.interval + 5) :
      Effect service reads d [] { d with
        devices := d.devices.insert hash { row with interval := interval, lastPollAt := some now } }
  | granted {d' : ControlDb} {hash : Str} {row : DeviceCodeRow} (hrow : d.devices.get? hash = some row)
      (happroved : row.status = approved) (hcurrent : Current d row.subject row.revision)
      (hdevices : d'.devices = d.devices.erase hash) (hchallenges : d'.challenges = d.challenges) :
      Effect service reads d [.granted hash row.subject row.revision] d'

theorem effect_issueBody {scope : Str} {random : List.Vector UInt8 8}
    {answer : DeviceAuthorizationCodes × List DeviceEvent}
    (hreads : ∀ site now, env.now site = .ok now → reads now)
    (h : service.issueBody env client scope random d = .ok (answer, d')) :
    Effect service reads d answer.2 d' := by
  simp only [issueBody, SqliteDeviceAuthorizations.client, bind_eq_ok, failIf_eq_ok, not_lt, not_not] at h
  obtain ⟨-, -, -, -, -, ⟨-, -, hclient⟩, -, hbytes, secret, -, hash, hhash, h⟩ := h
  split at h
  · cases h
  · simp only [bind_eq_ok, failIf_eq_ok, ServiceEnv.clock, mapError_eq_ok, not_or] at h
    obtain ⟨userHash, huser, now, hnow, -, -, -, -, -, ⟨hnew, -⟩, -, -, h⟩ := h
    obtain ⟨rfl, rfl⟩ := Prod.mk.inj (Except.ok.inj h)
    rw [hclient]
    exact .issued (digest_eq_ok hhash) (digest_eq_ok huser) hbytes (hreads 0 now hnow) (by simpa using hnew)

theorem effect_prepare {userCode : Str} {login : CompletedLocalLogin}
    {answer : DeviceConsent × List DeviceEvent}
    (h : service.prepare env userCode login d = .ok (answer, d')) : Effect service reads d answer.2 d' := by
  simp only [prepare, bind_eq_ok] at h
  obtain ⟨-, -, h⟩ := h
  split at h
  · cases h
  · next user huser =>
    simp only [bind_eq_ok] at h
    obtain ⟨binding, -, -, -, userHash, -, secret, -, consent, -, made, hbody, -, -, h⟩ := h
    obtain ⟨rfl, rfl⟩ := Prod.mk.inj (Except.ok.inj h)
    simp only [prepareBody, bind_eq_ok] at hbody
    obtain ⟨-, -, p, -, hbody⟩ := hbody
    split at hbody
    · cases hbody
    · next hash device hfound =>
      simp only [bind_eq_ok, failIf_eq_ok] at hbody
      obtain ⟨-, -, -, -, -, -, present, -, -, -, now, -, pair, hpair, -, hnew, -, -, hbody⟩ :=
        hbody
      obtain rfl : (secret.1, consent) = pair := Except.ok.inj hpair
      obtain rfl := Except.ok.inj hbody
      obtain ⟨hdevice, rfl⟩ := byUser_eq_some hfound
      exact .prepared ⟨login.subject, login.revision, _, binding, _, _, _, now⟩
        (by simpa using hnew) hdevice

theorem effect_decide {userCode secret : Str} {allow : Bool} {answer : Int × List DeviceEvent}
    (h : service.decide env userCode client secret allow d = .ok (answer, d')) :
    Effect service reads d answer.2 d' := by
  simp only [SqliteDeviceAuthorizations.decide, bind_eq_ok] at h
  obtain ⟨-, -, -, -, h⟩ := h
  split at h
  · cases h
  · next user _ =>
    simp only [bind_eq_ok] at h
    obtain ⟨-, -, consent, -, userHash, -, binding, -, -, -, h⟩ := h
    split at h
    · cases h
    · next row hrow =>
      simp only [bind_eq_ok, consentValid, failIf_eq_ok, not_or, not_not, not_lt, Bool.not_eq_false] at h
      obtain ⟨-, ⟨-, -, -, -, now, -, -, rfl, hstage, -, hrevision, hsubject, -⟩, p, -, found, hread, -, -,
        -, ⟨hpending, -⟩, at_, -, -, -, -, -, h⟩ := h
      obtain ⟨rfl, rfl⟩ := Prod.mk.inj (Except.ok.inj h)
      obtain ⟨hdevice, rfl⟩ := byUser_eq_some (read_eq_ok hread).1
      exact .decided hrow hstage hsubject hrevision hdevice hpending

theorem effect_redeem {now : Int} {answer : Except DeviceError DeviceAccessToken × List DeviceEvent}
    (hrow : d.devices.get? hash = some row) (happroved : row.status = approved)
    (h : service.redeem env client hash row now d = .ok (answer, d')) :
    Effect service reads d answer.2 d' := by
  simp only [redeem, bind_eq_ok] at h
  obtain ⟨p, hp, oidcSubject, -, -, -, secret, -, -, -, -, -, -, -, tokenHash, -, -, -, -, -, -, -, h⟩ := h
  obtain ⟨rfl, rfl⟩ := Prod.mk.inj (Except.ok.inj h)
  obtain ⟨hsubject, hrevision, hcurrent⟩ := principal_eq_ok hp
  rw [hsubject, hrevision]
  exact .granted hrow happroved hcurrent rfl rfl

theorem leaves_erase (hash : Str) : Leaves d { d with devices := d.devices.erase hash } :=
  ⟨fun _ _ hrow => get?_of_filter hrow, fun _ _ hrow _ => hrow⟩

theorem effect_poll {answer : Except DeviceError DeviceAccessToken × List DeviceEvent}
    (hreads : ∀ site now, env.now site = .ok now → reads now)
    (h : service.poll env client device d = .ok (answer, d')) : Effect service reads d answer.2 d' := by
  simp only [poll, bind_eq_ok, ServiceEnv.clock, mapError_eq_ok] at h
  obtain ⟨-, -, -, -, -, -, hash, -, -, -, found, hread, -, -, now, hnow, result, hresult, -, -, h⟩ := h
  obtain rfl := Except.ok.inj h
  obtain ⟨hfound, hstatus⟩ := read_eq_ok hread
  obtain ⟨row, hrow, rfl⟩ := Option.map_eq_some_iff.mp hfound
  have hnow := hreads 11 now hnow
  unfold respond at hresult
  split_ifs at hresult with hexpired hdenied hsoon hpending
  · obtain ⟨rfl, rfl⟩ := Prod.mk.inj (Except.ok.inj hresult)
    exact .leaves (leaves_erase hash)
  · obtain ⟨rfl, rfl⟩ := Prod.mk.inj (Except.ok.inj hresult)
    exact .leaves (leaves_erase hash)
  · simp only [bind_eq_ok] at hresult
    obtain ⟨-, -, hresult⟩ := hresult
    obtain ⟨rfl, rfl⟩ := Prod.mk.inj (Except.ok.inj hresult)
    exact .polled (row.interval + 5) hnow hrow (Or.inr rfl)
  · obtain ⟨rfl, rfl⟩ := Prod.mk.inj (Except.ok.inj hresult)
    exact .polled row.interval hnow hrow (Or.inl rfl)
  · -- the status is neither `pending` nor `denied`, and it has been decoded
    have happroved : row.status = approved := by
      rw [statusFits, if_neg hpending] at hstatus
      simp only [Bool.and_eq_true, Bool.or_eq_true, beq_iff_eq] at hstatus
      exact hstatus.1.1.resolve_right hdenied
    exact effect_redeem hrow happroved hresult

/-- The readings of the clock in a step. -/
def Op.Reads : Op → Int → Prop
  | .issue env .., now | .prepare env .., now | .decide env .., now | .poll env .., now =>
    ∃ site, env.now site = .ok now
  | _, _ => False

theorem effect_step (op : Op) (d : ControlDb) :
    Effect service op.Reads d (service.step op d).1 (service.step op d).2 := by
  have hkept : Effect service op.Reads d [] d := .leaves (.refl d)
  cases op with
  | issue env client scope random =>
    exact record_cases hkept fun a d' h => effect_issueBody (fun site now h => ⟨site, h⟩) h
  | prepare env userCode login => exact record_cases hkept fun a d' h => effect_prepare h
  | decide env userCode client secret allow => exact record_cases hkept fun a d' h => effect_decide h
  | poll env client device =>
    exact record_cases hkept fun a d' h => effect_poll (fun site now h => ⟨site, h⟩) h
  | invalidate env subject preserveDevice now =>
    cases h : d.invalidateLocalUser env subject preserveDevice now with
    | error e => simpa [SqliteDeviceAuthorizations.step, h, Except.toOption] using hkept
    | ok d' => simpa [SqliteDeviceAuthorizations.step, h, Except.toOption] using
        Effect.leaves (leaves_invalidateLocalUser h)
  | other f leaves => exact .leaves (leaves d)

/-! ### The history of a run -/

/-- Every event rests on earlier ones. -/
def Backed : List DeviceEvent → Prop
  | [] => True
  | .issued _ _ :: older => Backed older
  | .prepared _ userHash _ _ _ :: older => (∃ hash, .issued hash userHash ∈ older) ∧ Backed older
  | .decided hash userHash binding consent subject revision _ :: older =>
    (.issued hash userHash ∈ older ∧
      ∃ userHash', .prepared consent userHash' binding subject revision ∈ older) ∧ Backed older
  | .granted hash subject revision :: older =>
    (∃ userHash binding consent, .decided hash userHash binding consent subject revision true ∈ older) ∧
      Backed older

def isIssued (hash : Str) : DeviceEvent → Bool
  | .issued h _ => h == hash
  | _ => false

def isDecided (hash : Str) : DeviceEvent → Bool
  | .decided h .. => h == hash
  | _ => false

def isGranted (hash : Str) : DeviceEvent → Bool
  | .granted h .. => h == hash
  | _ => false

def isPrepared (consent : Str) : DeviceEvent → Bool
  | .prepared c .. => c == consent
  | _ => false

def isUsed (consent : Str) : DeviceEvent → Bool
  | .decided _ _ _ c .. => c == consent
  | _ => false

def IsConsent (row : LocalChallenge) : Bool := row.stage == deviceConsent

/-- The tables hold what the history has made and not spent. -/
structure Recorded (history : List DeviceEvent) (d : ControlDb) : Prop where
  backed : Backed history
  grants : ∀ hash, Tallied (isIssued hash) (isGranted hash) history
    (held (fun _ => true) (d.devices.get? hash))
  decisions : ∀ hash, Tallied (isIssued hash) (isDecided hash) history
    (held DevicePending (d.devices.get? hash))
  consents : ∀ consent, Tallied (isPrepared consent) (isUsed consent) history
    (held IsConsent (d.challenges.get? consent))
  rows : ∀ hash row, d.devices.get? hash = some row → .issued hash row.userHash ∈ history ∧
    (row.status = approved → ∃ binding consent,
      .decided hash row.userHash binding consent row.subject row.revision true ∈ history)
  prepared : ∀ consent row, d.challenges.get? consent = some row → row.stage = deviceConsent →
    ∃ userHash, .prepared consent userHash row.bindingHash row.subject row.revision ∈ history

namespace Recorded

attribute [local grind =] SortedMap.get?_insert SortedMap.get?_erase held isIssued isDecided isGranted isPrepared
  isUsed DevicePending IsConsent newRow

theorem leaves (hd : Recorded history d) (h : Leaves d d') : Recorded history d' where
  backed := hd.backed
  grants hash := (hd.grants hash).mono (held_mono fun row hrow hp => ⟨row, h.devices hash row hrow, hp⟩)
  decisions hash := (hd.decisions hash).mono
    (held_mono fun row hrow hp => ⟨row, h.devices hash row hrow, hp⟩)
  consents consent := (hd.consents consent).mono
    (held_mono fun row hrow hp => ⟨row, h.consents consent row hrow (by simpa [IsConsent] using hp), hp⟩)
  rows hash row hrow := hd.rows hash row (h.devices hash row hrow)
  prepared consent row hrow hstage := hd.prepared consent row (h.consents consent row hrow hstage) hstage

theorem issued (hd : Recorded history d) {created : Int} (hnew : d.devices.get? hash = none) :
    Recorded (.issued hash userHash :: history)
      { d with devices := d.devices.insert hash (service.newRow userHash created) } where
  backed := hd.backed
  grants other := (hd.grants other).cons (by grind)
  decisions other := (hd.decisions other).cons (by grind)
  consents other := (hd.consents other).cons (by simp [isPrepared, isUsed])
  rows := by
    have := hd.rows
    have := statuses_ne
    grind
  prepared := by
    have := hd.prepared
    grind

theorem prepare (hd : Recorded history d) {device : DeviceCodeRow} {row : LocalChallenge}
    (hnew : d.challenges.get? consent = none) (hdevice : d.devices.get? hash = some device) :
    Recorded (.prepared consent device.userHash row.bindingHash row.subject row.revision :: history)
      { d with challenges := d.challenges.insert consent row } where
  backed := ⟨⟨hash, (hd.rows hash device hdevice).1⟩, hd.backed⟩
  grants other := (hd.grants other).cons (by simp [isIssued, isGranted])
  decisions other := (hd.decisions other).cons (by simp [isIssued, isDecided])
  consents other := (hd.consents other).cons (by grind)
  rows := by
    have := hd.rows
    grind
  prepared := by
    have := hd.prepared
    grind

theorem decide (hd : Recorded history d) {device : DeviceCodeRow} {row : LocalChallenge} (allow : Bool)
    (hrow : d.challenges.get? consent = some row) (hstage : row.stage = deviceConsent)
    (hdevice : d.devices.get? hash = some device) (hpending : device.status = pending) :
    Recorded (.decided hash device.userHash row.bindingHash consent row.subject row.revision allow :: history)
      { d with
        devices := d.devices.insert hash (decidedRow device row allow)
        challenges := d.challenges.erase consent } where
  backed := ⟨⟨(hd.rows hash device hdevice).1, hd.prepared consent row hrow hstage⟩, hd.backed⟩
  grants other := (hd.grants other).cons (by grind)
  decisions other := (hd.decisions other).cons (by
    have := statuses_ne
    grind [decidedRow])
  consents other := (hd.consents other).cons (by grind)
  rows := by
    have := hd.rows
    have := statuses_ne
    grind [decidedRow]
  prepared := by
    have := hd.prepared
    grind

theorem polled (hd : Recorded history d) {interval now : Int}
    (hrow : d.devices.get? hash = some row) : Recorded history { d with
      devices := d.devices.insert hash { row with interval := interval, lastPollAt := some now } } where
  backed := hd.backed
  grants other := (hd.grants other).mono (by grind)
  decisions other := (hd.decisions other).mono (by grind)
  consents := hd.consents
  rows := by
    have := hd.rows
    grind
  prepared := hd.prepared

theorem granted (hd : Recorded history d) (hrow : d.devices.get? hash = some row)
    (happroved : row.status = approved) (hdevices : d'.devices = d.devices.erase hash)
    (hchallenges : d'.challenges = d.challenges) :
    Recorded (.granted hash row.subject row.revision :: history) d' where
  backed := ⟨⟨row.userHash, (hd.rows hash row hrow).2 happroved⟩, hd.backed⟩
  grants other := (hd.grants other).cons (by grind)
  decisions other := (hd.decisions other).cons (by grind)
  consents other := (hd.consents other).cons (by simp [hchallenges, isPrepared, isUsed])
  rows := by
    have := hd.rows
    grind
  prepared := by
    have := hd.prepared
    grind

theorem step (hd : Recorded history d) (h : Effect service reads d events d') :
    Recorded (events ++ history) d' := by
  cases h with
  | leaves h => exact hd.leaves h
  | issued _ _ _ _ hnew => exact hd.issued hnew
  | prepared _ hnew hdevice => exact hd.prepare hnew hdevice
  | decided hrow hstage _ _ hdevice hpending => exact hd.decide _ hrow hstage hdevice hpending
  | polled _ _ hrow _ => exact hd.polled hrow
  | granted hrow happroved _ hdevices hchallenges => exact hd.granted hrow happroved hdevices hchallenges

end Recorded

theorem Effect.of_granted {subject : Str} {revision : Int} (h : Effect service reads d events d')
    (hmem : .granted hash subject revision ∈ events) :
    ∃ row, d.devices.get? hash = some row ∧ row.status = approved ∧ row.subject = subject ∧
      row.revision = revision ∧ Current d subject revision := by
  cases h with
  | granted hrow happroved hcurrent _ _ =>
    obtain ⟨rfl, rfl, rfl⟩ := DeviceEvent.granted.inj (List.mem_singleton.mp hmem)
    exact ⟨_, hrow, happroved, rfl, rfl, hcurrent⟩
  | _ => simp at hmem

/-- In every state of a run, each code was approved at most once, by a consent that was prepared for its
user code and used once, and redeemed at most once, for the subject and the revision that approved it. -/
structure Redeemed (history : List DeviceEvent) : Prop where
  backed : Backed history
  granted_le : ∀ hash, history.countP (isGranted hash) ≤ history.countP (isIssued hash)
  decided_le : ∀ hash, history.countP (isDecided hash) ≤ history.countP (isIssued hash)
  used_le : ∀ consent, history.countP (isUsed consent) ≤ history.countP (isPrepared consent)

theorem recorded_run (service : SqliteDeviceAuthorizations) (hdevices : d.devices = .empty)
    (hconsents : ∀ consent row, d.challenges.get? consent = some row → row.stage ≠ deviceConsent)
    (ops : List Op) : Recorded (service.run d ops).1 (service.run d ops).2 := by
  refine historyFrom_keeps (P := Recorded) (fun op _ history d hd => hd.step (effect_step op d))
    (s := ([], d)) ?_
  have hnone (hash : Str) : d.devices.get? hash = none := by rw [hdevices, SortedMap.get?_empty]
  refine ⟨trivial, fun hash => ?_, fun hash => ?_, fun consent => ?_, fun hash row hrow => ?_,
    fun consent row hrow hstage => absurd hstage (hconsents consent row hrow)⟩
  · simp [Tallied, held, hnone]
  · simp [Tallied, held, hnone]
  · cases hrow : d.challenges.get? consent with
    | none => simp [Tallied, held]
    | some row => simp [Tallied, held, IsConsent, hconsents consent row hrow]
  · rw [hnone] at hrow
    cases hrow

/-- Whatever the devices, the users and the administrators do, in any order: a device code is redeemed at
most once, and only for a user who has approved it and still is as they were then. -/
theorem device_codes_redeemed_once (service : SqliteDeviceAuthorizations) (d : ControlDb)
    (hdevices : d.devices = .empty)
    (hconsents : ∀ consent row, d.challenges.get? consent = some row → row.stage ≠ deviceConsent)
    (ops : List Op) :
    Redeemed (service.run d ops).1 ∧
      ∀ op hash subject revision,
        .granted hash subject revision ∈ (service.step op (service.run d ops).2).1 →
          Current (service.run d ops).2 subject revision ∧
            ∃ userHash binding consent,
              .decided hash userHash binding consent subject revision true ∈ (service.run d ops).1 := by
  have hrun := recorded_run service hdevices hconsents ops
  refine ⟨⟨hrun.backed, fun hash => ?_, fun hash => ?_, fun consent => ?_⟩, ?_⟩
  · exact (Nat.le_add_right _ _).trans (hrun.grants hash)
  · exact (Nat.le_add_right _ _).trans (hrun.decisions hash)
  · exact (Nat.le_add_right _ _).trans (hrun.consents consent)
  · intro op hash subject revision hmem
    obtain ⟨row, hrow, happroved, rfl, rfl, hcurrent⟩ := (effect_step op _).of_granted hmem
    exact ⟨hcurrent, row.userHash, (hrun.rows hash row hrow).2 happroved⟩

end SqliteDeviceAuthorizations

namespace Sample

/-- A service whose keyed hash keeps the last bytes of its input. -/
def deviceService : SqliteDeviceAuthorizations where
  authorization := { tokenPolicy with scopesBytes := fun _ => 2 }
  policy := ⟨300000000, 5, 60000000, by decide, by decide⟩
  digester := { digester with limits := { shortLimits with token := ⟨64, by decide⟩ }, pepper_le := by decide }
  hmac _ input := ⟨(input.reverse ++ List.replicate 32 0).take 32, by simp⟩
  cli_segment := by decide
  scopes_empty := rfl

def deviceEnv (now : Int) (c : Char) : DeviceEnv where
  fault _ _ := none
  now _ := .ok now
  federated _ := .ok false
  fails _ := none
  secret := some (challenge c, [])
  commit := .ok ()
  principalFails _ := none
  decodes _ _ := none
  bindingHash := []

/-- A device code is issued, `alice` approves it, and the device redeems it. -/
def deviceRun : List SqliteDeviceAuthorizations.Op :=
  let user := "AAAA-AAAA".toList
  let binding := (deviceService.binding (user.filter (· ≠ '-'))).toOption.getD []
  [.issue (deviceEnv 8 'A') "cli".toList [] (.replicate 8 0),
    .prepare (deviceEnv 9 'B') user { aliceLogin with purpose := .deviceApprove, bindingHash := binding },
    .decide (deviceEnv 10 'C') user "cli".toList (challenge 'B') true,
    .poll (deviceEnv 11 'D') "cli".toList (deviceMark ++ challenge 'A')]

end Sample

namespace SqliteDeviceAuthorizations

theorem device_codes_redeemed_once_approval :
    (Sample.deviceService.run Sample.bobAccount Sample.deviceRun).1.length = 4 ∧
      Redeemed (Sample.deviceService.run Sample.bobAccount Sample.deviceRun).1 :=
  ⟨by decide +kernel, (device_codes_redeemed_once Sample.deviceService Sample.bobAccount rfl
    (fun _ _ h => nomatch h) Sample.deviceRun).1⟩

end SqliteDeviceAuthorizations

end GraphitBroker
