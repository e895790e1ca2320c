import GraphitBroker.Proof.DeviceRedemption

/-!
# Stored device codes can always be read

`decode` refuses a row that the service cannot have written.
-/

namespace GraphitBroker

open ExceptList Transactions

namespace SqliteDeviceAuthorizations

variable {service : SqliteDeviceAuthorizations} {d d' : ControlDb} {hash : Str} {row : DeviceCodeRow}
  {events : List DeviceEvent} {seen reads : Int → Prop} {n : Nat}

/-- A row that `n` steps can have left, with times that the clock has shown. -/
structure RowFits (service : SqliteDeviceAuthorizations) (seen : Int → Prop) (n : Nat) (hash : Str)
    (row : DeviceCodeRow) : Prop where
  hash : (parseSqlHex hash).isOk = true
  userHash : (parseSqlHex row.userHash).isOk = true
  bytes : 2 ≤ service.authorization.jsonBytes
  scopes : row.scopes = []
  client : row.client = service.authorization.cliClientId
  created : seen row.createdAt
  expires : row.expiresAt = row.createdAt + service.policy.ttlMicros
  interval : ∃ k : Nat, k ≤ n ∧ row.interval = service.policy.intervalSeconds + 5 * k
  lastPoll : ∀ last, row.lastPollAt = some last → seen last ∧ row.createdAt ≤ last
  status : statusFits row = true

def Fits (service : SqliteDeviceAuthorizations) (seen : Int → Prop) (n : Nat) (d : ControlDb) : Prop :=
  ∀ hash row, d.devices.get? hash = some row → RowFits service seen n hash row

theorem RowFits.later (h : RowFits service seen n hash row) :
    RowFits service (fun x => seen x ∨ reads x) (n + 1) hash row :=
  { h with
    created := Or.inl h.created
    interval := h.interval.imp fun _ hk => ⟨Nat.le_succ_of_le hk.1, hk.2⟩
    lastPoll := fun last hlast => ⟨Or.inl (h.lastPoll last hlast).1, (h.lastPoll last hlast).2⟩ }

theorem statusFits_decidedRow {row : LocalChallenge} (device : DeviceCodeRow) (allow : Bool)
    (hsubject : validIdentitySubject row.subject 512 = true) (hrevision : 1 ≤ row.revision) :
    statusFits (decidedRow device row allow) = true := by
  have hne := statuses_ne
  cases allow <;> simp [statusFits, decidedRow, hne.1.symm, hne.2.2, hsubject, hrevision]

theorem Fits.step (hd : Fits service seen n d) (hreads : ∀ now, reads now → ∀ x, seen x → x ≤ now)
    (h : Effect service reads d events d') : Fits service (fun x => seen x ∨ reads x) (n + 1) d' := by
  intro hash row hrow
  cases h with
  | leaves h => exact (hd hash row (h.devices hash row hrow)).later
  | issued hhash huser hbytes hcreated _ =>
    rw [SortedMap.get?_insert] at hrow
    split_ifs at hrow with hnew
    · obtain rfl := Option.some.inj hrow
      exact ⟨hnew ▸ hhash, huser, hbytes, rfl, rfl, Or.inr hcreated, rfl, ⟨0, Nat.zero_le _, by simp [newRow]⟩,
        fun last hlast => (Option.some_ne_none _ hlast.symm).elim, rfl⟩
    · exact (hd hash row hrow).later
  | prepared => exact (hd hash row hrow).later
  | decided _ _ hsubject hrevision hdevice _ =>
    rw [SortedMap.get?_insert] at hrow
    split_ifs at hrow with hnew
    · obtain rfl := Option.some.inj hrow
      subst hnew
      exact { (hd hash _ hdevice).later with status := statusFits_decidedRow _ _ hsubject hrevision }
    · exact (hd hash row hrow).later
  | polled _ hnow hold hinterval =>
    rw [SortedMap.get?_insert] at hrow
    split_ifs at hrow with hnew
    · obtain rfl := Option.some.inj hrow
      subst hnew
      have hfits := hd hash _ hold
      refine { hfits.later with
        interval := ?_
        lastPoll := fun last hlast => Option.some.inj hlast ▸ ⟨Or.inr hnow, hreads _ hnow _ hfits.created⟩
        status := hfits.status }
      -- a poll that is too early adds one step of five seconds
      obtain ⟨k, hk, heq⟩ := hfits.interval
      rcases hinterval with rfl | rfl
      · exact ⟨k, Nat.le_succ_of_le hk, heq⟩
      · exact ⟨k + 1, Nat.succ_le_succ hk, by simp only [heq]; push_cast; ring⟩
    · exact (hd hash row hrow).later
  | granted _ _ _ hdevices _ =>
    rw [hdevices] at hrow
    exact (hd hash row (get?_of_filter hrow)).later

/-- The clock does not go back from one transaction to the next. -/
def Timed (ops : List Op) : Prop :=
  ops.Pairwise fun a b => ∀ x y, a.Reads x → b.Reads y → x ≤ y

theorem fits_run (service : SqliteDeviceAuthorizations) (ops : List Op) {s : List DeviceEvent × ControlDb}
    (hs : Fits service seen n s.2) (htimed : Timed ops)
    (hseen : ∀ op ∈ ops, ∀ now, op.Reads now → ∀ x, seen x → x ≤ now) :
    Fits service (fun x => seen x ∨ ∃ op ∈ ops, op.Reads x) (n + ops.length)
      (historyFrom service.step s ops).2 := by
  induction ops generalizing s seen n with
  | nil => simpa [historyFrom] using hs
  | cons op rest ih =>
    obtain ⟨hfirst, hrest⟩ := List.pairwise_cons.mp htimed
    have hstep := hs.step (hseen op List.mem_cons_self) (effect_step op s.2)
    have hrun := ih (s := ((service.step op s.2).1 ++ s.1, (service.step op s.2).2)) hstep hrest
      fun op' hop' now hnow x hx => hx.elim (hseen op' (List.mem_cons_of_mem _ hop') now hnow x)
        fun hx => hfirst op' hop' x now hx hnow
    intro hash row hrow
    have hfits := hrun hash row hrow
    simpa [or_assoc, Nat.add_assoc, Nat.add_comm 1] using hfits

theorem byteLen_of_parseSqlHex {s : Str} (h : (parseSqlHex s).isOk = true) : byteLen s = 64 := by
  unfold parseSqlHex at h
  split_ifs at h with hlength
  · cases h
  · rw [not_or, not_not] at hlength
    exact hlength.1

theorem RowFits.texts (h : RowFits service seen n hash row) :
    byteLen row.client ≤ 128 ∧ byteLen row.subject ≤ 512 ∧ byteLen row.status ≤ 16 := by
  have hclient := service.cli_segment
  have hstatus := h.status
  simp only [safeIdentitySegment, Bool.and_eq_true, decide_eq_true_eq] at hclient
  refine ⟨h.client ▸ hclient.1, ?_⟩
  unfold statusFits at hstatus
  split_ifs at hstatus with hpending
  · simp only [Bool.and_eq_true, beq_iff_eq] at hstatus
    rw [hstatus.1, hpending]
    decide
  · simp only [validIdentitySubject, Bool.and_eq_true, Bool.or_eq_true, beq_iff_eq, decide_eq_true_eq] at hstatus
    refine ⟨hstatus.1.2.1.1.1.2, ?_⟩
    rcases hstatus.1.1 with heq | heq
    · rw [heq]
      decide
    · rw [heq]
      decide

theorem RowFits.read {env : DeviceEnv} {now : Int} (h : RowFits service seen n hash row) (hfew : n ≤ 2 ^ 40)
    (hnow : env.now 10 = .ok now) (hseen : ∀ x, seen x → 0 < x ∧ x ≤ now) :
    service.read env (some (hash, row)) = .ok (hash, row) := by
  obtain ⟨hclient, hsubject, hstatus⟩ := h.texts
  obtain ⟨k, hk, hinterval⟩ := h.interval
  have hbase := service.policy.interval_mem
  have hcreated := hseen _ h.created
  have hpolls : row.lastPollAt.any (fun last => Decidable.decide (last < row.createdAt ∨ now < last)) = false := by
    cases hlast : row.lastPollAt with
    | none => rfl
    | some last =>
      obtain ⟨hshown, hafter⟩ := h.lastPoll last hlast
      simpa using ⟨hafter, (hseen last hshown).2⟩
  have hsteps : (row.interval - service.policy.intervalSeconds).tmod 5 = 0 := by
    rw [hinterval, add_sub_cancel_left]
    exact Int.mul_tmod_right _ _
  have hclock : env.clock 10 DeviceError.control = .ok now := by rw [ServiceEnv.clock, hnow]; rfl
  have hfits : service.decode env hash row = .ok () := by
    simp only [decode, bind_eq_ok, failIf_eq_ok, hclock]
    refine ⟨(), ?_, (), ?_, now, rfl, ?_⟩
    · rw [h.scopes, service.scopes_empty]
      exact not_lt.mpr h.bytes
    · simp [h.scopes, byteLen_of_parseSqlHex h.hash, byteLen_of_parseSqlHex h.userHash, hclient, hsubject, hstatus]
    · simp only [h.hash, h.userHash, hpolls, hsteps, h.status, h.expires, not_or]
      refine ⟨by simp, by simp, by omega, by omega, by omega, by omega, by simp, by omega, by simp, by simp⟩
  simp only [SqliteDeviceAuthorizations.read, bind_eq_ok, failIf_eq_ok]
  exact ⟨(), hfits, (), not_not.mpr h.client, rfl⟩

/-- Whatever has happened to a device code, the service can read its row: never is it malformed. -/
theorem stored_codes_read (service : SqliteDeviceAuthorizations) (d : ControlDb)
    (hdevices : d.devices = .empty) (ops : List Op) (hfew : ops.length ≤ 2 ^ 40) (htimed : Timed ops)
    (hpositive : ∀ op ∈ ops, ∀ now, op.Reads now → 0 < now) (hash : Str) (row : DeviceCodeRow)
    (hrow : (service.run d ops).2.devices.get? hash = some row) (env : DeviceEnv) (now : Int)
    (hnow : env.now 10 = .ok now) (hlater : ∀ op ∈ ops, ∀ past, op.Reads past → past ≤ now) :
    service.read env (byDevice (service.run d ops).2 hash) = .ok (hash, row) := by
  have hstart : Fits service (fun _ => False) 0 d := by
    intro hash row hrow
    rw [hdevices, SortedMap.get?_empty] at hrow
    cases hrow
  have hfits := fits_run service ops (s := ([], d)) hstart htimed (fun _ _ _ _ _ hx => hx.elim) hash row hrow
  rw [byDevice, hrow]
  refine hfits.read (by omega) hnow ?_
  rintro x (hx | ⟨op, hop, hx⟩)
  · exact hx.elim
  · exact ⟨hpositive op hop x hx, hlater op hop x hx⟩

end SqliteDeviceAuthorizations

/-- A device that polls three times within its interval. -/
def Sample.hastyDevice : List SqliteDeviceAuthorizations.Op :=
  .issue (deviceEnv 8 'A') "cli".toList [] (.replicate 8 0) ::
    [9, 10, 11].map fun now => .poll (deviceEnv now 'D') "cli".toList (deviceMark ++ challenge 'A')

namespace SqliteDeviceAuthorizations

theorem stored_codes_read_hastyDevice :
    (Sample.deviceService.run Sample.bobAccount Sample.hastyDevice).2.devices.entries.map
        (·.2.interval) = [15] ∧
      ∀ hash row, (Sample.deviceService.run Sample.bobAccount Sample.hastyDevice).2.devices.get? hash =
        some row → Sample.deviceService.read (Sample.deviceEnv 12 'E')
          (byDevice (Sample.deviceService.run Sample.bobAccount Sample.hastyDevice).2 hash) =
            .ok (hash, row) := by
  refine ⟨by decide +kernel, fun hash row hrow => ?_⟩
  refine stored_codes_read Sample.deviceService Sample.bobAccount rfl Sample.hastyDevice (by decide) ?_ ?_ hash
    row hrow _ 12 rfl ?_
  · simp [Timed, Sample.hastyDevice, Op.Reads, Sample.deviceEnv]
  · simp [Sample.hastyDevice, Op.Reads, Sample.deviceEnv]
  · simp [Sample.hastyDevice, Op.Reads, Sample.deviceEnv]

end SqliteDeviceAuthorizations

end GraphitBroker
