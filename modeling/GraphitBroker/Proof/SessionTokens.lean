import GraphitBroker.FilesystemTokens
import GraphitBroker.Proof.StorageAuthority
import GraphitBroker.Lib.JsonText

/-!
# What session tokens convey

A token that was issued for a grant is accepted for as long as it lives, and gives back the grant.
-/

namespace GraphitBroker

open ExceptList SepPath

structure VerifyClock.Still (clock : VerifyClock) : Prop where
  instant : clock.check.instant = clock.monotonic
  utc : clock.check.utc = seconds clock.utc
  later : clock.check.later = clock.monotonic

namespace FilesystemStorageIssuer

variable {vendor : Vendor} {crates : TokenVendor SessionPayload} {issuer : FilesystemStorageIssuer}
  {horizon : Nat}

theorem dot_notMem_encode (bytes : Bytes) : '.' ∉ Base64.encode bytes := by
  intro hmem
  have hdot : '.' ∉ Base64.alphabet := by decide
  exact hdot (Base64.mem_alphabet_of_mem_encode hmem)

theorem splitOn_encode (payload : SessionPayload) :
    (issuer.encode crates payload).splitOn '.' = [tokenPrefix,
      Base64.encode (crates.toVec payload), Base64.encode (issuer.tag crates payload)] := by
  have hmarker : '.' ∉ tokenPrefix := by decide
  rw [encode, splitOn_append_sep, splitOn_append_sep, splitOn_of_notMem hmarker,
    splitOn_of_notMem (dot_notMem_encode _), splitOn_of_notMem (dot_notMem_encode _)]
  rfl

theorem openToken_encode (payload : SessionPayload) :
    issuer.openToken crates (issuer.encode crates payload) =
      .ok (payload, issuer.tag crates payload) := by
  simp only [openToken, splitOn_encode, Base64.decode_encode, crates.fromSlice_toVec, ne_eq,
    not_true_eq_false, if_false]
  exact if_pos rfl

variable {payload : SessionPayload} {cfg : FilesystemStorageRouteConfig}
  {grant : AuthorizedStorageGrant vendor} {issued : IssuedStorageCredentials} {clock : VerifyClock}

theorem openToken_eq_ok {token : Str} {tag : Bytes}
    (h : issuer.openToken crates token = .ok (payload, tag)) :
    ∃ bytes, crates.hmac issuer.pepper (macInput tokenDomain [bytes]) = tag ∧
      crates.fromSlice bytes = some payload := by
  unfold openToken at h
  split at h
  · split_ifs at h
    split at h
    · next bytes tag' _ _ =>
      split_ifs at h with htag
      split at h
      · next payload' hpayload =>
        obtain ⟨rfl, rfl⟩ := Prod.mk.inj (Except.ok.inj h)
        exact ⟨bytes, htag, hpayload⟩
      · cases h
    · cases h
  · cases h

theorem validate_eq_ok {now : Nat} {scope : StorageScope vendor} :
    payload.validate vendor cfg now = .ok scope ↔
      payload.validatedScope vendor = .ok scope ∧ payload.matchesRoute cfg = true ∧
        (∀ op, SessionPayload.validRoots cfg.basePrefix (payload.access op) = true) ∧
        payload.issuedAt ≤ now ∧ now < payload.expiresAt := by
  simp only [SessionPayload.validate, bind_eq_ok, failIf_eq_ok, not_or, Bool.not_eq_false, not_lt, not_le,
    List.all_eq_true]
  constructor
  · rintro ⟨scope', hscope, _, ⟨hroute, hissued⟩, _, hroots, _, hexpires, h⟩
    obtain rfl := Except.ok.inj h
    exact ⟨hscope, hroute, fun op => hroots op op.mem_all, hissued, hexpires⟩
  · rintro ⟨hscope, hroute, hroots, hissued, hexpires⟩
    exact ⟨scope, hscope, (), ⟨hroute, hissued⟩, (), fun op _ => hroots op, (), hexpires, rfl⟩

theorem fields_of_matchesRoute (h : payload.matchesRoute cfg = true) :
    payload.route = cfg.name ∧ payload.bucket = cfg.bucket ∧ payload.region = cfg.region := by
  simp only [SessionPayload.matchesRoute, Bool.and_eq_true, beq_iff_eq] at h
  obtain ⟨⟨⟨⟨⟨⟨⟨⟨⟨hroute, hbucket⟩, hregion⟩, -⟩, -⟩, -⟩, -⟩, -⟩, -⟩, -⟩ := h
  exact ⟨hroute, hbucket, hregion⟩

theorem moduleOf_asStr (m : StorageModule) : moduleOf m.asStr.toList = some m := by
  cases m <;> rfl

theorem validatedScope_payloadOf (cfg : FilesystemStorageRouteConfig)
    (grant : AuthorizedStorageGrant vendor) (now : Nat) (random : Bytes) :
    (payloadOf cfg grant now random).validatedScope vendor = .ok grant.scope := by
  obtain ⟨route, ⟨kind, hvalid⟩, subject, revision, access, deadline, check⟩ := grant
  cases kind with
  | project projectId m =>
    have hscope : StorageScope.project projectId m = .ok (⟨.project projectId m, hvalid⟩ :
      StorageScope vendor) := dif_pos hvalid
    simp only [SessionPayload.validatedScope, payloadOf, StorageScopeKind.storageModule, moduleOf_asStr,
      SessionScope.ofKind, hscope]
    rfl
  | userMemory installationId =>
    have hscope : StorageScope.userMemory installationId =
      .ok (⟨.userMemory installationId, hvalid⟩ : StorageScope vendor) := dif_pos hvalid
    simp only [SessionPayload.validatedScope, payloadOf, StorageScopeKind.storageModule, moduleOf_asStr,
      SessionScope.ofKind, hscope]
    rfl
  | globalHub =>
    simp only [SessionPayload.validatedScope, payloadOf, StorageScopeKind.storageModule, moduleOf_asStr,
      SessionScope.ofKind]
    rfl

theorem route?_eq_some {name : Str}
    (h : issuer.route? name = some cfg) : cfg.name = name ∧ cfg ∈ issuer.routes := by
  have hname := List.find?_some h
  exact ⟨eq_of_beq hname, List.mem_of_find?_eq_some h⟩

/-- A payload that was encoded for a grant: what `issue_current` makes of it, once it validates. -/
def EncodedBy (issuer : FilesystemStorageIssuer) (env : IssueEnv)
    (grant : AuthorizedStorageGrant vendor) (payload : SessionPayload) : Prop :=
  ∃ cfg now random scope, issuer.route? grant.route = some cfg ∧ seconds env.utc = some now ∧
    env.random = some random ∧ payload = payloadOf cfg grant now random ∧
    payload.validate vendor cfg now = .ok scope

theorem issueCurrent_eq_ok {env : IssueEnv}
    (h : issuer.issueCurrent crates horizon env grant = .ok issued) :
    ∃ cfg now random scope, issuer.route? grant.route = some cfg ∧ seconds env.utc = some now ∧
      env.random = some random ∧
      (payloadOf cfg grant now random).validate vendor cfg now = .ok scope ∧
      now + cfg.sessionSecs < 2 ^ 63 ∧ issued.key = (payloadOf cfg grant now random).accessKey ∧
      issued.token = issuer.encode crates (payloadOf cfg grant now random) ∧
      byteLen issued.token ≤ cfg.tokenBytes := by
  unfold issueCurrent at h
  split at h
  · cases h
  · next cfg hcfg =>
    split at h
    · cases h
    · next now hnow =>
      simp only [bind_eq_ok] at h
      obtain ⟨-, -, h⟩ := h
      split at h
      · cases h
      · next bytes hrandom =>
        simp only [bind_eq_ok, failIf_eq_ok, mapError_eq_ok, not_or, not_lt, not_le] at h
        obtain ⟨scope, hvalid, _, hlen, verified, -, _, ⟨hexpires, -⟩, _, -, _, -, _, -, _, -, h⟩ := h
        obtain rfl := Except.ok.inj h
        exact ⟨cfg, now, bytes, scope, hcfg, hnow, hrandom, hvalid, hexpires, rfl, rfl, hlen⟩

theorem issue_eq_ok {env : IssueEnv} (h : issuer.issue crates horizon env grant = .ok issued) :
    issuer.issueCurrent crates horizon env grant = .ok issued := by
  simp only [issue, bind_eq_ok] at h
  obtain ⟨-, -, -, -, h⟩ := h
  exact h

theorem utc_lt_of_seconds {utc : Int} {now e : Nat} (h : seconds utc = some now) (hlt : now < e) :
    utc < e * nanosPerSecond := by
  unfold seconds nanosPerSecond at h
  unfold nanosPerSecond
  split_ifs at h
  obtain rfl := Option.some.inj h
  omega

theorem verifyAt_encode {route : Str} {now : Nat} {scope : StorageScope vendor}
    (hcfg : issuer.route? route = some cfg)
    (hlen : byteLen (issuer.encode crates payload) ≤ cfg.tokenBytes)
    (hnow : seconds clock.utc = some now) (hvalid : payload.validate vendor cfg now = .ok scope)
    (hexpires : payload.expiresAt < 2 ^ 63) (hstill : clock.Still)
    (hhorizon : clock.monotonic + (payload.expiresAt * nanosPerSecond - clock.utc).toNat ≤ horizon) :
    ∃ verified, issuer.verifyAt vendor crates horizon route payload.accessKey
        (issuer.encode crates payload) clock = .ok verified ∧
      verified.payload = payload ∧ verified.scope = scope ∧ verified.access = payload.access ∧
      verified.expiresAt = payload.expiresAt ∧ verified.deadline =
        clock.monotonic + (payload.expiresAt * nanosPerSecond - clock.utc).toNat := by
  have hlive := (validate_eq_ok.mp hvalid).2.2.2.2
  have hutc := utc_lt_of_seconds hnow hlive
  unfold verifyAt
  rw [hcfg]
  simp only [if_neg (Nat.not_lt.mpr hlen), openToken_encode, hnow]
  split
  · next e he => rw [hvalid] at he; cases he
  · next scope' hscope' =>
    obtain rfl := Except.ok.inj (hvalid.symm.trans hscope')
    simp only [bind_eq_ok, failIf_eq_ok, mapError_eq_ok]
    refine ⟨_, ⟨(), by simp, (), by omega, (), by omega, (), by omega, (), ?_, rfl⟩, rfl, rfl, rfl, rfl,
      rfl⟩
    simp only [VerifiedFilesystemSession.check, hstill.instant, hstill.utc, hstill.later, hnow]
    rw [if_neg (by omega), if_neg (by omega), if_neg (by omega)]

theorem verifyAt_encode_error {route : Str} {now : Nat} {e : FilesystemTokenError} (accessKey : Str)
    (hcfg : issuer.route? route = some cfg)
    (hlen : byteLen (issuer.encode crates payload) ≤ cfg.tokenBytes)
    (hnow : seconds clock.utc = some now) (hinvalid : payload.validate vendor cfg now = .error e) :
    issuer.verifyAt vendor crates horizon route accessKey (issuer.encode crates payload) clock =
      .error e := by
  unfold verifyAt
  rw [hcfg]
  simp only [if_neg (Nat.not_lt.mpr hlen), openToken_encode, hnow]
  split
  · next e' he' => rw [Except.error.inj (hinvalid.symm.trans he')]
  · next scope hscope => cases hinvalid.symm.trans hscope

theorem verifyAt_of_issue {env : IssueEnv} (h : issuer.issue crates horizon env grant = .ok issued) :
    ∃ cfg t, issuer.route? grant.route = some cfg ∧ seconds env.utc = some t ∧
      ∀ clock now, seconds clock.utc = some now → t ≤ now → now < t + cfg.sessionSecs →
        clock.Still → clock.monotonic +
          (((t + cfg.sessionSecs : Nat) : Int) * nanosPerSecond - clock.utc).toNat ≤ horizon →
        ∃ verified, issuer.verifyAt vendor crates horizon grant.route issued.key issued.token clock =
            .ok verified ∧
          verified.scope = grant.scope ∧ verified.payload.subject = grant.subject ∧
          verified.payload.revision = grant.revision ∧
          ∀ op, verified.access op = (grant.prefixes op).map fun p => cfg.basePrefix ++ '/' :: p := by
  obtain ⟨cfg, t, random, scope, hcfg, ht, -, hvalid, hexpires, hkey, htoken, hlen⟩ :=
    issueCurrent_eq_ok (issue_eq_ok h)
  refine ⟨cfg, t, hcfg, ht, fun clock now hnow hissued hlive hstill hhorizon => ?_⟩
  obtain ⟨hscope, hroute, hroots, -, -⟩ := validate_eq_ok.mp hvalid
  have hlater : (payloadOf cfg grant t random).validate vendor cfg now = .ok scope :=
    validate_eq_ok.mpr ⟨hscope, hroute, hroots, hissued, hlive⟩
  rw [htoken] at hlen
  obtain ⟨verified, hverified, hpayload, hverifiedScope, haccess, -, -⟩ :=
    verifyAt_encode hcfg hlen hnow hlater hexpires hstill hhorizon
  rw [← hkey, ← htoken] at hverified
  have hgrant : scope = grant.scope :=
    Except.ok.inj (hscope.symm.trans (validatedScope_payloadOf cfg grant t random))
  refine ⟨verified, hverified, hverifiedScope.trans hgrant, ?_, ?_, fun op => ?_⟩
  · rw [hpayload]
    rfl
  · rw [hpayload]
    rfl
  · rw [haccess]
    rfl

theorem verifyAt_eq_ok {route accessKey token : Str} {verified : VerifiedToken vendor}
    (h : issuer.verifyAt vendor crates horizon route accessKey token clock = .ok verified) :
    ∃ cfg now tag, issuer.route? route = some cfg ∧ seconds clock.utc = some now ∧
      issuer.openToken crates token = .ok (verified.payload, tag) ∧
      verified.payload.validate vendor cfg now = .ok verified.scope ∧
      verified.payload.accessKey = accessKey ∧ verified.access = verified.payload.access := by
  unfold verifyAt at h
  split at h
  · cases h
  · next cfg hcfg =>
    split_ifs at h
    split at h
    · cases h
    · cases h
    · next payload tag now hopen hnow =>
      split at h
      · cases h
      · next scope hscope =>
        simp only [bind_eq_ok, failIf_eq_ok, not_not] at h
        obtain ⟨_, hkey, _, -, _, -, _, -, _, -, h⟩ := h
        obtain rfl := Except.ok.inj h
        exact ⟨cfg, now, tag, hcfg, hnow, hopen, hscope, hkey, rfl⟩

/-- The MAC inputs whose tags the issuer has given out: those of tokens it has encoded, and those of
secrets. -/
inductive Released (crates : TokenVendor SessionPayload) (encoded : SessionPayload → Prop) : Bytes → Prop
  | token {payload : SessionPayload} (h : encoded payload) :
      Released crates encoded (macInput tokenDomain [crates.toVec payload])
  | secret (accessKey : Str) (tag : Bytes) :
      Released crates encoded (macInput secretDomain [utf8 accessKey, tag])

/-- The MAC is ideal for a token: its tag is no MAC of an input for which none was given out. -/
def Unforged (crates : TokenVendor SessionPayload) (issuer : FilesystemStorageIssuer)
    (encoded : SessionPayload → Prop) (token : Str) : Prop :=
  ∀ payload tag input, issuer.openToken crates token = .ok (payload, tag) →
    crates.hmac issuer.pepper input = tag → Released crates encoded input

theorem macInput_inj {domain a b : Bytes} (h : macInput domain [a] = macInput domain [b]) :
    a = b := by
  simp only [macInput, List.flatMap_cons, List.flatMap_nil, List.append_nil] at h
  have htail := List.append_cancel_left h
  exact (List.append_inj htail (by rw [length_beBytes, length_beBytes])).2

theorem macInput_ne (parts parts' : List Bytes) :
    macInput tokenDomain parts ≠ macInput secretDomain parts' := by
  intro h
  have htake := congrArg (List.take 34) h
  rw [macInput, macInput, List.take_append_of_le_length (by decide),
    List.take_append_of_le_length (by decide)] at htake
  exact absurd htake (by decide)

theorem encoded_of_openToken {encoded : SessionPayload → Prop} {token : Str}
    {tag : Bytes} (hideal : issuer.Unforged crates encoded token)
    (h : issuer.openToken crates token = .ok (payload, tag)) : encoded payload := by
  obtain ⟨bytes, hmac, hbytes⟩ := openToken_eq_ok h
  have hreleased := hideal payload tag _ h hmac
  generalize hinput : macInput tokenDomain [bytes] = input at hreleased
  cases hreleased with
  | @token payload' hencoded =>
    rw [macInput_inj hinput, crates.fromSlice_toVec] at hbytes
    rwa [← Option.some.inj hbytes]
  | secret accessKey tag' => exact absurd hinput (macInput_ne _ _)

theorem below_of_allows {session : VerifiedFilesystemSession} {op : StorageOperation} {key : Str}
    {clock : SessionClock} (h : session.allows op key clock = true) :
    validKey key = true ∧ ∃ op' ∈ VerifiedFilesystemSession.implying op,
      ∃ root ∈ session.access op', Below '/' root key := by
  unfold VerifiedFilesystemSession.allows at h
  split_ifs at h with hrefused
  have hkey : validKey key = true := by
    by_contra hkey
    exact hrefused (by simp [hkey])
  simp only [VerifiedFilesystemSession.covered, List.any_eq_true, atOrBelow_iff] at h
  exact ⟨hkey, h⟩

theorem strictly_below_base {base p key : Str} (h : Below '/' (base ++ '/' :: p) key) :
    Below '/' base key ∧ key ≠ base := by
  refine ⟨(below_append base p).trans h, ?_⟩
  rintro rfl
  have hlength := h.length_le
  simp at hlength

/-- **Tokens convey their grants.** A token issued at a time is accepted until its seconds have passed,
and carries the scope, the subject, the revision and the roots of the grant. Under an ideal MAC every
accepted token was encoded for a grant of the route and is within its lifetime; what it allows is
strictly below the base prefix of the route, under a prefix of the grant, and under no base prefix that
is not nested with it. -/
theorem tokens_convey_grants (crates : TokenVendor SessionPayload) (issuer : FilesystemStorageIssuer)
    (horizon : Nat) :
    (∀ env (grant : AuthorizedStorageGrant vendor) issued,
      issuer.issue crates horizon env grant = .ok issued →
      ∃ cfg t, issuer.route? grant.route = some cfg ∧ seconds env.utc = some t ∧
        ∀ clock now, seconds clock.utc = some now → t ≤ now → now < t + cfg.sessionSecs →
          clock.Still → clock.monotonic +
            (((t + cfg.sessionSecs : Nat) : Int) * nanosPerSecond - clock.utc).toNat ≤ horizon →
          ∃ verified, issuer.verifyAt vendor crates horizon grant.route issued.key issued.token
              clock = .ok verified ∧
            verified.scope = grant.scope ∧ verified.payload.subject = grant.subject ∧
            verified.payload.revision = grant.revision ∧
            ∀ op, verified.access op =
              (grant.prefixes op).map fun p => cfg.basePrefix ++ '/' :: p) ∧
    ∀ (attempts : List (IssueEnv × AuthorizedStorageGrant vendor)) route accessKey token clock
      verified,
      issuer.Unforged crates (fun payload => ∃ a ∈ attempts, issuer.EncodedBy a.1 a.2 payload)
        token →
      issuer.verifyAt vendor crates horizon route accessKey token clock = .ok verified →
      ∃ a ∈ attempts, ∃ cfg now, issuer.route? route = some cfg ∧ seconds clock.utc = some now ∧
        issuer.EncodedBy a.1 a.2 verified.payload ∧ a.2.route = route ∧
        verified.payload.route = route ∧ verified.payload.bucket = cfg.bucket ∧
        verified.payload.region = cfg.region ∧ verified.payload.accessKey = accessKey ∧
        verified.payload.issuedAt ≤ now ∧ now < verified.payload.expiresAt ∧
        ∀ op key clock', verified.allows op key clock' = true →
          validKey key = true ∧ Below '/' cfg.basePrefix key ∧ key ≠ cfg.basePrefix ∧
          (∃ op' ∈ VerifiedFilesystemSession.implying op, ∃ p ∈ a.2.prefixes op',
            Below '/' (cfg.basePrefix ++ '/' :: p) key) ∧
          ∀ cfg' ∈ issuer.routes, ¬ Below '/' cfg.basePrefix cfg'.basePrefix →
            ¬ Below '/' cfg'.basePrefix cfg.basePrefix → ¬ Below '/' cfg'.basePrefix key := by
  refine ⟨fun env grant issued h => verifyAt_of_issue h, ?_⟩
  intro attempts route accessKey token clock verified hideal h
  obtain ⟨cfg, now, tag, hcfg, hnow, hopen, hvalid, hkey, haccess⟩ := verifyAt_eq_ok h
  obtain ⟨a, ha, hencoded⟩ := encoded_of_openToken hideal hopen
  obtain ⟨-, hmatches, -, hissued, hlive⟩ := validate_eq_ok.mp hvalid
  obtain ⟨hroute, hbucket, hregion⟩ := fields_of_matchesRoute hmatches
  have hname := (route?_eq_some hcfg).1
  obtain ⟨cfg₀, t, random, scope, hcfg₀, ht, hrandom, hpayload, hvalid₀⟩ := id hencoded
  -- the payload names its route, so the grant was one of this route
  have hgrant : a.2.route = route := by
    rw [← (route?_eq_some hcfg₀).1, ← hname, ← hroute, hpayload]
    rfl
  have hsame : cfg₀ = cfg := by
    rw [hgrant] at hcfg₀
    exact Option.some.inj (hcfg₀.symm.trans hcfg)
  refine ⟨a, ha, cfg, now, hcfg, hnow, hencoded, hgrant, hroute.trans hname, hbucket, hregion, hkey,
    hissued, hlive, fun op key clock' hallows => ?_⟩
  obtain ⟨hcanonical, op', hop', root, hroot, hbelow⟩ := below_of_allows hallows
  rw [haccess, hpayload, hsame] at hroot
  obtain ⟨p, hp, rfl⟩ := List.mem_map.mp hroot
  obtain ⟨hbase, hne⟩ := strictly_below_base hbelow
  refine ⟨hcanonical, hbase, hne, ⟨op', hop', p, hp, hbelow⟩, fun cfg' _ hright hleft hother => ?_⟩
  exact (hbase.comparable hother).elim hright hleft

end FilesystemStorageIssuer

namespace Sample

/-- A number; one that no machine integer of the payload is, is spelled apart. -/
def numberDocument (n : Int) : Document :=
  if n < 0 then .str (List.replicate n.natAbs '-')
  else if n < 2 ^ 64 then .number (UInt64.ofNat n.natAbs)
  else .str (List.replicate n.natAbs '+')

def scopeDocument : SessionScope → Document
  | .project id => .obj [("kind".toList, .str "project".toList), ("project_id".toList, .str id)]
  | .user id => .obj [("kind".toList, .str "user".toList), ("installation_id".toList, .str id)]
  | .hub => .obj [("kind".toList, .str "hub".toList)]

def payloadDocument (p : SessionPayload) : Document :=
  .obj [("access_key".toList, .str p.accessKey), ("route".toList, .str p.route),
    ("bucket".toList, .str p.bucket), ("region".toList, .str p.region),
    ("subject".toList, .str p.subject), ("scope".toList, scopeDocument p.scope),
    ("module".toList, .str p.storageModule), ("revision".toList, numberDocument p.revision),
    ("issued_at".toList, numberDocument p.issuedAt),
    ("expires_at".toList, numberDocument p.expiresAt),
    ("access".toList, .arr (StorageOperation.all.map fun op => .arr ((p.access op).map .str)))]

theorem numberDocument_injective : Function.Injective numberDocument := by
  intro m n h
  unfold numberDocument at h
  split_ifs at h <;>
    simp only [Document.str.injEq, Document.number.injEq, List.replicate_inj] at h
  · omega
  · exact absurd h.2 (by simp; omega)
  · have hnat := congrArg UInt64.toNat h
    simp only [UInt64.toNat_ofNat'] at hnat
    omega
  · exact absurd h.2 (by simp; omega)
  · omega

theorem payloadDocument_injective : Function.Injective payloadDocument := by
  intro p q h
  have hstrs : Function.Injective (List.map Document.str) :=
    List.map_injective_iff.mpr fun _ _ h => Document.str.inj h
  simp only [payloadDocument, StorageOperation.all, List.map_cons, List.map_nil, Document.obj.injEq,
    Document.arr.injEq, List.cons.injEq, Prod.mk.injEq, Document.str.injEq, true_and, and_true,
    numberDocument_injective.eq_iff, hstrs.eq_iff, Nat.cast_inj] at h
  obtain ⟨h1, h2, h3, h4, h5, h6, h7, h8, h9, h10, h11, h12, h13, h14⟩ := h
  have hscope : p.scope = q.scope := by
    revert h6
    cases p.scope <;> cases q.scope <;> simp [scopeDocument]
  have haccess : p.access = q.access := by
    funext op
    cases op <;> assumption
  cases p
  cases q
  simp_all

@[irreducible]
def toVec (payload : SessionPayload) : Bytes := utf8 (payloadDocument payload).render

theorem toVec_injective : Function.Injective toVec := by
  intro p q h
  rw [toVec, toVec] at h
  exact payloadDocument_injective (Document.render_injective (utf8_injective h))

def tokenRoute (tokenBytes : Nat) : FilesystemStorageRouteConfig :=
  ⟨"primary".toList, "graphit-local".toList, "us-east-1".toList, "tenant".toList,
    "https://storage".toList, 900, 0, tokenBytes⟩

def nestedRoute : FilesystemStorageRouteConfig :=
  ⟨"nested".toList, "graphit-nested".toList, "us-east-1".toList, "tenant/v1".toList,
    "https://storage".toList, 900, 0, 65536⟩

def hubGrant : AuthorizedStorageGrant crates where
  route := "primary".toList
  scope := .globalHub
  subject := "local|alice".toList
  revision := 1
  prefixes := fun op => if op = .read then ["v1/hub/global/registry".toList] else []
  requestDeadline := 1
  check := fun _ => true

def hubPayload : SessionPayload :=
  FilesystemStorageIssuer.payloadOf (tokenRoute 0) hubGrant 1 (List.replicate 32 0)

def hubTag : Bytes :=
  beBytes 32 0x6d66afb081238de6e4aa9210cf4b86d4bf0251cad2081cb9cc36e3cb9849b9f4

/-- HMAC with SHA-256 under a key of zeros, of what is signed for the payload. -/
@[irreducible]
def tokenHmac (input : Bytes) : Bytes :=
  if input = macInput tokenDomain [toVec hubPayload] then hubTag
  else if input = macInput secretDomain [utf8 hubPayload.accessKey, hubTag] then
    beBytes 32 0xc4643b9b9931452e8c666de8049cd8e68f259dfcd1d0611cf28dd00ad80b46ed
  else beBytes 32 0

noncomputable def tokenCrates : TokenVendor SessionPayload where
  url := fun _ =>
    some ⟨"https".toList, [], none, some (.domain "storage".toList), "/".toList, none, none⟩
  hmac := fun _ input => tokenHmac input
  toVec := toVec
  fromSlice := fun bytes => Function.partialInv toVec bytes
  fromSlice_toVec := Function.partialInv_left toVec_injective

theorem tokenHmac_hubPayload :
    tokenHmac (macInput tokenDomain [toVec hubPayload]) = hubTag := by
  rw [tokenHmac, if_pos rfl]

theorem eq_of_tokenHmac {input : Bytes} (h : tokenHmac input = hubTag) :
    input = macInput tokenDomain [toVec hubPayload] := by
  by_contra hne
  rw [tokenHmac, if_neg hne] at h
  split_ifs at h
  · exact absurd h (by decide)
  · exact absurd h (by decide)

def pepperedIssuer (tokenBytes : Nat) : FilesystemStorageIssuer :=
  ⟨[tokenRoute tokenBytes, nestedRoute], List.replicate 32 0⟩

noncomputable def hubToken : Str := (pepperedIssuer 0).encode tokenCrates hubPayload

noncomputable def tokenIssuer : FilesystemStorageIssuer := pepperedIssuer (byteLen hubToken + 1)

def clockAt (utc : Nat) : VerifyClock := ⟨utc, 0, 0, seconds utc, 0⟩

def halfPastOne : IssueEnv where
  utc := 1500000000
  random := some (List.replicate 32 0)
  verify := clockAt 1500000000
  formats := true
  check := ⟨0, some 1, 0⟩
  finished := 1500000000

theorem still_clockAt (utc : Nat) : (clockAt utc).Still := ⟨rfl, rfl, rfl⟩

theorem accepted_tokenIssuer : tokenIssuer.accepted tokenCrates = true := by
  rfl

theorem validate_hubPayload : hubPayload.validate crates (tokenRoute (byteLen hubToken + 1)) 1 =
    .ok .globalHub := by
  rw [FilesystemStorageIssuer.validate_eq_ok]
  refine ⟨FilesystemStorageIssuer.validatedScope_payloadOf _ _ _ _, ?_, ?_, ?_, ?_⟩
  · rfl
  · intro op
    cases op <;> rfl
  · decide
  · decide

theorem route?_tokenIssuer :
    tokenIssuer.route? "primary".toList = some (tokenRoute (byteLen hubToken + 1)) := rfl

theorem byteLen_hubToken : byteLen (tokenIssuer.encode tokenCrates hubPayload) ≤
    (tokenRoute (byteLen hubToken + 1)).tokenBytes := by
  have hsame : tokenIssuer.encode tokenCrates hubPayload = hubToken := by
    rw [hubToken, FilesystemStorageIssuer.encode, FilesystemStorageIssuer.encode,
      FilesystemStorageIssuer.tag, FilesystemStorageIssuer.tag]
    rfl
  rw [hsame]
  exact Nat.le_add_right (byteLen hubToken) 1

def lastInstant : Nat := 1000000000000

theorem verifyAt_hubToken : ∃ verified, tokenIssuer.verifyAt crates tokenCrates lastInstant
      "primary".toList hubPayload.accessKey (tokenIssuer.encode tokenCrates hubPayload)
      (clockAt 1500000000) = .ok verified ∧
    verified.payload = hubPayload ∧ verified.scope = .globalHub ∧
    verified.access = hubPayload.access ∧ verified.expiresAt = 901 ∧
    verified.deadline = 899500000000 :=
  FilesystemStorageIssuer.verifyAt_encode route?_tokenIssuer byteLen_hubToken rfl validate_hubPayload
    (by decide) (still_clockAt 1500000000) (by decide)

theorem issue_hubGrant : ∃ issued,
    tokenIssuer.issue tokenCrates lastInstant halfPastOne hubGrant = .ok issued ∧
      issued.key = hubPayload.accessKey ∧
      issued.token = tokenIssuer.encode tokenCrates hubPayload := by
  obtain ⟨verified, hverified, -, -, -, hexpires, hdeadline⟩ := verifyAt_hubToken
  have hcheck : verified.check ⟨0, some 1, 0⟩ 1 = .ok () := by
    simp only [VerifiedFilesystemSession.check, hexpires, hdeadline]
    rfl
  have hcurrent : tokenIssuer.issueCurrent tokenCrates lastInstant halfPastOne hubGrant =
      .ok ⟨hubPayload.accessKey, verified.secret, tokenIssuer.encode tokenCrates hubPayload⟩ := by
    unfold FilesystemStorageIssuer.issueCurrent
    rw [show tokenIssuer.route? hubGrant.route = _ from route?_tokenIssuer]
    simp only [show seconds halfPastOne.utc = some 1 from rfl,
      show halfPastOne.random = some (List.replicate 32 0) from rfl, bind_eq_ok, failIf_eq_ok,
      mapError_eq_ok]
    refine ⟨(), by decide, .globalHub, validate_hubPayload, (), Nat.not_lt.mpr byteLen_hubToken,
      verified, hverified, (), by decide, (), by decide, (), hcheck, (), by decide, (), by decide, rfl⟩
  refine ⟨⟨hubPayload.accessKey, verified.secret, tokenIssuer.encode tokenCrates hubPayload⟩, ?_,
    rfl, rfl⟩
  unfold FilesystemStorageIssuer.issue
  rw [hcurrent]
  rfl

end Sample

/-- The token of the hub's grant is accepted after 800 seconds; no other could be its payload. -/
theorem tokens_convey_grants_hub :
    ∃ issued, Sample.tokenIssuer.issue Sample.tokenCrates Sample.lastInstant Sample.halfPastOne
        Sample.hubGrant = .ok issued ∧
      ∃ verified, Sample.tokenIssuer.verifyAt Sample.crates Sample.tokenCrates Sample.lastInstant
          "primary".toList issued.key issued.token (Sample.clockAt 800000000000) = .ok verified ∧
        verified.scope = Sample.hubGrant.scope ∧
        Sample.tokenIssuer.EncodedBy Sample.halfPastOne Sample.hubGrant verified.payload := by
  obtain ⟨issued, hissued, hkey, htoken⟩ := Sample.issue_hubGrant
  obtain ⟨hlives, hsound⟩ := FilesystemStorageIssuer.tokens_convey_grants Sample.tokenCrates
    Sample.tokenIssuer Sample.lastInstant
  obtain ⟨cfg, t, hcfg, ht, haccepts⟩ := hlives _ _ _ hissued
  obtain rfl := Option.some.inj (Sample.route?_tokenIssuer.symm.trans hcfg)
  obtain rfl : 1 = t := Option.some.inj ht
  obtain ⟨verified, hverified, hscope, -⟩ := haccepts (Sample.clockAt 800000000000) 800 rfl
    (by decide) (by decide) (Sample.still_clockAt _) (by decide)
  have hencoded : Sample.tokenIssuer.EncodedBy Sample.halfPastOne Sample.hubGrant Sample.hubPayload :=
    ⟨_, 1, _, _, Sample.route?_tokenIssuer, rfl, rfl, rfl, Sample.validate_hubPayload⟩
  have hideal : Sample.tokenIssuer.Unforged Sample.tokenCrates (fun payload =>
      ∃ a ∈ [(Sample.halfPastOne, Sample.hubGrant)], Sample.tokenIssuer.EncodedBy a.1 a.2 payload)
      issued.token := by
    intro payload tag input hopen htag
    rw [htoken, FilesystemStorageIssuer.openToken_encode] at hopen
    obtain ⟨-, rfl⟩ := Prod.mk.inj (Except.ok.inj hopen)
    have hinput : input = macInput tokenDomain [Sample.tokenCrates.toVec Sample.hubPayload] :=
      Sample.eq_of_tokenHmac (Eq.trans (by exact htag) Sample.tokenHmac_hubPayload)
    rw [hinput]
    exact .token ⟨_, List.mem_singleton_self _, hencoded⟩
  obtain ⟨a, ha, _, _, -, -, ha', -⟩ := hsound _ _ _ _ _ _ hideal hverified
  obtain rfl := List.mem_singleton.mp ha
  exact ⟨issued, hissued, verified, hverified, hscope, ha'⟩

/-- The base prefix of one accepted route may be below that of another: a session of the outer route
allows keys of the inner one. And a token issued half a second into a second ends with the second, half
a second before its duration has passed. -/
theorem session_reaches_nested_base :
    Sample.tokenIssuer.accepted Sample.tokenCrates = true ∧
    ∃ issued, Sample.tokenIssuer.issue Sample.tokenCrates Sample.lastInstant Sample.halfPastOne
        Sample.hubGrant = .ok issued ∧
      (∃ verified, Sample.tokenIssuer.verifyAt Sample.crates Sample.tokenCrates Sample.lastInstant
          "primary".toList issued.key issued.token (Sample.clockAt 1500000000) = .ok verified ∧
        verified.allows .read "tenant/v1/hub/global/registry/a".toList ⟨0, some 1, 0⟩ = true ∧
        Sample.nestedRoute ∈ Sample.tokenIssuer.routes ∧
        Below '/' Sample.nestedRoute.basePrefix "tenant/v1/hub/global/registry/a".toList ∧
        Sample.nestedRoute.basePrefix ≠ (Sample.tokenRoute 0).basePrefix) ∧
      Sample.tokenIssuer.verifyAt Sample.crates Sample.tokenCrates Sample.lastInstant
          "primary".toList issued.key issued.token (Sample.clockAt 901200000000) =
        .error .expired := by
  obtain ⟨issued, hissued, hkey, htoken⟩ := Sample.issue_hubGrant
  obtain ⟨verified, hverified, -, -, haccess, hexpires, hdeadline⟩ := Sample.verifyAt_hubToken
  refine ⟨Sample.accepted_tokenIssuer, issued, hissued, ⟨verified, ?_, ?_, ?_, ?_, ?_⟩, ?_⟩
  · rw [hkey, htoken]
    exact hverified
  · simp only [VerifiedFilesystemSession.allows, VerifiedFilesystemSession.check,
      VerifiedFilesystemSession.covered, haccess, hexpires, hdeadline]
    rfl
  · exact List.mem_cons_of_mem _ (List.mem_singleton_self _)
  · decide
  · decide
  · rw [htoken]
    exact FilesystemStorageIssuer.verifyAt_encode_error _ Sample.route?_tokenIssuer
      Sample.byteLen_hubToken rfl (by rfl)

end GraphitBroker
