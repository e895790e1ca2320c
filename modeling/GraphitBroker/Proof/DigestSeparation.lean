import GraphitBroker.CredentialDigests

/-!
# What credential digests authenticate

Two entry points of one digester authenticate the same bytes only for the same credential: the
domain and the number of fields stand in front, at a fixed place, and each field after its length.
-/

namespace GraphitBroker

open ExceptList Framing

theorem beBytes_code (n m : Nat) (hn : n < 2 ^ 64) (hm : m < 2 ^ 64)
    (h : beBytes 8 n = beBytes 8 m) : n = m :=
  beBytes_inj (by omega) (by omega) h

theorem macInput_inj {domain domain' : Bytes} {parts parts' : List Bytes}
    (hdomain : domain.length = domain'.length) (hlength : parts.length = parts'.length)
    (hparts : ∀ part ∈ parts, part.length < 2 ^ 64)
    (hparts' : ∀ part ∈ parts', part.length < 2 ^ 64)
    (h : macInput domain parts = macInput domain' parts') : domain = domain' ∧ parts = parts' := by
  obtain ⟨hhead, hrest⟩ := List.append_inj h hdomain
  have hcoded : coded (beBytes 8) parts ++ [] = coded (beBytes 8) parts' ++ [] := by
    rw [List.append_nil, List.append_nil]
    exact hrest
  exact ⟨hhead, (coded_append_inj (length_beBytes 8) beBytes_code hlength hparts hparts' hcoded).1⟩

theorem macInput_ne {domain domain' : Bytes} {parts parts' : List Bytes} {n : Nat}
    (hn : n ≤ domain.length) (hn' : n ≤ domain'.length) (hne : domain.take n ≠ domain'.take n) :
    macInput domain parts ≠ macInput domain' parts' := by
  intro h
  have htake := congrArg (List.take n) h
  rw [macInput, macInput, List.take_append_of_le_length hn, List.take_append_of_le_length hn'] at htake
  exact hne htake

inductive CredentialIdentity where
  | token (kind : TokenKind) (value : Bytes)
  | binding (purpose : LocalAuthPurpose) (value : Bytes)
  | recovery (subject code : Bytes)
  | oidcSubject (issuer subject : Bytes)
  deriving DecidableEq

namespace CredentialIdentity

def domain : CredentialIdentity → UInt8
  | .token kind _ => kind.discriminant
  | .binding _ _ => bindingDomain
  | .recovery _ _ => recoveryDomain
  | .oidcSubject _ _ => oidcSubjectDomain

def fields : CredentialIdentity → List Bytes
  | .token _ value => [value]
  | .binding purpose value => [[purpose.discriminant], value]
  | .recovery subject code => [subject, code]
  | .oidcSubject issuer subject => [issuer, subject]

theorem length_fields_lt (identity : CredentialIdentity) : identity.fields.length < 256 := by
  cases identity <;> simp [fields]

end CredentialIdentity

theorem TokenKind.discriminant_injective : Function.Injective TokenKind.discriminant := by
  intro a b h
  cases a <;> cases b <;> first | rfl | exact absurd h (by decide)

theorem LocalAuthPurpose.discriminant_injective :
    Function.Injective LocalAuthPurpose.discriminant := by
  intro a b h
  cases a <;> cases b <;> first | rfl | exact absurd h (by decide)

namespace CredentialIdentity

theorem ext_of_domain {a b : CredentialIdentity} (hdomain : a.domain = b.domain)
    (hfields : a.fields = b.fields) : a = b := by
  have htoken : ∀ kind : TokenKind, kind.discriminant ≠ bindingDomain ∧
      kind.discriminant ≠ recoveryDomain ∧ kind.discriminant ≠ oidcSubjectDomain := by
    intro kind
    cases kind <;> decide
  have hother : bindingDomain ≠ recoveryDomain ∧ bindingDomain ≠ oidcSubjectDomain ∧
      recoveryDomain ≠ oidcSubjectDomain := by decide
  cases a with
  | token kind value =>
    cases b with
    | token kind' value' =>
      rw [TokenKind.discriminant_injective hdomain, (List.cons.inj hfields).1]
    | binding => exact absurd hdomain (htoken kind).1
    | recovery => exact absurd hdomain (htoken kind).2.1
    | oidcSubject => exact absurd hdomain (htoken kind).2.2
  | binding purpose value =>
    cases b with
    | token kind' => exact absurd hdomain.symm (htoken kind').1
    | binding purpose' value' =>
      obtain ⟨hpurpose, hrest⟩ := List.cons.inj hfields
      rw [LocalAuthPurpose.discriminant_injective (List.cons.inj hpurpose).1,
        (List.cons.inj hrest).1]
    | recovery => exact absurd hdomain hother.1
    | oidcSubject => exact absurd hdomain hother.2.1
  | recovery subject code =>
    cases b with
    | token kind' => exact absurd hdomain.symm (htoken kind').2.1
    | binding => exact absurd hdomain.symm hother.1
    | recovery subject' code' =>
      obtain ⟨hsubject, hrest⟩ := List.cons.inj hfields
      rw [hsubject, (List.cons.inj hrest).1]
    | oidcSubject => exact absurd hdomain hother.2.2
  | oidcSubject issuer subject =>
    cases b with
    | token kind' => exact absurd hdomain.symm (htoken kind').2.2
    | binding => exact absurd hdomain.symm hother.2.1
    | recovery => exact absurd hdomain.symm hother.2.2
    | oidcSubject issuer' subject' =>
      obtain ⟨hissuer, hrest⟩ := List.cons.inj hfields
      rw [hissuer, (List.cons.inj hrest).1]

end CredentialIdentity

inductive DigestCall where
  | token (kind : TokenKind) (value : Bytes)
  | binding (purpose : LocalAuthPurpose) (value : Bytes)
  | localAuthBinding (context : LocalAuthBinding)
  | recovery (subject code : Bytes)
  | oidcSubject (issuer subject : Bytes)
  deriving DecidableEq

namespace DigestCall

def preimage (digester : CredentialDigester) : DigestCall → Except CredentialError Bytes
  | .token kind value => digester.tokenMac kind value
  | .binding purpose value => digester.bindingMac purpose value
  | .localAuthBinding context => digester.localAuthBindingMac context
  | .recovery subject code => digester.recoveryMac subject code
  | .oidcSubject issuer subject => digester.oidcSubjectMac issuer subject

def identity : DigestCall → CredentialIdentity
  | .token kind value => .token kind value
  | .binding purpose value => .binding purpose value
  | .localAuthBinding .adminLogin => .binding .adminLogin []
  | .localAuthBinding (.oauthAuthorize value) => .binding .oauthAuthorize value
  | .localAuthBinding (.deviceApprove value) => .binding .deviceApprove value
  | .recovery subject code => .recovery subject code
  | .oidcSubject issuer subject => .oidcSubject issuer subject

end DigestCall

def CredentialIdentity.framed (identity : CredentialIdentity) : Bytes :=
  macInput (digestFrame ++ [identity.domain, UInt8.ofNat identity.fields.length]) identity.fields

namespace CredentialDigester

theorem validate_eq_ok {value : Bytes} {cap : NonZeroUsize} {u : Unit} :
    validate value cap = .ok u ↔ value ≠ [] ∧ value.length ≤ cap.val := by
  simp [validate, bind_eq_ok]

theorem framedMac_eq_ok {domain : UInt8} {fields : List Bytes} {x : Bytes} :
    framedMac domain fields = .ok x ↔ fields.length < 256 ∧
      (∀ field ∈ fields, field.length < 2 ^ 64) ∧
      macInput (digestFrame ++ [domain, UInt8.ofNat fields.length]) fields = x := by
  simp only [framedMac, bind_eq_ok, failIf_eq_ok, exists_and_left, exists_const, List.any_eq_true,
    decide_eq_true_eq, not_exists, not_and, not_le, pure, Except.pure, Except.ok.injEq]

end CredentialDigester

open CredentialDigester

theorem DigestCall.preimage_eq_ok {digester : CredentialDigester} {call : DigestCall} {x : Bytes}
    (h : call.preimage digester = .ok x) :
    (∀ field ∈ call.identity.fields, field.length < 2 ^ 64) ∧ call.identity.framed = x := by
  have hframed : ∀ {identity : CredentialIdentity},
      framedMac identity.domain identity.fields = .ok x →
        (∀ field ∈ identity.fields, field.length < 2 ^ 64) ∧ identity.framed = x :=
    fun hmac => (framedMac_eq_ok.mp hmac).2
  have hbinding : ∀ {purpose value}, digester.bindingMac purpose value = .ok x →
      framedMac bindingDomain [[purpose.discriminant], value] = .ok x := by
    intro purpose value hmac
    obtain ⟨_, _, hmac⟩ := bind_eq_ok.mp hmac
    exact hmac
  cases call with
  | token kind value =>
    obtain ⟨_, _, hmac⟩ := bind_eq_ok.mp h
    exact @hframed (.token kind value) hmac
  | binding purpose value => exact @hframed (.binding purpose value) (hbinding h)
  | localAuthBinding context =>
    cases context with
    | adminLogin => exact @hframed (.binding .adminLogin []) h
    | oauthAuthorize value => exact @hframed (.binding .oauthAuthorize value) (hbinding h)
    | deviceApprove value => exact @hframed (.binding .deviceApprove value) (hbinding h)
  | recovery subject code =>
    obtain ⟨_, _, hmac⟩ := bind_eq_ok.mp h
    obtain ⟨_, _, hmac⟩ := bind_eq_ok.mp hmac
    exact @hframed (.recovery subject code) hmac
  | oidcSubject issuer subject =>
    obtain ⟨_, _, hmac⟩ := bind_eq_ok.mp h
    obtain ⟨_, _, hmac⟩ := bind_eq_ok.mp hmac
    exact @hframed (.oidcSubject issuer subject) hmac

theorem CredentialIdentity.framed_inj {a b : CredentialIdentity}
    (ha : ∀ field ∈ a.fields, field.length < 2 ^ 64)
    (hb : ∀ field ∈ b.fields, field.length < 2 ^ 64) (h : a.framed = b.framed) : a = b := by
  -- the header has the same length in both, so it is equal before the fields are looked at
  have hhead : digestFrame ++ [a.domain, UInt8.ofNat a.fields.length] =
      digestFrame ++ [b.domain, UInt8.ofNat b.fields.length] :=
    (List.append_inj h (by rw [List.length_append, List.length_append]; rfl)).1
  have hmark := List.append_cancel_left hhead
  obtain ⟨hdomain, harity⟩ := List.cons.inj hmark
  have hlength : a.fields.length = b.fields.length := by
    have hbyte := congrArg UInt8.toNat (List.cons.inj harity).1
    rw [UInt8.toNat_ofNat_of_lt' a.length_fields_lt, UInt8.toNat_ofNat_of_lt' b.length_fields_lt]
      at hbyte
    exact hbyte
  exact ext_of_domain hdomain
    (macInput_inj (by rw [List.length_append, List.length_append]; rfl) hlength ha hb h).2

theorem CredentialIdentity.framed_ne_session (identity : CredentialIdentity) (parts : List Bytes) :
    identity.framed ≠ macInput tokenDomain parts ∧ identity.framed ≠ macInput secretDomain parts := by
  have hlength : ∀ bytes : Bytes, 21 ≤ (digestFrame ++ bytes).length := by
    intro bytes
    rw [List.length_append]
    exact Nat.le_add_right_of_le (by decide)
  have htake : ∀ bytes : Bytes, (digestFrame ++ bytes).take 21 = digestFrame.take 21 := fun bytes =>
    List.take_append_of_le_length (by decide)
  refine ⟨macInput_ne (hlength _) (by decide) ?_, macInput_ne (hlength _) (by decide) ?_⟩
  · rw [htake]
    decide
  · rw [htake]
    decide

theorem aad_inj {subject subject' : Str} {x : Bytes} (h : aad subject = .ok x)
    (h' : aad subject' = .ok x) : subject = subject' := by
  have hok : ∀ {s : Str}, aad s = .ok x →
      (utf8 s).length < 2 ^ 64 ∧ macInput mfaSecretDomain [utf8 s] = x := by
    intro s hs
    obtain ⟨_, hchecks, hx⟩ := bind_eq_ok.mp hs
    have hshort : byteLen s ≤ 512 := by
      by_contra hlong
      exact failIf_eq_ok.mp hchecks (Or.inr (Or.inl (by omega)))
    rw [length_utf8]
    exact ⟨by omega, Except.ok.inj hx⟩
  obtain ⟨hshort, hx⟩ := hok h
  obtain ⟨hshort', hx'⟩ := hok h'
  have hparts := (@macInput_inj mfaSecretDomain mfaSecretDomain [utf8 subject] [utf8 subject'] rfl rfl
    (List.forall_mem_singleton.mpr hshort) (List.forall_mem_singleton.mpr hshort')
    (hx.trans hx'.symm)).2
  exact utf8_injective (List.cons.inj hparts).1

theorem exists_hexDigit {c : Char} (hc : c ∈ hexDigits) : ∃ n < 16, hexDigit n = c := by
  obtain ⟨n, hn, rfl⟩ := List.getElem_of_mem hc
  exact ⟨n, hn, List.getD_eq_getElem hexDigits '0' hn⟩

theorem lowercaseHex_iff {c : Char} : lowercaseHex c = true ↔ c ∈ hexDigits := by
  constructor
  · intro h
    have hrange : (48 ≤ c.toNat ∧ c.toNat ≤ 57) ∨ (97 ≤ c.toNat ∧ c.toNat ≤ 102) := by
      simpa [lowercaseHex, Char.le_def, UInt32.le_iff_toNat_le] using h
    have hc : c = Char.ofNat c.toNat := (Char.ofNat_toNat c).symm
    have hdigits : ∀ n : Fin 128, (48 ≤ n.val ∧ n.val ≤ 57) ∨ (97 ≤ n.val ∧ n.val ≤ 102) →
        Char.ofNat n ∈ hexDigits := by decide +kernel
    rw [hc]
    exact hdigits ⟨c.toNat, by omega⟩ hrange
  · intro h
    have hall : ∀ x : Fin 16, lowercaseHex (hexDigit x) = true := by decide
    obtain ⟨n, hn, rfl⟩ := exists_hexDigit h
    exact hall ⟨n, hn⟩

theorem hexValue_hexDigit {n : Nat} (hn : n < 16) : hexValue (hexDigit n) = some n := by
  have hall : ∀ x : Fin 16, hexValue (hexDigit x) = some x.val := by decide
  exact hall ⟨n, hn⟩

theorem utf8Size_hexDigit {c : Char} (hc : c ∈ hexDigits) : c.utf8Size = 1 := by
  have hall : ∀ x : Fin 16, (hexDigit x).utf8Size = 1 := by decide
  obtain ⟨n, hn, rfl⟩ := exists_hexDigit hc
  exact hall ⟨n, hn⟩

@[simp]
theorem hexDecode_hexEncode (bytes : Bytes) : hexDecode (hexEncode bytes) = some bytes := by
  induction bytes with
  | nil => rfl
  | cons b bytes ih =>
    have hstep : hexEncode (b :: bytes) =
        hexDigit (b.toNat / 16) :: hexDigit (b.toNat % 16) :: hexEncode bytes := rfl
    have hbyte : UInt8.ofNat (16 * (b.toNat / 16) + b.toNat % 16) = b := by
      rw [Nat.div_add_mod, UInt8.ofNat_toNat]
    rw [hstep, hexDecode, hexValue_hexDigit (Nat.div_lt_of_lt_mul b.toNat_lt),
      hexValue_hexDigit (Nat.mod_lt _ (by decide)), ih]
    exact congrArg (fun byte => some (byte :: bytes)) hbyte

theorem exists_hexEncode {s : Str} {n : Nat} (hlength : s.length = 2 * n)
    (hs : ∀ c ∈ s, c ∈ hexDigits) : ∃ bytes : Bytes, bytes.length = n ∧ hexEncode bytes = s := by
  induction n generalizing s with
  | zero => exact ⟨[], rfl, (List.length_eq_zero_iff.mp hlength).symm⟩
  | succ n ih =>
    match s, hlength, hs with
    | high :: low :: rest, hlength, hs =>
      obtain ⟨h, hh, rfl⟩ := exists_hexDigit (hs high List.mem_cons_self)
      obtain ⟨l, hl, rfl⟩ := exists_hexDigit (hs low (by simp))
      obtain ⟨bytes, hbytes, rfl⟩ := ih (s := rest) (by simp at hlength; omega)
        fun c hc => hs c (by simp [hc])
      have hbyte : (UInt8.ofNat (16 * h + l)).toNat = 16 * h + l :=
        UInt8.toNat_ofNat_of_lt' (by change 16 * h + l < 256; omega)
      refine ⟨UInt8.ofNat (16 * h + l) :: bytes, by simp [hbytes], ?_⟩
      rw [hexEncode, List.flatMap_cons, hbyte, ← hexEncode]
      have hdiv : (16 * h + l) / 16 = h := by omega
      have hmod : (16 * h + l) % 16 = l := by omega
      rw [hdiv, hmod]
      rfl

theorem parseSqlHex_toSqlHex (digest : Digest) : parseSqlHex (toSqlHex digest) = .ok digest := by
  have hdigits : ∀ c ∈ toSqlHex digest, c ∈ hexDigits := fun c hc => hexEncode_mem hc
  have hlength : byteLen (toSqlHex digest) = 64 := by
    rw [byteLen_eq_length fun c hc => utf8Size_hexDigit (hdigits c hc), toSqlHex, length_hexEncode,
      digest.property]
  have hall : (toSqlHex digest).all lowercaseHex = true :=
    List.all_eq_true.mpr fun c hc => lowercaseHex_iff.mpr (hdigits c hc)
  rw [parseSqlHex, if_neg (by simp [hlength, hall]), toSqlHex, hexDecode_hexEncode]
  exact dif_pos digest.property

theorem exists_parseSqlHex {s : Str} :
    (∃ digest, parseSqlHex s = .ok digest) ↔ s.length = 64 ∧ ∀ c ∈ s, c ∈ hexDigits := by
  constructor
  · rintro ⟨digest, h⟩
    unfold parseSqlHex at h
    split_ifs at h with hbad
    obtain ⟨hlength, hall⟩ := not_or.mp hbad
    rw [not_not] at hlength
    rw [Bool.not_eq_false, List.all_eq_true] at hall
    have hdigits : ∀ c ∈ s, c ∈ hexDigits := fun c hc => lowercaseHex_iff.mp (hall c hc)
    rw [byteLen_eq_length fun c hc => utf8Size_hexDigit (hdigits c hc)] at hlength
    exact ⟨hlength, hdigits⟩
  · rintro ⟨hlength, hdigits⟩
    obtain ⟨bytes, hbytes, rfl⟩ := exists_hexEncode (n := 32) hlength hdigits
    exact ⟨⟨bytes, hbytes⟩, parseSqlHex_toSqlHex ⟨bytes, hbytes⟩⟩

theorem toSqlHex_of_parseSqlHex {s : Str} {digest : Digest} (h : parseSqlHex s = .ok digest) :
    toSqlHex digest = s := by
  obtain ⟨hlength, hdigits⟩ := exists_parseSqlHex.mp ⟨digest, h⟩
  obtain ⟨bytes, hbytes, rfl⟩ := exists_hexEncode (n := 32) hlength hdigits
  rw [show hexEncode bytes = toSqlHex ⟨bytes, hbytes⟩ from rfl, parseSqlHex_toSqlHex] at h
  rw [← Except.ok.inj h]
  rfl

def LocalAuthBinding.Names (purpose : LocalAuthPurpose) (value : Bytes) : LocalAuthBinding → Prop
  | .adminLogin => False
  | .oauthAuthorize bound => purpose = .oauthAuthorize ∧ value = bound
  | .deviceApprove bound => purpose = .deviceApprove ∧ value = bound

/-- Digests of different purposes are of different bytes, and the other uses of the pepper and of the
frames keep apart in the same way. -/
structure DigestsSeparate (digester : CredentialDigester) : Prop where
  calls : ∀ (a b : DigestCall) (x y : Bytes), a.preimage digester = .ok x →
    b.preimage digester = .ok y →
      (x = y ↔ a.identity.domain = b.identity.domain ∧ a.identity.fields = b.identity.fields)
  credentials : ∀ (a b : DigestCall) (x y : Bytes), a.preimage digester = .ok x →
    b.preimage digester = .ok y → (x = y ↔ a.identity = b.identity)
  bindings : ∀ purpose value (context : LocalAuthBinding) (x y : Bytes),
    digester.bindingMac purpose value = .ok x → digester.localAuthBindingMac context = .ok y →
      (x = y ↔ context.Names purpose value)
  admin : ∀ (call : DigestCall) (x y : Bytes), call.preimage digester = .ok x →
    digester.localAuthBindingMac .adminLogin = .ok y →
      (x = y ↔ call = .localAuthBinding .adminLogin)
  sessions : ∀ (call : DigestCall) (x : Bytes) (parts : List Bytes), call.preimage digester = .ok x →
    x ≠ macInput tokenDomain parts ∧ x ≠ macInput secretDomain parts
  associated : ∀ (subject subject' : Str) (x y : Bytes), aad subject = .ok x → aad subject' = .ok y →
    (x = y ↔ subject = subject')
  readBack : ∀ digest, parseSqlHex (toSqlHex digest) = .ok digest
  written : ∀ s digest, parseSqlHex s = .ok digest → toSqlHex digest = s
  accepted : ∀ s, (∃ digest, parseSqlHex s = .ok digest) ↔ s.length = 64 ∧ ∀ c ∈ s, c ∈ hexDigits

theorem DigestCall.preimages_eq_iff {digester : CredentialDigester} {a b : DigestCall} {x y : Bytes}
    (ha : a.preimage digester = .ok x) (hb : b.preimage digester = .ok y) :
    x = y ↔ a.identity = b.identity := by
  obtain ⟨hshort, rfl⟩ := preimage_eq_ok ha
  obtain ⟨hshort', rfl⟩ := preimage_eq_ok hb
  exact ⟨CredentialIdentity.framed_inj hshort hshort', fun h => congrArg _ h⟩

theorem identity_localAuthBinding {context : LocalAuthBinding} {purpose : LocalAuthPurpose}
    {value : Bytes} (hvalue : value ≠ []) :
    CredentialIdentity.binding purpose value = (DigestCall.localAuthBinding context).identity ↔
      context.Names purpose value := by
  cases context with
  | adminLogin => simp [DigestCall.identity, LocalAuthBinding.Names, hvalue]
  | oauthAuthorize bound => simp [DigestCall.identity, LocalAuthBinding.Names]
  | deviceApprove bound => simp [DigestCall.identity, LocalAuthBinding.Names]

theorem CredentialDigester.ne_nil_of_bindingMac {digester : CredentialDigester}
    {purpose : LocalAuthPurpose} {value x : Bytes} (h : digester.bindingMac purpose value = .ok x) :
    value ≠ [] := by
  obtain ⟨_, hvalid, _⟩ := bind_eq_ok.mp h
  exact (validate_eq_ok.mp hvalid).1

theorem DigestCall.eq_adminLogin {digester : CredentialDigester} {call : DigestCall} {x : Bytes}
    (h : call.preimage digester = .ok x) (hidentity : call.identity = .binding .adminLogin []) :
    call = .localAuthBinding .adminLogin := by
  cases call with
  | token => cases hidentity
  | binding purpose value =>
    exact absurd (CredentialIdentity.binding.inj hidentity).2 (ne_nil_of_bindingMac h)
  | localAuthBinding context =>
    cases context with
    | adminLogin => rfl
    | oauthAuthorize => cases hidentity
    | deviceApprove => cases hidentity
  | recovery => cases hidentity
  | oidcSubject => cases hidentity

theorem digests_separate (digester : CredentialDigester) : DigestsSeparate digester where
  calls a b x y ha hb := by
    rw [DigestCall.preimages_eq_iff ha hb]
    constructor
    · intro h
      rw [h]
      exact ⟨rfl, rfl⟩
    · rintro ⟨hdomain, hfields⟩
      exact CredentialIdentity.ext_of_domain hdomain hfields
  credentials _ _ _ _ ha hb := DigestCall.preimages_eq_iff ha hb
  bindings purpose value context x y hx hy := by
    rw [@DigestCall.preimages_eq_iff digester (.binding purpose value) (.localAuthBinding context)
      x y hx hy]
    exact identity_localAuthBinding (ne_nil_of_bindingMac hx)
  admin call x y hx hy := by
    rw [@DigestCall.preimages_eq_iff digester call (.localAuthBinding .adminLogin) x y hx hy]
    constructor
    · exact DigestCall.eq_adminLogin hx
    · intro h
      rw [h]
  sessions call x parts hx := by
    obtain ⟨_, rfl⟩ := DigestCall.preimage_eq_ok hx
    exact call.identity.framed_ne_session parts
  associated subject subject' x y hx hy := by
    constructor
    · rintro rfl
      exact aad_inj hx hy
    · rintro rfl
      exact Except.ok.inj (hx.symm.trans hy)
  readBack := parseSqlHex_toSqlHex
  written _ _ := toSqlHex_of_parseSqlHex
  accepted _ := exists_parseSqlHex

namespace Sample

def shortLimits : DigestLimits :=
  ⟨⟨32, by decide⟩, ⟨8, by decide⟩, ⟨8, by decide⟩, ⟨8, by decide⟩, ⟨8, by decide⟩, by decide⟩

def digester : CredentialDigester :=
  ⟨List.replicate 32 7, shortLimits, by decide, by decide⟩

end Sample

/-- A field that ends where the next one begins does not move the border between them. -/
theorem digests_separate_moved_border :
    (Sample.digester.recoveryMac [1, 2] [3]).isOk = true ∧
      Sample.digester.recoveryMac [1, 2] [3] ≠ Sample.digester.recoveryMac [1] [2, 3] := by
  refine ⟨by decide +kernel, fun h => ?_⟩
  obtain ⟨x, hx⟩ : ∃ x, Sample.digester.recoveryMac [1, 2] [3] = .ok x := ⟨_, rfl⟩
  have hidentity := ((digests_separate Sample.digester).credentials (.recovery [1, 2] [3])
    (.recovery [1] [2, 3]) x x hx (h.symm.trans hx)).mp rfl
  exact absurd hidentity (by decide)

end GraphitBroker
