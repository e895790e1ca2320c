import GraphitBroker.FilesystemTokens
import GraphitBroker.LocalAuth
import GraphitBroker.Lib.Framing

/-!
# Credential digests

The keyed digests under which credentials are stored (`credentials.rs`): what each entry point
authenticates, the limits it checks first, and the hexadecimal form of a digest in SQL. The data
that binds an encrypted MFA secret to its subject (`local_mfa.rs`) is framed in the same way.
-/

namespace GraphitBroker

open ExceptList

/-- `NonZeroUsize` of a 64-bit target. -/
abbrev NonZeroUsize := { n : Nat // 0 < n ∧ n < 2 ^ 64 }

inductive CredentialError where
  | invalidLimits
  | invalidPepper
  | emptyInput
  | inputTooLong
  | invalidSqlDigest
  | verificationFailed
  deriving DecidableEq

def minPepperBytes : Nat := 32

/-- `DigestLimits`, as `new` accepts them. -/
structure DigestLimits where
  pepper : NonZeroUsize
  token : NonZeroUsize
  binding : NonZeroUsize
  subject : NonZeroUsize
  recovery : NonZeroUsize
  minPepper_le : minPepperBytes ≤ pepper.val

def DigestLimits.new (pepper token binding subject recovery : NonZeroUsize) :
    Except CredentialError DigestLimits :=
  if h : pepper.val < minPepperBytes then .error .invalidLimits
  else .ok ⟨pepper, token, binding, subject, recovery, Nat.le_of_not_lt h⟩

inductive TokenKind where
  | adminSession
  | oidcFlowState
  | oidcBrowserBinding
  | localAccess
  | localRefresh
  | serviceCredential
  | deviceCode
  | deviceUserCode
  | oidcAuthRequest
  | oidcAuthorizationCode
  | oidcStoredAccess
  | localAuthChallenge
  deriving DecidableEq

def TokenKind.discriminant : TokenKind → UInt8
  | .adminSession => 1
  | .oidcFlowState => 2
  | .oidcBrowserBinding => 3
  | .localAccess => 4
  | .localRefresh => 5
  | .serviceCredential => 6
  | .deviceCode => 7
  | .deviceUserCode => 8
  | .oidcAuthRequest => 9
  | .oidcAuthorizationCode => 10
  | .oidcStoredAccess => 11
  | .localAuthChallenge => 12

def LocalAuthPurpose.discriminant : LocalAuthPurpose → UInt8
  | .adminLogin => 1
  | .oauthAuthorize => 2
  | .deviceApprove => 3

inductive LocalAuthBinding where
  | adminLogin
  | oauthAuthorize (value : Bytes)
  | deviceApprove (value : Bytes)
  deriving DecidableEq

def digestFrame : Bytes := utf8 "graphit-broker/rust-credential-digest/v1".toList

def bindingDomain : UInt8 := 13

def recoveryDomain : UInt8 := 14

def oidcSubjectDomain : UInt8 := 15

/-- The digester, as `new` accepts it. -/
structure CredentialDigester where
  pepper : Bytes
  limits : DigestLimits
  minPepper_le : minPepperBytes ≤ pepper.length
  pepper_le : pepper.length ≤ limits.pepper.val

namespace CredentialDigester

def new (pepper : Bytes) (limits : DigestLimits) : Except CredentialError CredentialDigester :=
  if h : pepper.length < minPepperBytes ∨ limits.pepper.val < pepper.length then
    .error .invalidPepper
  else .ok ⟨pepper, limits, by omega, by omega⟩

def validate (value : Bytes) (cap : NonZeroUsize) : Except CredentialError Unit := do
  failIf (value = []) .emptyInput
  failIf (cap.val < value.length) .inputTooLong

/-- `framed_mac`, as the bytes the MAC has taken in. -/
def framedMac (domain : UInt8) (fields : List Bytes) : Except CredentialError Bytes := do
  failIf (256 ≤ fields.length) .inputTooLong
  failIf (fields.any (fun field => decide (2 ^ 64 ≤ field.length)) = true) .inputTooLong
  return macInput (digestFrame ++ [domain, UInt8.ofNat fields.length]) fields

variable (digester : CredentialDigester)

/-! ### What is authenticated -/

def tokenMac (kind : TokenKind) (value : Bytes) : Except CredentialError Bytes := do
  validate value digester.limits.token
  framedMac kind.discriminant [value]

def bindingMac (purpose : LocalAuthPurpose) (value : Bytes) : Except CredentialError Bytes := do
  validate value digester.limits.binding
  framedMac bindingDomain [[purpose.discriminant], value]

def localAuthBindingMac : LocalAuthBinding → Except CredentialError Bytes
  | .adminLogin => framedMac bindingDomain [[LocalAuthPurpose.adminLogin.discriminant], []]
  | .oauthAuthorize value => digester.bindingMac .oauthAuthorize value
  | .deviceApprove value => digester.bindingMac .deviceApprove value

def recoveryMac (subject code : Bytes) : Except CredentialError Bytes := do
  validate subject digester.limits.subject
  validate code digester.limits.recovery
  framedMac recoveryDomain [subject, code]

def oidcSubjectMac (issuer subject : Bytes) : Except CredentialError Bytes := do
  validate issuer digester.limits.subject
  validate subject digester.limits.subject
  framedMac oidcSubjectDomain [issuer, subject]

/-! ### Digests and their verification -/

variable (hmac : Bytes → Bytes → Digest)

def digest (mac : Except CredentialError Bytes) : Except CredentialError Digest :=
  mac.map (hmac digester.pepper)

def token (kind : TokenKind) (value : Bytes) : Except CredentialError Digest :=
  digester.digest hmac (digester.tokenMac kind value)

def binding (purpose : LocalAuthPurpose) (value : Bytes) : Except CredentialError Digest :=
  digester.digest hmac (digester.bindingMac purpose value)

def localAuthBinding (context : LocalAuthBinding) : Except CredentialError Digest :=
  digester.digest hmac (digester.localAuthBindingMac context)

def recovery (subject code : Bytes) : Except CredentialError Digest :=
  digester.digest hmac (digester.recoveryMac subject code)

def oidcSubject (issuer subject : Bytes) : Except CredentialError Str :=
  (digester.digest hmac (digester.oidcSubjectMac issuer subject)).map fun hash =>
    Base64.encode hash.val

end CredentialDigester

/-! ### Digests in SQL -/

/-- The value of a digit for the `hex` crate, which takes both cases. -/
def hexValue (c : Char) : Option Nat :=
  if '0' ≤ c ∧ c ≤ '9' then some (c.toNat - 48)
  else if 'a' ≤ c ∧ c ≤ 'f' then some (c.toNat - 87)
  else if 'A' ≤ c ∧ c ≤ 'F' then some (c.toNat - 55)
  else none

/-- `hex::decode`. -/
def hexDecode : Str → Option Bytes
  | [] => some []
  | [_] => none
  | high :: low :: rest => do
    let h ← hexValue high
    let l ← hexValue low
    let bytes ← hexDecode rest
    return UInt8.ofNat (16 * h + l) :: bytes

def lowercaseHex (c : Char) : Bool := ('0' ≤ c && c ≤ '9') || ('a' ≤ c && c ≤ 'f')

def parseSqlHex (value : Str) : Except CredentialError Digest :=
  if byteLen value ≠ 64 ∨ value.all lowercaseHex = false then .error .invalidSqlDigest
  else
    match hexDecode value with
    | none => .error .invalidSqlDigest
    | some bytes => if h : bytes.length = 32 then .ok ⟨bytes, h⟩ else .error .invalidSqlDigest

def toSqlHex (digest : Digest) : Str := hexEncode digest.val

/-! ### The associated data of MFA secrets -/

def mfaSecretDomain : Bytes := utf8 "graphit-broker/rust-local-mfa-secret/v1\x00".toList

/-- `aad`; the error is `InvalidSubject`. -/
def aad (subject : Str) : Except Unit Bytes := do
  failIf (subject = [] ∨ 512 < byteLen subject ∨ trim subject ≠ subject ∨ '\x00' ∈ subject) ()
  return macInput mfaSecretDomain [utf8 subject]

end GraphitBroker
