import GraphitBroker.CredentialDigests
import GraphitBroker.NowWire
import GraphitBroker.SqliteExecutor
import GraphitBroker.Lib.ExceptList
import GraphitBroker.Lib.Sorted
import GraphitBroker.Lib.Transactions

/-!
# Flows of upstream logins

A flow is saved under the digests of its state and of the browser it was started in, and is consumed
by whoever presents both (`flow.rs`, `sqlite/flow.rs`). Every reading of the clock is given with the
call, so that the readings of a run are arbitrary, as are the results of its commits.
-/

namespace GraphitBroker

open ExceptList Transactions Document SqliteExecutor

/-! ### Continuations -/

structure FlowLimits where
  providerBytes : Nat
  requestBytes : Nat
  continuationBytes : Nat

inductive FlowPurpose where
  | admin
  | oauth
  deriving DecidableEq

def FlowPurpose.asStr : FlowPurpose → Str
  | .admin => "admin".toList
  | .oauth => "oauth".toList

/-- The purposes that `stored` knows. -/
def FlowPurpose.ofStr (value : Str) : Option FlowPurpose :=
  if value = "admin".toList then some .admin
  else if value = "oauth".toList then some .oauth
  else none

inductive FlowContinuation where
  | admin (providerId : Str)
  | oauth (providerId requestId : Str)
  deriving DecidableEq

def boundedText (value : Str) (limit : Nat) : Bool :=
  !(value.isEmpty || decide (limit < byteLen value) || value.contains (Char.ofNat 0))

namespace FlowContinuation

def purpose : FlowContinuation → FlowPurpose
  | .admin _ => .admin
  | .oauth _ _ => .oauth

def providerId : FlowContinuation → Str
  | .admin providerId => providerId
  | .oauth providerId _ => providerId

def adminFields : List Str := ["provider_id"].map String.toList

def oauthFields : List Str := ["provider_id", "request_id"].map String.toList

def document : FlowContinuation → Document
  | .admin providerId => fieldsOf [("provider_id", .str providerId)]
  | .oauth providerId requestId =>
    fieldsOf [("provider_id", .str providerId), ("request_id", .str requestId)]

def ofDocument : FlowPurpose → Document → Option FlowContinuation
  | .admin, doc => do
    match ← doc.struct adminFields with
    | [providerId] => return .admin (← providerId.asStr)
    | _ => none
  | .oauth, doc => do
    match ← doc.struct oauthFields with
    | [providerId, requestId] => return .oauth (← providerId.asStr) (← requestId.asStr)
    | _ => none

variable (codec : JsonCodec)

/-- `to_json`, which fails with `InvalidFlow` only. -/
def toJson (limits : FlowLimits) (c : FlowContinuation) : Option codec.Text :=
  let text := codec.print c.document
  let requestFits := match c with
    | .admin _ => true
    | .oauth _ requestId => boundedText requestId limits.requestBytes
  if boundedText c.providerId limits.providerBytes && requestFits &&
      decide (codec.len text ≤ limits.continuationBytes) then some text
  else none

/-- `from_json`, which fails with `InvalidFlow` only. -/
def fromJson (purpose : FlowPurpose) (value : codec.Text) (limits : FlowLimits) :
    Option FlowContinuation := do
  if limits.continuationBytes < codec.len value then none
  else
    let result ← (codec.parse value).bind (ofDocument purpose)
    let _ ← result.toJson codec limits
    return result

end FlowContinuation

/-! ### Flows -/

@[ext]
structure OidcFlow where
  nonce : Str
  pkceVerifier : Str
  continuation : FlowContinuation
  expiresAt : Nat
  deriving DecidableEq

def flowTtlMicros : Nat := 600000000

def verifierChar (c : Char) : Bool := c.isAlphanum || "-._~".toList.contains c

def OidcFlow.validate (codec : JsonCodec) (limits : FlowLimits) (flow : OidcFlow) :
    Option codec.Text :=
  if boundedText flow.nonce 128 && decide (43 ≤ byteLen flow.pkceVerifier) &&
      decide (byteLen flow.pkceVerifier ≤ 128) && flow.pkceVerifier.all verifierChar then
    flow.continuation.toJson codec limits
  else none

/-- A row of `oidc_flows`. -/
structure FlowRow (codec : JsonCodec) where
  browserBindingHash : Str
  nonce : Str
  pkceVerifier : Str
  purpose : Str
  continuationJson : codec.Text
  expiresAt : Nat
  createdAt : Nat

/-- `OidcFlow::stored`, which fails with `CorruptFlow` only. -/
def OidcFlow.stored {codec : JsonCodec} (limits : FlowLimits) (row : FlowRow codec) :
    Option OidcFlow := do
  let purpose ← FlowPurpose.ofStr row.purpose
  if row.expiresAt ≤ row.createdAt ∨ flowTtlMicros < row.expiresAt - row.createdAt then none
  else
    let continuation ← FlowContinuation.fromJson codec purpose row.continuationJson limits
    let result : OidcFlow := ⟨row.nonce, row.pkceVerifier, continuation, row.expiresAt⟩
    let _ ← result.validate codec limits
    return result

/-! ### Saving and consuming -/

/-- The digester of the store and the HMAC that it computes. -/
structure FlowDigester extends CredentialDigester where
  hmac : Bytes → Bytes → Digest

namespace FlowDigester

variable (digester : FlowDigester)

/-- The digest of a token in SQL; one that is empty or too long has none. -/
def hash (kind : TokenKind) (value : Bytes) : Option Str :=
  (digester.token digester.hmac kind value).toOption.map toSqlHex

def state (value : Bytes) : Option Str := digester.hash .oidcFlowState value

def binding (value : Bytes) : Option Str := digester.hash .oidcBrowserBinding value

end FlowDigester

abbrev FlowTable (codec : JsonCodec) := SortedMap Str (FlowRow codec)

def orFail {α : Type} (e : SqliteControlError) : Option α → Except SqliteControlError α
  | none => .error e
  | some a => .ok a

def validExpiry (expiry now : Nat) : Except SqliteControlError Unit :=
  failIf (expiry ≤ now ∨ flowTtlMicros < expiry - now) .invalidFlow

/-- The readings of the clock by `save_flow`: when it is called, after the lock and before the
commit. A reading can fail. -/
structure SaveClock where
  called : Option Nat
  created : Option Nat
  beforeCommit : Option Nat

structure ConsumeClock where
  afterLock : Option Nat
  beforeCommit : Option Nat

section Store

variable {codec : JsonCodec} (digester : FlowDigester) (limits : FlowLimits)

def saveBody (state binding : Bytes) (flow : OidcFlow) (clock : SaveClock) (d : FlowTable codec) :
    Except SqliteControlError (Unit × FlowTable codec) := do
  let json ← orFail .invalidFlow (flow.validate codec limits)
  let stateHash ← orFail .invalidFlow (digester.state state)
  let bindingHash ← orFail .invalidFlow (digester.binding binding)
  validExpiry flow.expiresAt (← orFail .clock clock.called)
  let created ← orFail .clock clock.created
  validExpiry flow.expiresAt created
  failIf ((d.get? stateHash).isSome = true) .flowExists
  let beforeCommit ← orFail .clock clock.beforeCommit
  failIf (beforeCommit < created) .clock
  failIf (flow.expiresAt ≤ beforeCommit) .invalidFlow
  return ((), d.insert stateHash
    { browserBindingHash := bindingHash
      nonce := flow.nonce
      pkceVerifier := flow.pkceVerifier
      purpose := flow.continuation.purpose.asStr
      continuationJson := json
      expiresAt := flow.expiresAt
      createdAt := created })

/-- What the query of `consume_flow` reads: a longer text is read as NULL. -/
def FlowRow.readable (row : FlowRow codec) : Bool :=
  decide (byteLen row.nonce ≤ 128) && decide (byteLen row.pkceVerifier ≤ 128) &&
    decide (byteLen row.purpose ≤ 5) &&
    decide (codec.len row.continuationJson ≤ limits.continuationBytes)

/-- The transaction of `consume_flow`. An expired flow is deleted, and nothing is returned. -/
def consumeBody (state binding : Bytes) (clock : ConsumeClock) (d : FlowTable codec) :
    Except SqliteControlError (Option OidcFlow × FlowTable codec) := do
  let stateHash ← orFail .invalidFlow (digester.state state)
  let bindingHash ← orFail .invalidFlow (digester.binding binding)
  let row ← orFail .unavailable
    ((d.get? stateHash).filter fun row => row.browserBindingHash == bindingHash)
  failIf (row.readable limits = false) .corruptFlow
  let flow ← orFail .corruptFlow (OidcFlow.stored limits row)
  let afterLock ← orFail .clock clock.afterLock
  failIf (afterLock < row.createdAt) .corruptFlow
  let beforeCommit ← orFail .clock clock.beforeCommit
  failIf (beforeCommit < row.createdAt) .clock
  return (if row.expiresAt ≤ afterLock ∨ row.expiresAt ≤ beforeCommit then none else some flow,
    d.erase stateHash)

inductive FlowCall where
  | save (state binding : Bytes) (flow : OidcFlow) (clock : SaveClock)
      (commit : Except (SqliteControlError × Bool) Unit)
  | consume (state binding : Bytes) (clock : ConsumeClock)
      (commit : Except (SqliteControlError × Bool) Unit)

inductive FlowResult where
  | saved (result : Except SqliteControlError Unit)
  | consumed (result : Except SqliteControlError OidcFlow)
  deriving DecidableEq

def flowStep (d : FlowTable codec) : FlowCall → FlowResult × FlowTable codec
  | .save state binding flow clock commit =>
    let (result, d') := transact (saveBody digester limits state binding flow clock) commit d
    (.saved result, d')
  | .consume state binding clock commit =>
    let (result, d') := transact (consumeBody digester limits state binding clock) commit d
    (.consumed (result.bind (orFail .expired)), d')

def flowRun (calls : List FlowCall) : FlowTable codec :=
  calls.foldl (fun d call => (flowStep digester limits d call).2) SortedMap.empty

end Store

end GraphitBroker
