import GraphitBroker.LoginFlows
import GraphitBroker.Proof.DigestSeparation
import GraphitBroker.Proof.SectionMasks

/-!
# Login flows are consumed once

A row of the table is written by one save and stays as it is until a call consumes it that presents
the state and the binding of that save.
-/

namespace GraphitBroker

open ExceptList Transactions Document SqliteExecutor

@[simp]
theorem orFail_eq_ok {α : Type} {e : SqliteControlError} {o : Option α} {a : α} :
    orFail e o = .ok a ↔ o = some a := by
  cases o <;> simp [orFail]

def FlowCall.state : FlowCall → Bytes
  | .save state _ _ _ _ => state
  | .consume state _ _ _ => state

def FlowCall.binding : FlowCall → Bytes
  | .save _ binding _ _ _ => binding
  | .consume _ binding _ _ => binding

namespace FlowContinuation

theorem ofDocument_document (c : FlowContinuation) : ofDocument c.purpose c.document = some c := by
  cases c with
  | admin providerId =>
    have hfields : (document (.admin providerId)).struct adminFields = some [.str providerId] :=
      struct_obj (by simp [adminFields]) (by decide)
    simp only [purpose, ofDocument, hfields]
    rfl
  | oauth providerId requestId =>
    have hfields : (document (.oauth providerId requestId)).struct oauthFields =
        some [.str providerId, .str requestId] :=
      struct_obj (by simp [oauthFields]) (by decide)
    simp only [purpose, ofDocument, hfields]
    rfl

theorem within_document (c : FlowContinuation) : c.document.Within 1 := by
  cases c with
  | admin providerId => exact within_fieldsOf (by simp)
  | oauth providerId requestId => exact within_fieldsOf (by simp)

variable {codec : JsonCodec} {limits : FlowLimits}

theorem toJson_eq_some {c : FlowContinuation} {text : codec.Text}
    (h : c.toJson codec limits = some text) :
    text = codec.print c.document ∧ codec.len text ≤ limits.continuationBytes := by
  unfold toJson at h
  dsimp only at h
  split_ifs at h with hfits
  obtain rfl := Option.some.inj h
  rw [Bool.and_eq_true, decide_eq_true_eq] at hfits
  exact ⟨rfl, hfits.2⟩

theorem fromJson_toJson {c : FlowContinuation} {text : codec.Text}
    (h : c.toJson codec limits = some text) : fromJson codec c.purpose text limits = some c := by
  obtain ⟨rfl, hlen⟩ := toJson_eq_some h
  have hparse := codec.parse_print c.document (c.within_document.mono (by decide))
  rw [fromJson, if_neg (Nat.not_lt.mpr hlen), hparse, Option.bind_some, ofDocument_document]
  simp only [Option.bind_eq_bind, Option.bind_some, h]
  rfl

end FlowContinuation

variable {codec : JsonCodec} {digester : FlowDigester} {limits : FlowLimits}

structure FlowRow.Holds (limits : FlowLimits) (row : FlowRow codec) (flow : OidcFlow) : Prop where
  json : flow.validate codec limits = some row.continuationJson
  nonce : row.nonce = flow.nonce
  pkceVerifier : row.pkceVerifier = flow.pkceVerifier
  purpose : row.purpose = flow.continuation.purpose.asStr
  expiresAt : row.expiresAt = flow.expiresAt
  lifetime : row.createdAt < row.expiresAt ∧ row.expiresAt - row.createdAt ≤ flowTtlMicros

variable {flow : OidcFlow} {state binding : Bytes} {clock : ConsumeClock} {d : FlowTable codec}
  {row : FlowRow codec} {stateHash : Str} {calls : List FlowCall}

theorem OidcFlow.validate_eq_some {text : codec.Text} (h : flow.validate codec limits = some text) :
    boundedText flow.nonce 128 = true ∧ byteLen flow.pkceVerifier ≤ 128 ∧
      flow.continuation.toJson codec limits = some text := by
  unfold validate at h
  split_ifs at h with hvalid
  simp only [Bool.and_eq_true, decide_eq_true_eq] at hvalid
  exact ⟨hvalid.1.1.1, hvalid.1.2, h⟩

namespace FlowRow.Holds

variable {row : FlowRow codec} {flow : OidcFlow}

theorem readable (h : row.Holds limits flow) : row.readable limits = true := by
  obtain ⟨hnonce, hverifier, hjson⟩ := OidcFlow.validate_eq_some h.json
  obtain ⟨-, hlen⟩ := FlowContinuation.toJson_eq_some hjson
  have hnonce' : byteLen flow.nonce ≤ 128 := by
    simp only [boundedText, Bool.not_eq_true', Bool.or_eq_false_iff, decide_eq_false_iff_not,
      not_lt] at hnonce
    exact hnonce.1.2
  have hpurpose : byteLen flow.continuation.purpose.asStr ≤ 5 := by
    cases flow.continuation with
    | admin _ => exact (by decide : byteLen "admin".toList ≤ 5)
    | oauth _ _ => exact (by decide : byteLen "oauth".toList ≤ 5)
  simp only [FlowRow.readable, h.nonce, h.pkceVerifier, h.purpose, Bool.and_eq_true,
    decide_eq_true_eq]
  exact ⟨⟨⟨hnonce', hverifier⟩, hpurpose⟩, hlen⟩

theorem stored_eq (h : row.Holds limits flow) : OidcFlow.stored limits row = some flow := by
  obtain ⟨-, -, hjson⟩ := OidcFlow.validate_eq_some h.json
  have hpurpose : FlowPurpose.ofStr row.purpose = some flow.continuation.purpose := by
    rw [h.purpose]
    cases flow.continuation <;> rfl
  have hlifetime : ¬ (row.expiresAt ≤ row.createdAt ∨
      flowTtlMicros < row.expiresAt - row.createdAt) := by
    have := h.lifetime
    omega
  have hflow : (⟨row.nonce, row.pkceVerifier, flow.continuation, row.expiresAt⟩ : OidcFlow) = flow :=
    OidcFlow.ext h.nonce h.pkceVerifier rfl h.expiresAt
  simp only [OidcFlow.stored, hpurpose, if_neg hlifetime, FlowContinuation.fromJson_toJson hjson,
    Option.bind_eq_bind, Option.bind_some, hflow, h.json]
  rfl

end FlowRow.Holds

theorem validExpiry_eq_ok {expiry now : Nat} {u : Unit} :
    validExpiry expiry now = .ok u ↔ now < expiry ∧ expiry - now ≤ flowTtlMicros := by
  simp only [validExpiry, failIf_eq_ok, not_or, not_le, not_lt]

theorem saveBody_eq_ok {clock : SaveClock} {d d' : FlowTable codec} {u : Unit}
    (h : saveBody digester limits state binding flow clock d = .ok (u, d')) :
    ∃ stateHash row, digester.state state = some stateHash ∧
      digester.binding binding = some row.browserBindingHash ∧ row.Holds limits flow ∧
      clock.created = some row.createdAt ∧ d.get? stateHash = none ∧ d' = d.insert stateHash row := by
  simp only [saveBody, bind_eq_ok, orFail_eq_ok, failIf_eq_ok, validExpiry_eq_ok] at h
  obtain ⟨json, hjson, stateHash, hstate, bindingHash, hbinding, called, -, -, -, created, hcreated, -,
    hexpiry, -, hfree, beforeCommit, -, -, -, -, -, h⟩ := h
  obtain rfl := (Prod.mk.inj (Except.ok.inj h)).2
  exact ⟨stateHash, _, hstate, hbinding, ⟨hjson, rfl, rfl, rfl, rfl, hexpiry⟩, hcreated,
    by simpa using hfree, rfl⟩

theorem consumeBody_eq_ok {d d' : FlowTable codec} {result : Option OidcFlow}
    (h : consumeBody digester limits state binding clock d = .ok (result, d')) :
    ∃ stateHash row flow afterLock beforeCommit, digester.state state = some stateHash ∧
      digester.binding binding = some row.browserBindingHash ∧ d.get? stateHash = some row ∧
      OidcFlow.stored limits row = some flow ∧ clock.afterLock = some afterLock ∧
      clock.beforeCommit = some beforeCommit ∧
      result = (if row.expiresAt ≤ afterLock ∨ row.expiresAt ≤ beforeCommit then none
        else some flow) ∧ d' = d.erase stateHash := by
  simp only [consumeBody, bind_eq_ok, orFail_eq_ok, failIf_eq_ok, Option.filter_eq_some_iff,
    beq_iff_eq] at h
  obtain ⟨stateHash, hstate, bindingHash, hbinding, row, ⟨hrow, rfl⟩, -, -, flow, hflow, afterLock,
    hafter, -, -, beforeCommit, hbefore, -, -, h⟩ := h
  obtain ⟨rfl, rfl⟩ := Prod.mk.inj (Except.ok.inj h)
  exact ⟨stateHash, row, flow, afterLock, beforeCommit, hstate, hbinding, hrow, hflow, hafter, hbefore,
    rfl, rfl⟩

theorem consumeBody_of_holds {afterLock beforeCommit : Nat}
    (hstate : digester.state state = some stateHash)
    (hbinding : digester.binding binding = some row.browserBindingHash)
    (hrow : d.get? stateHash = some row) (hholds : row.Holds limits flow)
    (hafter : clock.afterLock = some afterLock) (hbefore : clock.beforeCommit = some beforeCommit)
    (hcreated : row.createdAt ≤ afterLock ∧ row.createdAt ≤ beforeCommit) :
    consumeBody digester limits state binding clock d =
      .ok (if flow.expiresAt ≤ afterLock ∨ flow.expiresAt ≤ beforeCommit then none else some flow,
        d.erase stateHash) := by
  simp only [consumeBody, bind_eq_ok, orFail_eq_ok, failIf_eq_ok, Option.filter_eq_some_iff,
    beq_iff_eq]
  refine ⟨stateHash, hstate, row.browserBindingHash, hbinding, row, ⟨hrow, rfl⟩, (), ?_, flow,
    hholds.stored_eq, afterLock, hafter, (), Nat.not_lt.mpr hcreated.1, beforeCommit, hbefore, (),
    Nat.not_lt.mpr hcreated.2, ?_⟩
  · rw [hholds.readable]
    simp
  · rw [hholds.expiresAt]
    rfl

theorem flowStep_cases (d : FlowTable codec) (call : FlowCall) :
    (flowStep digester limits d call).2 = d ∨
    (∃ state binding flow clock commit stateHash row, call = .save state binding flow clock commit ∧
      digester.state state = some stateHash ∧
      digester.binding binding = some row.browserBindingHash ∧ row.Holds limits flow ∧
      d.get? stateHash = none ∧ (flowStep digester limits d call).2 = d.insert stateHash row) ∨
    ∃ state binding clock commit stateHash row, call = .consume state binding clock commit ∧
      digester.state state = some stateHash ∧
      digester.binding binding = some row.browserBindingHash ∧ d.get? stateHash = some row ∧
      (flowStep digester limits d call).2 = d.erase stateHash := by
  cases call with
  | save state binding flow clock commit =>
    rcases transact_snd (saveBody digester limits state binding flow clock) commit d with
      h | ⟨u, h⟩
    · exact .inl h
    · obtain ⟨stateHash, row, hstate, hbinding, hholds, -, hfree, hd⟩ := saveBody_eq_ok h
      exact .inr (.inl ⟨state, binding, flow, clock, commit, stateHash, row, rfl, hstate, hbinding,
        hholds, hfree, hd⟩)
  | consume state binding clock commit =>
    rcases transact_snd (consumeBody digester limits state binding clock) commit d with
      h | ⟨result, h⟩
    · exact .inl h
    · obtain ⟨stateHash, row, -, -, -, hstate, hbinding, hrow, -, -, -, -, hd⟩ :=
        consumeBody_eq_ok h
      exact .inr (.inr ⟨state, binding, clock, commit, stateHash, row, rfl, hstate, hbinding, hrow,
        hd⟩)

theorem flowStep_keeps {call : FlowCall} (hrow : d.get? stateHash = some row)
    (hother : ∀ state binding clock commit, call = .consume state binding clock commit →
      digester.state state = some stateHash → digester.binding binding ≠ some row.browserBindingHash) :
    (flowStep digester limits d call).2.get? stateHash = some row := by
  rcases @flowStep_cases codec digester limits d call with
    h | ⟨_, _, _, _, _, stateHash', row', -, -, -, -, hfree, h⟩ |
    ⟨state, binding, clock, commit, stateHash', row', rfl, hstate, hbinding, hrow', h⟩
  · rw [h, hrow]
  · have hne : stateHash ≠ stateHash' := by
      rintro rfl
      rw [hrow] at hfree
      cases hfree
    rw [h, SortedMap.get?_insert, if_neg hne, hrow]
  · have hne : stateHash ≠ stateHash' := by
      rintro rfl
      obtain rfl := Option.some.inj (hrow.symm.trans hrow')
      exact hother state binding clock commit rfl hstate hbinding
    rw [h, SortedMap.get?_erase, if_neg hne, hrow]

theorem flowStep_returned {commit : Except (SqliteControlError × Bool) Unit}
    (h : (flowStep digester limits d (.consume state binding clock commit)).1 =
      .consumed (.ok flow)) :
    ∃ stateHash row afterLock beforeCommit, digester.state state = some stateHash ∧
      digester.binding binding = some row.browserBindingHash ∧ d.get? stateHash = some row ∧
      OidcFlow.stored limits row = some flow ∧ clock.afterLock = some afterLock ∧
      clock.beforeCommit = some beforeCommit ∧ afterLock < row.expiresAt ∧
      beforeCommit < row.expiresAt ∧
      (flowStep digester limits d (.consume state binding clock commit)).2.get? stateHash = none := by
  have hresult : (transact (consumeBody digester limits state binding clock) commit d).1.bind
      (orFail .expired) = .ok flow := FlowResult.consumed.inj h
  obtain ⟨result, hbody, hsome⟩ := bind_eq_ok.mp hresult
  rw [orFail_eq_ok] at hsome
  obtain ⟨stateHash, row, flow', afterLock, beforeCommit, hstate, hbinding, hrow, hflow, hafter,
    hbefore, rfl, hd⟩ := consumeBody_eq_ok (transact_fst_ok hbody)
  split_ifs at hsome with hexpired
  obtain rfl := Option.some.inj hsome
  rw [not_or, not_le, not_le] at hexpired
  refine ⟨stateHash, row, afterLock, beforeCommit, hstate, hbinding, hrow, hflow, hafter, hbefore,
    hexpired.1, hexpired.2, ?_⟩
  show (transact (consumeBody digester limits state binding clock) commit d).2.get? stateHash = none
  rw [hd, SortedMap.get?_erase, if_pos rfl]

/-- The tokens of a kind that the calls of a run present. -/
def presented (calls : List FlowCall) : TokenKind → List Bytes
  | .oidcFlowState => calls.map FlowCall.state
  | .oidcBrowserBinding => calls.map FlowCall.binding
  | _ => []

/-- The MAC has no collision among the tokens that a run presents. -/
def FlowDigester.CollisionFree (digester : FlowDigester) (calls : List FlowCall) : Prop :=
  ∀ kind, ∀ a ∈ presented calls kind, ∀ b ∈ presented calls kind, ∀ x y,
    digester.tokenMac kind a = .ok x → digester.tokenMac kind b = .ok y →
      digester.hmac digester.pepper x = digester.hmac digester.pepper y → x = y

theorem FlowDigester.hash_eq_some {kind : TokenKind} {value : Bytes} {s : Str} :
    digester.hash kind value = some s ↔
      ∃ x, digester.tokenMac kind value = .ok x ∧ toSqlHex (digester.hmac digester.pepper x) = s := by
  rw [hash, CredentialDigester.token, CredentialDigester.digest]
  cases digester.tokenMac kind value <;> simp [Except.map, Except.toOption]

theorem FlowDigester.CollisionFree.hash_inj (h : digester.CollisionFree calls) {kind : TokenKind}
    {a b : Bytes} {s : Str} (ha : a ∈ presented calls kind) (hb : b ∈ presented calls kind)
    (hhash : digester.hash kind a = some s) (hhash' : digester.hash kind b = some s) : a = b := by
  obtain ⟨x, hx, hs⟩ := hash_eq_some.mp hhash
  obtain ⟨y, hy, hs'⟩ := hash_eq_some.mp hhash'
  have hmac : digester.hmac digester.pepper x = digester.hmac digester.pepper y :=
    Subtype.ext (hexEncode_injective (hs.trans hs'.symm))
  -- equal digests are of equal bytes, and those are framed
  obtain rfl := h kind a ha b hb x y hx hy hmac
  obtain ⟨hfields, hframed⟩ := @DigestCall.preimage_eq_ok _ (.token kind a) x hx
  obtain ⟨hfields', hframed'⟩ := @DigestCall.preimage_eq_ok _ (.token kind b) x hy
  exact (CredentialIdentity.token.inj
    (CredentialIdentity.framed_inj hfields hfields' (hframed.trans hframed'.symm))).2

theorem state_mem_presented {k : Nat} {call : FlowCall} (h : calls[k]? = some call) :
    call.state ∈ presented calls .oidcFlowState :=
  List.mem_map_of_mem (List.mem_of_getElem? h)

theorem binding_mem_presented {k : Nat} {call : FlowCall} (h : calls[k]? = some call) :
    call.binding ∈ presented calls .oidcBrowserBinding :=
  List.mem_map_of_mem (List.mem_of_getElem? h)

variable (digester limits) in
def tableAfter (codec : JsonCodec) (calls : List FlowCall) (k : Nat) : FlowTable codec :=
  flowRun digester limits (calls.take k)

theorem tableAfter_succ {k : Nat} {call : FlowCall} (h : calls[k]? = some call) :
    tableAfter digester limits codec calls (k + 1) =
      (flowStep digester limits (tableAfter digester limits codec calls k) call).2 := by
  rw [tableAfter, tableAfter, flowRun, flowRun, List.take_add_one, h, List.foldl_append]
  rfl

variable (digester limits) in
def SavedSince (calls : List FlowCall) (k : Nat) (stateHash : Str) (row : FlowRow codec) : Prop :=
  ∃ i state binding flow clock commit, i < k ∧
    calls[i]? = some (.save state binding flow clock commit) ∧
    digester.state state = some stateHash ∧
    digester.binding binding = some row.browserBindingHash ∧ row.Holds limits flow ∧
    ∀ m, i < m → m ≤ k → (tableAfter digester limits codec calls m).get? stateHash = some row

theorem savedSince {k : Nat} (hk : k ≤ calls.length)
    (hrow : (tableAfter digester limits codec calls k).get? stateHash = some row) :
    SavedSince digester limits calls k stateHash row := by
  induction k with
  | zero => cases hrow
  | succ k ih =>
    obtain ⟨call, hcall⟩ : ∃ call, calls[k]? = some call :=
      ⟨calls[k], List.getElem?_eq_getElem hk⟩
    -- a row that was there before the last call comes from an earlier one
    have hearlier : (tableAfter digester limits codec calls k).get? stateHash = some row →
        SavedSince digester limits calls (k + 1) stateHash row := by
      intro hbefore
      obtain ⟨i, state, binding, flow, clock, commit, hi, hsave, hstate, hbinding, hholds, hkept⟩ :=
        ih (Nat.le_of_succ_le hk) hbefore
      refine ⟨i, state, binding, flow, clock, commit, Nat.lt_succ_of_lt hi, hsave, hstate, hbinding,
        hholds, fun m hm hmk => ?_⟩
      rcases Nat.lt_or_eq_of_le hmk with hlt | rfl
      · exact hkept m hm (Nat.le_of_lt_succ hlt)
      · exact hrow
    have hrow' := hrow
    rw [tableAfter_succ hcall] at hrow'
    rcases @flowStep_cases codec digester limits (tableAfter digester limits codec calls k) call with
      h | ⟨state, binding, flow, clock, commit, stateHash', row', rfl, hstate, hbinding, hholds, -,
        h⟩ | ⟨_, _, _, _, stateHash', _, -, -, -, -, h⟩
    · rw [h] at hrow'
      exact hearlier hrow'
    · rw [h, SortedMap.get?_insert] at hrow'
      split_ifs at hrow' with heq
      · obtain rfl := Option.some.inj hrow'
        subst heq
        refine ⟨k, state, binding, flow, clock, commit, Nat.lt_succ_self k, hcall, hstate, hbinding,
          hholds, fun m hm hmk => ?_⟩
        obtain rfl := Nat.le_antisymm hmk hm
        exact hrow
      · exact hearlier hrow'
    · rw [h, SortedMap.get?_erase] at hrow'
      split_ifs at hrow'
      exact hearlier hrow'

variable (digester limits) in
/-- The consumption at `j` returns the flow that was saved at `i`: with its state and its binding,
before it has expired. The row of the flow is there until then, and gone afterwards. -/
def ReturnedFrom (codec : JsonCodec) (calls : List FlowCall) (i j : Nat) (flow : OidcFlow) : Prop :=
  i < j ∧ ∃ state binding clock commit clock' commit' afterLock beforeCommit stateHash row,
    calls[i]? = some (.save state binding flow clock commit) ∧
    calls[j]? = some (.consume state binding clock' commit') ∧
    clock'.afterLock = some afterLock ∧ clock'.beforeCommit = some beforeCommit ∧
    afterLock < flow.expiresAt ∧ beforeCommit < flow.expiresAt ∧
    digester.state state = some stateHash ∧
    (∀ m, i < m → m ≤ j → (tableAfter digester limits codec calls m).get? stateHash = some row) ∧
    (tableAfter digester limits codec calls (j + 1)).get? stateHash = none

theorem exists_returnedFrom (hfree : digester.CollisionFree calls) {j : Nat}
    {commit : Except (SqliteControlError × Bool) Unit}
    (hcall : calls[j]? = some (.consume state binding clock commit))
    (hresult : (flowStep digester limits (tableAfter digester limits codec calls j)
      (.consume state binding clock commit)).1 = .consumed (.ok flow)) :
    ∃ i, ReturnedFrom digester limits codec calls i j flow := by
  obtain ⟨stateHash, row, afterLock, beforeCommit, hstate, hbinding, hrow, hflow, hafter, hbefore,
    hafterLt, hbeforeLt, hgone⟩ := flowStep_returned hresult
  have hj : j ≤ calls.length := (List.getElem?_eq_some_iff.mp hcall).1.le
  obtain ⟨i, state', binding', flow', clock', commit', hi, hsave, hstate', hbinding', hholds, hkept⟩ :=
    savedSince hj hrow
  -- the digests do not collide, and the row decodes to what was saved
  obtain rfl : state = state' := hfree.hash_inj (state_mem_presented hcall)
    (state_mem_presented hsave) hstate hstate'
  obtain rfl : binding = binding' := hfree.hash_inj (binding_mem_presented hcall)
    (binding_mem_presented hsave) hbinding hbinding'
  obtain rfl := Option.some.inj (hflow.symm.trans hholds.stored_eq)
  rw [hholds.expiresAt] at hafterLt hbeforeLt
  rw [← tableAfter_succ hcall] at hgone
  exact ⟨i, hi, state, binding, clock', commit', clock, commit, afterLock, beforeCommit, stateHash, row,
    hsave, hcall, hafter, hbefore, hafterLt, hbeforeLt, hstate, hkept, hgone⟩

theorem ReturnedFrom.le {i j j' : Nat} {flow flow' : OidcFlow}
    (h : ReturnedFrom digester limits codec calls i j flow)
    (h' : ReturnedFrom digester limits codec calls i j' flow') : j' ≤ j := by
  obtain ⟨hij, state, _, _, _, _, _, _, _, stateHash, _, hsave, -, -, -, -, -, hstate, -, hgone⟩ := h
  obtain ⟨-, state', _, _, _, _, _, _, _, stateHash', row, hsave', -, -, -, -, -, hstate', hkept, -⟩ := h'
  obtain ⟨rfl, -⟩ := FlowCall.save.inj (Option.some.inj (hsave.symm.trans hsave'))
  obtain rfl := Option.some.inj (hstate.symm.trans hstate')
  by_contra hlt
  have hrow := hkept (j + 1) (Nat.lt_succ_of_lt hij) (Nat.lt_of_not_le hlt)
  rw [hgone] at hrow
  cases hrow

theorem tableAfter_keeps (hfree : digester.CollisionFree calls) {i k : Nat}
    {clock : SaveClock} {commit : Except (SqliteControlError × Bool) Unit}
    (hsave : calls[i]? = some (.save state binding flow clock commit)) (hik : i < k) (hk : k ≤ calls.length)
    (hstate : digester.state state = some stateHash)
    (hbinding : digester.binding binding = some row.browserBindingHash)
    (hrow : (tableAfter digester limits codec calls (i + 1)).get? stateHash = some row)
    (hnone : ∀ j, i < j → j < k → ∀ clock commit,
      calls[j]? ≠ some (.consume state binding clock commit)) :
    (tableAfter digester limits codec calls k).get? stateHash = some row := by
  induction k, hik using Nat.le_induction with
  | base => exact hrow
  | succ k hik ih =>
    have hbefore := ih (Nat.le_of_succ_le hk) fun j hj hjk => hnone j hj (Nat.lt_succ_of_lt hjk)
    obtain ⟨call, hcall⟩ : ∃ call, calls[k]? = some call :=
      ⟨calls[k], List.getElem?_eq_getElem hk⟩
    rw [tableAfter_succ hcall]
    refine flowStep_keeps hbefore fun state' binding' clock commit hconsume hstate' hbinding' => ?_
    subst hconsume
    obtain rfl : state = state' := hfree.hash_inj (state_mem_presented hsave)
      (state_mem_presented hcall) hstate hstate'
    obtain rfl : binding = binding' := hfree.hash_inj (binding_mem_presented hsave)
      (binding_mem_presented hcall) hbinding hbinding'
    exact hnone k hik (Nat.lt_succ_self k) clock commit hcall

/-- **Flows are consumed at most once and always decode.** A flow that is returned was saved with the
presented state and binding and has not expired; no save is returned from twice. The row of an
accepted save stays until a call presents its state and its binding, decodes to what was saved, and
gives the flow at any time between its creation and its expiry. The MAC is assumed not to collide on
the tokens of the run. -/
theorem flows_consumed_once (codec : JsonCodec) (digester : FlowDigester) (limits : FlowLimits)
    (calls : List FlowCall) (hfree : digester.CollisionFree calls) :
    (∀ j state binding clock commit flow,
      calls[j]? = some (.consume state binding clock commit) →
      (flowStep digester limits (tableAfter digester limits codec calls j)
        (.consume state binding clock commit)).1 = .consumed (.ok flow) →
      ∃ i, ReturnedFrom digester limits codec calls i j flow) ∧
    (∀ i j j' flow flow', ReturnedFrom digester limits codec calls i j flow →
      ReturnedFrom digester limits codec calls i j' flow' → j = j') ∧
    ∀ i state binding flow clock commit,
      calls[i]? = some (.save state binding flow clock commit) →
      (flowStep digester limits (tableAfter digester limits codec calls i)
        (.save state binding flow clock commit)).1 = .saved (.ok ()) →
      ∃ stateHash, ∃ row : FlowRow codec, digester.state state = some stateHash ∧
        OidcFlow.stored limits row = some flow ∧ clock.created = some row.createdAt ∧
        row.createdAt < flow.expiresAt ∧
        ∀ k, i < k → k ≤ calls.length →
          ((∀ j, i < j → j < k → ∀ clock' commit',
              calls[j]? ≠ some (.consume state binding clock' commit')) →
            (tableAfter digester limits codec calls k).get? stateHash = some row) ∧
          ((tableAfter digester limits codec calls k).get? stateHash = some row →
            ∀ (clock' : ConsumeClock) afterLock beforeCommit,
              clock'.afterLock = some afterLock → clock'.beforeCommit = some beforeCommit →
              row.createdAt ≤ afterLock → row.createdAt ≤ beforeCommit →
              (flowStep digester limits (tableAfter digester limits codec calls k)
                (.consume state binding clock' (.ok ()))).1 =
                .consumed (if flow.expiresAt ≤ afterLock ∨ flow.expiresAt ≤ beforeCommit then
                  .error .expired else .ok flow)) := by
  refine ⟨fun j state binding clock commit flow => exists_returnedFrom hfree,
    fun i j j' flow flow' h h' => Nat.le_antisymm (h'.le h) (h.le h'),
    fun i state binding flow clock commit hcall hsaved => ?_⟩
  have hok : (transact (saveBody digester limits state binding flow clock) commit
      (tableAfter digester limits codec calls i)).1 = .ok () := FlowResult.saved.inj hsaved
  obtain ⟨stateHash, row, hstate, hbinding, hholds, hcreated, -, hd⟩ :=
    saveBody_eq_ok (transact_fst_ok hok)
  have hrow : (tableAfter digester limits codec calls (i + 1)).get? stateHash = some row := by
    rw [tableAfter_succ hcall]
    show (transact (saveBody digester limits state binding flow clock) commit
      (tableAfter digester limits codec calls i)).2.get? stateHash = some row
    rw [hd, SortedMap.get?_insert, if_pos rfl]
  refine ⟨stateHash, row, hstate, hholds.stored_eq, hcreated, hholds.expiresAt ▸ hholds.lifetime.1,
    fun k hik hk => ⟨tableAfter_keeps hfree hcall hik hk hstate hbinding hrow, ?_⟩⟩
  intro hthere clock' afterLock beforeCommit hafter hbefore hafterLe hbeforeLe
  have hbody := consumeBody_of_holds hstate hbinding hthere hholds hafter hbefore
    ⟨hafterLe, hbeforeLe⟩
  simp only [flowStep, transact, hbody]
  split_ifs <;> rfl

namespace Sample

def flowPepper : Bytes := utf8 "0123456789abcdef0123456789abcdef".toList

/-- The bytes that are authenticated of a token. -/
def flowMac (kind : TokenKind) (value : String) : Bytes :=
  macInput (digestFrame ++ [kind.discriminant, 1]) [utf8 value.toList]

def hexDigest (value : Nat) : Digest :=
  ⟨beBytes 32 value, length_beBytes 32 value⟩

/-- HMAC-SHA256 of the three tokens of the run below. -/
def flowHmac (key message : Bytes) : Digest :=
  if key ≠ flowPepper then hexDigest 0
  else if message = flowMac .oidcFlowState "state" then
    hexDigest 0x13c1c3c2d8531b4f6d5651bb6cf46c032edad146ec5c00e0f1404f0b26842fa3
  else if message = flowMac .oidcBrowserBinding "laptop" then
    hexDigest 0x39362fb1127fdee53e01c7702d500838a46cb9ab19089a69526b1a2dbdbd4dbf
  else if message = flowMac .oidcBrowserBinding "phone" then
    hexDigest 0x94c6c4f628e7dc28345dcdcab049b86d330fa150b05edf5730eb78507995ee4f
  else hexDigest 1

def flowDigester : FlowDigester where
  pepper := flowPepper
  limits := ⟨⟨48, by decide⟩, ⟨48, by decide⟩, ⟨48, by decide⟩, ⟨48, by decide⟩, ⟨48, by decide⟩,
    by decide⟩
  minPepper_le := by decide +kernel
  pepper_le := by decide +kernel
  hmac := flowHmac

def flowLimits : FlowLimits := ⟨64, 64, 256⟩

def loginFlow : OidcFlow where
  nonce := "n".toList
  pkceVerifier := List.replicate 43 'v'
  continuation := .oauth "idp".toList "request \"1\"".toList
  expiresAt := 900

def saveLogin : FlowCall :=
  .save (utf8 "state".toList) (utf8 "laptop".toList) loginFlow ⟨some 100, some 100, some 101⟩ (.ok ())

def consumeAs (browser : String) (time : Nat) : FlowCall :=
  .consume (utf8 "state".toList) (utf8 browser.toList) ⟨some time, some time⟩ (.ok ())

/-- A login, an attempt from another browser, the return to the first one, and a replay. -/
def loginCalls : List FlowCall :=
  [saveLogin, consumeAs "phone" 200, consumeAs "laptop" 300, consumeAs "laptop" 301]

theorem collisionFree_loginCalls : flowDigester.CollisionFree loginCalls := by
  have hsame : ∀ {kind : TokenKind} {a x y : Bytes}, flowDigester.tokenMac kind a = .ok x →
      flowDigester.tokenMac kind a = .ok y → x = y := fun hx hy => Except.ok.inj (hx.symm.trans hy)
  have hlaptop : flowDigester.tokenMac .oidcBrowserBinding (utf8 "laptop".toList) =
      .ok (flowMac .oidcBrowserBinding "laptop") := by decide +kernel
  have hphone : flowDigester.tokenMac .oidcBrowserBinding (utf8 "phone".toList) =
      .ok (flowMac .oidcBrowserBinding "phone") := by decide +kernel
  have hdistinct : flowHmac flowPepper (flowMac .oidcBrowserBinding "laptop") ≠
      flowHmac flowPepper (flowMac .oidcBrowserBinding "phone") := by decide +kernel
  intro kind a ha b hb x y hx hy hmac
  cases kind with
  | oidcFlowState =>
    have hstates : ∀ c ∈ presented loginCalls .oidcFlowState, c = utf8 "state".toList := by
      simp [presented, loginCalls, saveLogin, consumeAs, FlowCall.state]
    obtain rfl := hstates a ha
    obtain rfl := hstates b hb
    exact hsame hx hy
  | oidcBrowserBinding =>
    have hbindings : ∀ c ∈ presented loginCalls .oidcBrowserBinding,
        c = utf8 "laptop".toList ∨ c = utf8 "phone".toList := by
      simp [presented, loginCalls, saveLogin, consumeAs, FlowCall.binding]
    rcases hbindings a ha with rfl | rfl <;> rcases hbindings b hb with rfl | rfl
    · exact hsame hx hy
    · obtain rfl := Except.ok.inj (hlaptop.symm.trans hx)
      obtain rfl := Except.ok.inj (hphone.symm.trans hy)
      exact absurd hmac hdistinct
    · obtain rfl := Except.ok.inj (hphone.symm.trans hx)
      obtain rfl := Except.ok.inj (hlaptop.symm.trans hy)
      exact absurd hmac.symm hdistinct
    · exact hsame hx hy
  | _ => cases ha

end Sample

/-- Another browser neither gets the flow nor takes it away, the first one gets it, and a replay finds
nothing. -/
theorem flows_consumed_once_replay :
    (flowStep Sample.flowDigester Sample.flowLimits
        (tableAfter Sample.flowDigester Sample.flowLimits Sample.codec Sample.loginCalls 1)
        (Sample.consumeAs "phone" 200)).1 = .consumed (.error .unavailable) ∧
      (∃ stateHash row, Sample.flowDigester.state (utf8 "state".toList) = some stateHash ∧
        (tableAfter Sample.flowDigester Sample.flowLimits Sample.codec Sample.loginCalls 2).get?
          stateHash = some row ∧ row.createdAt = 100) ∧
      ReturnedFrom Sample.flowDigester Sample.flowLimits Sample.codec Sample.loginCalls 0 2
        Sample.loginFlow ∧
      (flowStep Sample.flowDigester Sample.flowLimits
        (tableAfter Sample.flowDigester Sample.flowLimits Sample.codec Sample.loginCalls 3)
        (Sample.consumeAs "laptop" 301)).1 = .consumed (.error .unavailable) := by
  have honce := flows_consumed_once Sample.codec Sample.flowDigester Sample.flowLimits
    Sample.loginCalls Sample.collisionFree_loginCalls
  have hsaved : (flowStep Sample.flowDigester Sample.flowLimits
      (tableAfter Sample.flowDigester Sample.flowLimits Sample.codec Sample.loginCalls 0)
      Sample.saveLogin).1 = .saved (.ok ()) := by decide +kernel
  have hreturned : (flowStep Sample.flowDigester Sample.flowLimits
      (tableAfter Sample.flowDigester Sample.flowLimits Sample.codec Sample.loginCalls 2)
      (Sample.consumeAs "laptop" 300)).1 = .consumed (.ok Sample.loginFlow) := by decide +kernel
  refine ⟨by decide +kernel, ?_, ?_, by decide +kernel⟩
  · obtain ⟨stateHash, row, hstate, -, hcreated, -, hrow⟩ :=
      honce.2.2 0 _ _ _ _ _ (rfl : Sample.loginCalls[0]? = some Sample.saveLogin) hsaved
    refine ⟨stateHash, row, hstate, (hrow 2 (by decide) (by decide)).1 ?_,
      (Option.some.inj hcreated).symm⟩
    intro j hj hj' clock commit hcall
    obtain rfl : j = 1 := by omega
    obtain ⟨-, hbinding, -⟩ := FlowCall.consume.inj (Option.some.inj hcall)
    exact absurd hbinding (by decide +kernel)
  · obtain ⟨i, hfrom⟩ := honce.1 2 _ _ _ _ _
      (rfl : Sample.loginCalls[2]? = some (Sample.consumeAs "laptop" 300)) hreturned
    -- only the first call saves
    obtain ⟨hi, _, _, _, _, _, _, _, _, _, _, hsave, -⟩ := id hfrom
    have hother : i ≠ 1 := by
      rintro rfl
      cases hsave
    obtain rfl : i = 0 := by omega
    exact hfrom

end GraphitBroker
