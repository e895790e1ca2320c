import GraphitBroker.OidcTokens
import GraphitBroker.Lib.ExceptList

/-!
# Families of refresh tokens

A family starts with the exchange of a code and grows by rotation, one refresh token at a time.
-/

namespace GraphitBroker

open ExceptList Transactions

variable {row : LocalToken} {hash family : Str} {admitted : AdmittedRefresh}
  {input : OidcRefreshInput} {result : OidcTokenExchangeResult}

def LocalToken.Refresh (t : LocalToken) : Prop := t.kind = refreshKind

def LocalToken.Live (t : LocalToken) : Prop := t.consumedAt = none ∧ t.revokedAt = none

structure LocalToken.SameGrant (t u : LocalToken) : Prop where
  oidcSubject : t.oidcSubject = u.oidcSubject
  client : t.client = u.client
  audience : t.audience = u.audience
  resource : t.resource = u.resource
  authTime : t.authTime = u.authTime

structure Families (tokens : SortedMap Str LocalToken) : Prop where
  named : ∀ {h t}, tokens.get? h = some t → t.Refresh → t.family ≠ []
  live : ∀ {h k t u}, tokens.get? h = some t → tokens.get? k = some u → t.Refresh → u.Refresh →
    t.family = u.family → t.Live → u.Live → h = k
  grant : ∀ {h k t u}, tokens.get? h = some t → tokens.get? k = some u → t.Refresh →
    t.family = u.family → t.SameGrant u
  expiry : ∀ {h k t u}, tokens.get? h = some t → tokens.get? k = some u → t.Refresh → u.Refresh →
    t.family = u.family → t.expiresAt = u.expiresAt
  revoked : ∀ {h k t u}, tokens.get? h = some t → tokens.get? k = some u → t.Refresh →
    t.family = u.family → t.revokedAt ≠ none → u.revokedAt ≠ none

theorem Families.empty : Families SortedMap.empty := by
  constructor <;> simp

section Operations

variable {tokens : SortedMap Str LocalToken}

theorem Families.consume (hd : Families tokens) (hrow : tokens.get? hash = some row) (now : Int) :
    Families (tokens.insert hash { row with consumedAt := some now, lastUsedAt := some now }) := by
  obtain ⟨hnamed, hlive, hgrant, hexpiry, hrevoked⟩ := hd
  constructor
  all_goals
    simp only [SortedMap.get?_insert, LocalToken.Refresh, LocalToken.Live]
    grind [LocalToken.SameGrant, LocalToken.Refresh, LocalToken.Live]

theorem Families.insertOther (hd : Families tokens) (hkind : ¬ row.Refresh)
    (hfamily : ∀ {k u}, tokens.get? k = some u → u.Refresh → u.family = row.family →
      u.SameGrant row ∧ u.revokedAt = none) : Families (tokens.insert hash row) := by
  obtain ⟨hnamed, hlive, hgrant, hexpiry, hrevoked⟩ := hd
  constructor
  all_goals
    simp only [SortedMap.get?_insert]
    grind

theorem Families.insertRefresh (hd : Families tokens)
    (hnamed : row.family ≠ []) (hrevoked : row.revokedAt = none)
    (hgrant : ∀ {k u}, tokens.get? k = some u → u.family = row.family → row.SameGrant u)
    (hfamily : ∀ {k u}, tokens.get? k = some u → u.Refresh → u.family = row.family →
      u.expiresAt = row.expiresAt ∧ ¬ u.Live ∧ u.revokedAt = none) :
    Families (tokens.insert hash row) := by
  have hsymm : ∀ {t u : LocalToken}, t.SameGrant u → u.SameGrant t := fun h =>
    ⟨h.oidcSubject.symm, h.client.symm, h.audience.symm, h.resource.symm, h.authTime.symm⟩
  have hrefl : ∀ t : LocalToken, t.SameGrant t := fun t => ⟨rfl, rfl, rfl, rfl, rfl⟩
  obtain ⟨hnamed', hlive', hgrant', hexpiry', hrevoked'⟩ := hd
  constructor
  all_goals
    simp only [SortedMap.get?_insert]
    grind

theorem Families.revoke (hd : Families tokens) {p : Str → LocalToken → Bool} {now : Int}
    (hall : ∀ {h k t u}, tokens.get? h = some t → tokens.get? k = some u → t.Refresh →
      t.family = u.family → p h t = true → p k u = true) :
    Families (tokens.mapValues fun hash t =>
      if p hash t = true ∧ t.revokedAt = none then { t with revokedAt := some now } else t) := by
  obtain ⟨hnamed, hlive, hgrant, hexpiry, hrevoked⟩ := hd
  constructor
  all_goals
    simp only [SortedMap.get?_mapValues, Option.map_eq_some_iff]
    grind [LocalToken.SameGrant, LocalToken.Refresh, LocalToken.Live]

end Operations

variable {env : OidcEnv} {policy : OidcPolicy} {d d' : ControlDb}

theorem insertToken_eq_ok {site : Nat} (h : d.insertToken env site hash row = .ok d') :
    d.tokens.get? hash = none ∧ d' = { d with tokens := d.tokens.insert hash row } := by
  simp only [ControlDb.insertToken, bind_eq_ok, failIf_eq_ok] at h
  obtain ⟨_, -, _, hnew, h⟩ := h
  exact ⟨by simpa using hnew, (Except.ok.inj h).symm⟩

theorem refreshRow_eq_some :
    d.refreshRow hash = some row ↔ d.tokens.get? hash = some row ∧ row.Refresh := by
  simp [ControlDb.refreshRow, Option.filter_eq_some_iff, LocalToken.Refresh]

theorem narrowScopes_subset {granted : List Str} :
    ∀ {asked result scopes : List Str}, narrowScopes env granted asked result = .ok scopes →
      result ⊆ granted → scopes ⊆ granted
  | [], result, scopes, h, hresult => Except.ok.inj h ▸ hresult
  | token :: rest, result, scopes, h, hresult => by
    simp only [narrowScopes, bind_eq_ok, failIf_eq_ok] at h
    obtain ⟨_, -, _, hgranted, h⟩ := h
    refine narrowScopes_subset h ?_
    push Not at hgranted
    split
    · exact hresult
    · simpa using ⟨hresult, hgranted.2⟩

theorem requestedScopes_subset {raw : Option Str} {granted scopes : List Str}
    (h : requestedScopes env raw granted = .ok scopes) : scopes ⊆ granted := by
  simp only [requestedScopes, bind_eq_ok] at h
  obtain ⟨_, -, h⟩ := h
  cases raw with
  | none => exact Except.ok.inj h ▸ List.Subset.refl granted
  | some raw =>
    simp only [bind_eq_ok] at h
    obtain ⟨_, -, h⟩ := h
    exact narrowScopes_subset h (List.nil_subset granted)

theorem admitRefresh_eq_ok (h : admitRefresh env policy input d = .ok admitted) :
    d.refreshRow admitted.hash = some admitted.row ∧ admitted.client = admitted.row.client ∧
      admitted.scopes ⊆ admitted.row.scopes := by
  simp only [admitRefresh, bind_eq_ok] at h
  obtain ⟨request, -, _, -, row, hrow, _, -, checked, hchecked, h⟩ := h
  obtain rfl := Except.ok.inj h
  simp only [checkRefresh, bind_eq_ok, failIf_eq_ok, not_not] at hchecked
  obtain ⟨_, hclient, _, -, _, -, principal, -, _, -, _, -, _, -, scopes, hscopes, hchecked⟩ := hchecked
  obtain rfl := Except.ok.inj hchecked
  refine ⟨?_, hclient.symm, requestedScopes_subset hscopes⟩
  unfold findRefresh at hrow
  split at hrow
  · cases hrow
  · rename_i found hfound
    exact hfound.trans (congrArg some (Except.ok.inj hrow))

def AdmittedRefresh.successor (admitted : AdmittedRefresh) (issuedAt : Int) :
    Str → Str → Int → LocalToken :=
  tokenRow admitted.principal admitted.row.oidcSubject admitted.client admitted.row.audience
    admitted.row.resource admitted.scopes admitted.row.family admitted.row.authTime issuedAt

def AdmittedRefresh.consumed (admitted : AdmittedRefresh) (issuedAt : Int) : LocalToken :=
  { admitted.row with consumedAt := some issuedAt, lastUsedAt := some issuedAt }

structure Rotated (policy : OidcPolicy) (admitted : AdmittedRefresh) (result : OidcTokenExchangeResult)
    (d d' : ControlDb) where
  issuedAt : Int
  id : Str
  refresh : Str
  live : admitted.row.Live
  issued : result.refresh = some refresh
  newAccess : (d.tokens.insert admitted.hash (admitted.consumed issuedAt)).get?
    (policy.accessHash result.access) = none
  newRefresh : ((d.tokens.insert admitted.hash (admitted.consumed issuedAt)).insert
    (policy.accessHash result.access) (admitted.successor issuedAt result.access accessKind
      result.expiresAt)).get? (policy.refreshHash refresh) = none
  tokens : d'.tokens = ((d.tokens.insert admitted.hash (admitted.consumed issuedAt)).insert
    (policy.accessHash result.access) (admitted.successor issuedAt result.access accessKind
      result.expiresAt)).insert (policy.refreshHash refresh)
        (admitted.successor issuedAt id refreshKind admitted.row.expiresAt)

theorem issueRefresh_eq_ok {r : RotateResult}
    (h : issueRefresh env policy admitted d = .ok (r, d')) :
    ∃ result, r = .rotated result ∧ Nonempty (Rotated policy admitted result d d') := by
  simp only [issueRefresh, bind_eq_ok, failIf_eq_ok] at h
  obtain ⟨_, -, _, -, _, -, issuedAt, -, expiresAt, -, jti, -, _, -, suffix, -, id, -, _, -, _, -, _, -,
    _, hmatches, d₁, hd₁, d₂, hd₂, _, -, _, -, _, -, h⟩ := h
  obtain ⟨rfl, rfl⟩ := Prod.mk.inj (Except.ok.inj h)
  obtain ⟨hnew₁, rfl⟩ := insertToken_eq_ok hd₁
  obtain ⟨hnew₂, rfl⟩ := insertToken_eq_ok hd₂
  push Not at hmatches
  exact ⟨_, rfl, ⟨issuedAt, id, _, ⟨hmatches.2.2.1, hmatches.2.2.2.1⟩, rfl, hnew₁, hnew₂, rfl⟩⟩

theorem rotateBody_eq_ok {r : RotateResult} (h : rotateBody env policy input d = .ok (r, d')) :
    ∃ admitted, admitRefresh env policy input d = .ok admitted ∧
      ((r = .reused ∧ ∃ now, d' = d.revokeTokens (fun _ t => t.family = admitted.row.family) now) ∨
        ∃ result, r = .rotated result ∧ Nonempty (Rotated policy admitted result d d')) := by
  simp only [rotateBody, bind_eq_ok] at h
  obtain ⟨admitted, hadmitted, _, -, _, -, h⟩ := h
  refine ⟨admitted, hadmitted, ?_⟩
  split at h
  · simp only [reuseRefresh, ControlDb.revokeFamily, bind_eq_ok] at h
    obtain ⟨now, -, d₁, ⟨_, -, _, -, hd₁⟩, _, -, h⟩ := h
    obtain ⟨rfl, rfl⟩ := Prod.mk.inj (Except.ok.inj h)
    exact .inl ⟨rfl, now, (Except.ok.inj hd₁).symm⟩
  · exact .inr (issueRefresh_eq_ok h)

/-- The tokens that an exchange adds: an access token, and with `offline_access` a refresh token of the
same, new family. -/
inductive Exchanged (env : OidcEnv) (policy : OidcPolicy) (d d' : ControlDb) : Prop where
  | access (hash : Str) (row : LocalToken) (hnew : d.tokens.get? hash = none)
      (hkind : row.kind = accessKind) (haudience : row.audience = policy.apiAudience)
      (hfamily : row.family = []) (htokens : d'.tokens = d.tokens.insert hash row)
  | offline (hash refreshHash : Str) (row refresh : LocalToken) (hnew : d.tokens.get? hash = none)
      (hnew' : (d.tokens.insert hash row).get? refreshHash = none)
      (hkind : row.kind = accessKind) (haudience : row.audience = policy.apiAudience)
      (hkind' : refresh.kind = refreshKind) (hrevoked : refresh.revokedAt = none)
      (hgrant : refresh.SameGrant row) (hfamily : env.random 5 = some row.family)
      (hfamily' : refresh.family = row.family)
      (htokens : d'.tokens = (d.tokens.insert hash row).insert refreshHash refresh)

theorem firstRefresh_eq_ok {scopes : List Str} {first : Str × Option Str}
    (h : firstRefresh env scopes = .ok first) :
    first = ([], none) ∨ ∃ refresh, env.random 5 = some first.1 ∧ first.2 = some refresh := by
  unfold firstRefresh at h
  split at h
  · simp only [bind_eq_ok, OidcEnv.draw] at h
    obtain ⟨family, hfamily, suffix, -, h⟩ := h
    obtain rfl := Except.ok.inj h
    refine .inr ⟨_, ?_, rfl⟩
    split at hfamily
    · cases hfamily
    · rename_i value hvalue
      exact hvalue.trans (congrArg some (Except.ok.inj hfamily))
  · exact .inl (Except.ok.inj h).symm

theorem exchangeBody_eq_ok
    (h : exchangeBody env policy d = .ok (result, d')) : Exchanged env policy d d' := by
  simp only [exchangeBody, bind_eq_ok] at h
  obtain ⟨grant, -, _, -, issuedAt, -, expiresAt, -, jti, -, _, -, first, hfirst, _, -, d₁, hd₁, d₂, hd₂,
    _, -, _, -, _, -, _, -, _, -, _, -, h⟩ := h
  obtain ⟨rfl, rfl⟩ := Prod.mk.inj (Except.ok.inj h)
  obtain ⟨hnew, rfl⟩ := insertToken_eq_ok hd₁
  rcases firstRefresh_eq_ok hfirst with rfl | ⟨refresh, hfamily, hrefresh⟩
  · obtain rfl := Except.ok.inj hd₂
    exact .access _ _ hnew rfl rfl rfl rfl
  · simp only [hrefresh, insertFirstRefresh, bind_eq_ok] at hd₂
    obtain ⟨id, -, _, -, hd₂⟩ := hd₂
    obtain ⟨hnew', rfl⟩ := insertToken_eq_ok hd₂
    refine .offline _ _ _ _ hnew hnew' rfl rfl ?_ ?_ ?_ hfamily ?_ rfl
    · rfl
    · rfl
    · exact ⟨rfl, rfl, rfl, rfl, rfl⟩
    · rfl

/-- What a revocation revokes: nothing, the family of a refresh token that its client presents, or
tokens that are no refresh tokens. -/
inductive Revocation (policy : OidcPolicy) (d : ControlDb) : ControlDb → Prop where
  | nothing : Revocation policy d d
  | family (hash : Str) (row : LocalToken) (now : Int) (hrow : d.refreshRow hash = some row) :
      Revocation policy d (d.revokeTokens (fun _ t => t.family = row.family ∧ t.client = row.client ∧
        t.audience = policy.apiAudience) now)
  | access (p : Str → LocalToken → Bool) (now : Int)
      (hp : ∀ hash t, p hash t = true → t.kind = accessKind) :
      Revocation policy d (d.revokeTokens p now)

variable {p : Str → LocalToken → Bool} {tokens : SortedMap Str LocalToken}

theorem revokeFamily_eq_ok {site : Nat} {now : Int}
    (h : d.revokeFamily env site p now = .ok d') : d' = d.revokeTokens p now := by
  simp only [ControlDb.revokeFamily, bind_eq_ok] at h
  obtain ⟨_, -, _, -, h⟩ := h
  exact (Except.ok.inj h).symm

theorem revokeRefresh_eq_ok (hrow : d.refreshRow hash = some row)
    (h : revokeRefresh env policy row.client row d = .ok d') : Revocation policy d d' := by
  simp only [revokeRefresh, bind_eq_ok] at h
  obtain ⟨_, -, _, -, now, -, _, -, _, -, h⟩ := h
  split at h
  · simp only [bind_eq_ok] at h
    obtain ⟨_, -, h⟩ := h
    obtain rfl := revokeFamily_eq_ok h
    exact .family hash row now hrow
  · obtain rfl := Except.ok.inj h
    exact .nothing

theorem revokeAccess_eq_ok {client : Str} {proof : AccessProof}
    (h : revokeAccess env policy client proof d = .ok d') : Revocation policy d d' := by
  unfold revokeAccess at h
  split at h
  · obtain rfl := Except.ok.inj h
    exact .nothing
  · split at h
    · simp only [bind_eq_ok] at h
      obtain ⟨now, -, _, -, h⟩ := h
      obtain rfl := Except.ok.inj h
      exact .access _ now (by simp +contextual)
    · obtain rfl := Except.ok.inj h
      exact .nothing

theorem revokeToken_eq_ok {raw client : Str} {proof : Option AccessProof}
    (h : revokeToken env policy raw client proof d = .ok d') : Revocation policy d d' := by
  unfold revokeToken at h
  split at h
  · unfold revokePresented at h
    split at h
    · obtain rfl := Except.ok.inj h
      exact .nothing
    · rename_i row hrow
      simp only [bind_eq_ok] at h
      obtain ⟨_, -, h⟩ := h
      split at h
      · rename_i hclient
        exact revokeRefresh_eq_ok hrow (hclient ▸ h)
      · obtain rfl := Except.ok.inj h
        exact .nothing
  · split at h
    · obtain rfl := Except.ok.inj h
      exact .nothing
    · exact revokeAccess_eq_ok h

theorem revokeBody_eq_ok {input : OidcRevocationInput} {u : Unit}
    (h : revokeBody env policy input d = .ok (u, d')) : Revocation policy d d' := by
  simp only [revokeBody, bind_eq_ok] at h
  obtain ⟨_, -, _, -, raw, -, client, -, _, -, proof, -, _, -, _, -, d₁, hd₁, _, -, h⟩ := h
  obtain ⟨-, rfl⟩ := Prod.mk.inj (Except.ok.inj h)
  exact revokeToken_eq_ok hd₁

def FreshFamily (env : OidcEnv) (tokens : SortedMap Str LocalToken) : Prop :=
  ∀ family, env.random 5 = some family → family ≠ [] ∧
    ∀ h t, tokens.get? h = some t → t.family ≠ family

theorem not_refresh_of_access {t : LocalToken} (h : t.kind = accessKind) : ¬ t.Refresh := by
  intro hrefresh
  rw [LocalToken.Refresh, h] at hrefresh
  revert hrefresh
  decide

structure TokenTable (policy : OidcPolicy) (tokens : SortedMap Str LocalToken) : Prop where
  families : Families tokens
  audience : ∀ {h t}, tokens.get? h = some t → t.audience = policy.apiAudience

theorem TokenTable.exchanged (hd : TokenTable policy d.tokens) (hfresh : FreshFamily env d.tokens)
    (h : Exchanged env policy d d') : TokenTable policy d'.tokens := by
  have haudience := @hd.audience
  have hnamed := @hd.families.named
  cases h with
  | access hash row hnew hkind haudience' hfamily htokens =>
    rw [htokens]
    refine ⟨hd.families.insertOther (not_refresh_of_access hkind) ?_, ?_⟩
    · intro k u hk hu huf
      exact absurd (huf.trans hfamily) (hnamed hk hu)
    · simp only [SortedMap.get?_insert]
      grind
  | offline hash refreshHash row refresh hnew hnew' hkind haudience' hkind' hrevoked hgrant hfamily
      hfamily' htokens =>
      obtain ⟨hne, hunused⟩ := hfresh _ hfamily
      rw [htokens]
      have hrefresh := not_refresh_of_access hkind
      have haccess : Families (d.tokens.insert hash row) :=
        hd.families.insertOther hrefresh fun hk _ huf => absurd huf (hunused _ _ hk)
      refine ⟨haccess.insertRefresh (by rwa [hfamily']) hrevoked ?_ ?_, ?_⟩
      all_goals
        have haudience'' := hgrant.audience
        simp only [SortedMap.get?_insert]
        grind

/-- The table in which an admitted token is consumed has no other token of its family that is live, and
none that is revoked. -/
structure ConsumedFamily (admitted : AdmittedRefresh) (table : SortedMap Str LocalToken) : Prop where
  families : Families table
  grant : ∀ {k u}, table.get? k = some u → u.family = admitted.row.family → admitted.row.SameGrant u
  refresh : ∀ {k u}, table.get? k = some u → u.Refresh → u.family = admitted.row.family →
    u.expiresAt = admitted.row.expiresAt ∧ ¬ u.Live ∧ u.revokedAt = none

theorem Families.consumedFamily (hd : Families tokens)
    (hrow : tokens.get? admitted.hash = some admitted.row)
    (hrefresh : admitted.row.Refresh) (hlive : admitted.row.Live) (issuedAt : Int) :
    ConsumedFamily admitted (tokens.insert admitted.hash (admitted.consumed issuedAt)) := by
  have hconsumed := hd.consume hrow issuedAt
  have hget : (tokens.insert admitted.hash (admitted.consumed issuedAt)).get? admitted.hash =
      some (admitted.consumed issuedAt) := by
    simp [SortedMap.get?_insert]
  refine ⟨hconsumed, fun hk huf => ?_, fun {k u} hk hu huf => ⟨?_, ?_, ?_⟩⟩
  · have hgrant := hconsumed.grant hget hk hrefresh huf.symm
    exact ⟨hgrant.oidcSubject, hgrant.client, hgrant.audience, hgrant.resource, hgrant.authTime⟩
  · exact (hconsumed.expiry hget hk hrefresh hu huf.symm).symm
  · intro hulive
    rw [SortedMap.get?_insert] at hk
    split at hk
    · obtain rfl := Option.some.inj hk
      cases hulive.1
    · rename_i hkey
      exact hkey (hd.live hk hrow hu hrefresh huf hulive hlive)
  · by_contra hne
    exact hconsumed.revoked hk hget hu huf hne hlive.2

theorem Rotated.tokenTable
    (h : Rotated policy admitted result d d') (hd : TokenTable policy d.tokens)
    (hrow : d.tokens.get? admitted.hash = some admitted.row) (hrefresh : admitted.row.Refresh)
    (hclient : admitted.client = admitted.row.client) : TokenTable policy d'.tokens := by
  obtain ⟨issuedAt, id, refresh, hlive, -, -, -, htokens⟩ := h
  have hconsumed := hd.families.consumedFamily hrow hrefresh hlive issuedAt
  have haudience := hd.audience hrow
  have hnamed : (admitted.successor issuedAt id refreshKind admitted.row.expiresAt).family ≠ [] := by
    exact fun hempty => hd.families.named hrow hrefresh hempty
  have haccess : Families ((d.tokens.insert admitted.hash (admitted.consumed issuedAt)).insert
      (policy.accessHash result.access)
      (admitted.successor issuedAt result.access accessKind result.expiresAt)) := by
    refine hconsumed.families.insertOther (not_refresh_of_access rfl) fun hk hu huf => ⟨?_, ?_⟩
    · have hgrant := hconsumed.grant hk huf
      exact ⟨hgrant.oidcSubject.symm, hgrant.client.symm.trans hclient.symm, hgrant.audience.symm,
        hgrant.resource.symm, hgrant.authTime.symm⟩
    · exact (hconsumed.refresh hk hu huf).2.2
  rw [htokens]
  refine ⟨haccess.insertRefresh hnamed rfl (fun hk huf => ?_)
    (fun hk hu huf => ?_), fun hk => ?_⟩
  · rw [SortedMap.get?_insert] at hk
    split at hk
    · obtain rfl := Option.some.inj hk
      exact ⟨rfl, rfl, rfl, rfl, rfl⟩
    · have hgrant := hconsumed.grant hk huf
      exact ⟨hgrant.oidcSubject, hclient.trans hgrant.client, hgrant.audience, hgrant.resource,
        hgrant.authTime⟩
  · rw [SortedMap.get?_insert] at hk
    split at hk
    · obtain rfl := Option.some.inj hk
      exact absurd hu (not_refresh_of_access rfl)
    · exact hconsumed.refresh hk hu huf
  · simp only [SortedMap.get?_insert] at hk
    split_ifs at hk
    · obtain rfl := Option.some.inj hk
      exact haudience
    · obtain rfl := Option.some.inj hk
      exact haudience
    · obtain rfl := Option.some.inj hk
      exact haudience
    · exact hd.audience hk

theorem TokenTable.revokeTokens (hd : TokenTable policy d.tokens)
    (hall : ∀ {h k t u}, d.tokens.get? h = some t → d.tokens.get? k = some u → t.Refresh →
      t.family = u.family → p h t = true → p k u = true) (now : Int) :
    TokenTable policy (d.revokeTokens p now).tokens := by
  refine ⟨hd.families.revoke hall, fun hk => ?_⟩
  have haudience := @hd.audience
  simp only [ControlDb.revokeTokens, SortedMap.get?_mapValues, Option.map_eq_some_iff] at hk
  grind

theorem TokenTable.revocation (hd : TokenTable policy d.tokens) (h : Revocation policy d d') :
    TokenTable policy d'.tokens := by
  cases h with
  | nothing => exact hd
  | family hash row now hrow =>
    obtain ⟨hrow, hrefresh⟩ := refreshRow_eq_some.mp hrow
    refine hd.revokeTokens (fun {h k t u} ht hu htr hfamily hp => ?_) now
    have hgrant := hd.families.grant ht hu htr hfamily
    have haudience := hd.audience hu
    simp only [decide_eq_true_eq] at hp ⊢
    exact ⟨hfamily ▸ hp.1, hgrant.client ▸ hp.2.1, haudience⟩
  | access p now hp =>
    exact hd.revokeTokens (fun _ _ htr _ hselected =>
      absurd htr (not_refresh_of_access (hp _ _ hselected))) now

structure DeadFamily (family : Str) (tokens : SortedMap Str LocalToken) : Prop where
  named : family ≠ []
  used : ∃ h t, tokens.get? h = some t ∧ t.family = family
  revoked : ∀ {h t}, tokens.get? h = some t → t.family = family → t.revokedAt ≠ none

theorem DeadFamily.insert (hdead : DeadFamily family tokens)
    (hnew : tokens.get? hash = none) (hrow : row.family ≠ family) :
    DeadFamily family (tokens.insert hash row) := by
  obtain ⟨hnamed, ⟨h, t, ht, hfamily⟩, hrevoked⟩ := hdead
  refine ⟨hnamed, ⟨h, t, ?_, hfamily⟩, ?_⟩
  all_goals
    simp only [SortedMap.get?_insert]
    grind

theorem DeadFamily.revokeTokens (hdead : DeadFamily family d.tokens)
    (p : Str → LocalToken → Bool) (now : Int) :
    DeadFamily family (d.revokeTokens p now).tokens := by
  obtain ⟨hnamed, ⟨h, t, ht, hfamily⟩, hrevoked⟩ := hdead
  refine ⟨hnamed, ⟨h, if p h t = true ∧ t.revokedAt = none then { t with revokedAt := some now } else t,
    ?_, ?_⟩, fun hk => ?_⟩
  · simp [ControlDb.revokeTokens, SortedMap.get?_mapValues, ht]
  · split <;> exact hfamily
  · simp only [ControlDb.revokeTokens, SortedMap.get?_mapValues, Option.map_eq_some_iff] at hk
    grind

theorem DeadFamily.ne_of_live {family hash : Str} (hdead : DeadFamily family tokens)
    (hrow : tokens.get? hash = some row) (hlive : row.Live) : row.family ≠ family :=
  fun hfamily => hdead.revoked hrow hfamily hlive.2

theorem Rotated.deadFamily
    (h : Rotated policy admitted result d d') (hdead : DeadFamily family d.tokens)
    (hrow : d.tokens.get? admitted.hash = some admitted.row) : DeadFamily family d'.tokens := by
  obtain ⟨issuedAt, id, refresh, hlive, -, hnewAccess, hnewRefresh, htokens⟩ := h
  have hne := hdead.ne_of_live hrow hlive
  have hsuccessor : ∀ id kind expiry, (admitted.successor issuedAt id kind expiry).family ≠ family :=
    fun _ _ _ => hne
  rw [htokens]
  refine DeadFamily.insert (DeadFamily.insert ?_ hnewAccess (hsuccessor _ _ _)) hnewRefresh
    (hsuccessor _ _ _)
  obtain ⟨hnamed, ⟨h, t, ht, hfamily⟩, hrevoked⟩ := hdead
  have hconsumed : (admitted.consumed issuedAt).family = admitted.row.family := rfl
  refine ⟨hnamed, ⟨h, t, ?_, hfamily⟩, ?_⟩
  all_goals
    simp only [SortedMap.get?_insert]
    grind

theorem Exchanged.deadFamily (h : Exchanged env policy d d') (hfresh : FreshFamily env d.tokens)
    (hdead : DeadFamily family d.tokens) : DeadFamily family d'.tokens := by
  cases h with
  | access hash row hnew hkind haudience hfamily htokens =>
    rw [htokens]
    exact hdead.insert hnew (hfamily ▸ hdead.named.symm)
  | offline hash refreshHash row refresh hnew hnew' hkind haudience hkind' hrevoked hgrant hfamily
      hfamily' htokens =>
      obtain ⟨h, t, ht, hused⟩ := hdead.used
      have hne : row.family ≠ family := fun heq =>
        (hfresh _ hfamily).2 h t ht (hused.trans heq.symm)
      rw [htokens]
      exact (hdead.insert hnew hne).insert hnew' (hfamily' ▸ hne)

theorem Revocation.deadFamily (h : Revocation policy d d')
    (hdead : DeadFamily family d.tokens) : DeadFamily family d'.tokens := by
  cases h with
  | nothing => exact hdead
  | family hash row now hrow => exact hdead.revokeTokens _ now
  | access p now hp => exact hdead.revokeTokens p now

theorem deadFamily_of_revokeTokens {family hash : Str} (hrow : d.tokens.get? hash = some row)
    (hfamily : row.family = family)
    (hnamed : family ≠ []) (hp : ∀ {h t}, d.tokens.get? h = some t → t.family = family → p h t = true)
    (now : Int) : DeadFamily family (d.revokeTokens p now).tokens := by
  refine ⟨hnamed, ⟨hash, if p hash row = true ∧ row.revokedAt = none then
    { row with revokedAt := some now } else row, ?_, ?_⟩, fun hk => ?_⟩
  · simp [ControlDb.revokeTokens, SortedMap.get?_mapValues, hrow]
  · split <;> exact hfamily
  · simp only [ControlDb.revokeTokens, SortedMap.get?_mapValues, Option.map_eq_some_iff] at hk
    grind

inductive TokenOp where
  | exchange (env : OidcEnv)
  | rotate (env : OidcEnv) (input : OidcRefreshInput)
  | revoke (env : OidcEnv) (input : OidcRevocationInput)

namespace TokenOp

def apply (policy : OidcPolicy) (d : ControlDb) : TokenOp → ControlDb
  | .exchange env => (GraphitBroker.exchange env policy d).2
  | .rotate env input => (GraphitBroker.rotate env policy input d).2
  | .revoke env input => (GraphitBroker.revoke env policy input d).2

def run (policy : OidcPolicy) (ops : List TokenOp) (d : ControlDb) : ControlDb :=
  ops.foldl (apply policy) d

def Fresh (d : ControlDb) : TokenOp → Prop
  | .exchange env => FreshFamily env d.tokens
  | _ => True

def FreshRun (policy : OidcPolicy) : ControlDb → List TokenOp → Prop
  | _, [] => True
  | d, op :: rest => op.Fresh d ∧ FreshRun policy (op.apply policy d) rest

theorem run_keeps {P : ControlDb → Prop}
    (hstep : ∀ {d : ControlDb} {op : TokenOp}, op.Fresh d → P d → P (op.apply policy d)) :
    ∀ {ops : List TokenOp} {d : ControlDb}, FreshRun policy d ops → P d → P (run policy ops d)
  | [], d, _, h => h
  | op :: rest, d, hfresh, h => by
    have hnext : P (op.apply policy d) := hstep hfresh.1 h
    exact @run_keeps P hstep rest (op.apply policy d) hfresh.2 hnext

end TokenOp

theorem admitRefresh_row (h : admitRefresh env policy input d = .ok admitted) :
    d.tokens.get? admitted.hash = some admitted.row ∧ admitted.row.Refresh :=
  refreshRow_eq_some.mp (admitRefresh_eq_ok h).1

inductive TokenEffect (policy : OidcPolicy) (d d' : ControlDb) : Prop where
  | same (h : d' = d)
  | exchanged (env : OidcEnv) (hfresh : FreshFamily env d.tokens) (h : Exchanged env policy d d')
  | reused (family : Str) (now : Int) (h : d' = d.revokeTokens (fun _ t => t.family = family) now)
  | rotated (admitted : AdmittedRefresh) (result : OidcTokenExchangeResult)
      (hrow : d.tokens.get? admitted.hash = some admitted.row) (hrefresh : admitted.row.Refresh)
      (hclient : admitted.client = admitted.row.client) (h : Rotated policy admitted result d d')
  | revoked (h : Revocation policy d d')

theorem apply_effect {op : TokenOp} (hfresh : op.Fresh d) : TokenEffect policy d (op.apply policy d) := by
  cases op with
  | exchange env =>
    rcases transact_snd (exchangeBody env policy) env.commit d with hsame | ⟨result, h⟩
    · exact .same hsame
    · exact .exchanged env hfresh (exchangeBody_eq_ok h)
  | rotate env input =>
    rcases transact_snd (rotateBody env policy input) env.commit d with hsame | ⟨r, h⟩
    · exact .same hsame
    · obtain ⟨admitted, hadmitted, ⟨-, now, hd'⟩ | ⟨result, -, ⟨hrotated⟩⟩⟩ := rotateBody_eq_ok h
      · exact .reused admitted.row.family now hd'
      · obtain ⟨hrow, hrefresh⟩ := admitRefresh_row hadmitted
        exact .rotated admitted result hrow hrefresh (admitRefresh_eq_ok hadmitted).2.1 hrotated
  | revoke env input =>
    rcases transact_snd (revokeBody env policy input) env.commit d with hsame | ⟨u, h⟩
    · exact .same hsame
    · exact .revoked (revokeBody_eq_ok h)

theorem TokenEffect.tokenTable (h : TokenEffect policy d d') (hd : TokenTable policy d.tokens) :
    TokenTable policy d'.tokens := by
  cases h with
  | same h => exact h ▸ hd
  | exchanged env hfresh h => exact hd.exchanged hfresh h
  | reused family now h =>
    subst h
    refine hd.revokeTokens (fun _ _ _ hfamily hp => ?_) now
    simp only [decide_eq_true_eq] at hp ⊢
    exact hfamily ▸ hp
  | rotated admitted result hrow hrefresh hclient h => exact h.tokenTable hd hrow hrefresh hclient
  | revoked h => exact hd.revocation h

theorem TokenEffect.deadFamily (h : TokenEffect policy d d')
    (hdead : DeadFamily family d.tokens) : DeadFamily family d'.tokens := by
  cases h with
  | same h => exact h ▸ hdead
  | exchanged env hfresh h => exact h.deadFamily hfresh hdead
  | reused family now h =>
    subst h
    exact hdead.revokeTokens _ now
  | rotated admitted result hrow hrefresh hclient h => exact h.deadFamily hdead hrow
  | revoked h => exact h.deadFamily hdead

def Over (policy : OidcPolicy) (family : Str) (d : ControlDb) : Prop :=
  (∀ h t, d.tokens.get? h = some t → t.family = family → t.revokedAt ≠ none) ∧
    ∀ later, TokenOp.FreshRun policy d later → ∀ env input result d',
      rotateBody env policy input (TokenOp.run policy later d) = .ok (.rotated result, d') →
        ∀ admitted, admitRefresh env policy input (TokenOp.run policy later d) = .ok admitted →
          admitted.row.family ≠ family

theorem DeadFamily.over (hdead : DeadFamily family d.tokens) : Over policy family d := by
  refine ⟨fun h t => hdead.revoked, fun later hfresh env input result d' hbody admitted hadmitted => ?_⟩
  have hlater : DeadFamily family (TokenOp.run policy later d).tokens :=
    TokenOp.run_keeps (P := fun d => DeadFamily family d.tokens)
      (fun hop hdead => (apply_effect hop).deadFamily hdead) hfresh hdead
  obtain ⟨admitted', hadmitted', ⟨hreused, -⟩ | ⟨result', -, ⟨hrotated⟩⟩⟩ := rotateBody_eq_ok hbody
  · cases hreused
  · obtain rfl : admitted' = admitted := Except.ok.inj (hadmitted'.symm.trans hadmitted)
    exact hlater.ne_of_live (admitRefresh_row hadmitted).1 hrotated.live

structure FamiliesHold (policy : OidcPolicy) (d : ControlDb) : Prop where
  /-- At most one refresh token of a family is neither consumed nor revoked. -/
  oneLive : ∀ h k t u, d.refreshRow h = some t → d.refreshRow k = some u → t.family = u.family →
    t.Live → u.Live → h = k
  /-- The refresh tokens of a family expire together and stand for one grant. -/
  shared : ∀ h k t u, d.refreshRow h = some t → d.refreshRow k = some u → t.family = u.family →
    t.expiresAt = u.expiresAt ∧ t.SameGrant u
  /-- The successor of a refresh token is of its family and has no other scopes. -/
  successor : ∀ env input result d' admitted, admitRefresh env policy input d = .ok admitted →
    rotateBody env policy input d = .ok (.rotated result, d') →
      ∃ refresh row, result.refresh = some refresh ∧
        d'.refreshRow (policy.refreshHash refresh) = some row ∧
          row.family = admitted.row.family ∧ row.scopes ⊆ admitted.row.scopes
  /-- A consumed token that is admitted again ends its family, once that is committed. -/
  reuse : ∀ env input admitted, admitRefresh env policy input d = .ok admitted →
    admitted.row.consumedAt ≠ none → (∀ site, env.fails site = none) → (∃ now, env.now 31 = .ok now) →
      env.commit = .ok () → Over policy admitted.row.family (rotate env policy input d).2
  /-- The revocation of an unexpired and unrevoked refresh token by the client it was issued to ends its
  family, once that is committed. -/
  revocation : ∀ env input raw row now, input.token = some raw → isRefresh raw = true →
    d.refreshRow (policy.refreshHash raw) = some row → input.clientId = some row.client →
      env.now 70 = .ok now → now < row.expiresAt → row.revokedAt = none →
        (revoke env policy input d).1 = .ok () → Over policy row.family (revoke env policy input d).2

theorem TokenTable.successor (hadmitted : admitRefresh env policy input d = .ok admitted)
    (h : rotateBody env policy input d = .ok (.rotated result, d')) :
    ∃ refresh row, result.refresh = some refresh ∧
      d'.refreshRow (policy.refreshHash refresh) = some row ∧ row.family = admitted.row.family ∧
        row.scopes ⊆ admitted.row.scopes := by
  obtain ⟨admitted', hadmitted', ⟨hreused, -⟩ | ⟨result', hresult, ⟨hrotated⟩⟩⟩ := rotateBody_eq_ok h
  · cases hreused
  · obtain rfl : admitted' = admitted := Except.ok.inj (hadmitted'.symm.trans hadmitted)
    obtain rfl := RotateResult.rotated.inj hresult
    refine ⟨hrotated.refresh, admitted'.successor hrotated.issuedAt hrotated.id refreshKind
      admitted'.row.expiresAt, hrotated.issued, refreshRow_eq_some.mpr ⟨?_, rfl⟩, rfl, ?_⟩
    · rw [hrotated.tokens, SortedMap.get?_insert, if_pos rfl]
    · exact (admitRefresh_eq_ok hadmitted).2.2

theorem step_of_faultless (hfails : ∀ site, env.fails site = none) (site : Nat) :
    env.step site = .ok () := by
  rw [OidcEnv.step, hfails site]
  rfl

theorem revokeFamily_ok (hfails : ∀ site, env.fails site = none) {site : Nat}
    (hrow : d.tokens.get? hash = some row)
    (hp : p hash row = true) (hrevoked : row.revokedAt = none) (now : Int) :
    d.revokeFamily env site p now = .ok (d.revokeTokens p now) := by
  have hfound : ¬ ∀ entry ∈ d.tokens.entries, ¬ (p entry.1 entry.2 = true ∧ entry.2.revokedAt = none) :=
    fun hall => hall (hash, row) (SortedMap.mem_entries_iff.mpr hrow) ⟨hp, hrevoked⟩
  simp only [ControlDb.revokeFamily, step_of_faultless hfails, failIf, if_neg hfound]
  rfl

theorem TokenTable.reuse {now : Int}
    (hd : TokenTable policy d.tokens) (hadmitted : admitRefresh env policy input d = .ok admitted)
    (hconsumed : admitted.row.consumedAt ≠ none) (hfails : ∀ site, env.fails site = none)
    (hnow : env.now 31 = .ok now) (hcommit : env.commit = .ok ()) :
    DeadFamily admitted.row.family (rotate env policy input d).2.tokens := by
  obtain ⟨hrow, hrefresh⟩ := admitRefresh_row hadmitted
  have hnamed := hd.families.named hrow hrefresh
  by_cases hrevoked : admitted.row.revokedAt = none
  · have hbody : rotateBody env policy input d =
        .ok (.reused, d.revokeTokens (fun _ t => t.family = admitted.row.family) now) := by
      have hfamily : d.revokeFamily env 32 (fun _ t => t.family = admitted.row.family) now =
          .ok (d.revokeTokens (fun _ t => t.family = admitted.row.family) now) :=
        revokeFamily_ok hfails hrow (by simp) hrevoked now
      have hclock : env.clock 31 = .ok now := by
        rw [OidcEnv.clock, hnow]
        rfl
      simp only [rotateBody, bind_eq_ok, failIf_eq_ok]
      refine ⟨admitted, hadmitted, (), step_of_faultless hfails 30, (), not_not.mpr hrevoked, ?_⟩
      rw [if_pos hconsumed]
      simp only [reuseRefresh, bind_eq_ok]
      exact ⟨now, hclock, _, hfamily, (), step_of_faultless hfails 33, rfl⟩
    have hsnd : (rotate env policy input d).2 =
        d.revokeTokens (fun _ t => t.family = admitted.row.family) now := by
      rw [rotate, transact, hbody, hcommit]
    rw [hsnd]
    exact deadFamily_of_revokeTokens hrow rfl hnamed (fun _ hfamily => by simpa using hfamily) now
  · -- A revoked refresh token is of a family that is revoked already.
    have hdead : DeadFamily admitted.row.family d.tokens :=
      ⟨hnamed, ⟨admitted.hash, admitted.row, hrow, rfl⟩, fun hk hfamily =>
        hd.families.revoked hrow hk hrefresh hfamily.symm hrevoked⟩
    have heffect : TokenEffect policy d (TokenOp.apply policy d (.rotate env input)) :=
      apply_effect trivial
    exact heffect.deadFamily hdead

theorem TokenTable.revokes {input : OidcRevocationInput} {raw : Str} {now : Int}
    (hd : TokenTable policy d.tokens) (htoken : input.token = some raw) (hraw : isRefresh raw = true)
    (hrow : d.refreshRow (policy.refreshHash raw) = some row) (hclient : input.clientId = some row.client)
    (hnow : env.now 70 = .ok now) (hexpiry : now < row.expiresAt) (hrevoked : row.revokedAt = none)
    (h : (revoke env policy input d).1 = .ok ()) :
    DeadFamily row.family (revoke env policy input d).2.tokens := by
  obtain ⟨hget, hrefresh⟩ := refreshRow_eq_some.mp hrow
  have hbody := transact_fst_ok h
  have hrequired : ∀ {value : Str} {x : Option Str} {y : Str}, x = some value →
      required x = .ok y → y = value := by
    rintro value x y rfl hy
    unfold required at hy
    split at hy
    · cases hy
    · rename_i found hfound
      split at hy
      · cases hy
      · rw [← Except.ok.inj hy, Option.some.inj hfound]
  simp only [revokeBody, bind_eq_ok] at hbody
  obtain ⟨_, -, _, -, raw', hraw', client, hclient', _, -, proof, -, _, -, _, -, d₁, hd₁, _, -, hbody⟩ :=
    hbody
  obtain ⟨-, hd'⟩ := Prod.mk.inj (Except.ok.inj hbody)
  obtain rfl := hrequired htoken hraw'
  obtain rfl := hrequired hclient hclient'
  simp only [revokeToken, hraw, if_true, revokePresented, hrow, bind_eq_ok, revokeRefresh] at hd₁
  obtain ⟨_, -, _, -, _, -, now', hnow', _, -, _, -, hd₁⟩ := hd₁
  obtain rfl : now = now' := by
    rw [OidcEnv.clock, hnow] at hnow'
    exact Except.ok.inj hnow'
  rw [if_pos ⟨hd.audience hget, hexpiry, hrevoked⟩] at hd₁
  simp only [bind_eq_ok] at hd₁
  obtain ⟨_, -, hd₁⟩ := hd₁
  obtain rfl := revokeFamily_eq_ok hd₁
  show DeadFamily row.family (transact (revokeBody env policy input) env.commit d).2.tokens
  rw [← hd']
  refine deadFamily_of_revokeTokens hget rfl (hd.families.named hget hrefresh) (fun hk hfamily => ?_) now
  simpa using ⟨hfamily, (hd.families.grant hget hk hrefresh hfamily.symm).client.symm, hd.audience hk⟩

theorem token_families (policy : OidcPolicy) (d : ControlDb) (hempty : d.tokens = .empty)
    (ops : List TokenOp) (hfresh : TokenOp.FreshRun policy d ops) :
    FamiliesHold policy (TokenOp.run policy ops d) := by
  have hstart : TokenTable policy d.tokens := by
    rw [hempty]
    exact ⟨Families.empty, by simp⟩
  have hd : TokenTable policy (TokenOp.run policy ops d).tokens :=
    TokenOp.run_keeps (P := fun d => TokenTable policy d.tokens)
      (fun hop hd => (apply_effect hop).tokenTable hd) hfresh hstart
  refine ⟨fun h k t u ht hu => ?_, fun h k t u ht hu hfamily => ?_, ?_, ?_, ?_⟩
  · obtain ⟨ht, htr⟩ := refreshRow_eq_some.mp ht
    obtain ⟨hu, hur⟩ := refreshRow_eq_some.mp hu
    exact hd.families.live ht hu htr hur
  · obtain ⟨ht, htr⟩ := refreshRow_eq_some.mp ht
    obtain ⟨hu, hur⟩ := refreshRow_eq_some.mp hu
    exact ⟨hd.families.expiry ht hu htr hur hfamily, hd.families.grant ht hu htr hfamily⟩
  · exact fun env input result d' admitted hadmitted h => TokenTable.successor hadmitted h
  · rintro env input admitted hadmitted hconsumed hfails ⟨now, hnow⟩ hcommit
    exact (hd.reuse hadmitted hconsumed hfails hnow hcommit).over
  · intro env input raw row now htoken hraw hrow hclient hnow hexpiry hrevoked h
    exact (hd.revokes htoken hraw hrow hclient hnow hexpiry hrevoked h).over

namespace Sample

def challenge (c : Char) : Str := c :: List.replicate 42 'A'

def tokenPolicy : OidcPolicy where
  cliClientId := "cli".toList
  apiAudience := "api".toList
  acceptedResources := []
  validResource _ := true
  clientIdParses _ := true
  parameterBytes := 1024
  jsonBytes := 1024
  accessMicros := 600000000
  refreshMicros := 86400000000
  refreshHash := id
  accessHash := ('a' :: ·)
  oidcSubject _ _ := challenge 'U'
  principalBytes _ := 0
  scopesBytes _ := 0

def tokenPrincipal : TokenPrincipal :=
  ⟨"local".toList, "alice".toList, "alice".toList, "local-token".toList, 1⟩

def codeGrant : CodeGrant :=
  ⟨"request".toList, 300000000, tokenPrincipal, challenge 'U', "cli".toList, none,
    ["openid".toList, offlineAccess], 1000000⟩

def tokenEnv : OidcEnv where
  fails _ := none
  now _ := .ok 2000000
  random site := some (challenge (Char.ofNat (65 + site % 26)))
  principal p := .ok p
  client _ := .ok ()
  scopeParses _ := true
  recover _ := .ok codeGrant
  verify _ := .ok none
  commit := .ok ()

def tokenDb : ControlDb where
  users := .empty
  roles := .empty
  permissions := .empty
  assignments := .empty
  tokens := .empty
  requests := SortedMap.empty.insert "request".toList
    ⟨"alice".toList, [], some "code".toList, 300000000, 1000000⟩
  challenges := .empty
  devices := .empty
  sessions := .empty
  mfa := .empty
  recoveryCodes := .empty

def refreshToken : Str := refreshMark ++ challenge 'G'

def refreshInput : OidcRefreshInput :=
  ⟨some "refresh_token".toList, some "cli".toList, some refreshToken, none, none, none⟩

def issuedRefresh : LocalToken :=
  tokenRow tokenPrincipal (challenge 'U') "cli".toList "api".toList []
    ["openid".toList, offlineAccess] (challenge 'F') 1000000 2000000 (challenge 'I') refreshKind
    86402000000

end Sample

/-- A code is exchanged, and the refresh token presented twice. -/
theorem token_families_reuse :
    TokenOp.FreshRun Sample.tokenPolicy Sample.tokenDb [.exchange Sample.tokenEnv,
      .rotate Sample.tokenEnv Sample.refreshInput, .rotate Sample.tokenEnv Sample.refreshInput] ∧
    FamiliesHold Sample.tokenPolicy (TokenOp.run Sample.tokenPolicy [.exchange Sample.tokenEnv,
      .rotate Sample.tokenEnv Sample.refreshInput, .rotate Sample.tokenEnv Sample.refreshInput]
      Sample.tokenDb) := by
  have hfresh : TokenOp.FreshRun Sample.tokenPolicy Sample.tokenDb [.exchange Sample.tokenEnv,
      .rotate Sample.tokenEnv Sample.refreshInput, .rotate Sample.tokenEnv Sample.refreshInput] := by
    refine ⟨fun family hfamily => ⟨?_, fun h t ht => by cases ht⟩, trivial, trivial, trivial⟩
    rw [← Option.some.inj hfamily]
    exact List.cons_ne_nil _ _
  exact ⟨hfresh, token_families Sample.tokenPolicy Sample.tokenDb rfl _ hfresh⟩

/-- A client other than the one a refresh token was issued to presents it for revocation: that is
committed and revokes nothing. -/
theorem other_client_revokes_nothing :
    (TokenOp.run Sample.tokenPolicy [.exchange Sample.tokenEnv] Sample.tokenDb).refreshRow
        (Sample.tokenPolicy.refreshHash Sample.refreshToken) = some Sample.issuedRefresh ∧
      isRefresh Sample.refreshToken = true ∧ Sample.issuedRefresh.revokedAt = none ∧
      2000000 < Sample.issuedRefresh.expiresAt ∧
      (revoke Sample.tokenEnv Sample.tokenPolicy
        ⟨some Sample.refreshToken, some "other".toList, none, none⟩
        (TokenOp.run Sample.tokenPolicy [.exchange Sample.tokenEnv] Sample.tokenDb)).1 = .ok () ∧
      (revoke Sample.tokenEnv Sample.tokenPolicy
        ⟨some Sample.refreshToken, some "other".toList, none, none⟩
        (TokenOp.run Sample.tokenPolicy [.exchange Sample.tokenEnv] Sample.tokenDb)).2.refreshRow
          (Sample.tokenPolicy.refreshHash Sample.refreshToken) = some Sample.issuedRefresh := by
  refine ⟨?_, ?_, rfl, by decide, ?_, ?_⟩
  · decide +kernel
  · decide +kernel
  · exact eq_ok_of_isOk (by decide +kernel)
  · decide +kernel

end GraphitBroker
