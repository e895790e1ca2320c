import GraphitBroker.AdminGrants
import GraphitBroker.Lib.ExceptList

/-!
# Revisions of the access lists

Every committed request raises the revision that it was made for, so that revisions order the
requests that were committed.
-/

namespace GraphitBroker

open ExceptList Transactions

variable {vendor : Vendor} {routes : AdminGrantRoutes} {d d' : GrantDb} {env : GrantEnv}

theorem decodeRule_eq_ok {r r' : StoredRule} (h : decodeRule r = .ok r') : r' = r := by
  simp only [decodeRule, bind_eq_ok] at h
  obtain ⟨_, -, _, -, _, -, _, -, _, -, h⟩ := h
  exact (Except.ok.inj h).symm

theorem decode_eq_ok {snapshot : StoredSnapshot} (h : d.decode = .ok snapshot) :
    snapshot.rules = d.stored ∧ snapshot.revision = d.revision := by
  unfold GrantDb.decode at h
  split at h
  · cases h
  · rename_i revision updatedAt hacl
    simp only [decodeSnapshot, bind_eq_ok] at h
    obtain ⟨_, -, _, -, rules, hrules, h⟩ := h
    obtain rfl := Except.ok.inj h
    have hsame : List.Forall₂ (fun r r' => r = r') d.stored rules :=
      (mapM_eq_ok_iff.mp hrules).imp fun _ _ hr => (decodeRule_eq_ok hr).symm
    refine ⟨(List.forall₂_eq_eq_eq ▸ hsame : d.stored = rules).symm, ?_⟩
    simp [GrantDb.revision, hacl]

theorem exists_of_mem_forall₂ {α β : Type} {R : α → β → Prop} {xs : List α} {ys : List β}
    (h : List.Forall₂ R xs ys) {x : α} (hx : x ∈ xs) : ∃ y, R x y := by
  induction h with
  | nil => cases hx
  | cons hy _ ih =>
    rcases List.mem_cons.mp hx with rfl | hx
    · exact ⟨_, hy⟩
    · exact ih hx

theorem exists_ok_of_mem {ε α β : Type} {f : α → Except ε β} {xs : List α} {ys : List β}
    (h : xs.mapM f = .ok ys) {x : α} (hx : x ∈ xs) : ∃ y, f x = .ok y :=
  exists_of_mem_forall₂ (mapM_eq_ok_iff.mp h) hx

def Usable (vendor : Vendor) (d : GrantDb) : Prop :=
  ∃ snapshot, d.decode = .ok snapshot ∧
    (∃ policy, ResourcePolicy.compile vendor snapshot.policy = .ok policy) ∧
      ∃ policy, StoragePolicy.compile vendor snapshot.policy = .ok policy

def Routed (routes : AdminGrantRoutes) (d : GrantDb) : Prop :=
  ∀ r ∈ d.stored, r.rule.s3Route = [] ∨ r.rule.s3Route ∈ routes.names

theorem validateSnapshot_eq_ok {snapshot : StoredSnapshot} (hdecode : d.decode = .ok snapshot)
    (h : validateSnapshot vendor routes snapshot = .ok ()) : Usable vendor d ∧ Routed routes d := by
  simp only [validateSnapshot, bind_eq_ok, mapError_eq_ok] at h
  obtain ⟨policy, hpolicy, storage, hstorage, checked, hchecked, -⟩ := h
  refine ⟨⟨snapshot, hdecode, ⟨policy, hpolicy⟩, storage, hstorage⟩, fun r hr => ?_⟩
  rw [← (decode_eq_ok hdecode).1] at hr
  obtain ⟨u, hrule⟩ := exists_ok_of_mem hchecked hr
  simp only [validateRule, bind_eq_ok, failIf_eq_ok] at hrule
  obtain ⟨_, -, _, -, _, -, _, -, _, hroute, -⟩ := hrule
  by_contra hnot
  push Not at hnot
  exact hroute hnot

structure Accepted (vendor : Vendor) (routes : AdminGrantRoutes) (env : GrantEnv)
    (request : AdminGrantRequest) (expected : Nat) (d d' : GrantDb) : Prop where
  expects : d.revision = expected
  raises : d'.revision = d.revision + 1
  applies : ∃ now d₁, applyGrant env now d request = .ok d₁ ∧ d'.stored = d₁.stored
  usable : Usable vendor d'
  routed : Routed routes d'

theorem currentRevision_eq_ok {expected : Nat} {revision : Int}
    (h : currentRevision env expected d = .ok revision) :
    d.revision = revision ∧ revision = expected := by
  simp only [currentRevision, bind_eq_ok] at h
  obtain ⟨_, -, _, -, _, -, h⟩ := h
  split at h
  · cases h
  · rename_i found updatedAt hacl
    simp only [bind_eq_ok, failIf_eq_ok, not_not] at h
    obtain ⟨_, -, _, hexpected, _, -, h⟩ := h
    obtain rfl := Except.ok.inj h
    exact ⟨by simp [GrantDb.revision, hacl], hexpected⟩

theorem mutateGrants_eq_ok {request : AdminGrantRequest} {expected : Nat} {u : Unit}
    (h : mutateGrants vendor routes env request expected d = .ok (u, d')) :
    Accepted vendor routes env request expected d d' := by
  simp only [mutateGrants, bind_eq_ok] at h
  obtain ⟨revision, hrevision, now, -, d₁, happly, _, -, snapshot, hsnapshot, _, hvalid, _, -, h⟩ := h
  obtain ⟨-, rfl⟩ := Prod.mk.inj (Except.ok.inj h)
  obtain ⟨hcurrent, hexpected⟩ := currentRevision_eq_ok hrevision
  simp only [observeSnapshot, bind_eq_ok, mapError_eq_ok] at hsnapshot
  obtain ⟨_, -, _, -, hdecode⟩ := hsnapshot
  obtain ⟨husable, hrouted⟩ := validateSnapshot_eq_ok hdecode hvalid
  refine ⟨hcurrent.trans hexpected, ?_, ⟨now, d₁, happly, rfl⟩, husable, hrouted⟩
  rw [hcurrent]
  rfl

def NormalizedGrant.rule (grant : NormalizedGrant) : ResourceGrantRule where
  accessKind := grant.access
  principal := grant.principal
  s3Route := grant.s3Route
  capabilities := grant.capabilities.toList
  projects := grant.projects.toList
  s3Operations := grant.s3Operations.toList
  s3Prefixes := grant.s3Prefixes.toList

def ReadsBack (grant : NormalizedGrant) (rules : List StoredRule) : Prop :=
  ∀ r, (r ∈ rules ∧ r.id = grant.id) → r.name = grant.name ∧ r.rule = grant.rule

theorem stored_writeGrant (grant : NormalizedGrant) (createdAt now : Int) (d : GrantDb) :
    (∃ r ∈ (d.writeGrant grant createdAt now).stored, r.id = grant.id) ∧
      ReadsBack grant (d.writeGrant grant createdAt now).stored := by
  have hvalues : ∀ (table : SortedMap Str (SortedSet Str)) (set : SortedSet Str),
      GrantDb.values (table.insert grant.id set) grant.id = set.toList := by
    intro table set
    simp [GrantDb.values, SortedMap.get?_insert]
  constructor
  · refine ⟨(d.writeGrant grant createdAt now).storedRule (grant.id,
      ⟨grant.name, grant.access, grant.principal, grant.s3Route, createdAt, now⟩),
      List.mem_map_of_mem (SortedMap.mem_entries_iff.mpr ?_), rfl⟩
    simp [GrantDb.writeGrant, SortedMap.get?_insert]
  · rintro r ⟨hr, hid⟩
    obtain ⟨⟨id, row⟩, hentry, rfl⟩ := List.mem_map.mp hr
    obtain rfl : id = grant.id := hid
    rw [SortedMap.mem_entries_iff] at hentry
    simp only [GrantDb.writeGrant, SortedMap.get?_insert, if_true, Option.some.injEq] at hentry
    subst hentry
    simp [GrantDb.storedRule, GrantDb.writeGrant, NormalizedGrant.rule, hvalues]

def AdminGrantRequest.normalized : AdminGrantRequest → Option (Except AdminGrantError NormalizedGrant)
  | .create input => some (GraphitBroker.normalized input input.id)
  | .update id input => some (GraphitBroker.normalized input id)
  | .delete _ => none

theorem applyGrant_readsBack {request : AdminGrantRequest} {now : Int}
    {normal : Except AdminGrantError NormalizedGrant} (hrequest : request.normalized = some normal)
    (h : applyGrant env now d request = .ok d') :
    ∃ grant, normal = .ok grant ∧ (∃ r ∈ d'.stored, r.id = grant.id) ∧ ReadsBack grant d'.stored := by
  cases request with
  | create input =>
    obtain rfl := Option.some.inj hrequest
    simp only [applyGrant, bind_eq_ok] at h
    obtain ⟨grant, hgrant, _, -, _, -, _, -, h⟩ := h
    obtain rfl := Except.ok.inj h
    exact ⟨grant, hgrant, stored_writeGrant grant now now d⟩
  | update id input =>
    obtain rfl := Option.some.inj hrequest
    simp only [applyGrant, bind_eq_ok] at h
    obtain ⟨grant, hgrant, _, -, h⟩ := h
    split at h
    · cases h
    · rename_i row hrow
      simp only [bind_eq_ok] at h
      obtain ⟨_, -, h⟩ := h
      obtain rfl := Except.ok.inj h
      exact ⟨grant, hgrant, stored_writeGrant grant row.createdAt now d⟩
  | delete id => cases hrequest

structure GrantOp where
  env : GrantEnv
  request : AdminGrantRequest
  expected : Nat

namespace GrantOp

variable (vendor : Vendor) (routes : AdminGrantRoutes)

def apply (d : GrantDb) (op : GrantOp) : GrantDb :=
  (adminGrants vendor routes op.env op.request op.expected d).2

def run (ops : List GrantOp) (d : GrantDb) : GrantDb := ops.foldl (apply vendor routes) d

def Commits (d : GrantDb) (op : GrantOp) : Prop :=
  (∃ d', mutateGrants vendor routes op.env op.request op.expected d = .ok ((), d')) ∧
    ∀ e, op.env.commit ≠ .error (e, false)

end GrantOp

theorem apply_of_commits {op : GrantOp} (h : op.Commits vendor routes d) :
    Accepted vendor routes op.env op.request op.expected d (op.apply vendor routes d) := by
  obtain ⟨⟨d', hbody⟩, hcommit⟩ := h
  have happly : op.apply vendor routes d = d' := by
    rw [GrantOp.apply, adminGrants, transact, hbody]
    cases hc : op.env.commit with
    | ok u => rfl
    | error failure =>
      obtain ⟨e, made⟩ := failure
      cases made with
      | true => rfl
      | false => exact absurd hc (hcommit e)
  rw [happly]
  exact mutateGrants_eq_ok hbody

theorem apply_of_not_commits {op : GrantOp} (h : ¬ op.Commits vendor routes d) :
    op.apply vendor routes d = d := by
  rw [GrantOp.apply, adminGrants, transact]
  cases hbody : mutateGrants vendor routes op.env op.request op.expected d with
  | error e => rfl
  | ok made =>
    cases hc : op.env.commit with
    | ok u => exact absurd ⟨⟨made.2, hbody⟩, fun e he => by simp [hc] at he⟩ h
    | error failure =>
      obtain ⟨e, written⟩ := failure
      cases written with
      | true => exact absurd ⟨⟨made.2, hbody⟩, fun e he => by simp [hc] at he⟩ h
      | false => rfl

theorem revision_le_apply (op : GrantOp) : d.revision ≤ (op.apply vendor routes d).revision := by
  by_cases h : op.Commits vendor routes d
  · rw [(apply_of_commits h).raises]
    omega
  · rw [apply_of_not_commits h]

theorem revision_le_run (ops : List GrantOp) (d : GrantDb) :
    d.revision ≤ (GrantOp.run vendor routes ops d).revision :=
  foldl_keeps (P := fun d' : GrantDb => d.revision ≤ d'.revision)
    (fun _ op h => h.trans (revision_le_apply op)) le_rfl ops

structure GrantsHold (vendor : Vendor) (routes : AdminGrantRoutes) (d₀ : GrantDb) : Prop where
  /-- A committed request raises the revision that it carries by one. -/
  raises : ∀ (ops : List GrantOp) (op : GrantOp), op.Commits vendor routes (GrantOp.run vendor routes ops d₀) →
    (GrantOp.run vendor routes ops d₀).revision = op.expected ∧
      (GrantOp.run vendor routes (ops ++ [op]) d₀).revision = op.expected + 1
  /-- No two committed requests carry the same revision. -/
  once : ∀ (ops : List GrantOp) (op : GrantOp) (between : List GrantOp) (op' : GrantOp),
    op.Commits vendor routes (GrantOp.run vendor routes ops d₀) →
    op'.Commits vendor routes (GrantOp.run vendor routes (ops ++ op :: between) d₀) →
      op.expected ≠ op'.expected
  /-- A request that is not committed changes nothing. -/
  rejected : ∀ (ops : List GrantOp) (op : GrantOp), ¬ op.Commits vendor routes (GrantOp.run vendor routes ops d₀) →
    GrantOp.run vendor routes (ops ++ [op]) d₀ = GrantOp.run vendor routes ops d₀
  /-- A committed grant is read back in its normalized form, and is the only one of its identifier. -/
  readBack : ∀ (ops : List GrantOp) (op : GrantOp) (normal : Except AdminGrantError NormalizedGrant),
    op.Commits vendor routes (GrantOp.run vendor routes ops d₀) →
    op.request.normalized = some normal → ∃ grant snapshot, normal = .ok grant ∧
      (GrantOp.run vendor routes (ops ++ [op]) d₀).decode = .ok snapshot ∧
        (∃ r ∈ snapshot.rules, r.id = grant.id) ∧ ReadsBack grant snapshot.rules
  /-- The access lists stay usable. -/
  usable : Usable vendor d₀ → ∀ ops, Usable vendor (GrantOp.run vendor routes ops d₀)
  /-- The routes that they name stay configured. -/
  routed : Routed routes d₀ → ∀ ops, Routed routes (GrantOp.run vendor routes ops d₀)

theorem run_append_singleton (ops : List GrantOp) (op : GrantOp) (d : GrantDb) :
    GrantOp.run vendor routes (ops ++ [op]) d =
      op.apply vendor routes (GrantOp.run vendor routes ops d) := by
  simp [GrantOp.run]

end GraphitBroker
