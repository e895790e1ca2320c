import GraphitBroker.StorageScope

/-!
# The literal Hub principal policy

Grant rules as they are stored, and the policy that selects rules for an authenticated caller
(`resource_grants.rs`, `resource_policy.rs`). Every function reads the clock and gives up once the
deadline has passed; the model is of calls whose deadline does not pass.
-/

namespace GraphitBroker

structure ResourceGrantRule where
  accessKind : Str
  principal : Str
  s3Route : Str
  capabilities : List Str
  projects : List Str
  s3Operations : List Str
  s3Prefixes : List Str

structure ResourceGrantSnapshot where
  rules : List ResourceGrantRule

inductive ResourcePolicyError where
  | invalidPolicy
  deriving DecidableEq, Repr

structure Principal where
  issuer : Str
  subject : Str
  username : Option Str
  organization : Option Str
  teams : List Str
  deriving DecidableEq

/-- `Principal::broker` and `Principal::local`. -/
def StorageIdentity.principal (identity : StorageIdentity) : Principal where
  issuer := identity.issuer
  subject := identity.subject
  username := identity.username
  organization := identity.organization
  teams := identity.teams

inductive HubSelector where
  | global
  | anonymous
  | authenticated
  | user (value : Str)
  | team (value : Str)
  | organization (value : Str)
  | subject (value : Str)
  deriving DecidableEq, Repr

/-- `HubSelector::matches`. -/
def HubSelector.matchesUser (selector : HubSelector) (user : Option Principal) : Bool :=
  match selector with
  | .global => true
  | .anonymous => user.isNone
  | .authenticated => user.isSome
  | .user value => (user.bind (·.username)) == some value
  | .team value => user.any fun u => u.teams.any (· == value)
  | .organization value => (user.bind (·.organization)) == some value
  | .subject value => user.any fun u =>
    u.subject == value ||
      ((stripPrefix u.issuer value).bind fun v => stripPrefix "|".toList v) == some u.subject

structure HubRule where
  selector : HubSelector
  capabilities : List (Str → Bool)
  projects : List Str

structure HubResourcePolicy where
  rules : List HubRule

variable (vendor : Vendor)

def pattern (value : Str) : Except ResourcePolicyError (Str → Bool) :=
  if (trim value).isEmpty then .error .invalidPolicy
  else
    match vendor.glob (trim value) with
    | none => .error .invalidPolicy
    | some compiled => .ok compiled

def HubSelector.parse (accessKind principal : Str) : Except ResourcePolicyError HubSelector :=
  let kind := toAsciiLowercase (trim accessKind)
  if kind = "global".toList then .ok .global
  else if kind = "anonymous".toList then .ok .anonymous
  else if kind = "authenticated".toList then .ok .authenticated
  else if kind = "user".toList then .ok (.user (trim principal))
  else if kind = "team".toList then .ok (.team (trim principal))
  else if kind = "organization".toList then .ok (.organization (trim principal))
  else if kind = "subject".toList then .ok (.subject (trim principal))
  else .error .invalidPolicy

def HubRule.compile (rule : ResourceGrantRule) : Except ResourcePolicyError HubRule := do
  let selector ← HubSelector.parse rule.accessKind rule.principal
  if rule.capabilities.isEmpty ||
      rule.projects.any (fun p => trim p != "*".toList && !canonicalProjectId vendor (trim p)) then
    throw .invalidPolicy
  let capabilities ← rule.capabilities.mapM (pattern vendor)
  return { selector, capabilities, projects := rule.projects }

def HubResourcePolicy.compile (snapshot : ResourceGrantSnapshot) :
    Except ResourcePolicyError HubResourcePolicy := do
  let rules ← snapshot.rules.mapM (HubRule.compile vendor)
  return { rules }

def HubRule.admitsProject (rule : HubRule) (project : Option Str) : Bool :=
  rule.projects.isEmpty ||
    rule.projects.any fun p => trim p == "*".toList || project.any (trim p == ·)

def HubRule.mask (rule : HubRule) (op : StorageOperation) : Bool :=
  rule.capabilities.any fun p => p "s3".toList || p ("s3:".toList ++ op.name.toList)

def HubRule.hub (rule : HubRule) : Bool := rule.capabilities.any fun p => p "hub".toList

/-- A matching rule: its index, the operations its capabilities cover, and whether they cover `hub`. -/
structure StorageMatch (policy : HubResourcePolicy) where
  index : Fin policy.rules.length
  masks : StorageOperation → Bool
  hub : Bool

def HubResourcePolicy.storageRules (policy : HubResourcePolicy) (identity : StorageIdentity)
    (project : Option Str) : List (StorageMatch policy) :=
  (List.finRange policy.rules.length).filterMap fun index =>
    let rule := policy.rules.get index
    if !rule.selector.matchesUser (some identity.principal) || !rule.admitsProject project then none
    else some { index, masks := rule.mask, hub := rule.hub }

end GraphitBroker
