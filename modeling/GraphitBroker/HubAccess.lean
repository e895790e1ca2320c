import GraphitBroker.AdminGrants

/-!
# Discovery and project policy

What the compiled policies decide: `allows_principal` and `allows_any_principal` of the glob policy, and
`allows_inference`, `selectors` and `catalog_routes` of the Hub policy (`resource_policy.rs`), with the
catalog of a resolution (`hub_access.rs`).
-/

namespace GraphitBroker

/-! ### The glob policy -/

/-- `Selector::matches`. -/
def Selector.matchesUser (selector : Selector) (user : Principal) : Bool :=
  match selector with
  | .global => true
  | .authenticated => true
  | .anonymous => false
  | .user compiled => user.username.any compiled
  | .team compiled => user.teams.any compiled
  | .organization compiled => user.organization.any compiled
  | .subject compiled =>
    compiled user.subject || compiled (user.issuer ++ "|".toList ++ user.subject)

namespace ResourcePolicy

variable (policy : ResourcePolicy) (user : Principal) (capability : Str)

def allowsAnyPrincipal : Bool :=
  policy.rules.any fun rule => rule.selector.matchesUser user &&
    rule.capabilities.any (fun compiled => compiled capability) &&
      (rule.projects.isEmpty || rule.projects.any (· == "*".toList))

def allowsPrincipal (project : Str) : Bool :=
  policy.rules.any fun rule => rule.selector.matchesUser user &&
    rule.capabilities.any (fun compiled => compiled capability) &&
      (rule.projects.isEmpty || rule.projects.any fun p => p == "*".toList || p == project)

end ResourcePolicy

/-! ### Identities -/

inductive HubIdentity where
  | anonymous
  | authenticated (identity : StorageIdentity)

def HubIdentity.principal : HubIdentity → Option Principal
  | .anonymous => none
  | .authenticated identity => some identity.principal

/-- The caller of an inference; a federated bearer is known by its upstream profile. -/
inductive EmbeddingIdentity where
  | anonymous
  | authenticated (identity : StorageIdentity)
  | upstream (issuer subject username organization : Str) (teams : List Str)

/-- `Principal::inference`. -/
def EmbeddingIdentity.principal : EmbeddingIdentity → Option Principal
  | .anonymous => none
  | .authenticated identity => some identity.principal
  | .upstream issuer subject username organization teams =>
    some ⟨issuer, subject, some username, some organization, teams⟩

/-! ### The Hub policy -/

inductive HubProjectSelector where
  | all
  | project (id : Str)
  deriving DecidableEq

structure HubCatalogRoute where
  route : Str
  projects : List Str

/-- What the loop of `selectors` has found. -/
structure Discovered where
  seen : List (Option Str)
  selectors : List HubProjectSelector

def Discovered.empty : Discovered := ⟨[], []⟩

def Discovered.add (found : Discovered) (key : Option Str) : Discovered :=
  if found.seen.contains key then found
  else ⟨found.seen ++ [key], found.selectors ++ [match key with
    | none => .all
    | some id => .project id]⟩

def projectKey (project : Str) : Option Str :=
  if trim project ≠ "*".toList then some (trim project) else none

def HubRule.discover (rule : HubRule) (found : Discovered) : Discovered :=
  rule.projects.foldl (fun found project => found.add (projectKey project))
    (if rule.projects.isEmpty then found.add none else found)

def HubRule.discovers (rule : HubRule) (user : Option Principal) : Bool :=
  rule.selector.matchesUser user && rule.hub

namespace HubResourcePolicy

variable (policy : HubResourcePolicy)

def allowsInference (identity : EmbeddingIdentity) (capability : Str) : Bool :=
  policy.rules.any fun rule => rule.selector.matchesUser identity.principal &&
    rule.capabilities.any fun compiled => compiled capability

def selectors (identity : HubIdentity) : List HubProjectSelector :=
  (policy.rules.foldl (fun found rule =>
    if rule.discovers identity.principal then rule.discover found else found) Discovered.empty).selectors

/-- `catalog_routes`; the snapshot is the one that the policy was compiled from. -/
def catalogRoutes (identity : HubIdentity) (snapshot : ResourceGrantSnapshot) : List HubCatalogRoute :=
  (policy.rules.zip snapshot.rules).filterMap fun pair =>
    if pair.1.discovers identity.principal then
      some ⟨trim pair.2.s3Route, pair.1.projects.map trim⟩
    else none

end HubResourcePolicy

/-! ### The catalog of a resolution -/

namespace HubCatalogRoute

def admits (rule : HubCatalogRoute) (project : Str) : Bool :=
  rule.projects.isEmpty || rule.projects.any fun id => id == "*".toList || id == project

def selected (rule : HubCatalogRoute) (default : Str) : Str :=
  if rule.route.isEmpty then default else rule.route

/-- One pass of the loop of `catalog_route`. -/
def select (project default : Str) (found : Option Str) (rule : HubCatalogRoute) :
    Except StorageAdmissionError (Option Str) :=
  if rule.admits project then
    if found.any (· != rule.selected default) then .error .conflictingRoutes
    else .ok (some (rule.selected default))
  else .ok found

end HubCatalogRoute

structure HubAccessResolution where
  catalogRules : List HubCatalogRoute

namespace HubAccessResolution

variable (resolution : HubAccessResolution)

def catalogRoute (project default : Str) : Except StorageAdmissionError (Option Str) :=
  resolution.catalogRules.foldlM (HubCatalogRoute.select project default) none

def catalogRoutes (default : Str) : List Str :=
  (SortedSet.empty.extend (resolution.catalogRules.map (·.selected default))).toList

end HubAccessResolution

end GraphitBroker
