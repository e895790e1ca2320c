import GraphitBroker.ResourcePolicy
import GraphitBroker.Lib.ExceptList
import GraphitBroker.Lib.Sorted

/-!
# Storage authorization

Operation and prefix policy over the Hub rules (`storage_policy.rs`): templates are checked when the
policy is compiled, rendered for the caller when it is evaluated, and cut down to the roots of the
requested scope.
-/

namespace GraphitBroker

/-- `safe_segment`. -/
def safeSegment (s : Str) : Bool := segmentText s && s != ".".toList && s != "..".toList

/-- `safe_path`. -/
def safePath (s : Str) : Bool := !s.isEmpty && (s.splitOn '/').all safeSegment

structure StorageRule where
  route : Str
  operations : List (Str → Bool)
  templates : List Str

structure StoragePolicy where
  hub : HubResourcePolicy
  rules : List StorageRule
  aligned : rules.length = hub.rules.length

structure StorageDecision where
  route : Str
  access : StorageOperation → List Str

def templateProbe (template : Str) : Str :=
  ["{project}", "{username}", "{organization}", "{subject}"].foldl
    (fun probe name => replace name.toList "validation".toList probe) template

def trimTemplate (raw : Str) : Str := trimMatches (· == '/') (trim raw)

def compileTemplate (raw : Str) : Except StorageAdmissionError Str :=
  if !safePath (templateProbe (trimTemplate raw)) then .error .invalidPolicy
  else .ok (trimTemplate raw)

/-- `From<ResourcePolicyError>`. -/
def ResourcePolicyError.toStorage : ResourcePolicyError → StorageAdmissionError
  | .invalidPolicy => .invalidPolicy

/-- `?` on a policy result. -/
def liftPolicy {α : Type} (result : Except ResourcePolicyError α) :
    Except StorageAdmissionError α :=
  result.mapError ResourcePolicyError.toStorage

variable (vendor : Vendor)

def StorageRule.compile (rule : ResourceGrantRule) : Except StorageAdmissionError StorageRule := do
  let operations ← liftPolicy (rule.s3Operations.mapM (pattern vendor))
  let templates ← rule.s3Prefixes.mapM compileTemplate
  return { route := trim rule.s3Route, operations, templates }

theorem HubResourcePolicy.length_compile {snapshot : ResourceGrantSnapshot} {hub : HubResourcePolicy}
    (h : liftPolicy (HubResourcePolicy.compile vendor snapshot) = .ok hub) :
    hub.rules.length = snapshot.rules.length := by
  rw [liftPolicy, ExceptList.mapError_eq_ok, HubResourcePolicy.compile, ExceptList.bind_eq_ok] at h
  obtain ⟨rules, hrules, h⟩ := h
  cases h
  exact ExceptList.length_of_mapM_eq_ok hrules

def StoragePolicy.compile (snapshot : ResourceGrantSnapshot) :
    Except StorageAdmissionError StoragePolicy :=
  match hhub : liftPolicy (HubResourcePolicy.compile vendor snapshot) with
  | .error error => .error error
  | .ok hub =>
    match hrules : snapshot.rules.mapM (StorageRule.compile vendor) with
    | .error error => .error error
    | .ok rules =>
      .ok {
        hub
        rules
        aligned := (ExceptList.length_of_mapM_eq_ok hrules).trans
          (HubResourcePolicy.length_compile vendor hhub).symm }

/-- One step of the substitution loop of `render`. -/
def renderPlaceholder (name : Str) (value : Option Str) (rendered : Str) :
    Except StorageAdmissionError Str :=
  if contains rendered name then
    match value.filter safeSegment with
    | none => .error .invalidPolicy
    | some value => .ok (replace name value rendered)
  else .ok rendered

def render (template : Str) (identity : StorageIdentity) (project : Option Str) :
    Except StorageAdmissionError (Option Str) := do
  if project.isNone && contains template "{project}".toList then return none
  let rendered ← renderPlaceholder "{project}".toList project template
  let rendered ← renderPlaceholder "{username}".toList identity.username rendered
  let rendered ← renderPlaceholder "{organization}".toList identity.organization rendered
  let rendered ← renderPlaceholder "{subject}".toList (some identity.subject) rendered
  if !safePath rendered then throw .invalidPolicy
  return some rendered

def intersect (candidate root : Str) : Option Str :=
  if atOrBelow root candidate then some candidate
  else if (stripPrefix candidate root).any fun s => "/".toList.isPrefixOf s then some root
  else none

namespace StoragePolicy

variable {vendor}

def allowed (rule : StorageRule) (masks : StorageOperation → Bool) (op : StorageOperation) : Bool :=
  masks op && (rule.operations.isEmpty || rule.operations.any fun p => p op.name.toList)

def templatePrefixes (identity : StorageIdentity) (project : Option Str) (roots : List Str)
    (prefixes : SortedSet Str) (template : Str) : Except StorageAdmissionError (SortedSet Str) := do
  match ← render template identity project with
  | none => return prefixes
  | some candidate => return prefixes.extend (roots.filterMap (intersect candidate))

def rulePrefixes (rule : StorageRule) (identity : StorageIdentity) (project : Option Str)
    (roots : List Str) : Except StorageAdmissionError (SortedSet Str) :=
  rule.templates.foldlM (templatePrefixes identity project roots)
    (if rule.templates.isEmpty then SortedSet.empty.extend roots else SortedSet.empty)

/-- The loop state of `evaluate`. -/
structure Authority where
  route : Option Str
  access : StorageOperation → SortedSet Str

def Authority.empty : Authority where
  route := none
  access := fun _ => SortedSet.empty

def Authority.grant (authority : Authority) (selected : Str) (operations : StorageOperation → Bool)
    (prefixes : SortedSet Str) : Authority where
  route := some selected
  access := fun op =>
    if operations op then (authority.access op).extend prefixes.toList else authority.access op

def selectedRoute (rule : StorageRule) (defaultRoute : Str) : Str :=
  if rule.route.isEmpty then defaultRoute else rule.route

/-- The route and prefixes a matching rule contributes; a rule that allows no operation or has no
prefix under the roots is passed over. -/
def contribution (rule : StorageRule) (masks : StorageOperation → Bool) (identity : StorageIdentity)
    (project : Option Str) (roots : List Str) (defaultRoute : Str) :
    Except StorageAdmissionError (Option (Str × SortedSet Str)) := do
  if !StorageOperation.all.any (allowed rule masks) then return none
  let prefixes ← rulePrefixes rule identity project roots
  if prefixes.toList.isEmpty then return none
  return some (selectedRoute rule defaultRoute, prefixes)

/-- One pass of the loop of `evaluate`: all contributing rules must select one route. -/
def addRule (rule : StorageRule) (masks : StorageOperation → Bool) (identity : StorageIdentity)
    (project : Option Str) (roots : List Str) (defaultRoute : Str) (authority : Authority) :
    Except StorageAdmissionError Authority := do
  match ← contribution rule masks identity project roots defaultRoute with
  | none => return authority
  | some (selected, prefixes) =>
    if authority.route.any (· != selected) then throw .conflictingRoutes
    return authority.grant selected (allowed rule masks) prefixes

/-- `self.rules[index]` at the index of a Hub rule. -/
def ruleAt (policy : StoragePolicy) (index : Fin policy.hub.rules.length) : StorageRule :=
  policy.rules.get (index.cast policy.aligned.symm)

def evaluate (policy : StoragePolicy) (identity : StorageIdentity) (scope : StorageScope vendor)
    (defaultRoute : Str) : Except StorageAdmissionError (Option StorageDecision) := do
  let found := policy.hub.storageRules identity scope.projectId
  if scope.isGlobalHub && !found.any (·.hub) then return none
  let roots := scope.roots vendor identity
  let authority ← found.foldlM
    (fun authority m => addRule (policy.ruleAt m.index) m.masks identity scope.projectId roots
      defaultRoute authority)
    Authority.empty
  return authority.route.map fun route => { route, access := fun op => (authority.access op).toList }

end StoragePolicy

end GraphitBroker
