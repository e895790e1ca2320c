import GraphitBroker.StoragePolicy
import GraphitBroker.Lib.JsonText
import GraphitBroker.Lib.Wildcard

/-!
# The session policy of the AWS driver

The document `policy` of `aws.rs` sends to STS. Actions and list permission are collected per prefix,
what an ancestor prefix already grants is dropped, and the prefixes are grouped by their remaining
actions. Objects keep the order in which their fields are written (`serde_json` is built with
`preserve_order`). How such a document is read is `PolicyDocument.allows`.
-/

namespace GraphitBroker

/-- `safe_segment` of the AWS driver, which admits the same texts as that of the policy. -/
def awsSafeSegment (s : Str) : Bool := segmentText s

def awsSafePrefix (s : Str) : Bool := !s.isEmpty && (s.splitOn '/').all awsSafeSegment

inductive StorageIssueError where
  | invalidConfiguration
  | forbidden
  | policyTooLarge
  deriving DecidableEq, Repr

structure AwsStorageRoute where
  bucket : Str
  basePrefix : Str
  bucket_safe : awsSafeSegment bucket = true
  basePrefix_safe : awsSafePrefix basePrefix = true
  basePrefix_fits : byteLen basePrefix ≤ 1024

/-- The checks of `AwsStorageRoute::new` on these fields. -/
def AwsStorageRoute.new (bucket basePrefix : Str) : Except StorageIssueError AwsStorageRoute :=
  let basePrefix := trimMatches (· == '/') (trim basePrefix)
  if h : awsSafeSegment bucket = true ∧ awsSafePrefix basePrefix = true ∧
      byteLen basePrefix ≤ 1024 then
    .ok ⟨bucket, basePrefix, h.1, h.2.1, h.2.2⟩
  else .error .invalidConfiguration

/-! ### Policy documents -/

structure PolicyStatement where
  actions : List Str
  resources : List Str
  /-- The patterns of a `StringLike` condition on `s3:prefix`. -/
  condition : Option (List Str)
  deriving DecidableEq

structure PolicyDocument where
  statements : List PolicyStatement
  deriving DecidableEq

def jsonStrings (texts : List Str) : Document := .arr (texts.map Document.str)

def PolicyStatement.toJson (statement : PolicyStatement) : Document :=
  .obj ([("Effect".toList, .str "Allow".toList), ("Action".toList, jsonStrings statement.actions),
      ("Resource".toList, jsonStrings statement.resources)] ++
    match statement.condition with
    | none => []
    | some patterns => [("Condition".toList,
        .obj [("StringLike".toList, .obj [("s3:prefix".toList, jsonStrings patterns)])])])

def PolicyDocument.toJson (document : PolicyDocument) : Document :=
  .obj [("Version".toList, .str "2012-10-17".toList),
    ("Statement".toList, .arr (document.statements.map PolicyStatement.toJson))]

def PolicyDocument.encode (document : PolicyDocument) : Except StorageIssueError Str :=
  let text := document.toJson.render
  if 2048 < byteLen text then .error .policyTooLarge else .ok text

/-- A request to S3: the action, the resource, and the value of the `s3:prefix` key if it has one. -/
structure S3Request where
  action : Str
  resource : Str
  listed : Option Str

/-- A statement allows a request when the action is listed, a resource pattern matches, and so does a
pattern of the condition. -/
def PolicyStatement.allows (statement : PolicyStatement) (request : S3Request) : Bool :=
  statement.actions.contains request.action &&
    statement.resources.any (Wildcard.like · request.resource) &&
    match statement.condition with
    | none => true
    | some patterns => request.listed.any fun listed => patterns.any (Wildcard.like · listed)

def PolicyDocument.allows (document : PolicyDocument) (request : S3Request) : Bool :=
  document.statements.any (·.allows request)

/-! ### Collecting permissions -/

def operationActions : StorageOperation → List String
  | .read => ["s3:GetObject"]
  | .write => ["s3:GetObject", "s3:PutObject", "s3:AbortMultipartUpload",
      "s3:ListMultipartUploadParts"]
  | .publish => ["s3:GetObject", "s3:PutObject", "s3:DeleteObject", "s3:AbortMultipartUpload",
      "s3:ListMultipartUploadParts"]
  | .delete => ["s3:DeleteObject"]

structure Permission where
  list : Bool
  actions : SortedSet Str

def Permission.empty : Permission := ⟨false, SortedSet.empty⟩

abbrev Permissions := SortedMap Str Permission

namespace AwsStorageRoute

def path (cfg : AwsStorageRoute) (root : Str) : Str := cfg.basePrefix ++ '/' :: root

def addRoot (cfg : AwsStorageRoute) (op : StorageOperation) (permissions : Permissions)
    (root : Str) : Except StorageIssueError Permissions :=
  if !awsSafePrefix root then .error .invalidConfiguration
  else if 1024 < byteLen (cfg.path root) then .error .invalidConfiguration
  else .ok (permissions.alter (cfg.path root) Permission.empty fun entry =>
    { list := entry.list || op != .delete
      actions := entry.actions.extend ((operationActions op).map String.toList) })

def permissions (cfg : AwsStorageRoute) (access : StorageOperation → List Str) :
    Except StorageIssueError Permissions :=
  StorageOperation.all.foldlM (fun permissions op => (access op).foldlM (cfg.addRoot op) permissions)
    SortedMap.empty

def dropInherited (path : Str) (own : Permission) (ancestor : Str × Permission) : Permission :=
  if (stripPrefix ancestor.1 path).any fun s => "/".toList.isPrefixOf s then
    { list := own.list && !ancestor.2.list
      actions := own.actions.filter fun action => decide (action ∉ ancestor.2.actions) }
  else own

def retained (permissions : Permissions) (path : Str) (own : Permission) : Permission :=
  (permissions.entries.takeWhile fun entry => entry.1 != path).foldl (dropInherited path) own

/-! ### The document -/

def bucketArn (cfg : AwsStorageRoute) : Str := "arn:aws:s3:::".toList ++ cfg.bucket

def objectArn (cfg : AwsStorageRoute) (key : Str) : Str := cfg.bucketArn ++ '/' :: key

def withDescendants (path : Str) : List Str := [path, path ++ "/*".toList]

structure Grouped where
  listing : SortedSet Str
  objects : SortedMap (List Str) (SortedSet Str)

def Grouped.empty : Grouped := ⟨SortedSet.empty, SortedMap.empty⟩

def addPath (cfg : AwsStorageRoute) (keep : Str → Permission → Permission) (grouped : Grouped)
    (entry : Str × Permission) : Grouped :=
  let kept := keep entry.1 entry.2
  { listing :=
      if kept.list then grouped.listing.extend (withDescendants entry.1) else grouped.listing
    objects :=
      if kept.actions.toList.isEmpty then grouped.objects
      else grouped.objects.alter kept.actions.toList SortedSet.empty
        (·.extend (withDescendants (cfg.objectArn entry.1))) }

/-- The document of the permissions, of which `keep` says what is kept for each prefix. -/
def document (cfg : AwsStorageRoute) (permissions : Permissions)
    (keep : Str → Permission → Permission) : PolicyDocument :=
  let grouped := permissions.entries.foldl (cfg.addPath keep) Grouped.empty
  { statements :=
      [⟨["s3:GetBucketLocation".toList], [cfg.bucketArn], none⟩] ++
      (if grouped.listing.toList.isEmpty then []
        else [⟨["s3:ListBucket".toList], [cfg.bucketArn], some grouped.listing.toList⟩]) ++
      grouped.objects.entries.map fun entry => ⟨entry.1, entry.2.toList, none⟩ }

def policy (cfg : AwsStorageRoute) (access : StorageOperation → List Str) :
    Except StorageIssueError Str := do
  let permissions ← cfg.permissions access
  if permissions.entries.isEmpty then throw .forbidden
  (cfg.document permissions (retained permissions)).encode

end AwsStorageRoute

end GraphitBroker
