import GraphitBroker.AwsPolicy
import GraphitBroker.FilesystemSession
import GraphitBroker.Proof.ScopeRoots

/-!
# The AWS document and the filesystem session grant the same

Both drivers receive one access table. The document says of a request what the table says: some
prefix with the privilege lies at or above the key.
-/

namespace GraphitBroker

open SepPath Wildcard

theorem jsonStrings_injective : Function.Injective jsonStrings := by
  intro texts texts' h
  have hstr : Function.Injective Document.str := fun _ _ h => Document.str.inj h
  exact hstr.list_map (Document.arr.inj h)

theorem PolicyStatement.toJson_injective : Function.Injective PolicyStatement.toJson := by
  intro statement statement' h
  obtain ⟨actions, resources, condition⟩ := statement
  obtain ⟨actions', resources', condition'⟩ := statement'
  have hfields := Document.obj.inj h
  simp only [List.cons_append, List.nil_append, List.cons.injEq, Prod.mk.injEq, true_and] at hfields
  obtain ⟨hactions, hresources, hcondition⟩ := hfields
  rw [jsonStrings_injective hactions, jsonStrings_injective hresources]
  cases condition with
  | none =>
    cases condition' with
    | none => rfl
    | some patterns' => simp at hcondition
  | some patterns =>
    cases condition' with
    | none => simp at hcondition
    | some patterns' =>
      simp only [List.cons.injEq, Prod.mk.injEq, true_and, and_true, Document.obj.injEq]
        at hcondition
      rw [jsonStrings_injective hcondition]

theorem PolicyDocument.text_injective :
    Function.Injective fun document : PolicyDocument => document.toJson.render := by
  intro document document' h
  have hfields := Document.obj.inj (Document.render_injective h)
  simp only [List.cons.injEq, Prod.mk.injEq, true_and, and_true, Document.arr.injEq] at hfields
  exact congrArg PolicyDocument.mk (PolicyStatement.toJson_injective.list_map hfields)

theorem PolicyDocument.encode_eq_ok {document : PolicyDocument} {text : Str}
    (h : document.encode = .ok text) : text = document.toJson.render := by
  unfold PolicyDocument.encode at h
  simp only at h
  split_ifs at h
  exact (Except.ok.inj h).symm

inductive Privilege where
  | list
  | object (action : Str)

def Permission.Has (permission : Permission) : Privilege → Prop
  | .list => permission.list = true
  | .object action => action ∈ permission.actions

def StorageOperation.Has (op : StorageOperation) : Privilege → Prop
  | .list => op ≠ .delete
  | .object action => action ∈ (operationActions op).map String.toList

theorem Permission.not_has_empty (privilege : Privilege) : ¬ Permission.empty.Has privilege := by
  cases privilege with
  | list => simp [Permission.Has, Permission.empty]
  | object action => exact SortedSet.not_mem_empty action

namespace AwsStorageRoute

variable {cfg : AwsStorageRoute} {access : StorageOperation → List Str}

def Granted (permissions : Permissions) (privilege : Privilege) (key : Str) : Prop :=
  ∃ entry ∈ permissions.entries, entry.2.Has privilege ∧ Below '/' entry.1 key

theorem addRoot_eq_ok {op : StorageOperation} {permissions permissions' : Permissions} {root : Str}
    (h : cfg.addRoot op permissions root = .ok permissions') :
    awsSafePrefix root = true ∧
      permissions' = permissions.alter (cfg.path root) Permission.empty fun entry =>
        { list := entry.list || op != .delete
          actions := entry.actions.extend ((operationActions op).map String.toList) } := by
  unfold addRoot at h
  split_ifs at h with hsafe hlen
  cases h
  exact ⟨by simpa using hsafe, rfl⟩

theorem granted_addRoot {op : StorageOperation} {permissions permissions' : Permissions} {root : Str}
    (h : cfg.addRoot op permissions root = .ok permissions') (privilege : Privilege) (key : Str) :
    Granted permissions' privilege key ↔ Granted permissions privilege key ∨
      (op.Has privilege ∧ Below '/' (cfg.path root) key) := by
  obtain ⟨_, rfl⟩ := addRoot_eq_ok h
  apply SortedMap.exists_mem_alter fun (path : Str) (permission : Permission) =>
    permission.Has privilege ∧ Below '/' path key
  · exact fun h => Permission.not_has_empty privilege h.1
  · intro permission
    rw [← or_and_right]
    refine and_congr_left fun _ => ?_
    cases privilege with
    | list => simp [Permission.Has, StorageOperation.Has]
    | object action =>
      simp only [Permission.Has, StorageOperation.Has, SortedSet.mem_extend]
      exact or_comm

theorem granted_permissions {permissions : Permissions}
    (h : cfg.permissions access = .ok permissions) (privilege : Privilege) (key : Str) :
    Granted permissions privilege key ↔
      ∃ op, op.Has privilege ∧ ∃ root ∈ access op, Below '/' (cfg.path root) key := by
  have hinner : ∀ op, op ∈ StorageOperation.all → ∀ before after,
      (access op).foldlM (cfg.addRoot op) before = .ok after →
      (Granted after privilege key ↔ Granted before privilege key ∨
        ∃ root ∈ access op, op.Has privilege ∧ Below '/' (cfg.path root) key) := by
    intro op _ before after hfold
    exact ExceptList.foldlM_accumulates (fun m => Granted m privilege key)
      (fun root => op.Has privilege ∧ Below '/' (cfg.path root) key)
      (fun root _ s t hstep => granted_addRoot hstep privilege key) hfold
  rw [AwsStorageRoute.permissions] at h
  rw [ExceptList.foldlM_accumulates (fun m => Granted m privilege key) _ hinner h]
  constructor
  · rintro (⟨entry, hentry, _⟩ | ⟨op, _, root, hroot, hhas, hbelow⟩)
    · exact absurd hentry List.not_mem_nil
    · exact ⟨op, hhas, root, hroot, hbelow⟩
  · rintro ⟨op, hhas, root, hroot, hbelow⟩
    exact Or.inr ⟨op, op.mem_all, root, hroot, hhas, hbelow⟩

theorem path_of_mem_permissions {permissions : Permissions}
    (h : cfg.permissions access = .ok permissions) :
    ∀ entry ∈ permissions.entries, ∃ root, awsSafePrefix root = true ∧ entry.1 = cfg.path root := by
  let Safe : Permissions → Prop := fun m => ∀ entry ∈ m.entries, ∃ root,
    awsSafePrefix root = true ∧ entry.1 = cfg.path root
  rw [AwsStorageRoute.permissions] at h
  refine ExceptList.foldlM_invariant Safe ?_ (fun entry hentry => absurd hentry List.not_mem_nil) h
  intro before op after hbefore hfold
  refine ExceptList.foldlM_invariant Safe ?_ hbefore hfold
  intro m root m' hm hstep entry hentry
  obtain ⟨hsafe, rfl⟩ := addRoot_eq_ok hstep
  rcases SortedMap.mem_alter hentry with hkey | hmem
  · exact ⟨root, hsafe, hkey⟩
  · exact hm entry hmem

theorem has_dropInherited {path : Str} {own : Permission} {ancestor : Str × Permission}
    {privilege : Privilege} :
    (dropInherited path own ancestor).Has privilege ↔ own.Has privilege ∧
      ¬ ((∃ rest, path = ancestor.1 ++ '/' :: rest) ∧ ancestor.2.Has privilege) := by
  unfold dropInherited
  split_ifs with hstrip
  · have hbelow := stripPrefix_any_slash.mp hstrip
    cases privilege with
    | list => simp [Permission.Has, hbelow]
    | object action => simp [Permission.Has, hbelow]
  · have hbelow : ¬ ∃ rest, path = ancestor.1 ++ '/' :: rest :=
      fun h => hstrip (stripPrefix_any_slash.mpr h)
    simp [hbelow]

theorem has_retained {permissions : Permissions} {path : Str} {own : Permission}
    {privilege : Privilege} :
    (retained permissions path own).Has privilege ↔ own.Has privilege ∧
      ∀ entry ∈ permissions.entries.takeWhile fun entry => entry.1 != path,
        ¬ ((∃ rest, path = entry.1 ++ '/' :: rest) ∧ entry.2.Has privilege) := by
  unfold retained
  generalize (permissions.entries.takeWhile fun entry => entry.1 != path) = before
  induction before generalizing own with
  | nil => simp
  | cons entry before ih =>
    rw [List.foldl_cons, ih, has_dropInherited, List.forall_mem_cons, and_assoc]

theorem granted_retained (permissions : Permissions) (privilege : Privilege) (key : Str) :
    (∃ entry ∈ permissions.entries, (retained permissions entry.1 entry.2).Has privilege ∧
      Below '/' entry.1 key) ↔ Granted permissions privilege key := by
  constructor
  · rintro ⟨entry, hentry, hhas, hbelow⟩
    exact ⟨entry, hentry, (has_retained.mp hhas).1, hbelow⟩
  · rintro ⟨entry, hentry, hhas, hbelow⟩
    -- induction on the length of the prefix: an entry that passes the privilege down is shorter
    induction hlen : entry.1.length using Nat.strong_induction_on generalizing entry with
    | _ n ih =>
      by_cases hkept : (retained permissions entry.1 entry.2).Has privilege
      · exact ⟨entry, hentry, hkept, hbelow⟩
      · rw [has_retained, not_and] at hkept
        have hex := hkept hhas
        push Not at hex
        obtain ⟨ancestor, hbefore, ⟨rest, hpath⟩, hancestor⟩ := hex
        have hmem : ancestor ∈ permissions.entries :=
          (List.takeWhile_sublist _).subset hbefore
        have habove : Below '/' ancestor.1 key := by
          apply Below.trans _ hbelow
          rw [hpath]
          exact below_append _ _
        have hshorter : ancestor.1.length < n := by
          rw [← hlen, hpath]
          simp
        exact ih ancestor.1.length hshorter ancestor hmem hancestor habove rfl

theorem literal_of_segmentText {s : Str} (h : segmentText s = true) : Literal s := by
  have hchars := (segmentText_iff.mp h).2.2.2
  constructor
  · intro hmem
    exact absurd (hchars '*' hmem) (by decide)
  · intro hmem
    exact absurd (hchars '?' hmem) (by decide)

theorem literal_of_awsSafePrefix {s : Str} (h : awsSafePrefix s = true) : Literal s := by
  have hwords := List.all_eq_true.mp (Bool.and_eq_true_iff.mp h).2
  constructor
  · intro hmem
    obtain ⟨word, hword, hc⟩ := exists_mem_splitOn hmem (show '*' ≠ '/' by decide)
    exact (literal_of_segmentText (hwords word hword)).1 hc
  · intro hmem
    obtain ⟨word, hword, hc⟩ := exists_mem_splitOn hmem (show '?' ≠ '/' by decide)
    exact (literal_of_segmentText (hwords word hword)).2 hc

theorem literal_slash : Literal ['/'] := by
  constructor <;> decide

theorem literal_path {root : Str} (h : awsSafePrefix root = true) : Literal (cfg.path root) := by
  have hbase := literal_of_awsSafePrefix cfg.basePrefix_safe
  exact hbase.append (literal_slash.append (literal_of_awsSafePrefix h))

theorem literal_bucketArn (cfg : AwsStorageRoute) : Literal cfg.bucketArn := by
  have harn : Literal "arn:aws:s3:::".toList := by
    constructor <;> decide
  exact harn.append (literal_of_segmentText cfg.bucket_safe)

theorem literal_objectArn {path : Str} (h : Literal path) : Literal (cfg.objectArn path) :=
  (literal_bucketArn cfg).append (literal_slash.append h)

theorem path_ne_append_slash {root : Str} (h : awsSafePrefix root = true) (init : Str) :
    cfg.path root ≠ init ++ ['/'] := by
  intro heq
  have hwords := List.all_eq_true.mp (Bool.and_eq_true_iff.mp h).2
  have hsplit : (cfg.path root).splitOn '/' = init.splitOn '/' ++ [[]] := by
    rw [heq, splitOn_append_sep, splitOn_of_notMem List.not_mem_nil]
  rw [path, splitOn_append_sep] at hsplit
  have hlast := congrArg List.getLast? hsplit
  rw [List.getLast?_append_of_ne_nil _ (splitOn_ne_nil root), List.getLast?_concat] at hlast
  have hempty := hwords [] (List.mem_of_getLast? hlast)
  exact absurd hempty (by decide)

variable {keep : Str → Permission → Permission}

theorem mem_listing {entries : List (Str × Permission)} {grouped : Grouped} {x : Str} :
    x ∈ (entries.foldl (cfg.addPath keep) grouped).listing ↔ x ∈ grouped.listing ∨
      ∃ entry ∈ entries, (keep entry.1 entry.2).Has .list ∧ x ∈ withDescendants entry.1 := by
  induction entries generalizing grouped with
  | nil => simp
  | cons entry entries ih =>
    rw [List.foldl_cons, ih]
    by_cases hlist : (keep entry.1 entry.2).list = true
    · simp [addPath, Permission.Has, hlist, or_assoc, or_left_comm]
    · simp [addPath, Permission.Has, hlist]

def Groups (objects : SortedMap (List Str) (SortedSet Str)) (action : Str) (R : Str → Prop) : Prop :=
  ∃ group ∈ objects.entries, action ∈ group.1 ∧ ∃ resource ∈ group.2, R resource

theorem groups_addPath {grouped : Grouped} {entry : Str × Permission} {action : Str}
    {R : Str → Prop} :
    Groups (cfg.addPath keep grouped entry).objects action R ↔ Groups grouped.objects action R ∨
      ((keep entry.1 entry.2).Has (.object action) ∧
        ∃ resource ∈ withDescendants (cfg.objectArn entry.1), R resource) := by
  simp only [addPath]
  split_ifs with hempty
  · have hnone : ¬ (keep entry.1 entry.2).Has (.object action) := by
      rw [Permission.Has, SortedSet.mem_def, List.isEmpty_iff.mp hempty]
      exact List.not_mem_nil
    simp [hnone]
  · refine SortedMap.exists_mem_alter
      (fun actions resources => action ∈ actions ∧ ∃ resource ∈ resources, R resource) ?_ ?_
    · simp
    · intro resources
      rw [Permission.Has, SortedSet.mem_def, ← and_or_left]
      simp only [SortedSet.mem_extend, or_and_right, exists_or, or_comm]

theorem groups_foldl {entries : List (Str × Permission)} {grouped : Grouped} {action : Str}
    {R : Str → Prop} :
    Groups (entries.foldl (cfg.addPath keep) grouped).objects action R ↔
      Groups grouped.objects action R ∨
      ∃ entry ∈ entries, (keep entry.1 entry.2).Has (.object action) ∧
        ∃ resource ∈ withDescendants (cfg.objectArn entry.1), R resource := by
  induction entries generalizing grouped with
  | nil => simp
  | cons entry entries ih =>
    rw [List.foldl_cons, ih, groups_addPath, or_assoc]
    simp only [List.mem_cons, exists_eq_or_imp]

theorem like_withDescendants {path : Str} (h : Literal path) (s : Str) :
    (∃ x ∈ withDescendants path, like x s = true) ↔ Below '/' path s := by
  rw [← like_or_descendant h literal_slash]
  simp [withDescendants]

theorem below_objectArn_iff {path resource : Str} :
    Below '/' (cfg.objectArn path) resource ↔
      ∃ key, resource = cfg.objectArn key ∧ Below '/' path key := by
  constructor
  · rintro (rfl | ⟨rest, rfl⟩)
    · exact ⟨path, rfl, Below.refl path⟩
    · exact ⟨path ++ '/' :: rest, by simp [objectArn], below_append path rest⟩
  · rintro ⟨key, rfl, rfl | ⟨rest, rfl⟩⟩
    · exact Below.refl _
    · exact Or.inr ⟨rest, by simp [objectArn]⟩

theorem statements_allow_iff {document : PolicyDocument} {request : S3Request} :
    document.allows request = true ↔
      ∃ statement ∈ document.statements, request.action ∈ statement.actions ∧
        (∃ pattern ∈ statement.resources, like pattern request.resource = true) ∧
        ∀ patterns, statement.condition = some patterns → ∃ listed, request.listed = some listed ∧
          ∃ pattern ∈ patterns, like pattern listed = true := by
  rw [PolicyDocument.allows, List.any_eq_true]
  refine exists_congr fun statement => and_congr_right fun _ => ?_
  rw [PolicyStatement.allows, Bool.and_eq_true, Bool.and_eq_true, List.contains_iff_mem,
    List.any_eq_true, and_assoc]
  refine and_congr_right fun _ => and_congr_right fun _ => ?_
  cases statement.condition with
  | none => simp
  | some patterns =>
    cases request.listed with
    | none => simp
    | some listed => simp

theorem document_allows_iff {permissions : Permissions}
    (hliteral : ∀ entry ∈ permissions.entries, Literal entry.1) {request : S3Request} :
    (cfg.document permissions keep).allows request = true ↔
      (request.action = "s3:GetBucketLocation".toList ∧ request.resource = cfg.bucketArn) ∨
      (request.action = "s3:ListBucket".toList ∧ request.resource = cfg.bucketArn ∧
        ∃ listed, request.listed = some listed ∧ ∃ entry ∈ permissions.entries,
          (keep entry.1 entry.2).Has .list ∧ Below '/' entry.1 listed) ∨
      ∃ key, request.resource = cfg.objectArn key ∧ ∃ entry ∈ permissions.entries,
        (keep entry.1 entry.2).Has (.object request.action) ∧ Below '/' entry.1 key := by
  have hlisting : ∀ listed, (∃ x ∈ (permissions.entries.foldl (cfg.addPath keep)
      Grouped.empty).listing.toList, like x listed = true) ↔ ∃ entry ∈ permissions.entries,
        (keep entry.1 entry.2).Has .list ∧ Below '/' entry.1 listed := by
    intro listed
    simp only [← SortedSet.mem_def, mem_listing, Grouped.empty, SortedSet.not_mem_empty, false_or]
    constructor
    · rintro ⟨x, ⟨entry, hentry, hhas, hx⟩, hlike⟩
      exact ⟨entry, hentry, hhas, (like_withDescendants (hliteral entry hentry) listed).mp
        ⟨x, hx, hlike⟩⟩
    · rintro ⟨entry, hentry, hhas, hbelow⟩
      obtain ⟨x, hx, hlike⟩ := (like_withDescendants (hliteral entry hentry) listed).mpr hbelow
      exact ⟨x, ⟨entry, hentry, hhas, hx⟩, hlike⟩
  have hobjects : Groups (permissions.entries.foldl (cfg.addPath keep) Grouped.empty).objects
      request.action (fun r => like r request.resource = true) ↔
        ∃ key, request.resource = cfg.objectArn key ∧ ∃ entry ∈ permissions.entries,
          (keep entry.1 entry.2).Has (.object request.action) ∧ Below '/' entry.1 key := by
    rw [groups_foldl]
    constructor
    · rintro (⟨group, hgroup, _⟩ | ⟨entry, hentry, hhas, hlike⟩)
      · exact absurd hgroup List.not_mem_nil
      · rw [like_withDescendants (literal_objectArn (hliteral entry hentry)),
          below_objectArn_iff] at hlike
        obtain ⟨key, hkey, hbelow⟩ := hlike
        exact ⟨key, hkey, entry, hentry, hhas, hbelow⟩
    · rintro ⟨key, hkey, entry, hentry, hhas, hbelow⟩
      refine Or.inr ⟨entry, hentry, hhas, ?_⟩
      rw [like_withDescendants (literal_objectArn (hliteral entry hentry)), below_objectArn_iff]
      exact ⟨key, hkey, hbelow⟩
  rw [statements_allow_iff, ← hobjects]
  simp only [← hlisting]
  simp only [document, List.mem_append, or_and_right, exists_or]
  refine or_assoc.trans (or_congr ?_ (or_congr ?_ ?_))
  · simp [like_literal (literal_bucketArn cfg)]
  · split_ifs with hempty
    · simp [List.isEmpty_iff.mp hempty]
    · simp [like_literal (literal_bucketArn cfg)]
  · simp [Groups, SortedSet.mem_def]

def TableGrants (cfg : AwsStorageRoute) (access : StorageOperation → List Str)
    (privilege : Privilege) (key : Str) : Prop :=
  ∃ op, op.Has privilege ∧ ∃ root ∈ access op, Below '/' (cfg.path root) key

def MatchesTable (cfg : AwsStorageRoute) (access : StorageOperation → List Str)
    (document : PolicyDocument) : Prop :=
  ∀ request, document.allows request = true ↔
    (request.action = "s3:GetBucketLocation".toList ∧ request.resource = cfg.bucketArn) ∨
    (request.action = "s3:ListBucket".toList ∧ request.resource = cfg.bucketArn ∧
      ∃ listed, request.listed = some listed ∧ cfg.TableGrants access .list listed) ∨
    ∃ key, request.resource = cfg.objectArn key ∧
      cfg.TableGrants access (.object request.action) key

theorem matchesTable_document {permissions : Permissions}
    (h : cfg.permissions access = .ok permissions)
    (hkeep : ∀ privilege key, (∃ entry ∈ permissions.entries,
      (keep entry.1 entry.2).Has privilege ∧ Below '/' entry.1 key) ↔
        Granted permissions privilege key) :
    cfg.MatchesTable access (cfg.document permissions keep) := by
  intro request
  have hliteral : ∀ entry ∈ permissions.entries, Literal entry.1 := by
    intro entry hentry
    obtain ⟨root, hsafe, hpath⟩ := path_of_mem_permissions h entry hentry
    rw [hpath]
    exact literal_path hsafe
  rw [document_allows_iff hliteral]
  simp only [hkeep, granted_permissions h, TableGrants]

def objectRequest (cfg : AwsStorageRoute) (action : String) (key : Str) : S3Request :=
  ⟨action.toList, cfg.objectArn key, none⟩

def listRequest (cfg : AwsStorageRoute) (listed : Str) : S3Request :=
  ⟨"s3:ListBucket".toList, cfg.bucketArn, some listed⟩

theorem objectArn_injective (cfg : AwsStorageRoute) : Function.Injective cfg.objectArn := by
  intro key key' h
  exact (List.cons.inj (List.append_cancel_left h)).2

theorem bucketArn_ne_objectArn (cfg : AwsStorageRoute) (key : Str) :
    cfg.bucketArn ≠ cfg.objectArn key := by
  intro h
  have := congrArg List.length h
  simp [objectArn] at this

end AwsStorageRoute

namespace VerifiedFilesystemSession

variable {session : VerifiedFilesystemSession} {clock : SessionClock}

theorem allows_iff (hlive : session.check clock session.deadline = .ok ()) {op : StorageOperation}
    {key : Str} (hkey : validKey key = true) :
    session.allows op key clock = true ↔
      ∃ op' ∈ implying op, ∃ root ∈ session.access op', Below '/' root key := by
  simp only [allows, hkey, hlive, Except.isOk, Except.toBool, Bool.not_true, Bool.or_self,
    Bool.false_eq_true, if_false, covered, List.any_eq_true, atOrBelow_iff]

def Carries (session : VerifiedFilesystemSession) (cfg : AwsStorageRoute)
    (access : StorageOperation → List Str) : Prop :=
  ∀ op, session.access op = (access op).map cfg.path

theorem allows_iff_table {cfg : AwsStorageRoute} {access : StorageOperation → List Str}
    (hcarries : session.Carries cfg access) (hlive : session.check clock session.deadline = .ok ())
    {op : StorageOperation} {privilege : Privilege}
    (himplying : ∀ op', op' ∈ implying op ↔ op'.Has privilege) {key : Str}
    (hkey : validKey key = true) :
    session.allows op key clock = true ↔ cfg.TableGrants access privilege key := by
  rw [allows_iff hlive hkey]
  simp only [himplying, hcarries _, List.mem_map, exists_exists_and_eq_and,
    AwsStorageRoute.TableGrants]

theorem implying_read (op : StorageOperation) :
    op ∈ implying .read ↔ op.Has (.object "s3:GetObject".toList) := by
  cases op <;> simp [implying, StorageOperation.Has, operationActions]

theorem implying_list (op : StorageOperation) : op ∈ implying .read ↔ op.Has .list := by
  cases op <;> simp [implying, StorageOperation.Has]

def writeActions : List String :=
  ["s3:PutObject", "s3:AbortMultipartUpload", "s3:ListMultipartUploadParts"]

theorem implying_write {action : String} (haction : action ∈ writeActions) (op : StorageOperation) :
    op ∈ implying .write ↔ op.Has (.object action.toList) := by
  simp only [writeActions, List.mem_cons, List.not_mem_nil, or_false] at haction
  rcases haction with rfl | rfl | rfl <;> cases op <;>
    simp [implying, StorageOperation.Has, operationActions]

theorem implying_delete (op : StorageOperation) :
    op ∈ implying .delete ↔ op.Has (.object "s3:DeleteObject".toList) := by
  cases op <;> simp [implying, StorageOperation.Has, operationActions]

end VerifiedFilesystemSession

namespace AwsStorageRoute

variable {cfg : AwsStorageRoute} {access : StorageOperation → List Str}

theorem policy_eq_ok {text : Str} (h : cfg.policy access = .ok text) :
    ∃ permissions, cfg.permissions access = .ok permissions ∧
      text = (cfg.document permissions (retained permissions)).toJson.render := by
  rw [policy, ExceptList.bind_eq_ok] at h
  obtain ⟨permissions, hpermissions, h⟩ := h
  refine ⟨permissions, hpermissions, ?_⟩
  split_ifs at h
  · cases h
  · exact PolicyDocument.encode_eq_ok h

theorem tableGrants_list_iff {permissions : Permissions}
    (h : cfg.permissions access = .ok permissions) (listed : Str) :
    cfg.TableGrants access .list listed ↔
      cfg.TableGrants access .list ((stripSuffixChar '/' listed).getD listed) := by
  unfold TableGrants
  rw [← granted_permissions h, ← granted_permissions h, stripSuffixChar]
  split_ifs with hlast
  · obtain ⟨key, rfl⟩ : ∃ key, listed = key ++ ['/'] :=
      ⟨listed.dropLast, (List.dropLast_append_getLast? '/' hlast).symm⟩
    rw [List.dropLast_concat, Option.getD_some]
    refine exists_congr fun entry => and_congr_right fun hentry => and_congr_right fun _ => ?_
    obtain ⟨root, hsafe, hpath⟩ := path_of_mem_permissions h entry hentry
    rw [hpath]
    exact below_append_sep_iff (path_ne_append_slash hsafe)
  · rfl

theorem allows_objectRequest {document : PolicyDocument} (h : cfg.MatchesTable access document)
    (action : String) (key : Str) :
    document.allows (cfg.objectRequest action key) = true ↔
      cfg.TableGrants access (.object action.toList) key := by
  have hne : cfg.objectArn key ≠ cfg.bucketArn := (bucketArn_ne_objectArn cfg key).symm
  rw [h]
  simp only [objectRequest, hne, and_false, false_and, false_or]
  constructor
  · rintro ⟨key', heq, hgrants⟩
    rwa [objectArn_injective cfg heq]
  · intro hgrants
    exact ⟨key, rfl, hgrants⟩

theorem allows_listRequest {document : PolicyDocument} (h : cfg.MatchesTable access document)
    (listed : Str) :
    document.allows (cfg.listRequest listed) = true ↔ cfg.TableGrants access .list listed := by
  have hlocation : "s3:ListBucket".toList ≠ "s3:GetBucketLocation".toList := by decide
  refine (h (cfg.listRequest listed)).trans ?_
  constructor
  · rintro (⟨haction, _⟩ | ⟨_, _, listed', hlisted, hgrants⟩ | ⟨key, hresource, _⟩)
    · exact absurd haction hlocation
    · rwa [Option.some.inj hlisted]
    · exact absurd hresource (bucketArn_ne_objectArn cfg key)
  · intro hgrants
    exact Or.inr (Or.inl ⟨rfl, rfl, listed, rfl, hgrants⟩)

/-- **Both drivers grant the same.** Whenever the policy is issued, its text is that of one document.
The document allows an object action on a canonical key, or a listing, exactly when a live session
with the same table does, and it allows what it would with nothing dropped. -/
theorem policy_agrees_with_session {text : Str} (h : cfg.policy access = .ok text)
    {session : VerifiedFilesystemSession} (hcarries : session.Carries cfg access)
    {clock : SessionClock} (hlive : session.check clock session.deadline = .ok ()) :
    (∃ document : PolicyDocument, document.toJson.render = text) ∧
    ∀ document : PolicyDocument, document.toJson.render = text →
      (∀ key, validKey key = true →
        document.allows (cfg.objectRequest "s3:GetObject" key) = session.allows .read key clock ∧
        (∀ action ∈ ["s3:PutObject", "s3:AbortMultipartUpload", "s3:ListMultipartUploadParts"],
          document.allows (cfg.objectRequest action key) = session.allows .write key clock) ∧
        document.allows (cfg.objectRequest "s3:DeleteObject" key) =
          session.allows .delete key clock) ∧
      (∀ listed, validKey ((stripSuffixChar '/' listed).getD listed) = true →
        document.allows (cfg.listRequest listed) = session.allowsList listed clock) ∧
      ∃ permissions, cfg.permissions access = .ok permissions ∧
        ∀ request, document.allows request =
          (cfg.document permissions fun _ own => own).allows request := by
  obtain ⟨permissions, hpermissions, rfl⟩ := policy_eq_ok h
  refine ⟨⟨_, rfl⟩, ?_⟩
  intro document hdocument
  obtain rfl := PolicyDocument.text_injective hdocument
  have htable := matchesTable_document hpermissions (granted_retained permissions)
  refine ⟨fun key hkey => ⟨?_, fun action haction => ?_, ?_⟩, fun listed hlisted => ?_,
    permissions, hpermissions, fun request => ?_⟩
  · rw [Bool.eq_iff_iff, allows_objectRequest htable,
      session.allows_iff_table hcarries hlive VerifiedFilesystemSession.implying_read hkey]
  · rw [Bool.eq_iff_iff, allows_objectRequest htable,
      session.allows_iff_table hcarries hlive
        (VerifiedFilesystemSession.implying_write haction) hkey]
  · rw [Bool.eq_iff_iff, allows_objectRequest htable,
      session.allows_iff_table hcarries hlive VerifiedFilesystemSession.implying_delete hkey]
  · rw [Bool.eq_iff_iff, allows_listRequest htable, VerifiedFilesystemSession.allowsList,
      session.allows_iff_table hcarries hlive VerifiedFilesystemSession.implying_list hlisted]
    exact tableGrants_list_iff hpermissions listed
  · have hplain := @matchesTable_document cfg access (fun _ own => own) permissions hpermissions
      (fun _ _ => Iff.rfl)
    exact Bool.eq_iff_iff.mpr ((htable request).trans (hplain request).symm)

end AwsStorageRoute

namespace Sample

def route : AwsStorageRoute where
  bucket := "graphit-sts".toList
  basePrefix := "tenant".toList
  bucket_safe := by decide
  basePrefix_safe := by decide
  basePrefix_fits := by decide

/-- Nested roots: the artifacts are read and written, and their staging area may be deleted. -/
def table : StorageOperation → List Str
  | .read => ["v1/registry".toList, "v1/artifacts".toList]
  | .write => ["v1/artifacts".toList, "v1/artifacts/staging".toList]
  | .publish => []
  | .delete => ["v1/artifacts/staging".toList]

def tableSession : VerifiedFilesystemSession where
  bucket := route.bucket
  access := fun op => (table op).map route.path
  expiresAt := 900
  deadline := 900
  canonical := by
    intro op
    cases op <;> decide

end Sample

/-- In the sample table, deleting is allowed in the staging area and not beside it. -/
theorem policy_agrees_with_session_staging :
    ∃ text, Sample.route.policy Sample.table = .ok text ∧
      ∀ document : PolicyDocument, document.toJson.render = text →
        document.allows (Sample.route.objectRequest "s3:DeleteObject"
          "tenant/v1/artifacts/staging/a".toList) = true ∧
        document.allows (Sample.route.objectRequest "s3:DeleteObject"
          "tenant/v1/artifacts/a".toList) = false ∧
        document.allows (Sample.route.listRequest "tenant/v1/artifacts/".toList) = true := by
  have hpolicy : (Sample.route.policy Sample.table).isOk = true := by decide +kernel
  obtain ⟨text, htext⟩ : ∃ text, Sample.route.policy Sample.table = .ok text := by
    cases hresult : Sample.route.policy Sample.table with
    | error e => simp [hresult, Except.isOk, Except.toBool] at hpolicy
    | ok text => exact ⟨text, rfl⟩
  refine ⟨text, htext, fun document hdocument => ?_⟩
  have hagree := (AwsStorageRoute.policy_agrees_with_session htext
    (show Sample.tableSession.Carries Sample.route Sample.table from fun _ => rfl)
    (show Sample.tableSession.check ⟨0, some 0, 0⟩ Sample.tableSession.deadline = .ok () from rfl)).2
      document hdocument
  refine ⟨?_, ?_, ?_⟩
  · rw [(hagree.1 _ (by decide)).2.2]
    decide
  · rw [(hagree.1 _ (by decide)).2.2]
    decide
  · rw [hagree.2.1 _ (by decide)]
    decide

end GraphitBroker
