import GraphitBroker.Proof.StoreSteps

/-!
# What requests read

Specifications of the functions that look at the volume.
-/

namespace GraphitBroker

open Steps

namespace FsOp

def readOnly {β : Type} : FsOp β → Bool
  | .createDir _ _ => false
  | step => step.quiet

variable {β : Type} {op : FsOp β} {choice : FsChoice} {v : Volume}

theorem exec_eq_succeed {value : β} (h : (op.exec choice v).1 = .ok value) :
    op.exec choice v = op.succeed choice v := by
  unfold exec at h ⊢
  split_ifs at h ⊢
  rfl

@[simp]
theorem found_eq_ok {o : Option β} {value : β} : found o = .ok value ↔ o = some value := by
  cases o <;> simp [found]

variable {e : FilesystemStoreError}

theorem minor_createDirOf {α : Type} {tree : Tree α} {area : Area} {path : Path} {m : Mutation}
    (h : (createDirOf tree area path).2 = some m) : m.Minor := by
  unfold createDirOf mutating silent at h
  split_ifs at h
  all_goals cases h
  rfl

theorem minor_of_quiet (hquiet : op.quiet = true) {m : Mutation}
    (h : (op.exec choice v).2 = some m) : m.Minor := by
  unfold exec at h
  split_ifs at h
  · cases op <;> cases hquiet <;> cases h
  · cases op with
    | createDir area path => cases area <;> exact minor_createDirOf h
    | openDir area path => cases area <;> cases h
    | stat area key => cases area <;> cases h
    | _ => cases hquiet <;> cases h

theorem snd_exec_of_readOnly (h : op.readOnly = true) : (op.exec choice v).2 = none := by
  unfold exec
  split_ifs
  · cases op <;> first | rfl | cases h
  · cases op with
    | openDir area path => cases area <;> rfl
    | stat area key => cases area <;> rfl
    | _ => first | rfl | cases h

/-- An error of a step. Requests alone conclude that a commit is uncertain or that an object is not
found, from the kind of an error. -/
structure Plain (e : FilesystemStoreError) : Prop where
  certain : e.isUncertain = false
  ne_notFound : e ≠ .notFound

theorem plain_io (e : IoError) : Plain (.io e) := ⟨rfl, nofun⟩

theorem plain_check {caller : Caller} (h : caller.check choice = .error e) : Plain e := by
  unfold Caller.check at h
  split at h
  · cases h
    exact ⟨rfl, nofun⟩
  · split_ifs at h
    cases h
    exact ⟨rfl, nofun⟩

theorem plain (h : (op.exec choice v).1 = .error e) : Plain e := by
  unfold exec at h
  split_ifs at h
  · cases h
    exact plain_io .other
  · cases op
    case check caller => exact plain_check h
    case acquire caller shard => exact plain_check h
    all_goals
      simp only [succeed, silent, mutating, found, statOf, openDirOf, entriesOf, createDirOf] at h
      refine ⟨?_, ?_⟩ <;> grind [FilesystemStoreError.isUncertain, Except.map]

end FsOp

def Volume.Missing (v : Volume) : Area → Path → Prop
  | .data, path => v.data.fileAt path = none
  | .metadata, path => v.metadata.fileAt path = none

theorem Volume.missing_of_openDir {v : Volume} {area : Area} {path a : Path} {choice : FsChoice}
    (ha : a ∈ ancestors path)
    (h : ((FsOp.openDir area a).exec choice v).1 = .error (.io .notFound)) :
    v.Missing area path := by
  unfold FsOp.exec at h
  split_ifs at h
  · cases h
  · cases area with
    | data =>
      refine Tree.fileAt_eq_none_of_not_isDir ha ?_
      simp only [FsOp.succeed, FsOp.silent, FsOp.openDirOf] at h
      unfold Tree.isDir
      split at h <;> simp_all
    | metadata =>
      refine Tree.fileAt_eq_none_of_not_isDir ha ?_
      simp only [FsOp.succeed, FsOp.silent, FsOp.openDirOf] at h
      unfold Tree.isDir
      split at h <;> simp_all

namespace FilesystemStore

variable {store : FilesystemStore} {alone : Prop} {permits : Volume → Mutation → Prop} {held : List Nat}
  {v v' : Volume} {α β : Type} {caller : Caller} {key : Str}

variable {op : FsOp α} {F : α → Volume → Prop} {e : FilesystemStoreError} {p : FsProg α}

theorem keeps_read {F : Except FilesystemStoreError α → Volume → Prop} (hread : op.readOnly = true)
    (hF : ∀ choice v', store.Rely alone held v v' → F (op.exec choice v').1 v') :
    fsMachine.Keeps (store.Rely alone) (store.Guar permits) Mutation.Minor (.perform op) held v F := by
  have hnone : ∀ choice v', (fsMachine.exec op choice v').2 = none :=
    fun choice v' => FsOp.snd_exec_of_readOnly hread
  refine Machine.keeps_perform rely_trans ?_ ?_ ?_ ?_
  · cases op <;> first | rfl | cases hread
  · cases op <;> first | rfl | cases hread
  · intro choice v' m hm
    rw [hnone] at hm
    cases hm
  · intro choice v' hmoved
    rw [hnone]
    exact hF choice v' hmoved

theorem quiet_perform (hquiet : op.quiet = true)
    (hF : ∀ choice v' value, store.Rely alone held v v' → (op.exec choice v').1 = .ok value →
      F value (fsMachine.apply v' (op.exec choice v').2)) :
    store.Quiet alone permits (.perform op) held v F := by
  refine Machine.keeps_perform rely_trans ?_ ?_ ?_ ?_
  · cases op <;> first | rfl | cases hquiet
  · cases op <;> first | rfl | cases hquiet
  · intro choice v' m hm
    have hminor : m.Minor := FsOp.minor_of_quiet hquiet hm
    exact ⟨hminor, fun loc => guar_of_minor hminor loc v', rely_of_minor hminor held v'⟩
  · intro choice v' hmoved
    cases hr : (fsMachine.exec op choice v').1 with
    | ok value => exact hF choice v' value hmoved hr
    | error e => exact (FsOp.plain hr).certain

theorem quiet_step (hquiet : op.quiet = true) :
    store.Quiet alone permits (.perform op) held v fun _ _ => True :=
  quiet_perform hquiet fun _ _ _ _ _ => trivial

theorem quiet_checked : store.Quiet alone permits caller.checked held v fun _ _ => True :=
  quiet_step rfl

theorem quiet_ioStep : store.Quiet alone permits ioStep held v fun _ _ => True :=
  quiet_step rfl

theorem quiet_failIf {condition : Prop} [Decidable condition] (he : e.isUncertain = false) :
    store.Quiet alone permits (failIf condition e) held v fun _ _ => ¬ condition := by
  unfold failIf
  split_ifs with hcondition
  · exact quiet_throw he
  · exact quiet_pure hcondition

theorem Quiet.next {f : α → FsProg β}
    {G : β → Volume → Prop} (hp : store.Quiet alone permits p held v F)
    (hf : ∀ value v', store.Quiet alone permits (f value) held v' G) :
    store.Quiet alone permits (p.bind f) held v G :=
  hp.bind fun value v' _ _ => hf value v'

theorem quiet_ofExcept {r : Except FilesystemStoreError α}
    (hok : ∀ value, r = .ok value → F value v)
    (herror : ∀ e, r = .error e → e.isUncertain = false) :
    store.Quiet alone permits (.ofExcept r) held v F := by
  cases r with
  | ok value => exact quiet_pure (hok value rfl)
  | error e => exact quiet_throw (herror e rfl)

theorem quiet_mapError {f : FilesystemStoreError → FilesystemStoreError}
    (hf : ∀ e, e.isUncertain = false → (f e).isUncertain = false)
    (hp : store.Quiet alone permits p held v F) : store.Quiet alone permits (p.mapError f) held v F := by
  refine Machine.keeps_mapError (Machine.Keeps.mono hp fun r v' _ hr => ?_)
  cases r with
  | ok value => exact hr
  | error e => exact hf e hr

theorem notFoundAs_certain {error e : FilesystemStoreError} (herror : error.isUncertain = false)
    (he : e.isUncertain = false) : (notFoundAs error e).isUncertain = false := by
  unfold notFoundAs
  split
  · exact herror
  · exact he

theorem kind_of_notFoundAs (hne : e ≠ .notFound)
    (h : notFoundAs .notFound e = .notFound) : e = .io .notFound := by
  unfold notFoundAs at h
  split at h
  · rfl
  · exact absurd h hne

theorem quiet_allowed (op : StorageOperation) :
    store.Quiet alone permits (allowed caller op key) held v fun _ _ => True := by
  unfold allowed
  split_ifs
  · exact quiet_pure trivial
  · exact (quiet_step rfl).next fun _ _ => quiet_pure trivial

theorem quiet_authorize (op : StorageOperation) :
    store.Quiet alone permits (store.authorize caller op key) held v fun _ _ => validKey key = true := by
  refine quiet_checked.next fun _ _ => (quiet_failIf rfl).next fun _ _ =>
    (quiet_failIf rfl).bind fun _ _ _ hvalid => (quiet_allowed op).next fun _ _ =>
      (quiet_failIf rfl).mono fun _ _ _ _ => ?_
  simpa using hvalid

theorem quiet_ownedDir (area : Area) (path : Path) :
    store.Quiet alone permits (ownedDir area path) held v fun _ _ => True := by
  refine (quiet_step rfl).next fun created _ => ?_
  dsimp only
  split_ifs
  · exact quiet_ioStep.next fun _ _ => quiet_step rfl
  · exact quiet_step rfl

theorem quiet_openDirs (area : Area) (create : Bool) (paths : List Path) :
    store.Quiet alone permits (openDirs area create paths) held v fun _ _ => True := by
  induction paths generalizing v with
  | nil => exact quiet_pure trivial
  | cons path rest ih =>
    unfold openDirs
    split_ifs
    · exact (quiet_ownedDir area path).next fun _ _ => ih
    · exact (quiet_mapError (fun _ => notFoundAs_certain rfl) (quiet_step rfl)).next fun _ _ => ih

theorem quiet_parent (area : Area) (create : Bool) :
    store.Quiet alone permits (parent area key create) held v fun _ _ => True :=
  (quiet_failIf rfl).next fun _ _ => quiet_ioStep.next fun _ _ => quiet_openDirs area create _

variable (store alone permits) in
/-- A quiet program that says something about the volume also when it finds nothing. -/
def Finds (p : FsProg α) (held : List Nat) (v : Volume) (F : α → Volume → Prop)
    (absent : Volume → Prop) : Prop :=
  fsMachine.Keeps (store.Rely alone) (store.Guar permits) Mutation.Minor p held v fun r v' =>
    match r with
    | .ok value => F value v'
    | .error e => e.isUncertain = false ∧ (e = .notFound → absent v')

variable {F : α → Volume → Prop} {absent : Volume → Prop}

theorem Finds.quiet (h : store.Finds alone permits p held v F absent) :
    store.Quiet alone permits p held v F := by
  refine Machine.Keeps.mono h fun r v' _ hr => ?_
  cases r with
  | ok value => exact hr
  | error e => exact hr.1

theorem Finds.bind {f : α → FsProg β} {G : β → Volume → Prop}
    (hp : store.Finds alone permits p held v F absent)
    (hf : ∀ value v', store.Rely alone held v v' → F value v' →
      store.Finds alone permits (f value) held v' G absent) :
    store.Finds alone permits (p.bind f) held v G absent :=
  Machine.Keeps.bind rely_trans hp hf fun _ _ _ he => he

theorem finds_pure {value : α} (hF : F value v) :
    store.Finds alone permits (.pure value) held v F absent :=
  Machine.keeps_pure rely_refl hF

theorem finds_throw (he : e.isUncertain = false) (hne : e ≠ .notFound) :
    store.Finds alone permits (.throw e) held v F absent :=
  Machine.keeps_throw rely_refl ⟨he, fun heq => absurd heq hne⟩

theorem finds_perform (hquiet : op.quiet = true)
    (hF : ∀ choice v' value, store.Rely alone held v v' → (op.exec choice v').1 = .ok value →
      F value (fsMachine.apply v' (op.exec choice v').2)) :
    store.Finds alone permits (.perform op) held v F absent := by
  refine Machine.keeps_perform rely_trans ?_ ?_ ?_ ?_
  · cases op <;> first | rfl | cases hquiet
  · cases op <;> first | rfl | cases hquiet
  · intro choice v' m hm
    have hminor : m.Minor := FsOp.minor_of_quiet hquiet hm
    exact ⟨hminor, fun loc => guar_of_minor hminor loc v', rely_of_minor hminor held v'⟩
  · intro choice v' hmoved
    cases hr : (fsMachine.exec op choice v').1 with
    | ok value => exact hF choice v' value hmoved hr
    | error e => exact ⟨(FsOp.plain hr).certain, fun heq => absurd heq (FsOp.plain hr).ne_notFound⟩

theorem finds_ioStep : store.Finds alone permits ioStep held v (fun _ _ => True) absent :=
  finds_perform rfl fun _ _ _ _ _ => trivial

theorem finds_failIf {condition : Prop} [Decidable condition]
    (he : e.isUncertain = false) (hne : e ≠ .notFound) :
    store.Finds alone permits (failIf condition e) held v (fun _ _ => ¬ condition) absent := by
  unfold failIf
  split_ifs with hcondition
  · exact finds_throw he hne
  · exact finds_pure hcondition

theorem finds_openDirs {area : Area} {path : Path} {paths : List Path}
    (hpaths : ∀ a ∈ paths, a ∈ ancestors path) :
    store.Finds alone permits (openDirs area false paths) held v (fun _ _ => True)
      fun v' => v'.Missing area path := by
  induction paths generalizing v with
  | nil => exact finds_pure trivial
  | cons a rest ih =>
    have hopen : store.Finds alone permits
        ((Prog.perform (.openDir area a)).mapError (notFoundAs .notFound)) held v
        (fun _ _ => True) fun v' => v'.Missing area path := by
      refine Machine.keeps_mapError (keeps_read rfl fun choice v' _ => ?_)
      cases hr : ((FsOp.openDir area a).exec choice v').1 with
      | ok value => trivial
      | error e =>
        refine ⟨notFoundAs_certain rfl (FsOp.plain hr).certain, fun heq => ?_⟩
        have hkind : e = .io .notFound := kind_of_notFoundAs (FsOp.plain hr).ne_notFound heq
        subst hkind
        exact Volume.missing_of_openDir (hpaths a List.mem_cons_self) hr
    exact hopen.bind fun _ _ _ _ => ih fun b hb => hpaths b (List.mem_cons_of_mem a hb)

theorem finds_parent (area : Area) :
    store.Finds alone permits (parent area key false) held v (fun _ _ => True)
      fun v' => v'.Missing area (pathOf key) :=
  (finds_failIf (e := .invalidKey) rfl nofun).bind fun _ _ _ _ => finds_ioStep.bind fun _ _ _ _ =>
    finds_openDirs fun _ ha => ha

theorem finds_dataFile (hheld : store.shard key ∈ held) :
    store.Finds alone permits (dataFile key) held v
      (fun payload v' => v'.data.fileAt (pathOf key) = some payload)
      fun v' => v'.data.fileAt (pathOf key) = none := by
  refine (finds_parent .data).bind fun _ v₁ _ _ => ?_
  have hopen : store.Finds alone permits
      ((Prog.perform (.openData key)).mapError (notFoundAs .notFound)) held v₁
      (fun node v' => v'.data.lookup (pathOf key) = some node)
      fun v' => v'.data.fileAt (pathOf key) = none := by
    refine Machine.keeps_mapError (keeps_read rfl fun choice v' _ => ?_)
    cases hr : ((FsOp.openData key).exec choice v').1 with
    | ok node =>
      rw [FsOp.exec_eq_succeed hr] at hr
      exact FsOp.found_eq_ok.mp hr
    | error e =>
      refine ⟨notFoundAs_certain rfl (FsOp.plain hr).certain, fun heq => ?_⟩
      have hkind : e = .io .notFound := kind_of_notFoundAs (FsOp.plain hr).ne_notFound heq
      subst hkind
      simp only [FsOp.exec, FsOp.succeed, FsOp.silent, FsOp.found] at hr
      unfold Tree.fileAt
      grind
  refine hopen.bind fun node v₂ _ hnode => finds_ioStep.bind fun _ v₃ hmoved _ => ?_
  cases node with
  | dir => exact finds_throw rfl nofun
  | file payload =>
    refine finds_pure ?_
    rw [hmoved.data key hheld, Tree.fileAt, hnode]

theorem quiet_checkMetadata (metadata : Metadata) :
    store.Quiet alone permits (store.checkMetadata metadata) held v
      fun value _ => value = some metadata :=
  (quiet_failIf rfl).next fun _ _ => (quiet_failIf rfl).next fun _ _ => quiet_pure rfl

theorem quiet_metadata (hheld : store.shard key ∈ held) :
    store.Quiet alone permits (store.metadata key) held v
      fun value v' => value = v'.metadata.fileAt (pathOf key) := by
  refine Machine.Keeps.attempt_bind rely_trans (finds_parent .metadata) fun r v₁ _ hr => ?_
  cases r with
  | error e =>
    dsimp only at hr
    by_cases he : e = .notFound
    · subst he
      exact quiet_pure (hr.2 rfl).symm
    · have hthrow : store.Quiet alone permits (.throw e) held v₁
          (fun value v' => value = v'.metadata.fileAt (pathOf key)) := quiet_throw hr.1
      cases e <;> first | exact hthrow | exact absurd rfl he
  | ok _ =>
    refine Machine.Keeps.attempt_bind rely_trans (F := fun r v' =>
      match r with
      | .ok node => v'.metadata.lookup (pathOf key) = some node
      | .error e => e.isUncertain = false ∧
          (e = .io .notFound → v'.metadata.fileAt (pathOf key) = none)) ?_ ?_
    · refine keeps_read rfl fun choice v' _ => ?_
      cases hr : ((FsOp.openMetadata key).exec choice v').1 with
      | ok node =>
        rw [FsOp.exec_eq_succeed hr] at hr
        exact FsOp.found_eq_ok.mp hr
      | error e =>
        refine ⟨(FsOp.plain hr).certain, ?_⟩
        rintro rfl
        simp only [FsOp.exec, FsOp.succeed, FsOp.silent, FsOp.found] at hr
        unfold Tree.fileAt
        grind
    · intro r v₂ _ hr
      cases r with
      | error e =>
        dsimp only at hr
        by_cases he : e = .io .notFound
        · subst he
          exact quiet_pure (hr.2 rfl).symm
        · have hthrow : store.Quiet alone permits (.throw e) held v₂
              (fun value v' => value = v'.metadata.fileAt (pathOf key)) := quiet_throw hr.1
          cases e with
          | io kind => cases kind <;> first | exact hthrow | exact absurd rfl he
          | _ => exact hthrow
      | ok node =>
        refine Quiet.bind quiet_ioStep fun _ v₃ hmoved₃ _ => ?_
        cases node with
        | dir => exact quiet_throw rfl
        | file metadata =>
          refine Quiet.bind quiet_ioStep fun _ v₄ hmoved₄ _ =>
            (quiet_checkMetadata metadata).mono fun value v₅ hmoved₅ hvalue => ?_
          have hfile : v₂.metadata.fileAt (pathOf key) = some metadata := by
            rw [Tree.fileAt, hr]
          rw [hvalue, hmoved₅.metadata key hheld, hmoved₄.metadata key hheld,
            hmoved₃.metadata key hheld, hfile]

theorem quiet_hashLoop (skip : Nat) (bytes : Bytes) :
    store.Quiet alone permits (hashLoop caller skip bytes) held v fun _ _ => True := by
  induction bytes generalizing skip v with
  | nil =>
    cases skip <;>
      exact quiet_checked.next fun _ _ => (quiet_step rfl).next fun _ _ => quiet_pure trivial
  | cons b rest ih =>
    cases skip with
    | zero => exact quiet_checked.next fun _ _ => (quiet_step rfl).next fun count _ => ih _
    | succ skip => exact ih skip

theorem quiet_hashUncached (payload : Payload) (metadata : Option Metadata) :
    store.Quiet alone permits (hashUncached caller payload metadata) held v fun _ _ => True := by
  unfold hashUncached
  split_ifs
  · exact quiet_pure trivial
  · exact quiet_ioStep.next fun _ _ => quiet_hashLoop 0 payload.bytes

/-- An object is described from its payload and the metadata at its key. -/
theorem quiet_describe (hheld : store.shard key ∈ held) (payload : Payload) :
    store.Quiet alone permits (store.describe caller key payload) held v
      fun info v' => info = store.infoOf key payload (v'.metadata.fileAt (pathOf key)) := by
  refine quiet_checked.next fun _ _ => quiet_ioStep.next fun _ _ =>
    (quiet_metadata hheld).bind fun metadata v₁ _ hmetadata =>
      (quiet_hashUncached payload metadata).bind fun _ v₂ hmoved₂ _ =>
        quiet_ioStep.bind fun _ v₃ hmoved₃ _ => quiet_checked.bind fun _ v₄ hmoved₄ _ => ?_
  refine quiet_pure ?_
  rw [hmetadata, hmoved₄.metadata key hheld, hmoved₃.metadata key hheld,
    hmoved₂.metadata key hheld]

def etagAt (store : FilesystemStore) (v : Volume) (key : Str) : Option Str :=
  (v.data.fileAt (pathOf key)).map fun payload =>
    store.etagOf payload (v.metadata.fileAt (pathOf key))

theorem Rely.etagAt (hmoved : store.Rely alone held v v') (hheld : store.shard key ∈ held) :
    store.etagAt v' key = store.etagAt v key := by
  unfold FilesystemStore.etagAt
  rw [hmoved.data key hheld, hmoved.metadata key hheld]

theorem quiet_currentEtag (hheld : store.shard key ∈ held) :
    store.Quiet alone permits (store.currentEtag caller key) held v
      fun current v' => current = store.etagAt v' key := by
  refine Machine.Keeps.attempt_bind rely_trans (finds_dataFile hheld) fun r v₁ _ hr => ?_
  cases r with
  | ok payload =>
    refine (quiet_describe hheld payload).bind fun info v₂ hmoved hinfo => quiet_pure ?_
    rw [FilesystemStore.etagAt, hmoved.data key hheld, hr, hinfo]
    rfl
  | error e =>
    dsimp only at hr
    by_cases he : e = .notFound
    · subst he
      refine quiet_pure ?_
      rw [FilesystemStore.etagAt, hr.2 rfl]
      rfl
    · have hthrow : store.Quiet alone permits (.throw e) held v₁
          (fun current v' => current = store.etagAt v' key) := quiet_throw hr.1
      cases e <;> first | exact hthrow | exact absurd rfl he

theorem holds_of_none {conditions : FilesystemConditions} (hmatch : conditions.ifMatch = none)
    (hnone : conditions.ifNoneMatch = none) (current : Option Str) :
    conditions.holds current = true := by
  simp [FilesystemConditions.holds, hmatch, hnone]

theorem quiet_checkCurrent (hheld : store.shard key ∈ held) (conditions : FilesystemConditions) :
    store.Quiet alone permits (store.checkCurrent caller key conditions) held v
      fun _ v' => conditions.holds (store.etagAt v' key) = true := by
  unfold checkCurrent
  split_ifs with hany
  · refine (quiet_currentEtag hheld).bind fun current v₁ _ hcurrent =>
      (quiet_failIf rfl).mono fun _ v₂ hmoved hholds => ?_
    rw [hmoved.etagAt hheld, ← hcurrent]
    simpa using hholds
  · simp only [Bool.or_eq_true, not_or, Bool.not_eq_true, Option.isSome_eq_false_iff,
      Option.isNone_iff_eq_none] at hany
    exact quiet_pure (holds_of_none hany.1 hany.2 _)

theorem quiet_drain (size skip : Nat) (bytes : Bytes) :
    store.Quiet alone permits (store.drain caller size skip bytes) held v fun _ _ => True := by
  induction bytes generalizing size skip v with
  | nil => cases skip <;> exact (quiet_step rfl).next fun _ _ => quiet_pure trivial
  | cons b rest ih =>
    cases skip with
    | zero =>
      exact (quiet_step rfl).next fun count _ => (quiet_failIf rfl).next fun _ _ =>
        quiet_ioStep.next fun _ _ => quiet_checked.next fun _ _ => ih _ _
    | succ skip => exact ih size skip

theorem quiet_plainBody (bytes : Bytes) :
    store.Quiet alone permits (store.plainBody caller bytes) held v fun value _ => value = bytes :=
  (quiet_drain 0 0 bytes).next fun _ _ => quiet_pure rfl

/-- A prepared object holds the bytes of its body and its authored content type. -/
theorem quiet_prepare {body : FsProg Bytes} {contentType expectedDigest : Option Str}
    {B : Bytes → Volume → Prop}
    (hstable : ∀ bytes v v', store.Rely alone held v v' → B bytes v → B bytes v')
    (hbody : ∀ v', store.Rely alone held v v' → store.Quiet alone permits body held v' B) :
    store.Quiet alone permits (store.prepare caller key body contentType expectedDigest) held v
      fun prepared v' => B prepared.payload.bytes v' ∧
        prepared.metadata = store.preparedMetadata prepared.payload contentType := by
  refine quiet_checked.bind fun _ v₁ h₁ _ => (quiet_failIf rfl).bind fun _ v₂ h₂ _ =>
    (quiet_failIf rfl).bind fun _ v₃ h₃ _ => (quiet_failIf rfl).bind fun _ v₄ h₄ _ =>
      quiet_ioStep.bind fun _ v₅ h₅ _ => quiet_ioStep.bind fun _ v₆ h₆ _ =>
        quiet_checked.bind fun _ v₇ h₇ _ => ?_
  have hmoved : store.Rely alone held v v₇ :=
    rely_trans _ _ _ _ h₁ (rely_trans _ _ _ _ h₂ (rely_trans _ _ _ _ h₃ (rely_trans _ _ _ _ h₄
      (rely_trans _ _ _ _ h₅ (rely_trans _ _ _ _ h₆ h₇)))))
  refine (hbody v₇ hmoved).bind fun bytes w₁ _ hB => (quiet_failIf rfl).bind fun _ w₂ k₂ _ =>
    quiet_ioStep.bind fun _ w₃ k₃ _ => (quiet_step rfl).bind fun modified w₄ k₄ _ =>
      (quiet_failIf rfl).bind fun _ w₅ k₅ _ => quiet_ioStep.bind fun _ w₆ k₆ _ =>
        quiet_ioStep.bind fun _ w₇ k₇ _ => quiet_ioStep.bind fun _ w₈ k₈ _ =>
          quiet_checked.bind fun _ w₉ k₉ _ => quiet_pure ⟨?_, rfl⟩
  have hlater : store.Rely alone held w₁ w₉ :=
    rely_trans _ _ _ _ k₂ (rely_trans _ _ _ _ k₃ (rely_trans _ _ _ _ k₄ (rely_trans _ _ _ _ k₅
      (rely_trans _ _ _ _ k₆ (rely_trans _ _ _ _ k₇ (rely_trans _ _ _ _ k₈ k₉))))))
  exact hstable bytes w₁ w₉ hlater hB

end FilesystemStore

end GraphitBroker
