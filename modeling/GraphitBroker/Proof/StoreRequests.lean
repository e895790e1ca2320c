import GraphitBroker.FilesystemRequests
import GraphitBroker.Proof.StoreCommits

/-!
# What each request may do

`Permits` lists, for every request, the mutations it may make and the volume it may make them in: a
write finds its conditions true of the object it replaces and carries the bytes that were asked for,
a removal finds the ETag it was given.
-/

namespace GraphitBroker

open Steps

def Mutation.upload : Mutation → Option Str
  | .makeUpload id | .makeParts id | .writePart id _ _ | .writeManifest id _ | .trimUpload id _
  | .removeUpload id => some id
  | _ => none

namespace StoreRequest

def Writes (store : FilesystemStore) (v : Volume) (key : Str) (bytes : Bytes) : StoreRequest → Prop
  | .put k body options => key = k ∧ bytes = body ∧
      options.conditions.holds (store.etagAt v key) = true
  | .copy source target sourceConditions targetConditions => key = target ∧
      v.bytesAt source = some bytes ∧ sourceConditions.holds (store.etagAt v source) = true ∧
        targetConditions.holds (store.etagAt v key) = true
  | .completeUpload k id parts conditions => key = k ∧ store.joined v id parts = some bytes ∧
      conditions.holds (store.etagAt v key) = true
  | _ => False

def Authors (store : FilesystemStore) (v : Volume) (key : Str) (contentType : Option Str) :
    StoreRequest → Prop
  | .put k _ options => key = k ∧ contentType = options.contentType
  | .copy source target _ _ => key = target ∧ contentType =
      some (store.contentTypeOf source ((v.metadata.fileAt (pathOf source)).bind (·.contentType)))
  | .completeUpload k id _ _ => key = k ∧ ∃ upload manifest, v.uploads.lookup id = some upload ∧
      upload.manifest = some manifest ∧ manifest.key = k ∧ contentType = manifest.contentType
  | _ => False

def Removes (store : FilesystemStore) (v : Volume) (key : Str) : StoreRequest → Prop
  | .delete k ifMatch => key = k ∧
      (FilesystemConditions.mk ifMatch none).holds (store.etagAt v key) = true
  | .deleteBatch keys _ => key ∈ keys
  | _ => False

def Forgets (key : Str) : StoreRequest → Prop
  | .delete k _ => key = k
  | .deleteBatch keys _ => key ∈ keys
  | _ => False

def Handles (v : Volume) (m : Mutation) : StoreRequest → Prop
  | .createUpload _ _ => True
  | .uploadPart key id number body =>
    (∃ payload, m = .writePart id number.toNat payload ∧ payload.bytes = body ∧
      (v.liveUpload id).map (·.key) = some key) ∨
    ∃ manifest, m = .writeManifest id manifest ∧ manifest.key = key
  | .completeUpload _ id _ _ | .abortUpload _ id =>
    m = .removeUpload id ∨ ∃ removed, m = .trimUpload id removed
  | _ => False

def Permits (store : FilesystemStore) (request : StoreRequest) (v : Volume) : Mutation → Prop
  | .makeDir _ _ => True
  | .writeData key payload => request.Writes store v key payload.bytes
  | .writeMetadata key metadata => request.Authors store v key metadata.contentType
  | .removeData key => request.Removes store v key
  | .removeMetadata key => request.Forgets key
  | m => request.Handles v m

end StoreRequest

namespace FilesystemStore

variable {store : FilesystemStore} {alone : Prop} {permits : Volume → Mutation → Prop}
  {held : List Nat} {v v' : Volume} {caller : Caller} {key : Str}

/-- The end of a write of an object that was prepared so. -/
def Written (key : Str) (B : PreparedObject → Prop) :
    Except FilesystemStoreError FilesystemObjectInfo → List Mutation → Prop :=
  Settles (fun _ ms => ∃ prepared, B prepared ∧ ms = writing key prepared)
    fun ms => ∃ prepared, B prepared ∧ TornWrite key prepared ms

variable {ms : List Mutation} {m : Mutation} {ifMatch : Option Str} {e : FilesystemStoreError}
  {manifest : Manifest}

theorem written_of_prepared {B : PreparedObject → Prop} {prepared : PreparedObject}
    (hB : B prepared) {r : Except FilesystemStoreError FilesystemObjectInfo}
    (h : Settles (fun _ ms => ms = writing key prepared) (TornWrite key prepared) r ms) :
    Written key B r ms := by
  cases r with
  | ok info => exact ⟨prepared, hB, h⟩
  | error e =>
    cases he : e.isUncertain with
    | true =>
      refine settles_of_uncertain he ⟨prepared, hB, ?_⟩
      rwa [Settles, if_pos he] at h
    | false =>
      rw [Settles, he, if_neg Bool.false_ne_true] at h
      rw [h]
      exact settles_of_certain he

theorem does_settled_written {B : PreparedObject → Prop} {body : FsProg FilesystemObjectInfo}
    (h : store.Does alone permits body held v (Written key B)) :
    store.Does alone permits (settled caller (fun _ => true) body) held v (Written key B) := by
  refine does_settled h (fun _ ms hcommit _ => ?_) fun _ _ _ hno => (by cases hno)
  obtain ⟨prepared, hB, hms⟩ := hcommit
  exact ⟨prepared, hB, Or.inr hms⟩

/-- A put writes its body under its content type. -/
theorem does_put (body : Bytes) (options : FilesystemPutOptions) :
    store.Does alone (StoreRequest.Permits store (.put key body options))
      (store.put caller key body options) [] v
      (Written key fun prepared => prepared.payload.bytes = body ∧
        prepared.metadata.contentType = options.contentType) := by
  refine (quiet_authorize .write).then (fun _ v₁ _ _ => does_settled_written ?_)
    fun _ => settles_of_certain
  refine (quiet_prepare (B := fun bytes _ => bytes = body) (fun _ _ _ _ h => h)
    fun _ _ => quiet_plainBody body).then (fun prepared v₂ _ hprepared => ?_)
    fun _ => settles_of_certain
  have hcontentType : prepared.metadata.contentType = options.contentType := by
    rw [hprepared.2]
    rfl
  refine does_locked (fun l hl => absurd hl List.not_mem_nil) (fun v₃ _ => ?_)
    fun _ => settles_of_certain
  refine (does_publishLocked List.mem_cons_self ?_ ?_).mono
    fun r ms => written_of_prepared ⟨hprepared.1, hcontentType⟩
  · exact fun v' _ hholds => ⟨rfl, hprepared.1, hholds⟩
  · exact fun v' _ => ⟨rfl, hcontentType⟩

/-- A copy writes what its source holds. -/
theorem does_copy (source target : Str) (sourceConditions targetConditions : FilesystemConditions) :
    store.Does alone (StoreRequest.Permits store (.copy source target sourceConditions targetConditions))
      (store.copy caller source target sourceConditions targetConditions) [] v
      (Written target fun _ => True) := by
  refine (quiet_authorize .read).then (fun _ v₁ _ _ => ?_) fun _ => settles_of_certain
  refine (quiet_authorize .write).then (fun _ v₂ _ _ => does_settled_written ?_)
    fun _ => settles_of_certain
  refine does_lockedBoth (fun held hsource htarget v₃ _ => ?_) fun _ => settles_of_certain
  refine (finds_dataFile hsource).quiet.then (fun file v₄ _ hfile => ?_) fun _ => settles_of_certain
  refine (quiet_describe hsource file).then (fun info v₅ h₅ hinfo => ?_) fun _ => settles_of_certain
  refine (quiet_failIf rfl).then (fun _ v₆ h₆ hholds => ?_) fun _ => settles_of_certain
  refine (quiet_prepare (B := fun bytes _ => bytes = file.bytes) (fun _ _ _ _ h => h)
    fun _ _ => quiet_plainBody file.bytes).then (fun prepared v₇ h₇ hprepared => ?_)
    fun _ => settles_of_certain
  have hmoved : store.Rely alone held v₅ v₇ := rely_trans _ _ _ _ h₆ h₇
  have hbytes : v₇.data.fileAt (pathOf source) = some file := by
    rw [(rely_trans _ _ _ _ h₅ hmoved).data source hsource, hfile]
  have hetag : store.etagAt v₇ source = some info.etag := by
    rw [FilesystemStore.etagAt, hbytes, hmoved.metadata source hsource, hinfo]
    rfl
  have hcontentType : prepared.metadata.contentType = some (store.contentTypeOf source
      ((v₇.metadata.fileAt (pathOf source)).bind (·.contentType))) := by
    rw [hprepared.2, hmoved.metadata source hsource, hinfo]
    rfl
  refine (does_publishLocked htarget ?_ ?_).mono fun r ms => written_of_prepared trivial
  · intro v' hv' htargetHolds
    refine ⟨rfl, ?_, ?_, htargetHolds⟩
    · rw [Volume.bytesAt, hv'.data source hsource, hbytes, hprepared.1]
      rfl
    · rw [hv'.etagAt hsource, hetag]
      simpa using hholds
  · intro v' hv'
    exact ⟨rfl, by rw [hcontentType, hv'.metadata source hsource]⟩

def Removal (key : Str) (ms : List Mutation) : Prop :=
  ms = [.removeData key] ∨ ms = [.removeData key, .removeMetadata key]

theorem makes_removeData (key : Str) : Makes (.removeData key) (.removeData key) := by
  intro choice v
  unfold FsOp.exec
  split_ifs
  · exact Or.inr ⟨_, rfl, rfl⟩
  · cases hlookup : v.data.lookup (pathOf key) with
    | none => exact Or.inr ⟨.io .notFound, rfl, by simp [FsOp.succeed, FsOp.silent, hlookup]⟩
    | some node =>
      cases node with
      | dir => exact Or.inr ⟨.io .other, rfl, by simp [FsOp.succeed, FsOp.mutating, hlookup]⟩
      | file payload =>
        refine Or.inl ⟨by simp [FsOp.succeed, FsOp.mutating, hlookup], ?_⟩
        simp [Mutation.Effective, Tree.fileAt, hlookup]

theorem makes_removeMetadata (key : Str) : Makes (.removeMetadata key) (.removeMetadata key) := by
  intro choice v
  unfold FsOp.exec
  split_ifs
  · exact Or.inr ⟨_, rfl, rfl⟩
  · cases hlookup : v.metadata.lookup (pathOf key) with
    | none => exact Or.inr ⟨.io .notFound, rfl, by simp [FsOp.succeed, FsOp.silent, hlookup]⟩
    | some node =>
      cases node with
      | dir => exact Or.inr ⟨.io .other, rfl, by simp [FsOp.succeed, FsOp.mutating, hlookup]⟩
      | file payload =>
        exact Or.inl ⟨by simp [FsOp.succeed, FsOp.mutating, hlookup], trivial⟩

theorem does_mutate_alone {op : FsOp Unit}
    {Q : Except FilesystemStoreError Unit → List Mutation → Prop}
    (hacquires : op.acquires = none) (hreleases : op.releases = none) (hmakes : Makes op m)
    (hmay : ∀ v', store.Rely alone held v v' → m.Effective v' → May store permits held v' m)
    (hok : Q (.ok ()) [m]) (herror : ∀ e, e.isUncertain = false → Q (.error e) []) :
    store.Does alone permits (.perform op) held v Q := by
  have hbind : (Prog.perform op : FsProg Unit).bind .pure = .perform op := by
    show Prog.step op _ = Prog.step op _
    congr 1
    funext answer
    cases answer <;> rfl
  rw [← hbind]
  exact does_mutate hacquires hreleases hmakes hmay (fun _ _ _ => does_pure hok) herror

theorem does_unlinkMetadata (hheld : store.shard key ∈ held)
    (hforget : ∀ v', permits v' (.removeMetadata key)) :
    store.Does alone permits (unlinkMetadata key) held v
      fun _ ms => ms = [] ∨ ms = [.removeMetadata key] := by
  refine (finds_parent .metadata).attempt_then (fun _ v₁ _ _ => ?_) fun e v₁ _ _ _ => ?_
  · refine Does.attempt_bind (Q := fun _ ms => ms = [] ∨ ms = [.removeMetadata key]) ?_ ?_
    · refine does_mutate_alone rfl rfl (makes_removeMetadata key) (fun v' _ heffective => ?_)
        (Or.inr rfl) fun _ _ => Or.inl rfl
      refine ⟨rfl, fun k hk => ?_, heffective, hforget v'⟩
      rwa [← Option.some.inj hk]
    · intro r ms v₂ hms
      split
      · refine quiet_ioStep.does (fun _ _ _ => ?_) fun _ _ => ?_ <;> simpa using hms
      · exact does_pure (by simpa using hms)
      · exact does_throw (by simpa using hms)
  · split
    · rename_i heq
      cases heq
    · refine does_pure ?_
      exact Or.inl rfl
    · refine does_throw ?_
      exact Or.inl rfl

theorem quiet_stat : store.Quiet alone permits (.perform (.stat .data key)) held v
    fun present v' => present = false → v'.data.fileAt (pathOf key) = none := by
  refine quiet_perform rfl fun choice v' present _ hr hpresent => ?_
  have hexec := FsOp.exec_eq_succeed hr
  rw [hexec] at hr ⊢
  simp only [FsOp.succeed, FsOp.silent, FsOp.statOf] at hr
  show v'.data.fileAt (pathOf key) = none
  unfold Tree.fileAt
  split at hr <;> grind

def RemovedIf (alone : Prop) (v : Volume) (key : Str) (ifMatch : Option Str) (removed : Bool)
    (ms : List Mutation) : Prop :=
  if removed = true then Removal key ms
  else ms = [] ∧ ifMatch = none ∧ (alone → v.data.fileAt (pathOf key) = none)

theorem ifMatch_eq_none
    (h : (FilesystemConditions.mk ifMatch none).holds none = true) : ifMatch = none := by
  cases ifMatch with
  | none => rfl
  | some list => simp [FilesystemConditions.holds, condition] at h

theorem does_deleteLocked (hheld : store.shard key ∈ held)
    (hremove : ∀ v', (FilesystemConditions.mk ifMatch none).holds (store.etagAt v' key) = true →
      permits v' (.removeData key)) (hforget : ∀ v', permits v' (.removeMetadata key)) :
    store.Does alone permits (store.deleteLocked caller key ifMatch) held v
      (Settles (RemovedIf alone v key ifMatch) (Removal key)) := by
  refine (quiet_checkCurrent hheld _).then (fun _ v₁ h₁ hholds => ?_) fun _ => settles_of_certain
  have hkeep : ∀ v', store.Rely alone held v₁ v' →
      (FilesystemConditions.mk ifMatch none).holds (store.etagAt v' key) = true := fun v' hv' => by
    rw [hv'.etagAt hheld]
    exact hholds
  have hnothing : ∀ v', store.Rely alone held v₁ v' → v'.data.fileAt (pathOf key) = none →
      RemovedIf alone v key ifMatch false [] := by
    intro v' hv' hnone
    refine ⟨rfl, ifMatch_eq_none ?_, fun halone => ?_⟩
    · have hkept := hkeep v' hv'
      rwa [FilesystemStore.etagAt, hnone, Option.map_none] at hkept
    · exact (((rely_trans _ _ _ _ h₁ hv').still halone).data (pathOf key)).symm.trans hnone
  refine (finds_parent .data).attempt_then (fun _ v₂ h₂ _ => ?_) fun e v₂ h₂ he habsent => ?_
  · refine quiet_stat.then (fun present v₃ h₃ habsent => ?_) fun _ => settles_of_certain
    split_ifs with hpresent
    · refine quiet_checked.then (fun _ v₄ h₄ _ => ?_) fun _ => settles_of_certain
      have hmoved : store.Rely alone held v₁ v₄ :=
        rely_trans _ _ _ _ h₂ (rely_trans _ _ _ _ h₃ h₄)
      refine does_mutate rfl rfl (makes_removeData key) ?_ ?_ fun _ => settles_of_certain
      · intro v' hmoved' heffective
        refine ⟨rfl, fun k hk => ?_, heffective,
          hremove v' (hkeep v' (rely_trans _ _ _ _ hmoved hmoved'))⟩
        rwa [← Option.some.inj hk]
      · -- the payload is gone: from here every error is uncertain
        intro v' _ _
        have hafter : store.Does alone permits ((removeMetadata caller key).mapError .commitUncertain)
            held ((Mutation.removeData key).apply v') fun r ms =>
              (∀ e, r = .error e → e.isUncertain = true) ∧
                (ms = [] ∨ ms = [.removeMetadata key]) := by
          refine does_mapError (Does.mono (Q := fun _ ms => ms = [] ∨ ms = [.removeMetadata key])
            ?_ fun r ms hms => ⟨fun e he => ?_, hms⟩)
          · refine (does_unlinkMetadata hheld hforget).bind (fun _ ms w hms => ?_) fun _ _ hms => hms
            have hrest : store.Quiet alone permits (ioStep.bind fun _ => caller.checked) held w
                fun _ _ => True := quiet_ioStep.next fun _ _ => quiet_checked
            refine hrest.does (fun _ _ _ => ?_) fun _ _ => ?_ <;> simpa using hms
          · cases r with
            | ok _ => cases he
            | error cause =>
              obtain rfl : .commitUncertain cause = e := Except.error.inj he
              rfl
        refine hafter.bind (fun _ ms w hms => does_pure ?_) fun e ms hms => ?_
        · have hremoval : Removal key (.removeData key :: (ms ++ [])) := by
            rcases hms.2 with rfl | rfl
            · exact Or.inl rfl
            · exact Or.inr rfl
          exact hremoval
        · refine settles_of_uncertain (hms.1 e rfl) ?_
          rcases hms.2 with rfl | rfl
          · exact Or.inl rfl
          · exact Or.inr rfl
    · obtain rfl : present = false := by simpa using hpresent
      exact does_pure (hnothing v₃ (rely_trans _ _ _ _ h₂ h₃) (habsent rfl))
  · split
    · rename_i heq
      cases heq
      exact does_pure (hnothing v₂ h₂ (habsent rfl))
    · rename_i heq
      cases heq
      exact does_throw (settles_of_certain he)
    · rename_i heq
      cases heq

theorem does_deleteInner
    (hremove : ∀ v', (FilesystemConditions.mk ifMatch none).holds (store.etagAt v' key) = true →
      permits v' (.removeData key)) (hforget : ∀ v', permits v' (.removeMetadata key)) :
    store.Does alone permits (store.deleteInner caller key ifMatch) [] v
      (Settles (fun _ ms => ∃ removed, RemovedIf alone v key ifMatch removed ms) (Removal key)) := by
  refine (quiet_authorize .delete).then (fun _ v₁ h₁ _ => ?_) fun _ => settles_of_certain
  have hback : ∀ w removed ms, store.Rely alone [] v w → RemovedIf alone w key ifMatch removed ms →
      RemovedIf alone v key ifMatch removed ms := by
    intro w removed ms hw hremoved
    cases removed with
    | true => exact hremoved
    | false => exact ⟨hremoved.1, hremoved.2.1, fun halone =>
      ((hw.still halone).data (pathOf key)).symm.trans (hremoved.2.2 halone)⟩
  have hsettled : store.Does alone permits (settled caller id
      (store.locked caller key (store.deleteLocked caller key ifMatch))) [] v₁
      (Settles (RemovedIf alone v key ifMatch) (Removal key)) := by
    refine does_settled ?_ ?_ ?_
    · refine does_locked (fun l hl => absurd hl List.not_mem_nil) (fun v₂ h₂ => ?_)
        fun _ => settles_of_certain
      refine (does_deleteLocked List.mem_cons_self hremove hforget).mono fun r ms hr => ?_
      cases r with
      | ok removed => exact hback v₂ removed ms (rely_trans _ _ _ _ h₁ h₂) hr
      | error e => exact hr
    · intro removed ms hms hremoved
      rwa [RemovedIf, if_pos (show removed = true from hremoved)] at hms
    · intro removed ms hms hremoved
      rw [show removed = false from hremoved] at hms
      exact hms.1
  refine hsettled.bind (fun removed ms v₂ hms => does_pure ⟨removed, ?_⟩) fun e ms hms => hms
  rwa [List.append_nil]

theorem interruptedBatch_certain {results : List FilesystemDeleteResult}
    {cause : FilesystemStoreError} {processed : Bool}
    (h : (interruptedBatch results cause processed).isUncertain = false) : processed = false := by
  unfold interruptedBatch at h
  split at h
  · rename_i error hfind
    obtain ⟨entry, _, hentry⟩ := List.exists_of_findSome?_eq_some hfind
    split at hentry
    · cases hentry
      cases h
    · cases hentry
  · split_ifs at h with hprocessed
    · cases h
    · simpa using hprocessed

inductive Removals (keys : List Str) : List Mutation → Prop where
  | nil : Removals keys []
  | cons {key : Str} {ms rest : List Mutation} (hkey : key ∈ keys) (hms : Removal key ms)
      (hrest : Removals keys rest) : Removals keys (ms ++ rest)

theorem Removals.mono {keys keys' : List Str} (hkeys : keys ⊆ keys')
    (h : Removals keys ms) : Removals keys' ms := by
  induction h with
  | nil => exact .nil
  | cons hkey hms _ ih => exact .cons (hkeys hkey) hms ih

/-- The end of a batch: it has removed only its keys, and nothing if its error is certain. -/
def Batched (keys : List Str) (processed : Bool) {α : Type} (r : Except FilesystemStoreError α)
    (ms : List Mutation) : Prop :=
  Removals keys ms ∧ ∀ e, r = .error e → e.isUncertain = false → processed = false ∧ ms = []

theorem Batched.error {α β : Type} {keys : List Str} {processed : Bool}
    (h : Batched keys processed (.error e : Except _ α) ms) :
    Batched keys processed (.error e : Except _ β) ms := by
  refine ⟨h.1, fun e' he' hcertain => h.2 e' ?_ hcertain⟩
  rw [Except.error.inj he']

theorem does_interrupted {results : List FilesystemDeleteResult} {processed : Bool}
    (keys : List Str) :
    store.Does alone permits (caller.checked.mapError (interruptedBatch results · processed)) held v
      fun r ms => ms = [] ∧ Batched keys processed r ms := by
  refine does_mapError (quiet_checked.does (fun _ _ _ => ⟨rfl, .nil, ?_⟩)
    fun cause _ => ⟨rfl, .nil, ?_⟩)
  · intro e he
    cases he
  · intro e he hcertain
    obtain rfl := Except.error.inj he
    exact ⟨interruptedBatch_certain hcertain, rfl⟩

theorem does_deleteEach {keys : List Str} (quiet : Bool)
    (hremove : ∀ key ∈ keys, ∀ v', permits v' (.removeData key))
    (hforget : ∀ key ∈ keys, ∀ v', permits v' (.removeMetadata key))
    (results : List FilesystemDeleteResult) (processed : Bool) :
    store.Does alone permits (store.deleteEach caller quiet results processed keys) [] v
      (Batched keys processed) := by
  induction keys generalizing results processed v with
  | nil =>
    refine (does_interrupted []).bind (fun _ ms v' hms => does_pure ?_) fun e ms hms => hms.2.error
    refine ⟨?_, fun e he => (by cases he)⟩
    rw [hms.1]
    exact .nil
  | cons key rest ih =>
    refine (does_interrupted (key :: rest)).bind (fun _ ms v₁ hms => ?_)
      fun e ms hms => hms.2.error
    obtain ⟨rfl, _⟩ := hms
    refine Does.attempt_bind (does_deleteInner (fun v' _ => hremove key List.mem_cons_self v')
      fun v' => hforget key List.mem_cons_self v') fun r ms v₂ hr => ?_
    have hremoval : ms = [] ∨ Removal key ms := by
      cases r with
      | ok _ =>
        obtain ⟨removed, hremoved⟩ := hr
        cases removed with
        | true => exact Or.inr hremoved
        | false => exact Or.inl hremoved.1
      | error e =>
        rw [Settles] at hr
        split_ifs at hr
        · exact Or.inr hr
        · exact Or.inl hr
    -- a deletion that is not counted as processed has removed nothing
    have hnothing : mayHaveRemoved r = false → ms = [] := by
      intro hfalse
      cases r with
      | ok _ => cases hfalse
      | error e =>
        rw [Settles, if_neg (by rw [show e.isUncertain = false from hfalse]
                                exact Bool.false_ne_true)] at hr
        exact hr
    refine (ih (fun k hk => hremove k (List.mem_cons_of_mem key hk))
      (fun k hk => hforget k (List.mem_cons_of_mem key hk)) _ _).mono fun r' ms' hms' => ?_
    refine ⟨?_, fun e he hcertain => ?_⟩
    · have hrest := hms'.1.mono (List.subset_cons_self key rest)
      rw [List.nil_append]
      rcases hremoval with rfl | hremoval
      · exact hrest
      · exact .cons List.mem_cons_self hremoval hrest
    · obtain ⟨hprocessed, hms'⟩ := hms'.2 e he hcertain
      rw [Bool.or_eq_false_iff] at hprocessed
      refine ⟨hprocessed.1, ?_⟩
      rw [hnothing hprocessed.2, hms']
      rfl

theorem does_deleteBatch (keys : List Str) (quiet : Bool) :
    store.Does alone (StoreRequest.Permits store (.deleteBatch keys quiet))
      (store.deleteBatch caller keys quiet) [] v (Batched keys false) := by
  have hnone : ∀ e, e.isUncertain = false → Batched keys false
      (.error e : Except FilesystemStoreError (List FilesystemDeleteResult)) [] :=
    fun e _ => ⟨.nil, fun _ _ _ => ⟨rfl, rfl⟩⟩
  refine quiet_checked.then (fun _ v₁ _ _ => ?_) hnone
  refine (quiet_failIf rfl).then (fun _ v₂ _ _ => ?_) hnone
  exact does_deleteEach quiet (fun key hkey _ => hkey) (fun key hkey _ => hkey) [] false

variable {id : Str}

def HasManifest (v : Volume) (id key : Str) (manifest : Manifest) : Prop :=
  ∃ upload, v.uploads.lookup id = some upload ∧ upload.manifest = some manifest ∧ manifest.key = key

theorem quiet_uploadDirectory :
    store.Quiet alone permits (uploadDirectory id) held v fun _ _ => True :=
  (quiet_failIf rfl).next fun _ _ =>
    quiet_mapError (fun _ => notFoundAs_certain rfl) (quiet_step rfl)

theorem quiet_readUploadManifest (hheld : store.shard (uploadLock id) ∈ held) :
    store.Quiet alone permits (store.readUploadManifest id) held v fun manifest v' =>
      ∃ upload, v'.uploads.lookup id = some upload ∧ upload.manifest = some manifest := by
  have hopen : store.Quiet alone permits
      ((Prog.perform (.openManifest id)).mapError (notFoundAs .noSuchUpload)) held v
      fun manifest v' =>
        ∃ upload, v'.uploads.lookup id = some upload ∧ upload.manifest = some manifest := by
    refine quiet_mapError (fun _ => notFoundAs_certain rfl) (keeps_read rfl fun choice v' _ => ?_)
    cases hr : ((FsOp.openManifest id).exec choice v').1 with
    | error e => exact (FsOp.plain hr).certain
    | ok manifest =>
      rw [FsOp.exec_eq_succeed hr] at hr
      exact Option.bind_eq_some_iff.mp (FsOp.found_eq_ok.mp hr)
  refine hopen.bind fun manifest v₁ _ hmanifest => quiet_ioStep.bind fun _ v₂ h₂ _ =>
    quiet_ioStep.bind fun _ v₃ h₃ _ => (quiet_failIf rfl).bind fun _ v₄ h₄ _ =>
      (quiet_failIf rfl).bind fun _ v₅ h₅ _ => quiet_pure ?_
  rwa [h₅.uploads id hheld, h₄.uploads id hheld, h₃.uploads id hheld, h₂.uploads id hheld]

theorem quiet_currentUpload (hheld : store.shard (uploadLock id) ∈ held) :
    store.Quiet alone permits (store.currentUpload key id) held v
      fun manifest v' => HasManifest v' id key manifest := by
  refine quiet_uploadDirectory.next fun _ _ => (quiet_readUploadManifest hheld).bind
    fun manifest v₁ _ hmanifest => (quiet_failIf rfl).bind fun _ v₂ h₂ hkey => quiet_pure ?_
  obtain ⟨upload, hupload, hmanifest⟩ := hmanifest
  exact ⟨upload, by rw [h₂.uploads id hheld, hupload], hmanifest, not_not.mp hkey⟩

theorem Rely.hasManifest (h : store.Rely alone held v v')
    (hheld : store.shard (uploadLock id) ∈ held) (hmanifest : HasManifest v id key manifest) :
    HasManifest v' id key manifest := by
  obtain ⟨upload, hupload, hmanifest⟩ := hmanifest
  exact ⟨upload, by rw [h.uploads id hheld, hupload], hmanifest⟩

theorem joined_congr (h : v'.uploads.lookup id = v.uploads.lookup id)
    (parts : List FilesystemCompletedPart) : store.joined v' id parts = store.joined v id parts := by
  induction parts with
  | nil => rfl
  | cons part rest ih => simp only [FilesystemStore.joined, FsOp.partsOf, h, ih]

theorem quiet_partsBody (hheld : store.shard (uploadLock id) ∈ held) (size : Nat)
    (parts : List FilesystemCompletedPart) :
    store.Quiet alone permits (store.partsBody caller id size parts) held v
      fun bytes v' => store.joined v' id parts = some bytes := by
  induction parts generalizing size v with
  | nil => exact quiet_pure rfl
  | cons part rest ih =>
    have hopen : store.Quiet alone permits
        ((Prog.perform (.openPart id part.number.toNat)).mapError
          (notFoundAs (.io .invalidPartBody))) held v
        fun payload v' =>
          (FsOp.partsOf v' id).bind (·.lookup part.number.toNat) = some payload := by
      refine quiet_mapError (fun _ => notFoundAs_certain rfl)
        (keeps_read rfl fun choice v' _ => ?_)
      cases hr : ((FsOp.openPart id part.number.toNat).exec choice v').1 with
      | error e => exact (FsOp.plain hr).certain
      | ok payload =>
        rw [FsOp.exec_eq_succeed hr] at hr
        exact FsOp.found_eq_ok.mp hr
    refine hopen.bind fun payload v₁ _ hpayload => quiet_ioStep.bind fun _ v₂ h₂ _ =>
      (quiet_drain size 0 payload.bytes).bind fun size' v₃ h₃ _ =>
        (quiet_failIf rfl).bind fun _ v₄ h₄ hetag => (ih size').bind fun bytes v₅ h₅ hbytes =>
          quiet_pure ?_
    have hmoved : store.Rely alone held v₁ v₅ :=
      rely_trans _ _ _ _ h₂ (rely_trans _ _ _ _ h₃ (rely_trans _ _ _ _ h₄ h₅))
    have hpart : (FsOp.partsOf v₅ id).bind (·.lookup part.number.toNat) = some payload := by
      rw [FsOp.partsOf, hmoved.uploads id hheld]
      exact hpayload
    rw [FilesystemStore.joined, hpart, Option.bind_some, if_pos (not_not.mp hetag), hbytes]
    rfl

theorem makes_renamePart (id : Str) (number : Nat) (payload : Payload) :
    Makes (.renamePart id number payload) (.writePart id number payload) :=
  makes_of_mutating (fun _ _ => rfl) (fun _ => rfl) fun _ h => h

theorem makes_renameManifest (id : Str) (manifest : Manifest) :
    Makes (.renameManifest id manifest) (.writeManifest id manifest) :=
  makes_of_mutating (fun _ _ => rfl) (fun _ => rfl) fun _ h => h

theorem may_of_upload (hheld : store.shard (uploadLock id) ∈ held)
    (hlock : m.lock = some (uploadLock id)) (heffective : m.Effective v) (hpermits : permits v m) :
    May store permits held v m :=
  ⟨by rw [hlock]; rfl, fun k hk => by rwa [← Option.some.inj (hlock.symm.trans hk)], heffective,
    hpermits⟩

theorem does_writeUploadManifest (hheld : store.shard (uploadLock id) ∈ held)
    (hpermits : ∀ v', permits v' (.writeManifest id manifest)) :
    store.Does alone permits (store.writeUploadManifest id manifest) held v fun r ms =>
      (r.isOk = true → ms = [.writeManifest id manifest]) ∧
        (ms = [] ∨ ms = [.writeManifest id manifest]) := by
  have hnone : ∀ e : FilesystemStoreError, e.isUncertain = false →
      ((Except.error e : Except _ Unit).isOk = true → ([] : List Mutation) =
        [.writeManifest id manifest]) ∧
          (([] : List Mutation) = [] ∨ [] = [Mutation.writeManifest id manifest]) :=
    fun e _ => ⟨fun hok => (by cases hok), Or.inl rfl⟩
  refine (quiet_failIf rfl).then (fun _ v₁ _ _ => ?_) hnone
  refine quiet_ioStep.then (fun _ v₂ _ _ => ?_) hnone
  refine quiet_ioStep.then (fun _ v₃ _ _ => ?_) hnone
  refine quiet_ioStep.then (fun _ v₄ _ _ => ?_) hnone
  refine quiet_ioStep.then (fun _ v₅ _ _ => ?_) hnone
  refine does_mutate rfl rfl (makes_renameManifest id manifest) (fun v' _ heffective =>
    may_of_upload hheld rfl heffective (hpermits v')) (fun v' _ _ => ?_) hnone
  have hrest : store.Quiet alone permits (ioStep.bind fun _ => ioStep) held
      ((Mutation.writeManifest id manifest).apply v') fun _ _ => True :=
    quiet_ioStep.next fun _ _ => quiet_ioStep
  refine does_mapError (hrest.does (fun _ _ _ => ?_) fun _ _ => ?_)
  · exact ⟨fun _ => rfl, Or.inr rfl⟩
  · exact ⟨fun hok => (by cases hok), Or.inr rfl⟩

def TornRemoval (id : Str) (ms : List Mutation) : Prop :=
  ms = [] ∨ ms = [.removeUpload id] ∨ ∃ removed, ms = [.trimUpload id removed]

theorem does_removeUpload (hheld : store.shard (uploadLock id) ∈ held)
    (hremove : ∀ v', permits v' (.removeUpload id))
    (htrim : ∀ v' removed, permits v' (.trimUpload id removed)) :
    store.Does alone permits (removeUpload id) held v fun r ms =>
      (r.isOk = true → ms = [.removeUpload id]) ∧ TornRemoval id ms := by
  refine does_perform rfl rfl fun choice v' _ => ?_
  unfold FsOp.exec
  split_ifs
  · refine ⟨fun m hm => ?_, does_throw ⟨fun hok => (by cases hok), Or.inr (Or.inr ⟨_, rfl⟩)⟩⟩
    obtain rfl := Option.some.inj hm
    exact may_of_upload hheld rfl trivial (htrim v' _)
  · simp only [FsOp.succeed, FsOp.mutating]
    split_ifs
    · refine ⟨fun m hm => ?_, ?_⟩
      · obtain rfl := Option.some.inj hm
        exact may_of_upload hheld rfl trivial (hremove v')
      · refine quiet_ioStep.does (fun _ _ _ => ?_) fun _ _ => ?_
        · exact ⟨fun _ => rfl, Or.inr (Or.inl rfl)⟩
        · exact ⟨fun hok => (by cases hok), Or.inr (Or.inl rfl)⟩
    · exact ⟨fun m hm => (by cases hm), does_throw ⟨fun hok => (by cases hok), Or.inl rfl⟩⟩

def PartWritten (key id : Str) (number : Int) (body : Bytes) (ms : List Mutation) : Prop :=
  ∃ payload manifest, payload.bytes = body ∧ manifest.key = key ∧
    ms = [.writePart id number.toNat payload, .writeManifest id manifest]

def TornPart (key id : Str) (number : Int) (body : Bytes) (ms : List Mutation) : Prop :=
  (∃ payload : Payload, payload.bytes = body ∧ ms = [.writePart id number.toNat payload]) ∨
    PartWritten key id number body ms

theorem HasManifest.liveUpload (h : HasManifest v id key manifest) :
    (v.liveUpload id).map (·.key) = some key := by
  obtain ⟨upload, hupload, hmanifest, hkey⟩ := h
  simp [Volume.liveUpload, Upload.live, hupload, hmanifest, hkey]

theorem does_publishPart (hheld : store.shard (uploadLock id) ∈ held)
    (hpermits : ∀ v' m, m.key = manifest.key → permits v' (.writeManifest id m)) :
    store.Does alone permits (store.publishPart caller id manifest) held v fun r ms =>
      (r.isOk = true → ∃ m, m.key = manifest.key ∧ ms = [.writeManifest id m]) ∧
        (ms = [] ∨ ∃ m, m.key = manifest.key ∧ ms = [.writeManifest id m]) := by
  have hnone : ∀ e : FilesystemStoreError, e.isUncertain = false →
      ((Except.error e : Except _ Unit).isOk = true →
        ∃ m : Manifest, m.key = manifest.key ∧ ([] : List Mutation) = [.writeManifest id m]) ∧
      (([] : List Mutation) = [] ∨
        ∃ m : Manifest, m.key = manifest.key ∧ ([] : List Mutation) = [.writeManifest id m]) :=
    fun e _ => ⟨fun hok => (by cases hok), Or.inl rfl⟩
  refine quiet_ioStep.then (fun _ v₁ _ _ => ?_) hnone
  refine (quiet_step rfl).then (fun now v₂ _ _ => ?_) hnone
  let progressed : Manifest := { manifest with lastProgress := max now manifest.created }
  have hwrite : store.Does alone permits (store.writeUploadManifest id progressed) held v₂ _ :=
    does_writeUploadManifest hheld fun v' => hpermits v' progressed rfl
  refine hwrite.bind (fun _ ms v₃ hms => ?_) fun e ms hms => ?_
  · have hrest : store.Quiet alone permits (caller.checked.bind fun _ => ioStep) held v₃
        fun _ _ => True := quiet_checked.next fun _ _ => quiet_ioStep
    rw [hms.1 rfl]
    refine hrest.does (fun _ _ _ => ?_) fun _ _ => ?_
    · exact ⟨fun _ => ⟨progressed, rfl, rfl⟩, Or.inr ⟨progressed, rfl, rfl⟩⟩
    · exact ⟨fun hok => (by cases hok), Or.inr ⟨progressed, rfl, rfl⟩⟩
  · refine ⟨fun hok => (by cases hok), ?_⟩
    rcases hms.2 with rfl | rfl
    · exact Or.inl rfl
    · exact Or.inr ⟨progressed, rfl, rfl⟩

theorem does_partLocked {number : Int} {body : Bytes} {prepared : PreparedObject}
    (hheld : store.shard (uploadLock id) ∈ held) (hbody : prepared.payload.bytes = body) :
    store.Does alone (StoreRequest.Permits store (.uploadPart key id number body))
      (store.partLocked caller key id number prepared) held v
      (Settles (fun _ ms => PartWritten key id number body ms) (TornPart key id number body)) := by
  refine (quiet_currentUpload hheld).then (fun manifest v₁ _ hmanifest => ?_)
    fun _ => settles_of_certain
  refine (quiet_step rfl).then (fun _ v₂ h₂ _ => ?_) fun _ => settles_of_certain
  refine quiet_ioStep.then (fun _ v₃ h₃ _ => ?_) fun _ => settles_of_certain
  refine quiet_checked.then (fun _ v₄ h₄ _ => ?_) fun _ => settles_of_certain
  have hmoved : store.Rely alone held v₁ v₄ := rely_trans _ _ _ _ h₂ (rely_trans _ _ _ _ h₃ h₄)
  have hkey : manifest.key = key := by
    obtain ⟨_, _, _, hkey⟩ := hmanifest
    exact hkey
  refine does_mutate rfl rfl (makes_renamePart id number.toNat prepared.payload)
    (fun v' hmoved' heffective => ?_) (fun v' _ _ => ?_) fun _ => settles_of_certain
  · have hlive := ((rely_trans _ _ _ _ hmoved hmoved').hasManifest hheld hmanifest).liveUpload
    exact may_of_upload hheld rfl heffective (Or.inl ⟨prepared.payload, rfl, hbody, hlive⟩)
  · -- the part is in place: from here every error is uncertain
    have hafter : store.Does alone (StoreRequest.Permits store (.uploadPart key id number body))
        ((store.publishPart caller id manifest).mapError uncertain) held
        ((Mutation.writePart id number.toNat prepared.payload).apply v') fun r ms =>
          (r.isOk = true → ∃ m, m.key = manifest.key ∧ ms = [.writeManifest id m]) ∧
            (∀ e, r = .error e → e.isUncertain = true) ∧
              (ms = [] ∨ ∃ m, m.key = manifest.key ∧ ms = [.writeManifest id m]) := by
      refine does_mapError ((does_publishPart hheld fun w m hm => ?_).mono fun r ms hr => ?_)
      · exact Or.inr ⟨m, rfl, hm.trans hkey⟩
      · cases r with
        | ok _ => exact ⟨hr.1, fun e he => (by cases he), hr.2⟩
        | error cause =>
          refine ⟨fun hok => (by cases hok), fun e he => ?_, hr.2⟩
          rw [← Except.error.inj he]
          exact uncertain_isUncertain cause
    refine hafter.bind (fun _ ms w hms => does_pure ?_) fun e ms hms => ?_
    · obtain ⟨m, hm, rfl⟩ := hms.1 rfl
      exact ⟨prepared.payload, m, hbody, hm.trans hkey, rfl⟩
    · refine settles_of_uncertain (hms.2.1 e rfl) ?_
      rcases hms.2.2 with rfl | ⟨m, hm, rfl⟩
      · exact Or.inl ⟨prepared.payload, hbody, rfl⟩
      · exact Or.inr ⟨prepared.payload, m, hbody, hm.trans hkey, rfl⟩

theorem does_uploadPart (number : Int) (body : Bytes) :
    store.Does alone (StoreRequest.Permits store (.uploadPart key id number body))
      (store.uploadPart caller key id number body) [] v
      (Settles (fun _ ms => PartWritten key id number body ms) (TornPart key id number body)) := by
  refine (quiet_authorize .write).then (fun _ v₁ _ _ => ?_) fun _ => settles_of_certain
  refine does_settled ?_ (fun _ ms hms _ => Or.inr hms) fun _ _ _ hno => (by cases hno)
  refine (quiet_failIf rfl).then (fun _ v₂ _ _ => ?_) fun _ => settles_of_certain
  refine (quiet_failIf rfl).then (fun _ v₃ _ _ => ?_) fun _ => settles_of_certain
  have hfirst : store.Does alone (StoreRequest.Permits store (.uploadPart key id number body))
      (store.locked caller (uploadLock id) (store.currentUpload key id)) [] v₃
      fun r ms => ms = [] ∧ ∀ e, r = .error e → e.isUncertain = false := by
    refine does_locked (fun l hl => absurd hl List.not_mem_nil) (fun w _ => ?_) fun e he => ⟨rfl, ?_⟩
    · refine (quiet_currentUpload List.mem_cons_self).does (fun _ _ _ => ⟨rfl, ?_⟩) fun e he =>
        ⟨rfl, ?_⟩
      · exact fun e he => (by cases he)
      · exact fun e' he' => Except.error.inj he' ▸ he
    · exact fun e' he' => Except.error.inj he' ▸ he
  refine hfirst.bind (fun initial ms v₄ hms => ?_) fun e ms hms => ?_
  · obtain ⟨rfl, _⟩ := hms
    refine (quiet_prepare (B := fun bytes _ => bytes = body) (fun _ _ _ _ h => h)
      fun _ _ => quiet_plainBody body).then (fun prepared v₅ _ hprepared => ?_)
      fun _ => settles_of_certain
    exact does_locked (fun l hl => absurd hl List.not_mem_nil)
      (fun w _ => does_partLocked List.mem_cons_self hprepared.1) fun _ => settles_of_certain
  · obtain ⟨rfl, hcertain⟩ := hms
    exact settles_of_certain (hcertain e rfl)

theorem does_removeUpload_checked (hheld : store.shard (uploadLock id) ∈ held)
    (hremove : ∀ v', permits v' (.removeUpload id))
    (htrim : ∀ v' removed, permits v' (.trimUpload id removed)) :
    store.Does alone permits (((removeUpload id).mapError uncertain).bind fun _ =>
      caller.checked.mapError uncertain) held v fun r ms =>
        (r.isOk = true → ms = [.removeUpload id]) ∧
          (∀ e, r = .error e → e.isUncertain = true) ∧ TornRemoval id ms := by
  have hremoved : store.Does alone permits ((removeUpload id).mapError uncertain) held v fun r ms =>
      (r.isOk = true → ms = [.removeUpload id]) ∧
        (∀ e, r = .error e → e.isUncertain = true) ∧ TornRemoval id ms := by
    refine does_mapError ((does_removeUpload hheld hremove htrim).mono fun r ms hr => ?_)
    cases r with
    | ok _ => exact ⟨hr.1, fun e he => (by cases he), hr.2⟩
    | error cause =>
      refine ⟨fun hok => (by cases hok), fun e he => ?_, hr.2⟩
      rw [← Except.error.inj he]
      exact uncertain_isUncertain cause
  refine hremoved.bind (fun _ ms w hms => ?_) fun e ms hms => ?_
  · rw [hms.1 rfl]
    refine does_mapError (quiet_checked.does (fun _ _ _ => ?_) fun cause _ => ?_)
    · exact ⟨fun _ => rfl, fun e he => (by cases he), Or.inr (Or.inl rfl)⟩
    · refine ⟨fun hok => (by cases hok), fun e he => ?_, Or.inr (Or.inl rfl)⟩
      rw [← Except.error.inj he]
      exact uncertain_isUncertain cause
  · exact ⟨fun hok => (by cases hok), fun e' he' => hms.2.1 e' (by rw [Except.error.inj he']),
      hms.2.2⟩

theorem checkParts_certain {previous : Int} {parts : List FilesystemCompletedPart}
    (h : checkParts previous parts = .error e) :
    e.isUncertain = false := by
  induction parts generalizing previous with
  | nil => cases h
  | cons part rest ih =>
    unfold checkParts at h
    split_ifs at h
    · cases h
      rfl
    · cases h
      rfl
    · exact ih h

/-- The end of a completion: the object is written, then the upload removed. -/
def Completed (key id : Str) :
    Except FilesystemStoreError FilesystemObjectInfo → List Mutation → Prop :=
  Settles (fun _ ms => ∃ prepared, ms = writing key prepared ++ [.removeUpload id])
    fun ms => ∃ prepared, TornWrite key prepared ms ∨
      ∃ rest, TornRemoval id rest ∧ ms = writing key prepared ++ rest

theorem invalidPartBody_certain (he : e.isUncertain = false) :
    (invalidPartBody e).isUncertain = false := by
  unfold invalidPartBody
  split
  · rfl
  · exact he

theorem does_completeLocked {parts : List FilesystemCompletedPart}
    {conditions : FilesystemConditions} (hupload : store.shard (uploadLock id) ∈ held)
    (hkey : store.shard key ∈ held) :
    store.Does alone (StoreRequest.Permits store (.completeUpload key id parts conditions))
      (store.completeLocked caller key id parts conditions) held v (Completed key id) := by
  refine (quiet_currentUpload hupload).then (fun manifest v₁ _ hmanifest => ?_)
    fun _ => settles_of_certain
  refine (quiet_step rfl).then (fun _ v₂ h₂ _ => ?_) fun _ => settles_of_certain
  refine (quiet_mapError (fun _ => invalidPartBody_certain)
    (quiet_prepare (B := fun bytes w => store.joined w id parts = some bytes)
      (fun bytes w w' hw h => by rwa [joined_congr (hw.uploads id hupload)])
      fun w _ => quiet_partsBody hupload 0 parts)).then (fun prepared v₃ h₃ hprepared => ?_)
    fun _ => settles_of_certain
  have hmanifest₃ : HasManifest v₃ id key manifest :=
    (rely_trans _ _ _ _ h₂ h₃).hasManifest hupload hmanifest
  have hpublish : store.Does alone
      (StoreRequest.Permits store (.completeUpload key id parts conditions))
      (store.publishLocked caller key prepared conditions) held v₃
      (Settles (fun _ ms => ms = writing key prepared) (TornWrite key prepared)) := by
    refine does_publishLocked hkey (fun v' hv' hholds => ⟨rfl, ?_, hholds⟩) fun v' hv' => ?_
    · rw [joined_congr (hv'.uploads id hupload)]
      exact hprepared.1
    · obtain ⟨upload, hlookup, hsome, hk⟩ := hmanifest₃
      refine ⟨rfl, upload, manifest, ?_, hsome, hk, ?_⟩
      · rw [hv'.uploads id hupload, hlookup]
      · rw [hprepared.2]
        rfl
  refine hpublish.bind (fun info ms v₄ hms => ?_) fun e ms hms => ?_
  · -- the object is in place and the upload goes; errors stay uncertain
    have hrest : store.Does alone
        (StoreRequest.Permits store (.completeUpload key id parts conditions))
        (((removeUpload id).mapError uncertain).bind fun _ => caller.checked.mapError uncertain)
        held v₄ _ :=
      does_removeUpload_checked hupload (fun _ => Or.inl rfl) fun _ removed => Or.inr ⟨removed, rfl⟩
    have hassoc := Prog.bind_assoc ((removeUpload id).mapError uncertain)
      (fun _ => caller.checked.mapError uncertain) fun _ => (.pure info : FsProg FilesystemObjectInfo)
    refine (congrArg (fun p => store.Does _ _ p held v₄ _) hassoc).mp ?_
    refine hrest.bind (fun _ ms' w hms' => does_pure ?_) fun e ms' hms' => ?_
    · exact ⟨prepared, by rw [hms, hms'.1 rfl, List.append_nil]⟩
    · refine settles_of_uncertain (hms'.2.1 e rfl) ⟨prepared, Or.inr ⟨ms', hms'.2.2, ?_⟩⟩
      rw [hms]
  · cases he : e.isUncertain with
    | true =>
      rw [Settles, if_pos he] at hms
      exact settles_of_uncertain he ⟨prepared, Or.inl hms⟩
    | false =>
      rw [Settles, he, if_neg Bool.false_ne_true] at hms
      rw [hms]
      exact settles_of_certain he

theorem does_completeUpload (parts : List FilesystemCompletedPart)
    (conditions : FilesystemConditions) :
    store.Does alone (StoreRequest.Permits store (.completeUpload key id parts conditions))
      (store.completeUpload caller key id parts conditions) [] v (Completed key id) := by
  refine (quiet_authorize .write).then (fun _ v₁ _ _ => ?_) fun _ => settles_of_certain
  refine does_settled ?_ (fun _ ms hms _ => ?_) fun _ _ _ hno => (by cases hno)
  · refine (quiet_failIf rfl).then (fun _ v₂ _ _ => ?_) fun _ => settles_of_certain
    refine (quiet_failIf rfl).then (fun _ v₃ _ _ => ?_) fun _ => settles_of_certain
    refine (quiet_ofExcept (F := fun _ _ => True) (fun _ _ => trivial)
      fun e he => checkParts_certain he).then (fun _ v₄ _ _ => ?_) fun _ => settles_of_certain
    exact does_lockedBoth (fun held hupload hkey v₅ _ => does_completeLocked hupload hkey)
      fun _ => settles_of_certain
  · obtain ⟨prepared, hms⟩ := hms
    exact ⟨prepared, Or.inr ⟨_, Or.inr (Or.inl rfl), hms⟩⟩

theorem does_abortUpload :
    store.Does alone (StoreRequest.Permits store (.abortUpload key id)) (store.abortUpload caller key id)
      [] v (Settles (fun _ ms => ms = [.removeUpload id]) (TornRemoval id)) := by
  refine (quiet_authorize .write).then (fun _ v₁ _ _ => ?_) fun _ => settles_of_certain
  refine does_settled ?_ (fun _ ms hms _ => Or.inr (Or.inl hms)) fun _ _ _ hno => (by cases hno)
  refine (quiet_failIf rfl).then (fun _ v₂ _ _ => ?_) fun _ => settles_of_certain
  refine does_locked (fun l hl => absurd hl List.not_mem_nil) (fun v₃ _ => ?_)
    fun _ => settles_of_certain
  refine (quiet_currentUpload List.mem_cons_self).then (fun _ v₄ _ _ => ?_)
    fun _ => settles_of_certain
  refine quiet_checked.then (fun _ v₅ _ _ => ?_) fun _ => settles_of_certain
  refine (does_removeUpload_checked List.mem_cons_self (fun _ => Or.inl rfl)
    fun _ removed => Or.inr ⟨removed, rfl⟩).mono fun r ms hms => ?_
  cases r with
  | ok _ => exact hms.1 rfl
  | error e => exact settles_of_uncertain (hms.2.1 e rfl) hms.2.2

def OnlyUploads (store : FilesystemStore) (alone : Prop) (permits : Volume → Mutation → Prop) {α : Type}
    (p : FsProg α) (held : List Nat) (v : Volume) : Prop :=
  store.Does alone permits p held v fun _ ms => ∀ m ∈ ms, m.upload.isSome = true

section Creation

variable {α β : Type}

variable {p : FsProg α}

theorem Quiet.onlyUploads {F : α → Volume → Prop}
    (h : store.Quiet alone permits p held v F) : OnlyUploads store alone permits p held v :=
  h.does (fun _ _ _ _ hm => absurd hm List.not_mem_nil)
    fun _ _ _ hm => absurd hm List.not_mem_nil

theorem OnlyUploads.bind {f : α → FsProg β} (hp : OnlyUploads store alone permits p held v)
    (hf : ∀ value v', OnlyUploads store alone permits (f value) held v') :
    OnlyUploads store alone permits (p.bind f) held v := by
  refine Does.bind hp (fun value ms v' hms => (hf value v').mono fun r ms' hms' m hm => ?_)
    fun _ _ hms => hms
  exact (List.mem_append.mp hm).elim (hms m) (hms' m)

theorem OnlyUploads.attempt_bind {f : Except FilesystemStoreError α → FsProg β}
    (hp : OnlyUploads store alone permits p held v)
    (hf : ∀ r v', OnlyUploads store alone permits (f r) held v') :
    OnlyUploads store alone permits (p.attempt.bind f) held v := by
  refine Does.attempt_bind hp fun r ms v' hms => (hf r v').mono fun r' ms' hms' m hm => ?_
  exact (List.mem_append.mp hm).elim (hms m) (hms' m)

theorem onlyUploads_pure {value : α} : OnlyUploads store alone permits (.pure value) held v :=
  does_pure fun _ hm => absurd hm List.not_mem_nil

theorem onlyUploads_throw {e : FilesystemStoreError} :
    OnlyUploads store alone permits (.throw e : FsProg α) held v :=
  does_throw fun _ hm => absurd hm List.not_mem_nil

theorem OnlyUploads.mapError {f : FilesystemStoreError → FilesystemStoreError}
    (hp : OnlyUploads store alone permits p held v) : OnlyUploads store alone permits (p.mapError f) held v :=
  does_mapError hp

theorem onlyUploads_locked {body : FsProg α} (horder : ∀ l ∈ held, l < store.shard key)
    (hbody : ∀ v', OnlyUploads store alone permits body (store.shard key :: held) v') :
    OnlyUploads store alone permits (store.locked caller key body) held v :=
  does_locked horder (fun v' _ => hbody v') fun _ _ _ hm => absurd hm List.not_mem_nil

end Creation

abbrev creating (store : FilesystemStore) (key : Str) (contentType : Option Str) :
    Volume → Mutation → Prop :=
  StoreRequest.Permits store (.createUpload key contentType)

variable {contentType : Option Str}

theorem onlyUploads_removeUpload (hheld : store.shard (uploadLock id) ∈ held) :
    OnlyUploads store alone (creating store key contentType) (removeUpload id) held v := by
  refine (does_removeUpload hheld (fun _ => trivial) fun _ _ => trivial).mono
    fun _ ms hms m hm => ?_
  rcases hms.2 with rfl | rfl | ⟨removed, rfl⟩
  · exact absurd hm List.not_mem_nil
  · rw [List.mem_singleton.mp hm]
    rfl
  · rw [List.mem_singleton.mp hm]
    rfl

theorem onlyUploads_pruneUpload (hheld : store.shard (uploadLock id) ∈ held) (now : Nat) :
    OnlyUploads store alone (creating store key contentType) (store.pruneUpload id now) held v := by
  refine OnlyUploads.attempt_bind quiet_uploadDirectory.onlyUploads fun r v₁ => ?_
  split
  · exact onlyUploads_pure
  · exact onlyUploads_throw
  · refine OnlyUploads.attempt_bind (quiet_readUploadManifest hheld).onlyUploads fun r v₂ => ?_
    split
    · split_ifs
      · exact onlyUploads_removeUpload hheld
      · exact onlyUploads_pure
    · exact onlyUploads_removeUpload hheld
    · exact onlyUploads_throw

theorem onlyUploads_pruneEach (now : Nat) (ids : List Str) :
    OnlyUploads store alone (creating store key contentType) (store.pruneEach caller now ids) [] v := by
  induction ids generalizing v with
  | nil => exact onlyUploads_pure
  | cons id rest ih =>
    refine quiet_checked.onlyUploads.bind fun _ _ => quiet_ioStep.onlyUploads.bind fun _ _ =>
      OnlyUploads.bind ?_ fun _ _ => OnlyUploads.bind ?_ fun _ _ => ih
    · exact (quiet_failIf (e := .invalidMetadata) rfl).onlyUploads
    · exact onlyUploads_locked (fun l hl => absurd hl List.not_mem_nil)
        fun _ => onlyUploads_pruneUpload List.mem_cons_self now

theorem creating_of_upload (h : m.upload.isSome = true) :
    creating store key contentType v m := by
  cases m <;> trivial

theorem onlyUploads_perform {α β : Type} {op : FsOp α} {f : α → FsProg β}
    (hheld : store.shard (uploadLock id) ∈ held) (hacquires : op.acquires = none)
    (hreleases : op.releases = none)
    (hop : ∀ choice v m, (op.exec choice v).2 = some m →
      m.lock = some (uploadLock id) ∧ m.upload.isSome = true ∧ m.Effective v)
    (hf : ∀ value v', OnlyUploads store alone (creating store key contentType) (f value) held v') :
    OnlyUploads store alone (creating store key contentType) ((Prog.perform op).bind f) held v := by
  refine does_perform hacquires hreleases fun choice v' _ => ⟨fun m hm => ?_, ?_⟩
  · obtain ⟨hlock, hupload, heffective⟩ := hop choice v' m hm
    exact may_of_upload hheld hlock heffective (creating_of_upload hupload)
  · have hrest : OnlyUploads store alone (creating store key contentType)
        ((Prog.ofExcept (op.exec choice v').1).bind f) held
        (fsMachine.apply v' (op.exec choice v').2) := by
      cases (op.exec choice v').1 with
      | ok value => exact hf value _
      | error e => exact onlyUploads_throw
    refine Does.mono hrest fun _ ms hms m hm => ?_
    rcases List.mem_append.mp hm with hm | hm
    · exact (hop choice v' m (Option.mem_toList.mp hm)).2.1
    · exact hms m hm

theorem createParts_mutation {choice : FsChoice}
    (h : ((FsOp.createParts id).exec choice v).2 = some m) : m = .makeParts id := by
  simp only [FsOp.exec, FsOp.leftover, FsOp.succeed, FsOp.silent] at h
  split_ifs at h
  split at h
  · cases h
  · split_ifs at h
    exact (Option.some.inj h).symm

theorem createUpload_mutation {choice : FsChoice}
    (h : ((FsOp.createUpload id).exec choice v).2 = some m) : m = .makeUpload id := by
  simp only [FsOp.exec, FsOp.leftover, FsOp.succeed, FsOp.silent] at h
  split_ifs at h
  split at h
  · cases h
  · exact (Option.some.inj h).symm

theorem onlyUploads_publishUpload (hheld : store.shard (uploadLock id) ∈ held) :
    OnlyUploads store alone (creating store key contentType) (store.publishUpload caller id manifest)
      held v := by
  have hrest : ∀ w, OnlyUploads store alone (creating store key contentType)
      ((Prog.perform (.openParts id)).bind fun _ => caller.checked.bind fun _ =>
        (store.writeUploadManifest id manifest).bind fun _ =>
          (ioStep.mapError uncertain).bind fun _ => caller.checked.mapError uncertain) held w := by
    intro w
    refine (quiet_step rfl).onlyUploads.bind fun _ _ => quiet_checked.onlyUploads.bind fun _ _ =>
      OnlyUploads.bind ?_ fun _ _ => quiet_ioStep.onlyUploads.mapError.bind fun _ _ =>
        quiet_checked.onlyUploads.mapError
    refine (does_writeUploadManifest hheld fun _ => trivial).mono fun _ ms hms m hm => ?_
    rcases hms.2 with rfl | rfl
    · exact absurd hm List.not_mem_nil
    · rw [List.mem_singleton.mp hm]
      rfl
  refine onlyUploads_perform hheld rfl rfl (fun choice w m hm => ?_) fun created w => ?_
  · rw [createParts_mutation hm]
    exact ⟨rfl, rfl, trivial⟩
  · split_ifs
    · exact quiet_ioStep.onlyUploads.bind fun _ _ => hrest _
    · exact hrest w

theorem onlyUploads_createLocked (hheld : store.shard (uploadLock id) ∈ held) :
    OnlyUploads store alone (creating store key contentType) (store.createLocked caller id manifest)
      held v := by
  refine onlyUploads_perform hheld rfl rfl (fun choice w m hm => ?_) fun _ w => ?_
  · rw [createUpload_mutation hm]
    exact ⟨rfl, rfl, trivial⟩
  · refine quiet_uploadDirectory.onlyUploads.bind fun _ _ =>
      OnlyUploads.attempt_bind (onlyUploads_publishUpload hheld) fun r w' => ?_
    split
    · exact onlyUploads_pure
    · split_ifs
      · exact onlyUploads_throw
      · exact (onlyUploads_removeUpload hheld).mapError.bind fun _ _ => onlyUploads_throw

theorem onlyUploads_settled {α : Type} {body : FsProg α} {committed : α → Bool}
    (h : OnlyUploads store alone permits body held v) :
    OnlyUploads store alone permits (settled caller committed body) held v := by
  refine h.attempt_bind fun r v' => ?_
  cases r with
  | ok value => exact quiet_checked.onlyUploads.mapError.bind fun _ _ => onlyUploads_pure
  | error e =>
    dsimp only
    split_ifs
    · exact onlyUploads_throw
    · exact quiet_checked.onlyUploads.bind fun _ _ => onlyUploads_throw

/-- The creation of an upload, which removes abandoned ones, changes uploads only. -/
theorem does_createUpload :
    OnlyUploads store alone (creating store key contentType)
      (store.createUpload caller key contentType) [] v := by
  refine (quiet_authorize .write).onlyUploads.bind fun _ _ => onlyUploads_settled ?_
  refine OnlyUploads.bind (quiet_failIf (e := .invalidMetadata) rfl).onlyUploads fun _ _ =>
    (quiet_step rfl).onlyUploads.bind fun now _ =>
      OnlyUploads.bind (quiet_failIf (e := .invalidMetadata) rfl).onlyUploads fun _ _ =>
        OnlyUploads.bind ?_ fun _ _ => (quiet_step rfl).onlyUploads.bind fun random _ => ?_
  · exact (quiet_step rfl).onlyUploads.bind fun _ _ => (quiet_step rfl).onlyUploads.bind fun _ _ =>
      onlyUploads_pruneEach _ _
  · exact onlyUploads_locked (fun l hl => absurd hl List.not_mem_nil)
      fun _ => onlyUploads_createLocked List.mem_cons_self

end FilesystemStore

end GraphitBroker
