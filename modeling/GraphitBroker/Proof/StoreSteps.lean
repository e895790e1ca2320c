import GraphitBroker.FilesystemMultipart
import GraphitBroker.Lib.Keeps

/-!
# What requests rely on

Under the shard of a key its payload and its metadata stand still, and under the shard of an upload
its directory does; directories may appear at any time.
-/

namespace GraphitBroker

open Steps

def Mutation.lock : Mutation → Option Str
  | .makeDir _ _ => none
  | .writeData key _ | .writeMetadata key _ | .removeData key | .removeMetadata key => some key
  | .makeUpload id | .makeParts id | .writePart id _ _ | .writeManifest id _ | .trimUpload id _
  | .removeUpload id => some (uploadLock id)

theorem uploadLock_injective : Function.Injective uploadLock :=
  fun _ _ h => List.append_cancel_left h

theorem lookup_modifyUpload_ne (v : Volume) {id id' : Str} (f : Upload → Upload) (h : id' ≠ id) :
    (v.modifyUpload id f).uploads.lookup id' = v.uploads.lookup id' := by
  unfold Volume.modifyUpload
  split
  · rfl
  · exact AList.lookup_insert_ne h

@[simp]
theorem data_modifyUpload (v : Volume) (id : Str) (f : Upload → Upload) :
    (v.modifyUpload id f).data = v.data := by
  unfold Volume.modifyUpload
  split <;> rfl

@[simp]
theorem metadata_modifyUpload (v : Volume) (id : Str) (f : Upload → Upload) :
    (v.modifyUpload id f).metadata = v.metadata := by
  unfold Volume.modifyUpload
  split <;> rfl

namespace Mutation

theorem data_apply {m : Mutation} {key : Str} (h : m.lock ≠ some key) (v : Volume) :
    (m.apply v).data.fileAt (pathOf key) = v.data.fileAt (pathOf key) := by
  have hpath : ∀ {k : Str}, k ≠ key → pathOf key ≠ pathOf k :=
    fun hk heq => hk (pathOf_injective heq).symm
  cases m with
  | makeDir area path => cases area <;> simp [apply]
  | writeData k payload =>
    exact Tree.fileAt_write_ne _ _ (hpath fun hk => h (by rw [lock, hk]))
  | removeData k =>
    exact (Tree.fileAt_remove _ _ _).trans
      (if_neg (hpath fun hk => h (by rw [lock, hk])))
  | _ => simp [apply]

theorem metadata_apply {m : Mutation} {key : Str} (h : m.lock ≠ some key) (v : Volume) :
    (m.apply v).metadata.fileAt (pathOf key) = v.metadata.fileAt (pathOf key) := by
  have hpath : ∀ {k : Str}, k ≠ key → pathOf key ≠ pathOf k :=
    fun hk heq => hk (pathOf_injective heq).symm
  cases m with
  | makeDir area path => cases area <;> simp [apply]
  | writeMetadata k metadata =>
    exact Tree.fileAt_write_ne _ _ (hpath fun hk => h (by rw [lock, hk]))
  | removeMetadata k =>
    exact (Tree.fileAt_remove _ _ _).trans
      (if_neg (hpath fun hk => h (by rw [lock, hk])))
  | _ => simp [apply]

theorem uploads_apply {m : Mutation} {id : Str} (h : m.lock ≠ some (uploadLock id)) (v : Volume) :
    (m.apply v).uploads.lookup id = v.uploads.lookup id := by
  have hid : ∀ {k : Str}, m.lock = some (uploadLock k) → id ≠ k :=
    fun hk heq => h (heq ▸ hk)
  cases m with
  | makeDir area path => cases area <;> rfl
  | makeUpload k => exact AList.lookup_insert_ne (hid rfl)
  | removeUpload k => exact AList.lookup_erase_ne (hid rfl)
  | makeParts k => exact lookup_modifyUpload_ne v _ (hid rfl)
  | writePart k number payload => exact lookup_modifyUpload_ne v _ (hid rfl)
  | writeManifest k manifest => exact lookup_modifyUpload_ne v _ (hid rfl)
  | trimUpload k removed => exact lookup_modifyUpload_ne v _ (hid rfl)
  | _ => rfl

end Mutation

def Mutation.Effective (v : Volume) : Mutation → Prop
  | .writeData key _ => v.data.canWrite (pathOf key) = true
  | .writeMetadata key _ => v.metadata.canWrite (pathOf key) = true
  | .removeData key => (v.data.fileAt (pathOf key)).isSome = true
  | .writePart id _ _ => (FsOp.partsOf v id).isSome = true
  | .writeManifest id _ => (v.uploads.lookup id).isSome = true
  | _ => True

structure SameFiles (v v' : Volume) : Prop where
  data : ∀ path, v'.data.fileAt path = v.data.fileAt path
  metadata : ∀ path, v'.metadata.fileAt path = v.metadata.fileAt path
  uploads : v'.uploads = v.uploads

theorem SameFiles.refl (v : Volume) : SameFiles v v := ⟨fun _ => rfl, fun _ => rfl, rfl⟩

theorem SameFiles.trans {v₁ v₂ v₃ : Volume} (h₁ : SameFiles v₁ v₂) (h₂ : SameFiles v₂ v₃) :
    SameFiles v₁ v₃ :=
  ⟨fun path => (h₂.data path).trans (h₁.data path),
    fun path => (h₂.metadata path).trans (h₁.metadata path), h₂.uploads.trans h₁.uploads⟩

structure FilesystemStore.Rely (store : FilesystemStore) (alone : Prop) (held : List Nat)
    (v v' : Volume) : Prop where
  data : ∀ key, store.shard key ∈ held → v'.data.fileAt (pathOf key) = v.data.fileAt (pathOf key)
  metadata : ∀ key, store.shard key ∈ held →
    v'.metadata.fileAt (pathOf key) = v.metadata.fileAt (pathOf key)
  uploads : ∀ id, store.shard (uploadLock id) ∈ held → v'.uploads.lookup id = v.uploads.lookup id
  still : alone → SameFiles v v'

structure FilesystemStore.Guar (store : FilesystemStore) (permits : Volume → Mutation → Prop)
    (loc : Local Nat Mutation) (v : Volume) (m : Mutation) : Prop where
  guarded : ∀ key, m.lock = some key → store.shard key ∈ loc.held
  effective : m.Effective v
  permitted : m.lock ≠ none → permits v m

namespace FsOp

def quiet {β : Type} : FsOp β → Bool
  | .acquire _ _ | .release _ | .renamePayload _ _ | .renameMetadata _ _ | .removeData _
  | .removeMetadata _ | .createUpload _ | .createParts _ | .renamePart _ _ _ | .renameManifest _ _
  | .removeUpload _ => false
  | _ => true

end FsOp

def Mutation.Minor (m : Mutation) : Prop := m.lock = none

theorem sameFiles_of_minor {m : Mutation} (hm : m.Minor) (v : Volume) : SameFiles v (m.apply v) := by
  cases m with
  | makeDir area path =>
    cases area
    · exact ⟨fun p => Tree.fileAt_makeDir v.data path p, fun _ => rfl, rfl⟩
    · exact ⟨fun _ => rfl, fun p => Tree.fileAt_makeDir v.metadata path p, rfl⟩
  | _ => cases hm

namespace FilesystemStore

variable {store : FilesystemStore} {alone : Prop} {permits : Volume → Mutation → Prop}
  {held : List Nat} {v v' : Volume}

theorem rely_refl (held : List Nat) (v : Volume) : store.Rely alone held v v :=
  ⟨fun _ _ => rfl, fun _ _ => rfl, fun _ _ => rfl, fun _ => SameFiles.refl v⟩

theorem rely_trans (held : List Nat) (v₁ v₂ v₃ : Volume) (h₁ : store.Rely alone held v₁ v₂)
    (h₂ : store.Rely alone held v₂ v₃) : store.Rely alone held v₁ v₃ :=
  ⟨fun key hkey => (h₂.data key hkey).trans (h₁.data key hkey),
    fun key hkey => (h₂.metadata key hkey).trans (h₁.metadata key hkey),
    fun id hid => (h₂.uploads id hid).trans (h₁.uploads id hid),
    fun halone => (h₁.still halone).trans (h₂.still halone)⟩

theorem Rely.weaken {held' : List Nat} (h : store.Rely alone held' v v') (hsub : held ⊆ held') :
    store.Rely alone held v v' :=
  ⟨fun key hkey => h.data key (hsub hkey), fun key hkey => h.metadata key (hsub hkey),
    fun id hid => h.uploads id (hsub hid), h.still⟩

theorem rely_apply {m : Mutation} (h : ∀ key, m.lock = some key → store.shard key ∉ held)
    (hstill : alone → SameFiles v (m.apply v)) : store.Rely alone held v (m.apply v) :=
  ⟨fun key hkey => Mutation.data_apply (fun hlock => h key hlock hkey) v,
    fun key hkey => Mutation.metadata_apply (fun hlock => h key hlock hkey) v,
    fun _ hid => Mutation.uploads_apply (fun hlock => h _ hlock hid) v, hstill⟩

theorem Mutation.Minor.lock_ne {m : Mutation} (hm : m.Minor) (key : Str) : m.lock ≠ some key := by
  rw [show m.lock = none from hm]
  exact (Option.some_ne_none key).symm

theorem rely_of_minor {m : Mutation} (hm : m.Minor) (held : List Nat) (v : Volume) :
    store.Rely alone held v (m.apply v) :=
  rely_apply (fun key hkey => absurd hkey (Mutation.Minor.lock_ne hm key))
    fun _ => sameFiles_of_minor hm v

theorem effective_of_minor {m : Mutation} (hm : m.Minor) (v : Volume) : m.Effective v := by
  cases m with
  | makeDir area path => trivial
  | _ => cases hm

theorem guar_of_minor {m : Mutation} (hm : m.Minor) (loc : Local Nat Mutation) (v : Volume) :
    store.Guar permits loc v m :=
  ⟨fun key hkey => absurd hkey (Mutation.Minor.lock_ne hm key),
    effective_of_minor hm v, fun hne => absurd hm hne⟩

theorem rely_of_guar {loc : Local Nat Mutation} {m : Mutation} (h : store.Guar permits loc v m)
    (hdisjoint : ∀ l ∈ held, l ∉ loc.held) : store.Rely False held v (m.apply v) :=
  rely_apply (fun key hkey hheld => hdisjoint _ hheld (h.guarded key hkey)) False.elim

variable (store alone permits) in
/-- A program that makes at most directories, fails only with errors that are certain, and gives a
result that says something about the volume. -/
def Quiet {α : Type} (p : FsProg α) (held : List Nat) (v : Volume) (F : α → Volume → Prop) : Prop :=
  fsMachine.Keeps (store.Rely alone) (store.Guar permits) Mutation.Minor p held v fun r v' =>
    match r with
    | .ok value => F value v'
    | .error e => e.isUncertain = false

variable {α β : Type}

theorem Quiet.mono {p : FsProg α} {F G : α → Volume → Prop} (h : store.Quiet alone permits p held v F)
    (hFG : ∀ value v', store.Rely alone held v v' → F value v' → G value v') :
    store.Quiet alone permits p held v G := by
  refine Machine.Keeps.mono h fun r v' hmoved hF => ?_
  cases r with
  | ok value => exact hFG value v' hmoved hF
  | error e => exact hF

theorem quiet_pure {value : α} {F : α → Volume → Prop} (hF : F value v) :
    store.Quiet alone permits (.pure value) held v F :=
  Machine.keeps_pure rely_refl hF

theorem quiet_throw {e : FilesystemStoreError} {F : α → Volume → Prop}
    (he : e.isUncertain = false) : store.Quiet alone permits (.throw e) held v F :=
  Machine.keeps_throw rely_refl he

theorem Quiet.bind {p : FsProg α} {f : α → FsProg β} {F : α → Volume → Prop}
    {G : β → Volume → Prop} (hp : store.Quiet alone permits p held v F)
    (hf : ∀ value v', store.Rely alone held v v' → F value v' →
      store.Quiet alone permits (f value) held v' G) :
    store.Quiet alone permits (p.bind f) held v G :=
  Machine.Keeps.bind rely_trans hp hf fun _ _ _ he => he

end FilesystemStore

end GraphitBroker
