import GraphitBroker.Proof.StoreRequests

/-!
# Errors of the store are atomic

A request that runs alone, with a failure at any of its steps, succeeds and has changed exactly what
it addresses, or fails and has changed nothing, or its commit is uncertain and the bytes under its
key are the old or the new ones.
-/

namespace GraphitBroker

open Steps

/-- A volume that becomes another by mutations that were permitted where they happened, and
directories. -/
inductive Evolves (permits : Volume → Mutation → Prop) : Volume → List Mutation → Volume → Prop where
  | done {v v' : Volume} (h : SameFiles v v') : Evolves permits v [] v'
  | step {v w v' : Volume} {m : Mutation} {ms : List Mutation} (h : SameFiles v w)
      (heffective : m.Effective w) (hpermits : permits w m)
      (hrest : Evolves permits (m.apply w) ms v') : Evolves permits v (m :: ms) v'

section

variable {permits : Volume → Mutation → Prop} {v w v' : Volume} {ms ms' : List Mutation}

theorem Evolves.of_sameFiles (h : SameFiles v w) (hms : Evolves permits w ms v') :
    Evolves permits v ms v' := by
  cases hms with
  | done hsame => exact .done (h.trans hsame)
  | step hsame heffective hpermits hrest => exact .step (h.trans hsame) heffective hpermits hrest

theorem Evolves.sameFiles (h : Evolves permits v [] v') : SameFiles v v' := by
  cases h with
  | done hsame => exact hsame

theorem Evolves.append (h : Evolves permits v (ms ++ ms') v') :
    ∃ u, Evolves permits v ms u ∧ Evolves permits u ms' v' := by
  induction ms generalizing v with
  | nil => exact ⟨v, .done (SameFiles.refl v), h⟩
  | cons m rest ih =>
    cases h with
    | step hsame heffective hpermits hrest =>
      obtain ⟨u, hu, hu'⟩ := ih hrest
      exact ⟨u, .step hsame heffective hpermits hu, hu'⟩

end

namespace FilesystemStore

variable {store : FilesystemStore} {alone : Prop} {permits : Volume → Mutation → Prop}
  {v v' : Volume} {α : Type}

theorem evolves_replay {new : List Mutation}
    (h : ∀ front m back, new = front ++ m :: back →
      ∃ loc, store.Guar permits loc (fsMachine.replay v front) m) :
    Evolves permits v (majors new) (fsMachine.replay v new) := by
  induction new generalizing v with
  | nil => exact .done (SameFiles.refl v)
  | cons m rest ih =>
    obtain ⟨loc, hguar⟩ := h [] m rest rfl
    have hrest : Evolves permits (m.apply v) (majors rest) (fsMachine.replay (m.apply v) rest) := by
      refine ih fun front m' back hsplit => ?_
      exact h (m :: front) m' back (by rw [hsplit]; rfl)
    cases hlock : m.lock with
    | none =>
      have hmajors : majors (m :: rest) = majors rest :=
        List.filter_cons_of_neg (by rw [hlock]; exact Bool.false_ne_true)
      rw [hmajors]
      exact hrest.of_sameFiles (sameFiles_of_minor hlock v)
    | some key =>
      have hmajors : majors (m :: rest) = m :: majors rest :=
        List.filter_cons_of_pos (by rw [hlock]; rfl)
      rw [hmajors]
      refine .step (SameFiles.refl v) hguar.effective (hguar.permitted ?_) hrest
      rw [hlock]
      exact Option.some_ne_none key

theorem Does.run {p : FsProg α} {Q : Except FilesystemStoreError α → List Mutation → Prop}
    (h : store.Does alone permits p [] v Q) (choices : Nat → FsChoice) :
    ∃ ms, Q (fsMachine.run p choices ⟨[], []⟩ v).result ms ∧
      Evolves permits v ms (fsMachine.run p choices ⟨[], []⟩ v).state := by
  obtain ⟨new, hdone, hstate, hpermitted⟩ := Machine.run_permitted rely_refl (h []) choices
  obtain ⟨_, new', hnew', hQ⟩ := Machine.run_sound rely_refl (h []) choices
  obtain rfl : new = new' := List.append_cancel_left (hdone.symm.trans hnew')
  exact ⟨majors new, hQ, hstate ▸ evolves_replay hpermitted⟩

end FilesystemStore

open FilesystemStore

variable {store : FilesystemStore} {permits : Volume → Mutation → Prop} {v v' : Volume}

structure Replaced (key : Str) (payload : Option Payload) (P : Option Metadata → Prop)
    (v v' : Volume) : Prop where
  data : ∀ path, v'.data.fileAt path =
    if path = pathOf key then payload else v.data.fileAt path
  metadata : ∀ path, path ≠ pathOf key → v'.metadata.fileAt path = v.metadata.fileAt path
  authored : P (v'.metadata.fileAt (pathOf key))

theorem SameFiles.object (h : SameFiles v v') (key : Str) :
    store.object v' key = store.object v key := by
  unfold FilesystemStore.object
  rw [h.data, h.metadata]

theorem SameFiles.bytesAt (h : SameFiles v v') (key : Str) : v'.bytesAt key = v.bytesAt key := by
  unfold Volume.bytesAt
  rw [h.data]

theorem SameFiles.liveUpload (h : SameFiles v v') (id : Str) :
    v'.liveUpload id = v.liveUpload id := by
  unfold Volume.liveUpload
  rw [h.uploads]

variable {payload : Option Payload} {key : Str} {ms : List Mutation} {id : Str} {P : Str → Prop}
  {m : Mutation}

theorem Replaced.elsewhere {key k : Str}
    {metadata : Option Metadata → Prop} (h : Replaced key payload metadata v v') (hk : k ≠ key) :
    store.object v' k = store.object v k := by
  have hpath : pathOf k ≠ pathOf key := fun heq => hk (pathOf_injective heq)
  unfold FilesystemStore.object
  rw [h.data, if_neg hpath, h.metadata _ hpath]

theorem Replaced.bytesAt {metadata : Option Metadata → Prop}
    (h : Replaced key payload metadata v v') : v'.bytesAt key = payload.map (·.bytes) := by
  unfold Volume.bytesAt
  rw [h.data, if_pos rfl]

theorem replaced_writeData {payload : Payload}
    (heffective : (Mutation.writeData key payload).Effective v) :
    Replaced key (some payload) (· = v.metadata.fileAt (pathOf key)) v
      ((Mutation.writeData key payload).apply v) :=
  ⟨fun path => Tree.fileAt_write payload heffective path, fun _ _ => rfl, rfl⟩

theorem Replaced.writeMetadata {metadata : Metadata}
    {P : Option Metadata → Prop} {w : Volume} (h : Replaced key payload P v w)
    (heffective : (Mutation.writeMetadata key metadata).Effective w) :
    Replaced key payload (· = some metadata) v ((Mutation.writeMetadata key metadata).apply w) := by
  refine ⟨h.data, fun path hpath => ?_, ?_⟩
  · exact (Tree.fileAt_write_ne w.metadata metadata hpath).trans (h.metadata path hpath)
  · exact (Tree.fileAt_write metadata heffective (pathOf key)).trans (if_pos rfl)

theorem replaced_removeData (key : Str) :
    Replaced key none (fun _ => True) v ((Mutation.removeData key).apply v) :=
  ⟨fun path => Tree.fileAt_remove v.data (pathOf key) path, fun _ _ => rfl, trivial⟩

theorem Replaced.removeMetadata
    {P : Option Metadata → Prop} {w : Volume} (h : Replaced key payload P v w) :
    Replaced key payload (fun _ => True) v ((Mutation.removeMetadata key).apply w) := by
  refine ⟨h.data, fun path hpath => ?_, trivial⟩
  exact ((Tree.fileAt_remove w.metadata (pathOf key) path).trans (if_neg hpath)).trans
    (h.metadata path hpath)

theorem Replaced.of_sameFiles {P : Option Metadata → Prop}
    {w w' : Volume} (h : SameFiles v w) (hreplaced : Replaced key payload P w w')
    (h' : SameFiles w' v') : Replaced key payload P v v' := by
  refine ⟨fun path => ?_, fun path hpath => ?_, ?_⟩
  · rw [h'.data, hreplaced.data, h.data]
  · rw [h'.metadata, hreplaced.metadata path hpath, h.metadata]
  · rw [h'.metadata]
    exact hreplaced.authored

theorem evolves_writing {prepared : PreparedObject}
    (h : Evolves permits v (writing key prepared) v') :
    ∃ w w', SameFiles v w ∧ permits w (.writeData key prepared.payload) ∧
      (∀ path, w'.metadata.fileAt path = v.metadata.fileAt path) ∧ w'.uploads = v.uploads ∧
      permits w' (.writeMetadata key prepared.metadata) ∧
      Replaced key (some prepared.payload) (· = some prepared.metadata) v v' ∧
      v'.uploads = v.uploads := by
  cases h with
  | @step _ w _ _ _ hsame heffective hpermits hrest =>
    cases hrest with
    | @step _ w' _ _ _ hsame' heffective' hpermits' hrest' =>
      have hlast := hrest'.sameFiles
      have hreplaced := (replaced_writeData heffective).of_sameFiles hsame hsame'
      have huploads : w'.uploads = v.uploads := hsame'.uploads.trans hsame.uploads
      refine ⟨w, w', hsame, hpermits, fun path => ?_, huploads, hpermits', ?_, ?_⟩
      · exact (hsame'.metadata path).trans (hsame.metadata path)
      · exact (hreplaced.writeMetadata heffective').of_sameFiles (SameFiles.refl v) hlast
      · exact hlast.uploads.trans huploads

theorem evolves_writeData {payload : Payload} (h : Evolves permits v [.writeData key payload] v') :
    ∃ w, SameFiles v w ∧ permits w (.writeData key payload) ∧
      Replaced key (some payload) (fun _ => True) v v' ∧ v'.uploads = v.uploads := by
  cases h with
  | @step _ w _ _ _ hsame heffective hpermits hrest =>
    cases hrest with
    | done hsame' =>
      have hreplaced := (replaced_writeData heffective).of_sameFiles hsame hsame'
      exact ⟨w, hsame, hpermits, ⟨hreplaced.data, hreplaced.metadata, trivial⟩,
        hsame'.uploads.trans hsame.uploads⟩

theorem evolves_removal (hms : Removal key ms) (h : Evolves permits v ms v') :
    Replaced key none (fun _ => True) v v' ∧ v'.uploads = v.uploads := by
  rcases hms with rfl | rfl
  · cases h with
    | step hsame _ _ hrest =>
      cases hrest with
      | done hsame' =>
        exact ⟨(replaced_removeData key).of_sameFiles hsame hsame',
          hsame'.uploads.trans hsame.uploads⟩
  · cases h with
    | step hsame _ _ hrest =>
      cases hrest with
      | step hsame' _ _ hrest' =>
        cases hrest' with
        | done hsame'' =>
          have hdata := (replaced_removeData key).of_sameFiles hsame hsame'
          exact ⟨hdata.removeMetadata.of_sameFiles (SameFiles.refl v) hsame'',
            hsame''.uploads.trans (hsame'.uploads.trans hsame.uploads)⟩

theorem lookup_modifyUpload_self {upload : Upload} (f : Upload → Upload)
    (h : v.uploads.lookup id = some upload) :
    (v.modifyUpload id f).uploads.lookup id = some (f upload) := by
  unfold Volume.modifyUpload
  rw [h]
  exact AList.lookup_insert _

structure UploadsOnly (P : Str → Prop) (v v' : Volume) : Prop where
  data : ∀ path, v'.data.fileAt path = v.data.fileAt path
  metadata : ∀ path, v'.metadata.fileAt path = v.metadata.fileAt path
  uploads : ∀ id, ¬ P id → v'.uploads.lookup id = v.uploads.lookup id

theorem SameFiles.uploadsOnly (h : SameFiles v v') : UploadsOnly P v v' :=
  ⟨h.data, h.metadata, fun id _ => by rw [h.uploads]⟩

theorem UploadsOnly.trans {v₁ v₂ v₃ : Volume} (h₁ : UploadsOnly P v₁ v₂)
    (h₂ : UploadsOnly P v₂ v₃) : UploadsOnly P v₁ v₃ :=
  ⟨fun path => (h₂.data path).trans (h₁.data path),
    fun path => (h₂.metadata path).trans (h₁.metadata path),
    fun id hid => (h₂.uploads id hid).trans (h₁.uploads id hid)⟩

theorem UploadsOnly.object (h : UploadsOnly P v v') (key : Str) :
    store.object v' key = store.object v key := by
  unfold FilesystemStore.object
  rw [h.data, h.metadata]

theorem UploadsOnly.bytesAt (h : UploadsOnly P v v') (key : Str) :
    v'.bytesAt key = v.bytesAt key := by
  unfold Volume.bytesAt
  rw [h.data]

theorem UploadsOnly.liveUpload (h : UploadsOnly P v v') (hid : ¬ P id) :
    v'.liveUpload id = v.liveUpload id := by
  unfold Volume.liveUpload
  rw [h.uploads id hid]

theorem uploadsOnly_apply (hm : m.upload = some id)
    (hP : P id) (v : Volume) : UploadsOnly P v (m.apply v) := by
  have hlock : m.lock = some (uploadLock id) := by
    cases m <;> cases hm <;> rfl
  refine ⟨fun path => ?_, fun path => ?_, fun id' hid' => ?_⟩
  · cases m <;> first | (simp [Mutation.apply]; done) | cases hm
  · cases m <;> first | (simp [Mutation.apply]; done) | cases hm
  · refine Mutation.uploads_apply (fun heq => hid' ?_) v
    rw [hlock, Option.some.injEq] at heq
    rwa [← uploadLock_injective heq]

theorem evolves_uploads
    (hms : ∀ m ∈ ms, ∃ id, m.upload = some id ∧ P id) (h : Evolves permits v ms v') :
    UploadsOnly P v v' := by
  induction h with
  | done hsame => exact hsame.uploadsOnly
  | @step _ w _ m _ hsame _ _ _ ih =>
    obtain ⟨id, hm, hP⟩ := hms m List.mem_cons_self
    exact hsame.uploadsOnly.trans ((uploadsOnly_apply hm hP w).trans
      (ih fun m' hm' => hms m' (List.mem_cons_of_mem m hm')))

theorem FilesystemStore.TornRemoval.mem (h : TornRemoval id ms)
    (hm : m ∈ ms) : ∃ id', m.upload = some id' ∧ id' = id := by
  rcases h with rfl | rfl | ⟨removed, rfl⟩
  · exact absurd hm List.not_mem_nil
  · rw [List.mem_singleton.mp hm]
    exact ⟨id, rfl, rfl⟩
  · rw [List.mem_singleton.mp hm]
    exact ⟨id, rfl, rfl⟩

theorem evolves_removeUpload (h : Evolves permits v [.removeUpload id] v') :
    v'.liveUpload id = none := by
  cases h with
  | @step _ w _ _ _ hsame _ _ hrest =>
    cases hrest with
    | done hsame' =>
      rw [hsame'.liveUpload]
      have herased : ((Mutation.removeUpload id).apply w).uploads.lookup id = none :=
        AList.lookup_erase id w.uploads
      rw [Volume.liveUpload, herased]
      rfl

theorem FilesystemStore.PartWritten.mem {key id : Str} {number : Int} {body : Bytes}
    (h : PartWritten key id number body ms) (hm : m ∈ ms) :
    ∃ id', m.upload = some id' ∧ id' = id := by
  obtain ⟨payload, manifest, _, _, rfl⟩ := h
  rcases List.mem_cons.mp hm with rfl | hm
  · exact ⟨id, rfl, rfl⟩
  · rw [List.mem_singleton.mp hm]
    exact ⟨id, rfl, rfl⟩

theorem FilesystemStore.TornPart.mem {key id : Str} {number : Int} {body : Bytes}
    (h : TornPart key id number body ms) (hm : m ∈ ms) :
    ∃ id', m.upload = some id' ∧ id' = id := by
  rcases h with ⟨payload, _, rfl⟩ | h
  · rw [List.mem_singleton.mp hm]
    exact ⟨id, rfl, rfl⟩
  · exact h.mem hm

theorem evolves_partWritten {key id : Str} {number : Int} {body : Bytes}
    (hms : PartWritten key id number body ms)
    (h : Evolves (StoreRequest.Permits store (.uploadPart key id number body)) v ms v') :
    ∃ upload, v.liveUpload id = some upload ∧ upload.key = key ∧
      v'.liveUpload id =
        some ⟨key, Function.update upload.parts number.toNat (some body)⟩ := by
  obtain ⟨payload, manifest, hbytes, hkey, rfl⟩ := hms
  cases h with
  | @step _ w _ _ _ hsame heffective hpermits hrest =>
    cases hrest with
    | @step _ w' _ _ _ hsame' _ _ hrest' =>
      cases hrest' with
      | done hsame'' =>
        -- the directory of the upload, with its parts, where the part was renamed
        obtain ⟨parts, hparts⟩ := Option.isSome_iff_exists.mp heffective
        obtain ⟨upload, hupload, hsome⟩ := Option.bind_eq_some_iff.mp hparts
        have hlive : (w.liveUpload id).map (·.key) = some key := by
          rcases hpermits with ⟨_, _, _, hlive⟩ | ⟨m, hm, _⟩
          · exact hlive
          · cases hm
        obtain ⟨live, hlive, hlivekey⟩ := Option.map_eq_some_iff.mp hlive
        refine ⟨live, by rw [← hsame.liveUpload, hlive], hlivekey, ?_⟩
        have hafter := lookup_modifyUpload_self
          (fun u => { u with parts := u.parts.map (·.insert number.toNat payload) }) hupload
        have hlookup : w'.uploads.lookup id =
            some { upload with parts := upload.parts.map (·.insert number.toNat payload) } := by
          rw [hsame'.uploads]
          exact hafter
        have hfinal := lookup_modifyUpload_self
          (fun u => { u with manifest := some manifest }) hlookup
        have hliveParts : live.parts = fun n => (parts.lookup n).map (·.bytes) := by
          rw [Volume.liveUpload, hupload, Option.bind_some, Upload.live] at hlive
          obtain ⟨manifest', _, hlive⟩ := Option.map_eq_some_iff.mp hlive
          rw [← hlive, hsome]
          rfl
        rw [hsame''.liveUpload, Volume.liveUpload,
          show ((Mutation.writeManifest id manifest).apply w').uploads.lookup id = _ from hfinal,
          Option.bind_some, Upload.live, Option.map_some, hkey, hsome, hliveParts]
        congr 2
        funext n
        by_cases hn : n = number.toNat
        · subst hn
          simp [hbytes]
        · simp [Function.update_of_ne hn, AList.lookup_insert_ne hn]

structure SameStore (store : FilesystemStore) (v v' : Volume) : Prop where
  objects : ∀ key, store.object v' key = store.object v key
  uploads : ∀ id, v'.liveUpload id = v.liveUpload id

theorem SameFiles.sameStore (h : SameFiles v v') : SameStore store v v' :=
  ⟨h.object, h.liveUpload⟩

structure OnlyObject (store : FilesystemStore) (v v' : Volume) (key : Str)
    (new : Option StoredObject) : Prop where
  here : store.object v' key = new
  elsewhere : ∀ k, k ≠ key → store.object v' k = store.object v k

structure TornObject (store : FilesystemStore) (v v' : Volume) (key : Str) (new : Option Bytes) :
    Prop where
  here : v'.bytesAt key = v.bytesAt key ∨ v'.bytesAt key = new
  elsewhere : ∀ k, k ≠ key → store.object v' k = store.object v k

namespace StoreRequest

/-- What a request leaves behind when its error is certain: nothing, except that the creation of an
upload may have removed abandoned ones. -/
def Refused (store : FilesystemStore) (v v' : Volume) : StoreRequest → Prop
  | .createUpload _ _ => ∀ key, store.object v' key = store.object v key
  | _ => SameStore store v v'

def Succeeded (store : FilesystemStore) (v v' : Volume) : StoreRequest → Prop
  | .put key body options =>
    OnlyObject store v v' key (some ⟨body, store.contentTypeOf key options.contentType⟩) ∧
      ∀ id, v'.liveUpload id = v.liveUpload id
  | .copy source target _ _ =>
    (∃ object, store.object v source = some object ∧
      OnlyObject store v v' target (some object)) ∧ ∀ id, v'.liveUpload id = v.liveUpload id
  | .delete key _ =>
    OnlyObject store v v' key none ∧ ∀ id, v'.liveUpload id = v.liveUpload id
  | .deleteBatch keys _ =>
    (∀ key, store.object v' key = store.object v key ∨
      key ∈ keys ∧ store.object v' key = none) ∧ ∀ id, v'.liveUpload id = v.liveUpload id
  | .createUpload _ _ => ∀ key, store.object v' key = store.object v key
  | .uploadPart key id number body =>
    (∀ k, store.object v' k = store.object v k) ∧
      (∃ upload, v.liveUpload id = some upload ∧ upload.key = key ∧ v'.liveUpload id =
        some ⟨key, Function.update upload.parts number.toNat (some body)⟩) ∧
        ∀ i, i ≠ id → v'.liveUpload i = v.liveUpload i
  | .completeUpload key id parts _ =>
    (∃ bytes upload manifest, store.joined v id parts = some bytes ∧
      v.uploads.lookup id = some upload ∧ upload.manifest = some manifest ∧ manifest.key = key ∧
        OnlyObject store v v' key
          (some ⟨bytes, store.contentTypeOf key manifest.contentType⟩)) ∧
      v'.liveUpload id = none ∧ ∀ i, i ≠ id → v'.liveUpload i = v.liveUpload i
  | .abortUpload _ id =>
    (∀ k, store.object v' k = store.object v k) ∧ v'.liveUpload id = none ∧
      ∀ i, i ≠ id → v'.liveUpload i = v.liveUpload i

def Uncertain (store : FilesystemStore) (v v' : Volume) : StoreRequest → Prop
  | .put key body _ =>
    TornObject store v v' key (some body) ∧ ∀ id, v'.liveUpload id = v.liveUpload id
  | .copy source target _ _ =>
    TornObject store v v' target (v.bytesAt source) ∧ ∀ id, v'.liveUpload id = v.liveUpload id
  | .delete key _ => TornObject store v v' key none ∧ ∀ id, v'.liveUpload id = v.liveUpload id
  | .deleteBatch keys _ => (∀ key, store.object v' key = store.object v key ∨
      key ∈ keys ∧ store.object v' key = none) ∧ ∀ id, v'.liveUpload id = v.liveUpload id
  | .completeUpload key id parts _ => TornObject store v v' key (store.joined v id parts) ∧
      ∀ i, i ≠ id → v'.liveUpload i = v.liveUpload i
  | .uploadPart _ id _ _ | .abortUpload _ id => (∀ key, store.object v' key = store.object v key) ∧
      ∀ i, i ≠ id → v'.liveUpload i = v.liveUpload i
  | .createUpload _ _ => ∀ key, store.object v' key = store.object v key

structure Atomic (store : FilesystemStore) (request : StoreRequest) (v : Volume)
    (outcome : Machine.Outcome FilesystemStoreError Volume Nat Mutation StoreResponse) : Prop where
  refused : ∀ e, outcome.result = .error e → e.isUncertain = false →
    request.Refused store v outcome.state
  succeeded : ∀ response, outcome.result = .ok response → request.Succeeded store v outcome.state
  uncertain : ∀ e, outcome.result = .error e → e.isUncertain = true →
    request.Uncertain store v outcome.state

end StoreRequest

structure Ends {α : Type} (permits : Volume → Mutation → Prop)
    (Q : Except FilesystemStoreError α → List Mutation → Prop) (v : Volume)
    (outcome : Machine.Outcome FilesystemStoreError Volume Nat Mutation StoreResponse) : Prop where
  succeeded : ∀ response, outcome.result = .ok response →
    ∃ value ms, Q (.ok value) ms ∧ Evolves permits v ms outcome.state
  failed : ∀ e, outcome.result = .error e →
    ∃ ms, Q (.error e) ms ∧ Evolves permits v ms outcome.state

theorem ends_of_does {α : Type} {p : FsProg α} {g : α → StoreResponse}
    {Q : Except FilesystemStoreError α → List Mutation → Prop}
    (h : store.Does True permits p [] v Q) (choices : Nat → FsChoice) :
    Ends permits Q v (fsMachine.run (p.bind fun value => .pure (g value)) choices ⟨[], []⟩ v) := by
  have hresponse : store.Does True permits (p.bind fun value => .pure (g value)) [] v fun r ms =>
      match r with
      | .ok _ => ∃ value, Q (.ok value) ms
      | .error e => Q (.error e) ms := by
    refine h.bind (fun value ms v' hms => does_pure ?_) fun e ms hms => hms
    rw [List.append_nil]
    exact ⟨value, hms⟩
  obtain ⟨ms, hms, hevolves⟩ := hresponse.run choices
  refine ⟨fun response hr => ?_, fun e he => ?_⟩
  · simp only [hr] at hms
    obtain ⟨value, hvalue⟩ := hms
    exact ⟨value, ms, hvalue, hevolves⟩
  · simp only [he] at hms
    exact ⟨ms, hms, hevolves⟩

section Settling

variable {α : Type} {commit : α → List Mutation → Prop} {torn : List Mutation → Prop}
  {outcome : Machine.Outcome FilesystemStoreError Volume Nat Mutation StoreResponse}
  {e : FilesystemStoreError}

theorem Ends.refused (h : Ends permits (Settles commit torn) v outcome)
    (he : outcome.result = .error e) (hcertain : e.isUncertain = false) :
    SameFiles v outcome.state := by
  obtain ⟨ms, hms, hevolves⟩ := h.failed e he
  rw [Settles, hcertain, if_neg Bool.false_ne_true] at hms
  subst hms
  exact hevolves.sameFiles

theorem Ends.uncertain (h : Ends permits (Settles commit torn) v outcome)
    (he : outcome.result = .error e) (huncertain : e.isUncertain = true) :
    ∃ ms, torn ms ∧ Evolves permits v ms outcome.state := by
  obtain ⟨ms, hms, hevolves⟩ := h.failed e he
  rw [Settles, if_pos huncertain] at hms
  exact ⟨ms, hms, hevolves⟩

end Settling

theorem Replaced.object {payload : Payload} {metadata : Metadata}
    (h : Replaced key (some payload) (· = some metadata) v v') :
    store.object v' key =
      some ⟨payload.bytes, store.contentTypeOf key metadata.contentType⟩ := by
  rw [FilesystemStore.object, h.data, if_pos rfl, Option.map_some, h.authored]
  rfl

theorem Replaced.object_none {P : Option Metadata → Prop}
    (h : Replaced key none P v v') : store.object v' key = none := by
  rw [FilesystemStore.object, h.data, if_pos rfl, Option.map_none]

theorem liveUpload_congr (h : v'.uploads = v.uploads) (id : Str) :
    v'.liveUpload id = v.liveUpload id := by
  rw [Volume.liveUpload, h, Volume.liveUpload]

theorem evolves_tornWrite {prepared : PreparedObject}
    (hms : TornWrite key prepared ms) (h : Evolves permits v ms v') :
    (∃ w, SameFiles v w ∧ permits w (.writeData key prepared.payload)) ∧
      Replaced key (some prepared.payload) (fun _ => True) v v' ∧ v'.uploads = v.uploads := by
  rcases hms with rfl | rfl
  · obtain ⟨w, hsame, hpermits, hreplaced, huploads⟩ := evolves_writeData h
    exact ⟨⟨w, hsame, hpermits⟩, hreplaced, huploads⟩
  · obtain ⟨w, _, hsame, hpermits, _, _, _, hreplaced, huploads⟩ := evolves_writing h
    exact ⟨⟨w, hsame, hpermits⟩, ⟨hreplaced.data, hreplaced.metadata, trivial⟩, huploads⟩

theorem Replaced.tornObject {P : Option Metadata → Prop}
    (h : Replaced key payload P v v') : TornObject store v v' key (payload.map (·.bytes)) :=
  ⟨Or.inr h.bytesAt, fun _ hk => h.elsewhere hk⟩

theorem evolves_removals {keys : List Str} (hms : Removals keys ms) (h : Evolves permits v ms v') :
    (∀ key, store.object v' key = store.object v key ∨
      key ∈ keys ∧ store.object v' key = none) ∧ v'.uploads = v.uploads := by
  induction hms generalizing v with
  | nil => exact ⟨fun key => Or.inl (h.sameFiles.object key), h.sameFiles.uploads⟩
  | @cons removed front rest hkey hfront _ ih =>
    obtain ⟨u, hu, hu'⟩ := h.append
    obtain ⟨hreplaced, huploads⟩ := evolves_removal hfront hu
    obtain ⟨hobjects, huploads'⟩ := ih hu'
    refine ⟨fun key => ?_, huploads'.trans huploads⟩
    rcases hobjects key with heq | hnone
    · by_cases hk : key = removed
      · subst hk
        exact Or.inr ⟨hkey, by rw [heq, hreplaced.object_none]⟩
      · exact Or.inl (by rw [heq, hreplaced.elsewhere hk])
    · exact Or.inr hnone

namespace StoreRequest

variable {outcome : Machine.Outcome FilesystemStoreError Volume Nat Mutation StoreResponse}

theorem put_atomic {key : Str} {body : Bytes} {options : FilesystemPutOptions}
    (hends : Ends (Permits store (.put key body options))
      (Written key fun prepared => prepared.payload.bytes = body ∧
        prepared.metadata.contentType = options.contentType) v outcome) :
    (StoreRequest.put key body options).Atomic store v outcome := by
  refine ⟨fun e he hcertain => (hends.refused he hcertain).sameStore, fun response hr => ?_,
    fun e he huncertain => ?_⟩
  · obtain ⟨_, ms, ⟨prepared, ⟨hbytes, hcontentType⟩, rfl⟩, hevolves⟩ := hends.succeeded response hr
    obtain ⟨_, _, _, _, _, _, _, hreplaced, huploads⟩ := evolves_writing hevolves
    refine ⟨⟨?_, fun k hk => hreplaced.elsewhere hk⟩, liveUpload_congr huploads⟩
    rw [hreplaced.object, hbytes, hcontentType]
  · obtain ⟨ms, ⟨prepared, ⟨hbytes, _⟩, hms⟩, hevolves⟩ := hends.uncertain he huncertain
    obtain ⟨_, hreplaced, huploads⟩ := evolves_tornWrite hms hevolves
    exact ⟨hbytes ▸ hreplaced.tornObject, liveUpload_congr huploads⟩

theorem copy_atomic {source target : Str}
    {sourceConditions targetConditions : FilesystemConditions}
    (hends : Ends (Permits store (.copy source target sourceConditions targetConditions))
      (Written target fun _ => True) v outcome) :
    (StoreRequest.copy source target sourceConditions targetConditions).Atomic store v outcome := by
  refine ⟨fun e he hcertain => (hends.refused he hcertain).sameStore, fun response hr => ?_,
    fun e he huncertain => ?_⟩
  · obtain ⟨_, ms, ⟨prepared, _, rfl⟩, hevolves⟩ := hends.succeeded response hr
    obtain ⟨w, w', hsame, hwrites, hmetadata, _, hauthors, hreplaced, huploads⟩ :=
      evolves_writing hevolves
    obtain ⟨_, hbytes, _, _⟩ := hwrites
    obtain ⟨_, hcontentType⟩ := hauthors
    rw [hsame.bytesAt] at hbytes
    rw [hmetadata] at hcontentType
    obtain ⟨payload, hpayload, hpayloadBytes⟩ := Option.map_eq_some_iff.mp hbytes
    refine ⟨⟨⟨prepared.payload.bytes, store.contentTypeOf source
      ((v.metadata.fileAt (pathOf source)).bind (·.contentType))⟩, ?_, ?_,
      fun k hk => hreplaced.elsewhere hk⟩, liveUpload_congr huploads⟩
    · rw [FilesystemStore.object, hpayload, Option.map_some, hpayloadBytes]
    · rw [hreplaced.object, hcontentType]
      rfl
  · obtain ⟨ms, ⟨prepared, _, hms⟩, hevolves⟩ := hends.uncertain he huncertain
    obtain ⟨⟨w, hsame, hwrites⟩, hreplaced, huploads⟩ := evolves_tornWrite hms hevolves
    have hbytes : v.bytesAt source = some prepared.payload.bytes := by
      rw [← hsame.bytesAt]
      exact hwrites.2.1
    exact ⟨hbytes ▸ hreplaced.tornObject, liveUpload_congr huploads⟩

theorem delete_atomic {key : Str} {ifMatch : Option Str}
    (hends : Ends (Permits store (.delete key ifMatch))
      (Settles (fun (_ : Unit) ms => ∃ removed, RemovedIf True v key ifMatch removed ms) (Removal key))
      v outcome) : (StoreRequest.delete key ifMatch).Atomic store v outcome := by
  refine ⟨fun e he hcertain => (hends.refused he hcertain).sameStore, fun response hr => ?_,
    fun e he huncertain => ?_⟩
  · obtain ⟨_, ms, ⟨removed, hms⟩, hevolves⟩ := hends.succeeded response hr
    cases removed with
    | true =>
      obtain ⟨hreplaced, huploads⟩ := evolves_removal hms hevolves
      exact ⟨⟨hreplaced.object_none, fun k hk => hreplaced.elsewhere hk⟩,
        liveUpload_congr huploads⟩
    | false =>
      obtain ⟨rfl, _, habsent⟩ := hms
      have hsame := hevolves.sameFiles
      refine ⟨⟨?_, fun k _ => hsame.object k⟩, hsame.liveUpload⟩
      rw [hsame.object, FilesystemStore.object, habsent trivial, Option.map_none]
  · obtain ⟨ms, hms, hevolves⟩ := hends.uncertain he huncertain
    obtain ⟨hreplaced, huploads⟩ := evolves_removal hms hevolves
    exact ⟨hreplaced.tornObject, liveUpload_congr huploads⟩

theorem deleteBatch_atomic {keys : List Str} {quiet : Bool}
    (hends : Ends (Permits store (.deleteBatch keys quiet))
      (Batched keys false (α := List FilesystemDeleteResult)) v outcome) :
    (StoreRequest.deleteBatch keys quiet).Atomic store v outcome := by
  refine ⟨fun e he hcertain => ?_, fun response hr => ?_, fun e he huncertain => ?_⟩
  · obtain ⟨ms, hms, hevolves⟩ := hends.failed e he
    obtain ⟨_, rfl⟩ := hms.2 e rfl hcertain
    exact hevolves.sameFiles.sameStore
  · obtain ⟨_, ms, hms, hevolves⟩ := hends.succeeded response hr
    obtain ⟨hobjects, huploads⟩ := evolves_removals hms.1 hevolves
    exact ⟨hobjects, liveUpload_congr huploads⟩
  · obtain ⟨ms, hms, hevolves⟩ := hends.failed e he
    obtain ⟨hobjects, huploads⟩ := evolves_removals hms.1 hevolves
    exact ⟨hobjects, liveUpload_congr huploads⟩

theorem createUpload_atomic {key : Str} {contentType : Option Str}
    (hends : Ends (α := Str) (Permits store (.createUpload key contentType))
      (fun _ ms => ∀ m ∈ ms, m.upload.isSome = true) v outcome) :
    (StoreRequest.createUpload key contentType).Atomic store v outcome := by
  have hobjects : ∀ ms, (∀ m ∈ ms, m.upload.isSome = true) →
      Evolves (Permits store (.createUpload key contentType)) v ms outcome.state →
      ∀ k, store.object outcome.state k = store.object v k := by
    intro ms hms hevolves
    refine (evolves_uploads (P := fun _ => True) (fun m hm => ?_) hevolves).object
    obtain ⟨id, hid⟩ := Option.isSome_iff_exists.mp (hms m hm)
    exact ⟨id, hid, trivial⟩
  refine ⟨fun e he _ => ?_, fun response hr => ?_, fun e he _ => ?_⟩
  · obtain ⟨ms, hms, hevolves⟩ := hends.failed e he
    exact hobjects ms hms hevolves
  · obtain ⟨_, ms, hms, hevolves⟩ := hends.succeeded response hr
    exact hobjects ms hms hevolves
  · obtain ⟨ms, hms, hevolves⟩ := hends.failed e he
    exact hobjects ms hms hevolves

theorem uploadPart_atomic {key id : Str} {number : Int} {body : Bytes}
    (hends : Ends (α := FilesystemPartInfo) (Permits store (.uploadPart key id number body))
      (Settles (fun _ ms => PartWritten key id number body ms) (TornPart key id number body))
      v outcome) : (StoreRequest.uploadPart key id number body).Atomic store v outcome := by
  refine ⟨fun e he hcertain => (hends.refused he hcertain).sameStore, fun response hr => ?_,
    fun e he huncertain => ?_⟩
  · obtain ⟨_, ms, hms, hevolves⟩ := hends.succeeded response hr
    have honly := evolves_uploads (fun m hm => hms.mem hm) hevolves
    exact ⟨honly.object, evolves_partWritten hms hevolves, fun i hi => honly.liveUpload hi⟩
  · obtain ⟨ms, hms, hevolves⟩ := hends.uncertain he huncertain
    have honly := evolves_uploads (fun m hm => hms.mem hm) hevolves
    exact ⟨honly.object, fun i hi => honly.liveUpload hi⟩

theorem abortUpload_atomic {key id : Str}
    (hends : Ends (α := Unit) (Permits store (.abortUpload key id))
      (Settles (fun _ ms => ms = [.removeUpload id]) (TornRemoval id)) v outcome) :
    (StoreRequest.abortUpload key id).Atomic store v outcome := by
  refine ⟨fun e he hcertain => (hends.refused he hcertain).sameStore, fun response hr => ?_,
    fun e he huncertain => ?_⟩
  · obtain ⟨_, ms, rfl, hevolves⟩ := hends.succeeded response hr
    have honly := evolves_uploads (fun m hm => TornRemoval.mem (Or.inr (Or.inl rfl)) hm) hevolves
    exact ⟨honly.object, evolves_removeUpload hevolves, fun i hi => honly.liveUpload hi⟩
  · obtain ⟨ms, hms, hevolves⟩ := hends.uncertain he huncertain
    have honly := evolves_uploads (fun m hm => hms.mem hm) hevolves
    exact ⟨honly.object, fun i hi => honly.liveUpload hi⟩

theorem completeUpload_atomic {key id : Str} {parts : List FilesystemCompletedPart}
    {conditions : FilesystemConditions}
    (hends : Ends (Permits store (.completeUpload key id parts conditions)) (Completed key id)
      v outcome) :
    (StoreRequest.completeUpload key id parts conditions).Atomic store v outcome := by
  have hjoined : ∀ {w prepared}, SameFiles v w →
      Permits store (.completeUpload key id parts conditions) w (.writeData key prepared) →
      store.joined v id parts = some prepared.bytes := by
    intro w prepared hsame hwrites
    rw [← hwrites.2.1, joined_congr (by rw [hsame.uploads])]
  refine ⟨fun e he hcertain => (hends.refused he hcertain).sameStore, fun response hr => ?_,
    fun e he huncertain => ?_⟩
  · obtain ⟨_, ms, ⟨prepared, rfl⟩, hevolves⟩ := hends.succeeded response hr
    obtain ⟨u, hwriting, hremoval⟩ := hevolves.append
    obtain ⟨w, w', hsame, hwrites, _, hlookup, hauthors, hreplaced, huploads⟩ :=
      evolves_writing hwriting
    have honly := evolves_uploads (fun m hm => TornRemoval.mem (Or.inr (Or.inl rfl)) hm) hremoval
    obtain ⟨_, upload, manifest, hupload, hmanifest, hkey, hcontentType⟩ := hauthors
    rw [hlookup] at hupload
    refine ⟨⟨prepared.payload.bytes, upload, manifest, hjoined hsame hwrites, hupload, hmanifest,
      hkey, ?_, fun k hk => ?_⟩, evolves_removeUpload hremoval, fun i hi => ?_⟩
    · rw [honly.object, hreplaced.object, hcontentType]
    · rw [honly.object, hreplaced.elsewhere hk]
    · rw [honly.liveUpload hi, liveUpload_congr huploads]
  · obtain ⟨ms, ⟨prepared, htorn⟩, hevolves⟩ := hends.uncertain he huncertain
    rcases htorn with hms | ⟨rest, hrest, rfl⟩
    · obtain ⟨⟨w, hsame, hwrites⟩, hreplaced, huploads⟩ := evolves_tornWrite hms hevolves
      exact ⟨hjoined hsame hwrites ▸ hreplaced.tornObject, fun i _ => liveUpload_congr huploads i⟩
    · obtain ⟨u, hwriting, hremoval⟩ := hevolves.append
      obtain ⟨w, _, hsame, hwrites, _, _, _, hreplaced, huploads⟩ := evolves_writing hwriting
      have honly := evolves_uploads (fun m hm => hrest.mem hm) hremoval
      refine ⟨⟨Or.inr ?_, fun k hk => ?_⟩, fun i hi => ?_⟩
      · rw [honly.bytesAt, hreplaced.bytesAt, hjoined hsame hwrites]
        rfl
      · rw [honly.object, hreplaced.elsewhere hk]
      · rw [honly.liveUpload hi, liveUpload_congr huploads]

/-- Whatever fails at whichever steps of a request, and whatever the volume holds before it: an error
other than `CommitUncertain` has changed nothing, a success has changed exactly what was addressed,
and an uncertain commit leaves the old or the new bytes. -/
theorem run_atomic (store : FilesystemStore) (caller : Caller) (request : StoreRequest)
    (choices : Nat → FsChoice) (v : Volume) :
    request.Atomic store v (request.run store caller choices v) := by
  cases request with
  | put key body options => exact put_atomic (ends_of_does (does_put body options) choices)
  | copy source target sourceConditions targetConditions =>
    exact copy_atomic
      (ends_of_does (does_copy source target sourceConditions targetConditions) choices)
  | delete key ifMatch =>
    refine delete_atomic (ends_of_does (does_deleteInner ?_ ?_) choices)
    · exact fun v' hholds => ⟨rfl, hholds⟩
    · exact fun _ => rfl
  | deleteBatch keys quiet =>
    exact deleteBatch_atomic (ends_of_does (does_deleteBatch keys quiet) choices)
  | createUpload key contentType =>
    exact createUpload_atomic (ends_of_does does_createUpload choices)
  | uploadPart key id number body =>
    exact uploadPart_atomic (ends_of_does (does_uploadPart number body) choices)
  | completeUpload key id parts conditions =>
    exact completeUpload_atomic (ends_of_does (does_completeUpload parts conditions) choices)
  | abortUpload key id => exact abortUpload_atomic (ends_of_does does_abortUpload choices)

end StoreRequest

namespace Sample

/-- The end of a put into the empty volume that is cancelled at a step: whether its outcome is certain,
and the bytes it leaves. -/
def putCancelledFrom (limit : Nat) : Except Bool Unit × Option Bytes :=
  let outcome := (StoreRequest.put ['a'] [1, 2] ⟨none, none, ⟨none, some ['*']⟩⟩).run smallStore
    smallCaller (cancelledFrom limit) ⟨Tree.empty, Tree.empty, ∅⟩
  ((outcome.result.map fun _ => ()).mapError fun e => !e.isUncertain, outcome.state.bytesAt ['a'])

end Sample

example : (Sample.putCancelledFrom 29 = (.error true, none) ∧
    Sample.putCancelledFrom 30 = (.error false, some [1, 2])) ∧
      Sample.putCancelledFrom 38 = (.ok (), some [1, 2]) := by decide +kernel

end GraphitBroker
