import GraphitBroker.Proof.StoreReads

/-!
# What requests commit

`Does` specifies a request by its outcome and the mutations it performed, directories apart: those
are all that another request or a later reader can notice.
-/

namespace GraphitBroker

open Steps

def majors (ms : List Mutation) : List Mutation := ms.filter fun m => m.lock.isSome

@[simp]
theorem majors_append (xs ys : List Mutation) : majors (xs ++ ys) = majors xs ++ majors ys :=
  List.filter_append xs ys

theorem majors_of_minor {ms : List Mutation} (h : ∀ m ∈ ms, m.Minor) : majors ms = [] := by
  refine List.filter_eq_nil_iff.mpr fun m hm => ?_
  rw [show m.lock = none from h m hm]
  exact Bool.false_ne_true

namespace FilesystemStore

variable {store : FilesystemStore} {alone : Prop} {permits : Volume → Mutation → Prop}
  {held : List Nat} {v v' : Volume} {α β : Type} {caller : Caller} {key : Str}

variable (store alone permits) in
def Does (p : FsProg α) (held : List Nat) (v : Volume)
    (Q : Except FilesystemStoreError α → List Mutation → Prop) : Prop :=
  ∀ done, fsMachine.wp (store.Rely alone) (store.Guar permits) p
    (fun r loc _ => loc.held = held ∧ ∃ new, loc.done = done ++ new ∧ Q r (majors new))
    ⟨held, done⟩ v

variable {Q : Except FilesystemStoreError α → List Mutation → Prop}
  {R : Except FilesystemStoreError β → List Mutation → Prop}

variable {p : FsProg α} {e : FilesystemStoreError} {F : α → Volume → Prop} {f : α → FsProg β}

theorem Does.mono {Q' : Except FilesystemStoreError α → List Mutation → Prop}
    (h : store.Does alone permits p held v Q) (hQ : ∀ r ms, Q r ms → Q' r ms) :
    store.Does alone permits p held v Q' := by
  intro done
  refine Machine.wp_mono (fun r loc _ hr => ?_) (h done)
  obtain ⟨hheld, new, hnew, hr⟩ := hr
  exact ⟨hheld, new, hnew, hQ r _ hr⟩

theorem does_pure {value : α} (h : Q (.ok value) []) : store.Does alone permits (.pure value) held v Q :=
  fun done => ⟨rfl, [], (List.append_nil done).symm, h⟩

theorem does_throw (h : Q (.error e) []) :
    store.Does alone permits (.throw e) held v Q :=
  fun done => ⟨rfl, [], (List.append_nil done).symm, h⟩

theorem Quiet.then (hp : store.Quiet alone permits p held v F)
    (hf : ∀ value v', store.Rely alone held v v' → F value v' →
      store.Does alone permits (f value) held v' R)
    (herror : ∀ e, e.isUncertain = false → R (.error e) []) :
    store.Does alone permits (p.bind f) held v R := by
  intro done
  rw [Machine.wp_bind]
  refine Machine.wp_of_keeps hp fun r v' new hmoved hminor hr => ?_
  have hmajors := majors_of_minor hminor
  cases r with
  | error e => exact ⟨rfl, new, rfl, hmajors ▸ herror e hr⟩
  | ok value =>
    refine Machine.wp_mono (fun r loc _ hloc => ?_) (hf value v' hmoved hr (done ++ new))
    obtain ⟨hheld, new', hnew', hR⟩ := hloc
    refine ⟨hheld, new ++ new', by rw [hnew', List.append_assoc], ?_⟩
    rwa [majors_append, hmajors, List.nil_append]

theorem Quiet.does (hp : store.Quiet alone permits p held v F)
    (hok : ∀ value v', F value v' → Q (.ok value) [])
    (herror : ∀ e, e.isUncertain = false → Q (.error e) []) : store.Does alone permits p held v Q := by
  intro done
  refine Machine.wp_of_keeps hp fun r v' new _ hminor hr => ⟨rfl, new, rfl, ?_⟩
  rw [majors_of_minor hminor]
  cases r with
  | ok value => exact hok value v' hr
  | error e => exact herror e hr

theorem Finds.attempt_then {f : Except FilesystemStoreError α → FsProg β} {absent : Volume → Prop}
    (hp : store.Finds alone permits p held v F absent)
    (hok : ∀ value v', store.Rely alone held v v' → F value v' →
      store.Does alone permits (f (.ok value)) held v' R)
    (herror : ∀ e v', store.Rely alone held v v' → e.isUncertain = false →
      (e = .notFound → absent v') → store.Does alone permits (f (.error e)) held v' R) :
    store.Does alone permits (p.attempt.bind f) held v R := by
  intro done
  rw [Machine.wp_bind, Machine.wp_attempt]
  refine Machine.wp_of_keeps hp fun r v' new hmoved hminor hr => ?_
  have hmajors := majors_of_minor hminor
  have hrest : store.Does alone permits (f r) held v' R := by
    cases r with
    | ok value => exact hok value v' hmoved hr
    | error e => exact herror e v' hmoved hr.1 hr.2
  refine Machine.wp_mono (fun r' loc _ hloc => ?_) (hrest (done ++ new))
  obtain ⟨hheld, new', hnew', hR⟩ := hloc
  refine ⟨hheld, new ++ new', by rw [hnew', List.append_assoc], ?_⟩
  rwa [majors_append, hmajors, List.nil_append]

theorem Does.bind (hp : store.Does alone permits p held v Q) (hf : ∀ value ms v', Q (.ok value) ms →
      store.Does alone permits (f value) held v' fun r ms' => R r (ms ++ ms'))
    (herror : ∀ e ms, Q (.error e) ms → R (.error e) ms) :
    store.Does alone permits (p.bind f) held v R := by
  intro done
  rw [Machine.wp_bind]
  refine Machine.wp_mono (fun r loc v' hr => ?_) (hp done)
  obtain ⟨locHeld, locDone⟩ := loc
  obtain ⟨hheld, new, hnew, hr⟩ := hr
  simp only at hheld hnew
  subst hheld hnew
  cases r with
  | error e => exact ⟨rfl, new, rfl, herror e _ hr⟩
  | ok value =>
    refine Machine.wp_mono (fun r loc _ hloc => ?_) (hf value _ v' hr (done ++ new))
    obtain ⟨hheld', new', hnew', hR⟩ := hloc
    exact ⟨hheld', new ++ new', by rw [hnew', List.append_assoc], by rwa [majors_append]⟩

theorem does_attempt
    {R : Except FilesystemStoreError (Except FilesystemStoreError α) → List Mutation → Prop}
    (h : store.Does alone permits p held v fun r ms => R (.ok r) ms) :
    store.Does alone permits p.attempt held v R :=
  fun done => Machine.wp_attempt.mpr (h done)

theorem does_mapError {f : FilesystemStoreError → FilesystemStoreError}
    (h : store.Does alone permits p held v fun r ms => Q (r.mapError f) ms) :
    store.Does alone permits (p.mapError f) held v Q :=
  fun done => Machine.wp_mapError.mpr (h done)

theorem Does.attempt_bind {f : Except FilesystemStoreError α → FsProg β}
    (hp : store.Does alone permits p held v Q)
    (hf : ∀ r ms v', Q r ms → store.Does alone permits (f r) held v' fun r' ms' => R r' (ms ++ ms')) :
    store.Does alone permits (p.attempt.bind f) held v R := by
  have hattempt : store.Does alone permits p.attempt held v fun r ms =>
      ∃ outcome, r = .ok outcome ∧ Q outcome ms :=
    does_attempt (hp.mono fun r ms hr => ⟨r, rfl, hr⟩)
  refine hattempt.bind ?_ ?_
  · rintro value ms v' ⟨outcome, houtcome, hQ⟩
    obtain rfl : value = outcome := Except.ok.inj houtcome
    exact hf value ms v' hQ
  · rintro e ms ⟨outcome, houtcome, _⟩
    cases houtcome

structure May (store : FilesystemStore) (permits : Volume → Mutation → Prop) (held : List Nat)
    (v : Volume) (m : Mutation) : Prop where
  major : m.lock.isSome = true
  guarded : ∀ key, m.lock = some key → store.shard key ∈ held
  effective : m.Effective v
  permitted : permits v m

theorem May.guar {m : Mutation} {done : List Mutation} (h : May store permits held v m) :
    store.Guar permits ⟨held, done⟩ v m :=
  ⟨h.guarded, h.effective, fun _ => h.permitted⟩

theorem does_perform {op : FsOp α} (hacquires : op.acquires = none) (hreleases : op.releases = none)
    (h : ∀ choice v', store.Rely alone held v v' →
      (∀ m, (op.exec choice v').2 = some m → May store permits held v' m) ∧
        store.Does alone permits ((Prog.ofExcept (op.exec choice v').1).bind f) held
          (fsMachine.apply v' (op.exec choice v').2)
          fun r ms => R r ((op.exec choice v').2.toList ++ ms)) :
    store.Does alone permits ((Prog.perform op).bind f) held v R := by
  intro done v' hmoved
  refine ⟨fun l hl => ?_, fun choice => ?_⟩
  · rw [show fsMachine.acquires op = none from hacquires] at hl
    cases hl
  obtain ⟨hmay, hrest⟩ := h choice v' hmoved
  refine ⟨fun m hm => (hmay m hm).guar, ?_⟩
  have hafter : fsMachine.after op (fsMachine.exec op choice v') ⟨held, done⟩ =
      ⟨held, done ++ (op.exec choice v').2.toList⟩ := by
    simp only [Machine.after, Machine.heldAfter]
    rw [show fsMachine.acquires op = none from hacquires,
      show fsMachine.releases op = none from hreleases]
    rfl
  rw [hafter]
  refine Machine.wp_mono (fun r loc _ hloc => ?_) (hrest (done ++ (op.exec choice v').2.toList))
  obtain ⟨hheld, new, hnew, hR⟩ := hloc
  refine ⟨hheld, (op.exec choice v').2.toList ++ new, by rw [hnew, List.append_assoc], ?_⟩
  have hmajors : majors (op.exec choice v').2.toList = (op.exec choice v').2.toList := by
    refine List.filter_eq_self.mpr fun m hm => ?_
    exact (hmay m (Option.mem_toList.mp hm)).major
  rwa [majors_append, hmajors]

/-- A step that makes one mutation or fails without a trace. -/
def Makes (op : FsOp Unit) (m : Mutation) : Prop :=
  ∀ choice v, (op.exec choice v = (.ok (), some m) ∧ m.Effective v) ∨
    ∃ e, e.isUncertain = false ∧ op.exec choice v = (.error e, none)

theorem does_mutate {op : FsOp Unit} {m : Mutation} {f : Unit → FsProg β}
    (hacquires : op.acquires = none) (hreleases : op.releases = none) (hmakes : Makes op m)
    (hmay : ∀ v', store.Rely alone held v v' → m.Effective v' → May store permits held v' m)
    (hnext : ∀ v', store.Rely alone held v v' → m.Effective v' →
      store.Does alone permits (f ()) held (m.apply v') fun r ms => R r (m :: ms))
    (herror : ∀ e, e.isUncertain = false → R (.error e) []) :
    store.Does alone permits ((Prog.perform op).bind f) held v R := by
  refine does_perform hacquires hreleases fun choice v' hmoved => ?_
  rcases hmakes choice v' with ⟨hexec, heffective⟩ | ⟨e, he, hexec⟩
  · rw [hexec]
    refine ⟨fun m' hm' => ?_, hnext v' hmoved heffective⟩
    obtain rfl : m = m' := Option.some.inj hm'
    exact hmay v' hmoved heffective
  · rw [hexec]
    exact ⟨fun m' hm' => (by cases hm'), does_throw (herror e he)⟩

theorem exec_acquire {shard : Nat} {choice : FsChoice} :
    (FsOp.acquire caller shard).exec choice v = (caller.check choice, none) := by
  simp [FsOp.exec, FsOp.fallible, FsOp.succeed, FsOp.silent]

theorem exec_release {shard : Nat} {choice : FsChoice} :
    (FsOp.release shard).exec choice v = (.ok (), none) := by
  simp [FsOp.exec, FsOp.fallible, FsOp.succeed, FsOp.silent]

/-- What is done under a shard. -/
theorem does_locked {body : FsProg α} (horder : ∀ l ∈ held, l < store.shard key)
    (hbody : ∀ v', store.Rely alone held v v' →
      store.Does alone permits body (store.shard key :: held) v' Q)
    (herror : ∀ e, e.isUncertain = false → Q (.error e) []) :
    store.Does alone permits (store.locked caller key body) held v Q := by
  have hinner : ∀ v', store.Rely alone held v v' →
      store.Does alone permits (caller.checked.bind fun _ => body) (store.shard key :: held) v' Q :=
    fun v' hv' => quiet_checked.then (fun _ v'' hv'' _ => hbody v''
      (rely_trans _ _ _ _ hv' (hv''.weaken (List.subset_cons_self _ _)))) herror
  refine quiet_checked.then (fun _ v₁ h₁ _ => ?_) herror
  intro done v₂ h₂
  refine ⟨fun l hl => ?_, fun choice => ?_⟩
  · obtain rfl : store.shard key = l := Option.some.inj hl
    exact horder
  rw [show fsMachine.exec (FsOp.acquire caller (store.shard key)) choice v₂ =
    (caller.check choice, none) from exec_acquire]
  refine ⟨fun m hm => (by cases hm), ?_⟩
  cases hcheck : caller.check choice with
  | error e =>
    exact ⟨rfl, [], rfl, herror e (FsOp.plain_check hcheck).certain⟩
  | ok _ =>
    -- the shard is held from here to the release, whatever the body does
    show fsMachine.wp _ _ (Prog.bind (Prog.attempt _) _) _ ⟨store.shard key :: held, done ++ []⟩ v₂
    rw [List.append_nil, Machine.wp_bind, Machine.wp_attempt]
    refine Machine.wp_mono (fun r loc v₃ hr => ?_) (hinner v₂ (rely_trans _ _ _ _ h₁ h₂) done)
    obtain ⟨locHeld, locDone⟩ := loc
    obtain ⟨hheld, new, hnew, hQ⟩ := hr
    simp only at hheld hnew
    subst hheld hnew
    intro v₄ _
    refine ⟨fun l hl => (by cases hl), fun choice' => ?_⟩
    rw [show fsMachine.exec (FsOp.release (store.shard key)) choice' v₄ = (.ok (), none) from
      exec_release]
    refine ⟨fun m hm => (by cases hm), ?_⟩
    show fsMachine.wp _ _ (Prog.ofExcept r) _ _ _
    rw [Machine.wp_ofExcept]
    refine ⟨List.erase_cons_head _ _, new, List.append_nil _, hQ⟩

theorem does_lockedBoth {a b : Str} {body : FsProg α}
    (hbody : ∀ held', store.shard a ∈ held' → store.shard b ∈ held' → ∀ v',
      store.Rely alone [] v v' → store.Does alone permits body held' v' Q)
    (herror : ∀ e, e.isUncertain = false → Q (.error e) []) :
    store.Does alone permits (store.lockedBoth caller a b body) [] v Q := by
  have hpair : ∀ x y : Str, store.shard x ≤ store.shard y →
      (∀ held', store.shard x ∈ held' → store.shard y ∈ held' → ∀ v',
        store.Rely alone [] v v' → store.Does alone permits body held' v' Q) →
      store.Does alone permits (store.locked caller x
        (if store.shard x ≠ store.shard y then store.locked caller y body else body)) [] v Q := by
    intro x y hle hbody
    refine does_locked (fun l hl => absurd hl List.not_mem_nil) (fun v' hv' => ?_) herror
    split_ifs with hne
    · refine does_locked (fun l hl => ?_) (fun v'' hv'' => ?_) herror
      · rw [List.mem_singleton.mp hl]
        exact lt_of_le_of_ne hle hne
      · exact hbody _ (List.mem_cons_of_mem _ List.mem_cons_self) List.mem_cons_self v''
          (rely_trans _ _ _ _ hv' (hv''.weaken (List.nil_subset _)))
    · rw [not_not] at hne
      exact hbody _ List.mem_cons_self (hne ▸ List.mem_cons_self) v' hv'
  unfold lockedBoth
  by_cases hle : store.shard a ≤ store.shard b
  · simpa only [if_pos hle] using hpair a b hle hbody
  · simpa only [if_neg hle] using
      hpair b a (not_le.mp hle).le fun held' hb ha => hbody held' ha hb

/-- How a request may end: with its commit, with an uncertain error after part of it, or with a
certain error and nothing done. -/
def Settles (commit : α → List Mutation → Prop) (torn : List Mutation → Prop) :
    Except FilesystemStoreError α → List Mutation → Prop
  | .ok value, ms => commit value ms
  | .error e, ms => if e.isUncertain = true then torn ms else ms = []

variable {commit : α → List Mutation → Prop} {torn : List Mutation → Prop}

theorem settles_of_certain (he : e.isUncertain = false) :
    Settles commit torn (.error e) [] := by
  rw [Settles, if_neg (by rw [he]; exact Bool.false_ne_true)]

theorem settles_of_uncertain {ms : List Mutation}
    (he : e.isUncertain = true) (h : torn ms) : Settles commit torn (.error e) ms := by
  rwa [Settles, if_pos he]

theorem uncertain_isUncertain (e : FilesystemStoreError) : (uncertain e).isUncertain = true := by
  cases e <;> rfl

theorem does_settled {body : FsProg α} {committed : α → Bool}
    (hbody : store.Does alone permits body held v (Settles commit torn))
    (hyes : ∀ value ms, commit value ms → committed value = true → torn ms)
    (hno : ∀ value ms, commit value ms → committed value = false → ms = []) :
    store.Does alone permits (settled caller committed body) held v (Settles commit torn) := by
  refine hbody.attempt_bind fun r ms v' hr => ?_
  cases r with
  | ok value =>
    -- the last check: its error is uncertain exactly after a commit
    have hcheck : store.Does alone permits (caller.checked.mapError fun e =>
        if committed value then .commitUncertain e else e) held v'
        fun r' ms' => ms' = [] ∧ match r' with
          | .ok _ => True
          | .error e => e.isUncertain = committed value := by
      refine does_mapError (quiet_checked.does (fun _ _ _ => ⟨rfl, trivial⟩) fun e he => ⟨rfl, ?_⟩)
      show (if committed value = true then _ else _ : FilesystemStoreError).isUncertain = _
      cases hcommitted : committed value with
      | true => rfl
      | false => simpa using he
    refine hcheck.bind ?_ ?_
    · rintro _ ms' v'' ⟨rfl, _⟩
      refine does_pure ?_
      rwa [List.append_nil, List.append_nil]
    · rintro e ms' ⟨rfl, he⟩
      rw [List.append_nil]
      cases hcommitted : committed value with
      | true => exact settles_of_uncertain (he.trans hcommitted) (hyes value ms hr hcommitted)
      | false =>
        rw [hno value ms hr hcommitted]
        exact settles_of_certain (he.trans hcommitted)
  | error e =>
    dsimp only
    split_ifs with he
    · exact does_throw (by rwa [List.append_nil])
    · have hcertain : e.isUncertain = false := by simpa using he
      obtain rfl : ms = [] := by simpa [Settles, hcertain] using hr
      refine quiet_checked.then (fun _ v'' _ _ => does_throw ?_) fun e' he' => ?_
      · exact settles_of_certain hcertain
      · exact settles_of_certain he'

theorem makes_of_mutating {op : FsOp Unit} {m : Mutation} {accepted : Volume → Bool}
    (hsucceed : ∀ choice v, op.succeed choice v = FsOp.mutating (accepted v) () m)
    (hleftover : ∀ choice, op.leftover choice = none)
    (heffective : ∀ v, accepted v = true → m.Effective v) : Makes op m := by
  intro choice v
  unfold FsOp.exec
  split_ifs
  · exact Or.inr ⟨_, rfl, by rw [hleftover]⟩
  · rw [hsucceed, FsOp.mutating]
    split_ifs with haccepted
    · exact Or.inl ⟨rfl, heffective v haccepted⟩
    · exact Or.inr ⟨_, rfl, rfl⟩

theorem makes_renamePayload (key : Str) (payload : Payload) :
    Makes (.renamePayload key payload) (.writeData key payload) :=
  makes_of_mutating (fun _ _ => rfl) (fun _ => rfl) fun _ h => h

theorem makes_renameMetadata (key : Str) (metadata : Metadata) :
    Makes (.renameMetadata key metadata) (.writeMetadata key metadata) :=
  makes_of_mutating (fun _ _ => rfl) (fun _ => rfl) fun _ h => h

structure RelyRest (store : FilesystemStore) (held : List Nat) (v v' : Volume) : Prop where
  metadata : ∀ key, store.shard key ∈ held →
    v'.metadata.fileAt (pathOf key) = v.metadata.fileAt (pathOf key)
  uploads : ∀ id, store.shard (uploadLock id) ∈ held → v'.uploads.lookup id = v.uploads.lookup id

theorem Rely.rest (h : store.Rely alone held v v') : RelyRest store held v v' := ⟨h.metadata, h.uploads⟩

theorem RelyRest.trans {v₁ v₂ v₃ : Volume} (h₁ : RelyRest store held v₁ v₂)
    (h₂ : RelyRest store held v₂ v₃) : RelyRest store held v₁ v₃ :=
  ⟨fun key hkey => (h₂.metadata key hkey).trans (h₁.metadata key hkey),
    fun id hid => (h₂.uploads id hid).trans (h₁.uploads id hid)⟩

theorem relyRest_writeData (held : List Nat) (key : Str) (payload : Payload) (v : Volume) :
    RelyRest store held v ((Mutation.writeData key payload).apply v) :=
  ⟨fun _ _ => rfl, fun _ _ => rfl⟩

def writing (key : Str) (prepared : PreparedObject) : List Mutation :=
  [.writeData key prepared.payload, .writeMetadata key prepared.metadata]

/-- The parts of a write that may be all that is left of it. -/
def TornWrite (key : Str) (prepared : PreparedObject) (ms : List Mutation) : Prop :=
  ms = [.writeData key prepared.payload] ∨ ms = writing key prepared

theorem does_publishMetadata {prepared : PreparedObject} (hheld : store.shard key ∈ held)
    (hauthor : ∀ v', store.Rely alone held v v' → permits v' (.writeMetadata key prepared.metadata)) :
    store.Does alone permits (publishMetadata caller key prepared) held v fun r ms =>
      match r with
      | .ok _ => ms = [.writeMetadata key prepared.metadata]
      | .error _ => ms = [] ∨ ms = [.writeMetadata key prepared.metadata] := by
  refine does_mutate rfl rfl (makes_renameMetadata _ _) ?_ ?_ fun e _ => Or.inl rfl
  · intro v' hmoved heffective
    refine ⟨rfl, fun k hk => ?_, heffective, hauthor v' hmoved⟩
    rwa [← Option.some.inj hk]
  · intro v' _ _
    have hrest : ∀ w, store.Quiet alone permits (ioStep.bind fun _ => ioStep.bind fun _ =>
        caller.checked.bind fun _ => ioStep) held w fun _ _ => True := fun w =>
      quiet_ioStep.next fun _ _ => quiet_ioStep.next fun _ _ => quiet_checked.next fun _ _ =>
        quiet_ioStep
    exact (hrest _).does (fun _ _ _ => rfl) fun _ _ => Or.inr rfl

theorem does_publishLocked {prepared : PreparedObject} {conditions : FilesystemConditions}
    (hheld : store.shard key ∈ held)
    (hwrite : ∀ v', store.Rely alone held v v' → conditions.holds (store.etagAt v' key) = true →
      permits v' (.writeData key prepared.payload))
    (hauthor : ∀ v', RelyRest store held v v' →
      permits v' (.writeMetadata key prepared.metadata)) :
    store.Does alone permits (store.publishLocked caller key prepared conditions) held v
      (Settles (fun _ ms => ms = writing key prepared) (TornWrite key prepared)) := by
  refine quiet_checked.then (fun _ v₁ h₁ _ => ?_) fun _ => settles_of_certain
  refine (quiet_checkCurrent hheld conditions).then (fun _ v₂ h₂ hholds => ?_)
    fun _ => settles_of_certain
  refine (quiet_parent .data true).then (fun _ v₃ h₃ _ => ?_) fun _ => settles_of_certain
  refine (quiet_parent .metadata true).then (fun _ v₄ h₄ _ => ?_) fun _ => settles_of_certain
  refine (quiet_step rfl).then (fun _ v₅ h₅ _ => ?_) fun _ => settles_of_certain
  refine (quiet_step rfl).then (fun _ v₆ h₆ _ => ?_) fun _ => settles_of_certain
  refine quiet_checked.then (fun _ v₇ h₇ _ => ?_) fun _ => settles_of_certain
  have hsince : store.Rely alone held v₂ v₇ :=
    rely_trans _ _ _ _ h₃ (rely_trans _ _ _ _ h₄ (rely_trans _ _ _ _ h₅
      (rely_trans _ _ _ _ h₆ h₇)))
  have hmoved : store.Rely alone held v v₇ := rely_trans _ _ _ _ (rely_trans _ _ _ _ h₁ h₂) hsince
  refine does_mutate rfl rfl (makes_renamePayload _ _) ?_ ?_ fun _ => settles_of_certain
  · intro v' hmoved' heffective
    refine ⟨rfl, fun k hk => ?_, heffective, hwrite v' (rely_trans _ _ _ _ hmoved hmoved') ?_⟩
    · rwa [← Option.some.inj hk]
    · rw [(rely_trans _ _ _ _ hsince hmoved').etagAt hheld]
      exact hholds
  · -- the payload is in place: from here every error is uncertain
    intro v' hmoved' _
    have hafter : store.Does alone permits ((publishMetadata caller key prepared).mapError .commitUncertain)
        held ((Mutation.writeData key prepared.payload).apply v') fun r ms =>
          match r with
          | .ok _ => ms = [.writeMetadata key prepared.metadata]
          | .error e => e.isUncertain = true ∧
              (ms = [] ∨ ms = [.writeMetadata key prepared.metadata]) := by
      refine does_mapError ((does_publishMetadata hheld fun w hw => hauthor w ?_).mono
        fun r ms hr => ?_)
      · exact ((rely_trans _ _ _ _ hmoved hmoved').rest.trans
          (relyRest_writeData held key prepared.payload v')).trans hw.rest
      · cases r with
        | ok _ => exact hr
        | error e => exact ⟨rfl, hr⟩
    refine hafter.bind (fun _ ms w hms => does_pure ?_) fun e ms hms => ?_
    · show _ = _
      rw [hms]
      rfl
    · refine settles_of_uncertain hms.1 ?_
      rcases hms.2 with rfl | rfl
      · exact Or.inl rfl
      · exact Or.inr rfl

end FilesystemStore

end GraphitBroker
