import GraphitBroker.Lib.Interleaving
import GraphitBroker.Proof.StoreRequests

/-!
# Conditional updates are neither lost nor duplicated

Any number of requests take their steps in any order. The rename or the unlink of a payload is the
commit of its request, and the commits are in order those of a map from keys to bytes.
-/

namespace GraphitBroker

open Steps FilesystemStore

def Mutation.commit : Mutation → Option (Str × Option Bytes)
  | .writeData key payload => some (key, some payload.bytes)
  | .removeData key => some (key, none)
  | _ => none

variable {key : Str} {m : Mutation} {ms : List Mutation}

theorem Mutation.eq_removeData (h : m.commit = some (key, none)) :
    m = .removeData key := by
  cases m <;> cases h
  rfl

theorem Mutation.eq_writeData {bytes : Bytes} (h : m.commit = some (key, some bytes)) :
    ∃ payload, m = .writeData key payload ∧ payload.bytes = bytes := by
  cases m <;> cases h
  exact ⟨_, rfl, rfl⟩

theorem Mutation.lock_of_commit {new : Option Bytes}
    (h : m.commit = some (key, new)) : m.lock = some key := by
  cases m <;> cases h <;> rfl

def commits (ms : List Mutation) : List (Str × Option Bytes) := ms.filterMap Mutation.commit

def committed (objects : Str → Option Bytes) (cs : List (Str × Option Bytes)) :
    Str → Option Bytes :=
  cs.foldl (fun objects c => Function.update objects c.1 c.2) objects

@[simp]
theorem commits_append (xs ys : List Mutation) : commits (xs ++ ys) = commits xs ++ commits ys :=
  List.filterMap_append

theorem commits_majors (ms : List Mutation) : commits (majors ms) = commits ms := by
  unfold commits majors
  rw [List.filterMap_filter]
  congr 1
  funext m
  cases m <;> rfl

theorem commits_of_upload (h : ∀ m ∈ ms, m.upload.isSome = true) :
    commits ms = [] := by
  refine List.filterMap_eq_nil_iff.mpr fun m hm => ?_
  have hupload := h m hm
  cases m <;> first | rfl | cases hupload

@[simp]
theorem committed_append (objects : Str → Option Bytes) (xs ys : List (Str × Option Bytes)) :
    committed objects (xs ++ ys) = committed (committed objects xs) ys :=
  List.foldl_append

theorem committed_cons (objects : Str → Option Bytes) (c : Str × Option Bytes)
    (cs : List (Str × Option Bytes)) :
    committed objects (c :: cs) = committed (Function.update objects c.1 c.2) cs := rfl

theorem committed_of_forall_ne {objects : Str → Option Bytes}
    {cs : List (Str × Option Bytes)} (h : ∀ c ∈ cs, c.1 ≠ key) :
    committed objects cs key = objects key := by
  induction cs generalizing objects with
  | nil => rfl
  | cons c rest ih =>
    rw [committed_cons, ih fun c' hc' => h c' (List.mem_cons_of_mem c hc')]
    exact Function.update_of_ne (h c List.mem_cons_self).symm _ _

theorem exists_removal {objects : Str → Option Bytes}
    {cs : List (Str × Option Bytes)} (hbefore : (objects key).isSome = true)
    (hafter : committed objects cs key = none) : (key, none) ∈ cs := by
  induction cs generalizing objects with
  | nil =>
    rw [show objects key = none from hafter] at hbefore
    cases hbefore
  | cons c rest ih =>
    rw [committed_cons] at hafter
    by_cases hkey : c = (key, none)
    · exact hkey ▸ List.mem_cons_self
    · refine List.mem_cons_of_mem c (ih ?_ hafter)
      by_cases hfst : key = c.1
      · subst hfst
        rw [Function.update_self, Option.isSome_iff_ne_none]
        exact fun hnone => hkey (Prod.ext rfl hnone)
      · rwa [Function.update_of_ne hfst]

theorem bytesAt_apply {v : Volume} (heffective : m.Effective v) :
    (m.apply v).bytesAt = committed v.bytesAt (commits [m]) := by
  have hkeys : ∀ {key k : Str}, k ≠ key → pathOf k ≠ pathOf key :=
    fun hk heq => hk (pathOf_injective heq)
  funext k
  cases m with
  | makeDir area path =>
    show _ = v.bytesAt k
    cases area <;> simp [Mutation.apply, Volume.bytesAt]
  | writeData key payload =>
    show ((v.data.write (pathOf key) payload).fileAt (pathOf k)).map (·.bytes) =
      Function.update v.bytesAt key (some payload.bytes) k
    rw [Tree.fileAt_write payload heffective]
    by_cases hk : k = key
    · subst hk
      rw [if_pos rfl, Function.update_self]
      rfl
    · rw [if_neg (hkeys hk), Function.update_of_ne hk]
      rfl
  | removeData key =>
    show ((v.data.remove (pathOf key)).fileAt (pathOf k)).map (·.bytes) =
      Function.update v.bytesAt key none k
    rw [Tree.fileAt_remove]
    by_cases hk : k = key
    · subst hk
      rw [if_pos rfl, Function.update_self]
      rfl
    · rw [if_neg (hkeys hk), Function.update_of_ne hk]
      rfl
  | _ =>
    show _ = v.bytesAt k
    simp [Mutation.apply, Volume.bytesAt]

theorem bytesAt_replay {v : Volume}
    (h : ∀ front m back, ms = front ++ m :: back → m.Effective (fsMachine.replay v front)) :
    (fsMachine.replay v ms).bytesAt = committed v.bytesAt (commits ms) := by
  induction ms generalizing v with
  | nil => rfl
  | cons m rest ih =>
    have heffective : m.Effective v := h [] m rest rfl
    have hrest := ih (v := m.apply v) fun front m' back hsplit =>
      h (m :: front) m' back (by rw [hsplit]; rfl)
    calc (fsMachine.replay v (m :: rest)).bytesAt
        = committed (m.apply v).bytesAt (commits rest) := hrest
      _ = committed (committed v.bytesAt (commits [m])) (commits rest) := by
          rw [bytesAt_apply heffective]
      _ = committed v.bytesAt (commits ([m] ++ rest)) := by
          rw [commits_append, committed_append]

def entries (list : Str) : List Str := (list.splitOn ',').map trim

structure Saw (store : FilesystemStore) (conditions : FilesystemConditions) (v : Volume)
    (key : Str) : Prop where
  matched : ∀ list, conditions.ifMatch = some list →
    ∃ tag, store.etagAt v key = some tag ∧ ("*".toList ∈ entries list ∨ tag ∈ entries list)
  unmatched : ∀ list, conditions.ifNoneMatch = some list → "*".toList ∈ entries list →
    v.bytesAt key = none

theorem bytesAt_eq_none {store : FilesystemStore} {v : Volume}
    (h : store.etagAt v key = none) : v.bytesAt key = none := by
  unfold FilesystemStore.etagAt at h
  rw [Volume.bytesAt, Option.map_eq_none_iff.mp h]
  rfl

theorem saw_of_holds {store : FilesystemStore} {conditions : FilesystemConditions} {v : Volume}
    (h : conditions.holds (store.etagAt v key) = true) :
    Saw store conditions v key := by
  simp only [FilesystemConditions.holds, Bool.not_eq_true', Bool.or_eq_false_iff] at h
  constructor
  · intro list hlist
    have hcondition : condition list (store.etagAt v key) = true := by
      have hmatch := h.1
      rw [hlist] at hmatch
      simpa using hmatch
    obtain ⟨entry, hentry, hmatch⟩ := List.any_eq_true.mp hcondition
    split_ifs at hmatch with hstar
    · obtain ⟨tag, htag⟩ := Option.isSome_iff_exists.mp hmatch
      exact ⟨tag, htag, Or.inl (hstar ▸ hentry)⟩
    · have htag : store.etagAt v key = some entry := by
        rw [Bool.and_eq_true, beq_iff_eq] at hmatch
        exact hmatch.2
      exact ⟨entry, htag, Or.inr hentry⟩
  · intro list hlist hstar
    have hcondition : condition list (store.etagAt v key) = false := by
      have hmatch := h.2
      rw [hlist] at hmatch
      simpa using hmatch
    have hentry := List.any_eq_false.mp hcondition _ hstar
    rw [if_pos rfl] at hentry
    exact bytesAt_eq_none (by simpa using hentry)

namespace StoreRequest

def guard : StoreRequest → Option (Str × FilesystemConditions)
  | .put key _ options => some (key, options.conditions)
  | .copy _ target _ conditions => some (target, conditions)
  | .completeUpload key _ _ conditions => some (key, conditions)
  | .delete key ifMatch => some (key, ⟨ifMatch, none⟩)
  | _ => none

def Creates (request : StoreRequest) (key : Str) : Prop :=
  ∃ conditions list, request.guard = some (key, conditions) ∧
    conditions.ifNoneMatch = some list ∧ "*".toList ∈ entries list

def Commits (cs : List (Str × Option Bytes)) : StoreRequest → Prop
  | .put key body _ => cs = [(key, some body)]
  | .copy _ target _ _ => ∃ bytes, cs = [(target, some bytes)]
  | .completeUpload key _ _ _ => ∃ bytes, cs = [(key, some bytes)]
  | .delete key ifMatch => cs = [(key, none)] ∨ cs = [] ∧ ifMatch = none
  | .deleteBatch keys _ => ∀ c ∈ cs, c.1 ∈ keys ∧ c.2 = none
  | _ => cs = []

theorem saw_of_permits {store : FilesystemStore} {request : StoreRequest} {v : Volume}
    {m : Mutation} {key k : Str} {new : Option Bytes} {conditions : FilesystemConditions}
    (hpermits : request.Permits store v m) (hcommit : m.commit = some (key, new))
    (hguard : request.guard = some (k, conditions)) :
    k = key ∧ Saw store conditions v key := by
  cases m with
  | writeData key' payload =>
    cases hcommit
    cases request with
    | put _ body options =>
      cases hguard
      exact ⟨hpermits.1.symm, saw_of_holds hpermits.2.2⟩
    | copy source target sourceConditions targetConditions =>
      cases hguard
      exact ⟨hpermits.1.symm, saw_of_holds hpermits.2.2.2⟩
    | completeUpload _ id parts _ =>
      cases hguard
      exact ⟨hpermits.1.symm, saw_of_holds hpermits.2.2⟩
    | _ => cases hpermits
  | removeData key' =>
    cases hcommit
    cases request with
    | delete _ ifMatch =>
      cases hguard
      exact ⟨hpermits.1.symm, saw_of_holds hpermits.2⟩
    | deleteBatch keys quiet => cases hguard
    | _ => cases hpermits
  | _ => cases hcommit

end StoreRequest

theorem commits_writing (key : Str) (prepared : PreparedObject) :
    commits (writing key prepared) = [(key, some prepared.payload.bytes)] := rfl

theorem FilesystemStore.Removal.commits (h : Removal key ms) :
    commits ms = [(key, none)] := by
  rcases h with rfl | rfl <;> rfl

theorem FilesystemStore.Removals.commits {keys : List Str}
    (h : Removals keys ms) : ∀ c ∈ commits ms, c.1 ∈ keys ∧ c.2 = none := by
  induction h with
  | nil => exact fun c hc => absurd hc List.not_mem_nil
  | cons hkey hms _ ih =>
    intro c hc
    rw [commits_append, hms.commits] at hc
    rcases List.mem_cons.mp hc with rfl | hc
    · exact ⟨hkey, rfl⟩
    · exact ih c hc

def StoreRequest.Ended (request : StoreRequest) :
    Except FilesystemStoreError StoreResponse → List Mutation → Prop
  | .ok _, ms => request.Commits (commits ms)
  | .error e, ms => e.isUncertain = false → commits ms = []

section Ended

variable {store : FilesystemStore} {v : Volume} {α : Type} {request : StoreRequest}
  {p : FsProg α} {g : α → StoreResponse}

theorem ended_of_does {Q : Except FilesystemStoreError α → List Mutation → Prop}
    (h : store.Does False (request.Permits store) p [] v Q)
    (hok : ∀ value ms, Q (.ok value) ms → request.Commits (commits ms))
    (herror : ∀ e ms, Q (.error e) ms → e.isUncertain = false → commits ms = []) :
    store.Does False (request.Permits store) (p.bind fun value => .pure (g value)) [] v
      request.Ended := by
  refine h.bind (fun value ms v' hms => does_pure ?_) herror
  rw [List.append_nil]
  exact hok value ms hms

theorem ended_of_settles {commit : α → List Mutation → Prop} {torn : List Mutation → Prop}
    (h : store.Does False (request.Permits store) p [] v (Settles commit torn))
    (hok : ∀ value ms, commit value ms → request.Commits (commits ms)) :
    store.Does False (request.Permits store) (p.bind fun value => .pure (g value)) [] v
      request.Ended := by
  refine ended_of_does h hok fun e ms hms hcertain => ?_
  rw [Settles, hcertain, if_neg Bool.false_ne_true] at hms
  rw [hms]
  rfl

end Ended

theorem StoreRequest.does_program (store : FilesystemStore) (caller : Caller)
    (request : StoreRequest) (v : Volume) :
    store.Does False (request.Permits store) (request.program store caller) [] v
      request.Ended := by
  cases request with
  | put key body options =>
    refine ended_of_settles (does_put body options) fun _ ms hms => ?_
    obtain ⟨prepared, ⟨hbytes, _⟩, rfl⟩ := hms
    rw [StoreRequest.Commits, commits_writing, hbytes]
  | copy source target sourceConditions targetConditions =>
    refine ended_of_settles (does_copy source target sourceConditions targetConditions)
      fun _ ms hms => ?_
    obtain ⟨prepared, _, rfl⟩ := hms
    exact ⟨_, commits_writing target prepared⟩
  | delete key ifMatch =>
    refine ended_of_settles (does_deleteInner (fun v' hholds => ⟨rfl, hholds⟩) fun _ => rfl)
      fun _ ms hms => ?_
    obtain ⟨removed, hms⟩ := hms
    cases removed with
    | true => exact Or.inl (Removal.commits hms)
    | false =>
      obtain ⟨rfl, hifMatch, _⟩ := hms
      exact Or.inr ⟨rfl, hifMatch⟩
  | deleteBatch keys quiet =>
    refine ended_of_does (does_deleteBatch keys quiet) (fun _ ms hms => hms.1.commits)
      fun e ms hms hcertain => ?_
    rw [(hms.2 e rfl hcertain).2]
    rfl
  | createUpload key contentType =>
    exact ended_of_does does_createUpload (fun _ _ => commits_of_upload)
      fun _ _ hms _ => commits_of_upload hms
  | uploadPart key id number body =>
    refine ended_of_settles (does_uploadPart number body) fun _ ms hms => ?_
    obtain ⟨payload, manifest, _, _, rfl⟩ := hms
    rfl
  | completeUpload key id parts conditions =>
    refine ended_of_settles (does_completeUpload parts conditions) fun _ ms hms => ?_
    obtain ⟨prepared, rfl⟩ := hms
    exact ⟨prepared.payload.bytes, by rw [commits_append, commits_writing]; rfl⟩
  | abortUpload key id =>
    refine ended_of_settles does_abortUpload fun _ ms hms => ?_
    rw [hms]
    rfl

abbrev StoreConfig (ι : Type) :=
  Config FsOp FilesystemStoreError Volume Nat Mutation StoreResponse ι

variable {ι : Type} [DecidableEq ι]

def commitsOf (cfg : StoreConfig ι) (i : ι) : List (Str × Option Bytes) :=
  commits ((cfg.trace.filter (·.thread = i)).map (·.mutation))

structure Linearizable (store : FilesystemStore) (requests : ι → StoreRequest) (v₀ : Volume)
    (cfg : StoreConfig ι) : Prop where
  /-- Every commit is made on what the commits before it have left. -/
  history : ∀ front event back, cfg.trace = front ++ event :: back →
    event.before = fsMachine.replay v₀ (front.map (·.mutation)) ∧
      event.before.bytesAt = committed v₀.bytesAt (commits (front.map (·.mutation)))
  /-- It finds the conditions of its request true of the object there. -/
  sees : ∀ event ∈ cfg.trace, ∀ key new, event.mutation.commit = some (key, new) →
    ∀ k conditions, (requests event.thread).guard = some (k, conditions) →
      k = key ∧ Saw store conditions event.before key
  /-- It writes what its request asks for. -/
  writes : ∀ event ∈ cfg.trace, ∀ key bytes, event.mutation.commit = some (key, some bytes) →
    (requests event.thread).Writes store event.before key bytes
  /-- A request that has succeeded has made its commit, and made it once. -/
  succeeds : ∀ i response, cfg.prog i = .pure response → (requests i).Commits (commitsOf cfg i)
  /-- A request that has failed for certain has committed nothing. -/
  fails : ∀ i e, cfg.prog i = .throw e → e.isUncertain = false → commitsOf cfg i = []
  /-- Of two requests that create an object at a key and succeed, one has committed after the object
  of the other was removed. -/
  once : ∀ i j key, i ≠ j → (requests i).Creates key → (requests j).Creates key →
    ∀ response response', cfg.prog i = .pure response → cfg.prog j = .pure response' →
      ∃ front first middle second back,
        cfg.trace = front ++ first :: (middle ++ second :: back) ∧
        (first.thread = i ∧ second.thread = j ∨ first.thread = j ∧ second.thread = i) ∧
        ∃ removal ∈ middle, removal.mutation = .removeData key
  /-- The last commit to a key decides its bytes, and its request has not failed for certain. -/
  final : ∀ front event back key new, cfg.trace = front ++ event :: back →
    event.mutation.commit = some (key, new) →
    (∀ later ∈ back, ∀ c, later.mutation.commit = some c → c.1 ≠ key) →
      cfg.state.bytesAt key = new ∧
        ∀ e, cfg.prog event.thread = .throw e → e.isUncertain = true
  /-- A key without a commit is as before. -/
  untouched : ∀ key, (∀ event ∈ cfg.trace, ∀ c, event.mutation.commit = some c → c.1 ≠ key) →
    cfg.state.bytesAt key = v₀.bytesAt key
  /-- A request waits only for a shard above all it holds. -/
  ordered : ∀ i wanted held, fsMachine.Wants cfg i wanted → held ∈ (cfg.loc i).held → held < wanted
  /-- No requests wait for each other in a cycle. -/
  acyclic : ∀ i, ¬ Relation.TransGen (fsMachine.WaitsFor cfg) i i

section Interleaved

variable {store : FilesystemStore} {requests : ι → StoreRequest} {v₀ : Volume}
  {cfg : StoreConfig ι}

abbrev SoundRun (store : FilesystemStore) (requests : ι → StoreRequest) (v₀ : Volume)
    (cfg : StoreConfig ι) : Prop :=
  fsMachine.Sound (store.Rely False) (fun i => store.Guar ((requests i).Permits store))
    (fun i r loc => (requests i).Ended r (majors loc.done)) v₀ cfg

theorem soundRun_of_reaches {callers : ι → Caller}
    (h : fsMachine.Reaches (fun i => (requests i).program store (callers i)) v₀ cfg) :
    SoundRun store requests v₀ cfg := by
  refine h.sound rely_refl rely_trans (fun i loc v m held hguar hdisjoint => ?_) fun i => ?_
  · exact rely_of_guar hguar hdisjoint
  · refine Machine.wp_mono (fun r loc _ hr => ?_)
      ((requests i).does_program store (callers i) v₀ [])
    obtain ⟨_, new, hnew, hended⟩ := hr
    rwa [hnew, List.nil_append]

theorem commits_done (h : SoundRun store requests v₀ cfg) (i : ι) :
    commits (majors (cfg.loc i).done) = commitsOf cfg i := by
  rw [commits_majors, h.own i, commitsOf]

theorem ended_of_pure (h : SoundRun store requests v₀ cfg) {i : ι} {response : StoreResponse}
    (hprog : cfg.prog i = .pure response) : (requests i).Commits (commitsOf cfg i) := by
  have hended := h.programs i
  rw [hprog] at hended
  rw [← commits_done h]
  exact hended

theorem ended_of_throw (h : SoundRun store requests v₀ cfg) {i : ι} {e : FilesystemStoreError}
    (hprog : cfg.prog i = .throw e) (hcertain : e.isUncertain = false) : commitsOf cfg i = [] := by
  have hended := h.programs i
  rw [hprog] at hended
  rw [← commits_done h]
  exact hended hcertain

theorem bytesAt_of_split (h : SoundRun store requests v₀ cfg)
    {front back : List (Event ι Mutation Volume)} (hsplit : cfg.trace = front ++ back) :
    (fsMachine.replay v₀ (front.map (·.mutation))).bytesAt =
      committed v₀.bytesAt (commits (front.map (·.mutation))) := by
  refine bytesAt_replay fun front' m back' hfront => ?_
  obtain ⟨xs, ys, rfl, hxs, hys⟩ := List.map_eq_append_iff.mp hfront
  obtain ⟨event, zs, rfl, rfl, _⟩ := List.map_eq_cons_iff.mp hys
  obtain ⟨hbefore, loc, hguar⟩ := h.permitted xs event (zs ++ back) (by rw [hsplit]; simp)
  rw [← hxs, ← hbefore]
  exact hguar.effective

variable {event : Event ι Mutation Volume}

theorem permitted_of_mem (h : SoundRun store requests v₀ cfg)
    (hevent : event ∈ cfg.trace) {key : Str} {new : Option Bytes}
    (hcommit : event.mutation.commit = some (key, new)) :
    (requests event.thread).Permits store event.before event.mutation := by
  obtain ⟨front, back, hsplit⟩ := List.append_of_mem hevent
  obtain ⟨_, loc, hguar⟩ := h.permitted front event back hsplit
  refine hguar.permitted ?_
  rw [Mutation.lock_of_commit hcommit]
  exact Option.some_ne_none key

theorem mem_commitsOf {i : ι} {c : Str × Option Bytes} (h : c ∈ commitsOf cfg i) :
    ∃ event ∈ cfg.trace, event.thread = i ∧ event.mutation.commit = some c := by
  obtain ⟨m, hm, hcommit⟩ := List.mem_filterMap.mp h
  obtain ⟨event, hevent, rfl⟩ := List.mem_map.mp hm
  obtain ⟨hmem, hthread⟩ := List.mem_filter.mp hevent
  exact ⟨event, hmem, by simpa using hthread, hcommit⟩

theorem commit_mem_commitsOf (hevent : event ∈ cfg.trace)
    {c : Str × Option Bytes} (hcommit : event.mutation.commit = some c) :
    c ∈ commitsOf cfg event.thread := by
  refine List.mem_filterMap.mpr ⟨event.mutation, List.mem_map_of_mem ?_, hcommit⟩
  exact List.mem_filter.mpr ⟨hevent, by simp⟩

theorem exists_write (h : SoundRun store requests v₀ cfg) {i : ι} {key : Str}
    (hcreates : (requests i).Creates key) {response : StoreResponse}
    (hprog : cfg.prog i = .pure response) :
    ∃ event ∈ cfg.trace, event.thread = i ∧
      ∃ bytes, event.mutation.commit = some (key, some bytes) := by
  obtain ⟨conditions, list, hguard, hnone, _⟩ := hcreates
  have hcommits := ended_of_pure h hprog
  obtain ⟨bytes, hbytes⟩ : ∃ bytes, commitsOf cfg i = [(key, some bytes)] := by
    cases hrequest : requests i <;> rw [hrequest] at hguard hcommits <;> cases hguard
    case put body options => exact ⟨body, hcommits⟩
    case copy => exact hcommits
    case completeUpload => exact hcommits
    case delete => cases hnone
  obtain ⟨event, hevent, hthread, hcommit⟩ := mem_commitsOf (hbytes ▸ List.mem_singleton_self _)
  exact ⟨event, hevent, hthread, bytes, hcommit⟩

theorem exists_split_of_mem {α : Type} {x y : α} {l : List α} (hne : x ≠ y) (hx : x ∈ l)
    (hy : y ∈ l) : ∃ front first middle second back,
      l = front ++ first :: (middle ++ second :: back) ∧
        (first = x ∧ second = y ∨ first = y ∧ second = x) := by
  obtain ⟨front, back, rfl⟩ := List.append_of_mem hx
  rcases List.mem_append.mp hy with hy | hy
  · obtain ⟨front', middle, rfl⟩ := List.append_of_mem hy
    exact ⟨front', y, middle, x, back, by simp, Or.inr ⟨rfl, rfl⟩⟩
  · rcases List.mem_cons.mp hy with rfl | hy
    · exact absurd rfl hne
    · obtain ⟨middle, back', rfl⟩ := List.append_of_mem hy
      exact ⟨front, x, middle, y, back', rfl, Or.inl ⟨rfl, rfl⟩⟩

theorem exists_removal_between (h : SoundRun store requests v₀ cfg)
    {front middle back : List (Event ι Mutation Volume)} {first second : Event ι Mutation Volume}
    (hsplit : cfg.trace = front ++ first :: (middle ++ second :: back)) {key : Str}
    {bytes : Bytes} (hfirst : first.mutation.commit = some (key, some bytes))
    (hsecond : second.before.bytesAt key = none) :
    ∃ removal ∈ middle, removal.mutation = .removeData key := by
  have hsplit' : cfg.trace = (front ++ first :: middle) ++ second :: back := by
    rw [hsplit, List.append_assoc, List.cons_append]
  have hhistory := bytesAt_of_split h hsplit'
  obtain ⟨hbefore, _⟩ := h.permitted _ second back hsplit'
  rw [hbefore, hhistory, List.map_append, List.map_cons, commits_append, committed_append] at hsecond
  have hcommits : commits (first.mutation :: middle.map (·.mutation)) =
      (key, some bytes) :: commits (middle.map (·.mutation)) :=
    List.filterMap_cons_some hfirst
  rw [hcommits, committed_cons] at hsecond
  have hremoved := exists_removal (by rw [Function.update_self]; rfl) hsecond
  obtain ⟨m, hm, hcommit⟩ := List.mem_filterMap.mp hremoved
  obtain ⟨removal, hremoval, rfl⟩ := List.mem_map.mp hm
  exact ⟨removal, hremoval, Mutation.eq_removeData hcommit⟩

theorem bytesAt_of_last (h : SoundRun store requests v₀ cfg)
    {front back : List (Event ι Mutation Volume)}
    (hsplit : cfg.trace = front ++ event :: back) {key : Str} {new : Option Bytes}
    (hcommit : event.mutation.commit = some (key, new))
    (hlast : ∀ later ∈ back, ∀ c, later.mutation.commit = some c → c.1 ≠ key) :
    cfg.state.bytesAt key = new := by
  have hcommits : commits (event.mutation :: back.map (·.mutation)) =
      (key, new) :: commits (back.map (·.mutation)) := List.filterMap_cons_some hcommit
  rw [h.state, bytesAt_of_split h (List.append_nil _).symm, hsplit, List.map_append, List.map_cons,
    commits_append, committed_append, hcommits, committed_cons, committed_of_forall_ne]
  · rw [Function.update_self]
  · intro c hc
    obtain ⟨m, hm, hmcommit⟩ := List.mem_filterMap.mp hc
    obtain ⟨later, hlater, rfl⟩ := List.mem_map.mp hm
    exact hlast later hlater c hmcommit

/-- Requests that run interleaved, in any number and any order of their steps, are linearizable at
their renames and unlinks, and never wait for each other in a cycle. -/
theorem linearizable_of_reaches {callers : ι → Caller}
    (h : fsMachine.Reaches (fun i => (requests i).program store (callers i)) v₀ cfg) :
    Linearizable store requests v₀ cfg := by
  have hrun := soundRun_of_reaches h
  have hsees : ∀ event ∈ cfg.trace, ∀ key new, event.mutation.commit = some (key, new) →
      ∀ k conditions, (requests event.thread).guard = some (k, conditions) →
        k = key ∧ Saw store conditions event.before key :=
    fun event hevent key new hcommit k conditions hguard =>
      StoreRequest.saw_of_permits (permitted_of_mem hrun hevent hcommit) hcommit hguard
  refine ⟨?_, hsees, ?_, fun _ _ => ended_of_pure hrun, fun _ _ => ended_of_throw hrun, ?_, ?_, ?_,
    fun _ _ _ => hrun.lt_of_wants rely_refl, hrun.not_waitsFor_cycle rely_refl⟩
  · intro front event back hsplit
    obtain ⟨hbefore, _⟩ := hrun.permitted front event back hsplit
    exact ⟨hbefore, hbefore ▸ bytesAt_of_split hrun hsplit⟩
  · intro event hevent key bytes hcommit
    have hpermits := permitted_of_mem hrun hevent hcommit
    obtain ⟨payload, hmutation, hbytes⟩ := Mutation.eq_writeData hcommit
    rw [hmutation] at hpermits
    exact hbytes ▸ hpermits
  · intro i j key hne hi hj response response' hresponse hresponse'
    obtain ⟨x, hx, hxi, xbytes, hxcommit⟩ := exists_write hrun hi hresponse
    obtain ⟨y, hy, hyj, ybytes, hycommit⟩ := exists_write hrun hj hresponse'
    have hxy : x ≠ y := fun heq => hne (by rw [← hxi, ← hyj, heq])
    -- whichever came second found nothing, though the first had written
    have hcreated : ∀ second ∈ cfg.trace, ∀ bytes,
        second.mutation.commit = some (key, some bytes) →
        (requests second.thread).Creates key → second.before.bytesAt key = none := by
      intro second hsecond bytes hcommit hcreates
      obtain ⟨conditions, list, hguard, hlist, hstar⟩ := hcreates
      exact (hsees second hsecond key _ hcommit key conditions hguard).2.unmatched list hlist hstar
    obtain ⟨front, first, middle, second, back, hsplit, horder⟩ := exists_split_of_mem hxy hx hy
    refine ⟨front, first, middle, second, back, hsplit, ?_, ?_⟩
    · rcases horder with ⟨rfl, rfl⟩ | ⟨rfl, rfl⟩
      · exact Or.inl ⟨hxi, hyj⟩
      · exact Or.inr ⟨hyj, hxi⟩
    · rcases horder with ⟨rfl, rfl⟩ | ⟨rfl, rfl⟩
      · exact exists_removal_between hrun hsplit hxcommit
          (hcreated second hy ybytes hycommit (hyj ▸ hj))
      · exact exists_removal_between hrun hsplit hycommit
          (hcreated second hx xbytes hxcommit (hxi ▸ hi))
  · intro front event back key new hsplit hcommit hlast
    refine ⟨bytesAt_of_last hrun hsplit hcommit hlast, fun e he => ?_⟩
    by_contra hcertain
    have hmem : event ∈ cfg.trace := hsplit ▸ List.mem_append_right _ List.mem_cons_self
    have hcommitted := commit_mem_commitsOf hmem hcommit
    rw [ended_of_throw hrun he (by simpa using hcertain)] at hcommitted
    exact absurd hcommitted List.not_mem_nil
  · intro key hnone
    rw [hrun.state, bytesAt_of_split hrun (List.append_nil _).symm, committed_of_forall_ne]
    intro c hc
    obtain ⟨m, hm, hcommit⟩ := List.mem_filterMap.mp hc
    obtain ⟨event, hevent, rfl⟩ := List.mem_map.mp hm
    exact hnone event hevent c hcommit

end Interleaved

namespace Sample

def rivals (i : Fin 2) : StoreRequest :=
  .put ['a'] [if i = 0 then 1 else 2] ⟨none, none, ⟨none, some ['*']⟩⟩

def rivalRun : StoreConfig (Fin 2) :=
  fsMachine.schedule
    (Config.start (fun i => (rivals i).program smallStore smallCaller) ⟨Tree.empty, Tree.empty, ∅⟩)
    ((List.range 80).flatMap fun _ => [(0, cancelledFrom 1 0), (1, cancelledFrom 1 0)])

end Sample

/-- Of two rivals that take turns, one creates the object and the other is refused. -/
theorem linearizable_rivals :
    commitsOf Sample.rivalRun 0 = [(['a'], some [1])] ∧ commitsOf Sample.rivalRun 1 = [] ∧
      Linearizable Sample.smallStore Sample.rivals ⟨Tree.empty, Tree.empty, ∅⟩ Sample.rivalRun :=
  ⟨by decide +kernel, by decide +kernel,
    linearizable_of_reaches (Machine.Reaches.schedule Relation.ReflTransGen.refl _)⟩

end GraphitBroker
