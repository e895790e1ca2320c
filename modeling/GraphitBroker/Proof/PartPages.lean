import GraphitBroker.FilesystemParts
import GraphitBroker.Proof.ListingPages

/-!
# Listing the parts of an upload, page after page

Whatever the order of the directory of parts, a page shows the smallest numbers after its marker,
and the marker of a truncated page is its last number.
-/

namespace GraphitBroker

open Steps

/-- An upload as the store writes it: its manifest can be read and is for the key, and its parts have
numbers that can be uploaded. -/
structure Uploaded (store : FilesystemStore) (v : Volume) (key id : Str)
    (parts : AList fun _ : Nat => Payload) (state : Manifest) : Prop where
  named : uploadId id = true
  stored : v.uploads.lookup id = some ⟨some state, some parts⟩
  small : store.vendor.manifestSize state ≤ store.config.metadataBytes
  bucket : state.bucket = store.config.bucket
  forKey : state.key = key
  ordered : state.created ≤ state.lastProgress
  contentType : state.contentType.any (fun s => !store.header s) = false
  numbered : ∀ n ∈ parts.keys, 1 ≤ (n : Int) ∧ (n : Int) ≤ maxPart

structure WriteAuthorized (store : FilesystemStore) (caller : Caller) (key : Str) : Prop where
  bucket : caller.session.bucket = store.config.bucket
  valid : validKey key = true
  covered : caller.session.covered (VerifiedFilesystemSession.implying .write) key = true

def partsAfter (parts : AList fun _ : Nat => Payload) (marker : Int) : SortedSet Int :=
  (SortedSet.empty.extend (parts.keys.map Int.ofNat)).filter fun n => decide (marker < n)

theorem mem_partsAfter {parts : AList fun _ : Nat => Payload} {marker n : Int} :
    n ∈ partsAfter parts marker ↔ (∃ k ∈ parts.keys, (k : Int) = n) ∧ marker < n := by
  rw [partsAfter, SortedSet.mem_filter, SortedSet.mem_extend, List.mem_map]
  simp

theorem partsAfter_last {parts : AList fun _ : Nat => Payload} {marker last : Int} {n : Nat}
    (hlast : ((partsAfter parts marker).toList.take n).getLast? = some last) :
    (partsAfter parts last).toList = (partsAfter parts marker).toList.drop n := by
  have hmem : last ∈ partsAfter parts marker :=
    List.mem_of_mem_take (List.mem_of_getLast? hlast)
  have hfilter : partsAfter parts last =
      (partsAfter parts marker).filter fun x => decide (last < x) := by
    refine SortedSet.ext_mem fun x => ?_
    rw [SortedSet.mem_filter, mem_partsAfter, mem_partsAfter, decide_eq_true_eq, and_assoc]
    exact and_congr_right fun _ =>
      ⟨fun h => ⟨(mem_partsAfter.mp hmem).2.trans h, h⟩, And.right⟩
  rw [hfilter]
  exact @Paging.beyond_last Int Int _ id n _ (partsAfter parts marker).sorted last hlast

def partInfo (store : FilesystemStore) (number : Int) (payload : Payload) : FilesystemPartInfo :=
  ⟨number, etag (store.vendor.sha256 payload.bytes), payload.bytes.length, payload.modified⟩

def shownParts (store : FilesystemStore) (parts : AList fun _ : Nat => Payload) (numbers : List Int) :
    List FilesystemPartInfo :=
  numbers.filterMap fun n => (parts.lookup n.toNat).map (partInfo store n)

def partsPage (store : FilesystemStore) (parts : AList fun _ : Nat => Payload) (maximum : Nat)
    (remaining : List Int) : FilesystemPartsPage where
  parts := shownParts store parts (remaining.take maximum)
  isTruncated := decide (maximum < remaining.length)
  nextMarker := if maximum < remaining.length then (remaining.take maximum).getLast? else none

section Page

variable {store : FilesystemStore} {caller : Caller} {v : Volume} {key id : Str}
  {parts : AList fun _ : Nat => Payload} {state : Manifest}

theorem answers_authorizeWrite (h : WriteAuthorized store caller key) :
    Answers caller (store.authorize caller .write key) v (.ok ()) := by
  have hallowed : Answers caller (FilesystemStore.allowed caller .write key) v (.ok true) := by
    have hlive : Answers caller (.perform (.live caller.session)) v (.ok true) := by
      refine answers_perform fun choice hcalm => ?_
      show FsOp.silent (.ok (caller.session.check choice.clock caller.session.deadline).isOk) = _
      rw [hcalm.live]
      rfl
    unfold FilesystemStore.allowed
    rw [if_neg (by simp [h.valid])]
    refine hlive.then ?_
    rw [h.covered]
    exact Machine.gives_pure true
  refine answers_checked.then ((answers_failIf (not_not.mpr h.bucket)).then ?_)
  refine (answers_failIf (by simp [h.valid])).then (hallowed.then ?_)
  exact answers_failIf (by simp)

theorem answers_currentUpload (hvalid : validKey key = true) (h : Uploaded store v key id parts state) :
    Answers caller (store.currentUpload key id) v (.ok state) := by
  have hopen : Answers caller (.perform (.openUpload id)) v (.ok ()) := by
    refine answers_perform fun choice _ => ?_
    show FsOp.silent ((FsOp.found (v.uploads.lookup id)).map fun _ => ()) = _
    rw [h.stored]
    rfl
  have hmanifest : Answers caller (.perform (.openManifest id)) v (.ok state) := by
    refine answers_perform fun choice _ => ?_
    show FsOp.silent (FsOp.found ((v.uploads.lookup id).bind (·.manifest))) = _
    rw [h.stored]
    rfl
  have hdirectory : Answers caller (FilesystemStore.uploadDirectory id) v (.ok ()) :=
    (answers_failIf (by simp [h.named])).then (Machine.gives_mapError hopen)
  have hread : Answers caller (store.readUploadManifest id) v (.ok state) := by
    refine Machine.Gives.then (Machine.gives_mapError hmanifest) ?_
    refine answers_ioStep.then (answers_ioStep.then ?_)
    refine (answers_failIf (not_lt.mpr h.small)).then ((answers_failIf ?_).then ?_)
    · have hordered := h.ordered
      rw [h.forKey, h.bucket, hvalid, h.contentType]
      simp only [ne_eq, not_true_eq_false, Bool.true_eq_false, Bool.false_eq_true, false_or, or_false]
      omega
    · exact Machine.gives_pure state
  refine hdirectory.then (hread.then ((answers_failIf (not_not.mpr h.forKey)).then ?_))
  exact Machine.gives_pure state

theorem answers_collectParts {marker : Int} {limit : Nat} {entries : List Nat}
    (hentries : ∀ n ∈ entries, 1 ≤ (n : Int) ∧ (n : Int) ≤ maxPart) (s : SortedSet Int) :
    ∃ s' : SortedSet Int,
      (∀ x, x ∈ s' ↔ x ∈ s ∨ (∃ k ∈ entries, (k : Int) = x) ∧ marker < x) ∧
      Answers caller (FilesystemStore.collectParts caller marker limit entries (s.smallest limit)) v
        (.ok (s'.smallest limit)) := by
  induction entries generalizing s with
  | nil => exact ⟨s, fun x => by simp, Machine.gives_pure _⟩
  | cons entry rest ih =>
    have hentry := hentries entry List.mem_cons_self
    have hrest : ∀ n ∈ rest, 1 ≤ (n : Int) ∧ (n : Int) ≤ maxPart := fun n hn =>
      hentries n (List.mem_cons_of_mem _ hn)
    obtain ⟨t, ht, hadd⟩ : ∃ t : SortedSet Int,
        (∀ x, x ∈ t ↔ x ∈ s ∨ x = (entry : Int) ∧ marker < x) ∧
        addPart marker limit (s.smallest limit) entry = t.smallest limit := by
      by_cases hmarker : (entry : Int) ≤ marker
      · refine ⟨s, fun x => (or_iff_left ?_).symm, if_pos hmarker⟩
        rintro ⟨rfl, hlt⟩
        exact absurd hlt (not_lt.mpr hmarker)
      · refine ⟨s.insert entry, fun x => ?_, ?_⟩
        · rw [SortedSet.mem_insert, or_comm]
          refine or_congr_right ⟨?_, And.left⟩
          rintro rfl
          exact ⟨rfl, not_le.mp hmarker⟩
        · rw [addPart, if_neg hmarker, SortedSet.smallest_insert]
    obtain ⟨s', hs', hloop⟩ := ih hrest t
    refine ⟨s', fun x => ?_, ?_⟩
    · rw [hs', ht, or_assoc]
      refine or_congr_right ?_
      rw [← or_and_right]
      refine and_congr_left fun _ => ?_
      simp [eq_comm]
    · refine answers_checked.then (answers_ioStep.then ?_)
      refine (answers_failIf (by omega)).then (answers_ioStep.then ?_)
      rw [hadd]
      exact hloop

theorem answers_describePart (h : Uploaded store v key id parts state) {number : Int}
    {payload : Payload} (hpart : parts.lookup number.toNat = some payload) :
    Answers caller (store.describePart caller id number) v (.ok (partInfo store number payload)) := by
  have hopen : Answers caller (.perform (.openPart id number.toNat)) v (.ok payload) := by
    refine answers_perform fun choice _ => ?_
    show FsOp.silent (FsOp.found ((FsOp.partsOf v id).bind (·.lookup number.toNat))) = _
    rw [FsOp.partsOf, h.stored]
    show FsOp.silent (FsOp.found (parts.lookup number.toNat)) = _
    rw [hpart]
    rfl
  refine hopen.then (answers_ioStep.then ?_)
  refine (FilesystemStore.answers_hashLoop 0 payload.bytes).then (answers_ioStep.then ?_)
  exact Machine.gives_pure _

theorem answers_describeParts (h : Uploaded store v key id parts state) {numbers : List Int}
    (hnumbers : ∀ n ∈ numbers, ∃ payload, parts.lookup n.toNat = some payload) :
    Answers caller (store.describeParts caller id numbers) v (.ok (shownParts store parts numbers)) := by
  induction numbers with
  | nil => exact Machine.gives_pure []
  | cons n rest ih =>
    obtain ⟨payload, hpart⟩ := hnumbers n List.mem_cons_self
    have hrest := ih fun m hm => hnumbers m (List.mem_cons_of_mem _ hm)
    have hshown : shownParts store parts (n :: rest) =
        partInfo store n payload :: shownParts store parts rest := by
      rw [shownParts, List.filterMap_cons, hpart]
      rfl
    rw [hshown]
    exact (answers_describePart h hpart).then (hrest.then (Machine.gives_pure _))

theorem exists_payload {marker n : Int} (hn : n ∈ partsAfter parts marker) :
    ∃ payload, parts.lookup n.toNat = some payload := by
  obtain ⟨⟨k, hk, rfl⟩, _⟩ := mem_partsAfter.mp hn
  exact Option.isSome_iff_exists.mp (AList.lookup_isSome.mpr (AList.mem_keys.mpr hk))

theorem answers_partsLocked (hvalid : validKey key = true) (h : Uploaded store v key id parts state)
    (marker : Int) (maximum : Nat) :
    Answers caller (store.partsLocked caller key id marker maximum) v
      (.ok (partsPage store parts maximum (partsAfter parts marker).toList)) := by
  have hopen : Answers caller (.perform (.openParts id)) v (.ok ()) := by
    refine answers_perform fun choice _ => ?_
    show FsOp.silent ((FsOp.found (FsOp.partsOf v id)).map fun _ => ()) = _
    rw [FsOp.partsOf, h.stored]
    rfl
  have hentries : Answers caller (.perform (.partNumbers id)) v (.ok parts.keys) := by
    refine answers_perform fun choice _ => ?_
    show FsOp.silent ((FsOp.found (FsOp.partsOf v id)).map (·.keys)) = _
    rw [FsOp.partsOf, h.stored]
    rfl
  have hcollect : Answers caller
      (FilesystemStore.collectParts caller marker (maximum + 1) parts.keys .empty) v
      (.ok ((partsAfter parts marker).smallest (maximum + 1))) := by
    obtain ⟨s', hs', hloop⟩ := @answers_collectParts caller v marker (maximum + 1) parts.keys
      h.numbered .empty
    have hsame : s' = partsAfter parts marker := SortedSet.ext_mem fun x => by
      rw [hs', mem_partsAfter]
      exact or_iff_right (SortedSet.not_mem_empty x)
    rw [← hsame]
    exact hloop
  set rest := partsAfter parts marker
  refine (answers_currentUpload hvalid h).then (hopen.then (hentries.then (hcollect.then ?_)))
  simp only [SortedSet.lt_size_smallest_succ, decide_eq_true_eq, SortedSet.popLast_smallest_succ]
  refine Machine.Gives.then (answers_describeParts h fun n hn =>
    exists_payload (List.mem_of_mem_take hn)) ?_
  exact Machine.gives_pure _

theorem answers_listParts (hauth : WriteAuthorized store caller key)
    {input : FilesystemPartsRequest} (h : Uploaded store v key input.uploadId parts state)
    {maximum : Nat} (hmaximum : maximumParts input.maxParts = .ok maximum)
    (hmarker : 0 ≤ input.marker.getD 0 ∧ input.marker.getD 0 ≤ maxPart) :
    Answers caller (store.listParts caller key input) v
      (.ok (partsPage store parts maximum (partsAfter parts (input.marker.getD 0)).toList)) := by
  refine (answers_authorizeWrite hauth).then ?_
  refine (Machine.gives_attempt ?_).then (answers_checked.then (Machine.gives_ofExcept _))
  refine (answers_failIf (by simp [h.named])).then ((answers_failIf (by omega)).then ?_)
  refine Machine.Gives.then (Machine.gives_ofExcept_eq hmaximum) ?_
  exact FilesystemStore.answers_locked (answers_partsLocked hauth.valid h _ maximum)

theorem answers_listParts_refused (hauth : WriteAuthorized store caller key)
    {input : FilesystemPartsRequest} (hnamed : uploadId input.uploadId = true)
    (hmarker : input.marker.getD 0 < 0 ∨ maxPart < input.marker.getD 0) :
    Answers caller (store.listParts caller key input) v (.error .invalidArgument) := by
  refine (answers_authorizeWrite hauth).then ?_
  refine (Machine.gives_attempt ?_).then (answers_checked.then (Machine.gives_ofExcept _))
  refine (answers_failIf (by simp [hnamed])).then ?_
  exact Machine.Gives.stop (answers_failIf_of hmarker)

end Page

/-- Requesting page after page: each request after the first has the marker of the page before. None
if the calls do not suffice. -/
def FilesystemStore.listAllParts (store : FilesystemStore) (caller : Caller) (key : Str)
    (choices : Nat → Nat → FsChoice) (v : Volume) :
    Nat → FilesystemPartsRequest → Except FilesystemStoreError (Option (List FilesystemPartsPage))
  | 0, _ => .ok none
  | calls + 1, input => do
    let page ← (fsMachine.run (store.listParts caller key input) (choices calls) ⟨[], []⟩ v).result
    match page.nextMarker with
    | none => return some [page]
    | some marker =>
      let pages ← store.listAllParts caller key choices v calls { input with marker := some marker }
      return pages.map (page :: ·)

/-- A page shows exactly the parts with these numbers, and says whether a greater part exists. -/
structure FilesystemPartsPage.ShowsParts (store : FilesystemStore)
    (parts : AList fun _ : Nat => Payload) (page : FilesystemPartsPage) (numbers : List Int) : Prop where
  numbered : page.parts.map (·.number) = numbers
  described : ∀ info ∈ page.parts, ∃ payload, parts.lookup info.number.toNat = some payload ∧
    info = partInfo store info.number payload
  truncated : page.isTruncated = true ↔
    ∃ last, numbers.getLast? = some last ∧ ∃ k ∈ parts.keys, last < (k : Int)
  next : page.nextMarker = if page.isTruncated = true then numbers.getLast? else none

section Pages

variable {store : FilesystemStore} {caller : Caller} {v : Volume} {key : Str}
  {parts : AList fun _ : Nat => Payload} {state : Manifest} {maximum : Nat}

theorem map_number_shownParts {numbers : List Int}
    (hnumbers : ∀ n ∈ numbers, ∃ payload, parts.lookup n.toNat = some payload) :
    (shownParts store parts numbers).map (·.number) = numbers := by
  induction numbers with
  | nil => rfl
  | cons n rest ih =>
    obtain ⟨payload, hpart⟩ := hnumbers n List.mem_cons_self
    rw [shownParts, List.filterMap_cons, hpart]
    exact congrArg (n :: ·) (ih fun m hm => hnumbers m (List.mem_cons_of_mem _ hm))

theorem showsParts_partsPage (hmax : 1 ≤ maximum) (marker : Int) :
    (partsPage store parts maximum (partsAfter parts marker).toList).ShowsParts store parts
      ((partsAfter parts marker).toList.take maximum) where
  numbered := map_number_shownParts fun _ hn => exists_payload (List.mem_of_mem_take hn)
  described info hinfo := by
    obtain ⟨n, _, hsome⟩ := List.mem_filterMap.mp hinfo
    obtain ⟨payload, hpart, rfl⟩ := Option.map_eq_some_iff.mp hsome
    exact ⟨payload, hpart, rfl⟩
  truncated := by
    rw [show (partsPage store parts maximum (partsAfter parts marker).toList).isTruncated =
      decide (maximum < (partsAfter parts marker).toList.length) from rfl, decide_eq_true_eq]
    constructor
    · intro hmore
      have hne : (partsAfter parts marker).toList.take maximum ≠ [] := by
        rw [← List.length_pos_iff, List.length_take]
        omega
      have hlast := List.getLast?_eq_some_getLast hne
      refine ⟨_, hlast, ?_⟩
      -- the part after the page is beyond its last one
      have hnext : (partsAfter parts marker).toList[maximum] ∈
          (partsAfter parts marker).toList.drop maximum :=
        List.mem_drop_iff_getElem.mpr ⟨0, by simpa using hmore, by simp⟩
      rw [← partsAfter_last hlast] at hnext
      obtain ⟨⟨k, hk, heq⟩, hlt⟩ := mem_partsAfter.mp hnext
      exact ⟨k, hk, heq ▸ hlt⟩
    · rintro ⟨last, hlast, k, hk, hlt⟩
      have hmem : (k : Int) ∈ partsAfter parts last := mem_partsAfter.mpr ⟨⟨k, hk, rfl⟩, hlt⟩
      rw [SortedSet.mem_def, partsAfter_last hlast] at hmem
      by_contra hfew
      rw [List.drop_eq_nil_of_le (not_lt.mp hfew)] at hmem
      exact absurd hmem List.not_mem_nil
  next := by
    show (if maximum < _ then _ else _) = if decide (maximum < _) = true then _ else _
    simp only [decide_eq_true_eq]

theorem partsAfter_last_le {parts : AList fun _ : Nat => Payload} {marker last : Int} {n : Nat}
    (hnumbered : ∀ k ∈ parts.keys, 1 ≤ (k : Int) ∧ (k : Int) ≤ maxPart)
    (hlast : ((partsAfter parts marker).toList.take n).getLast? = some last) :
    0 ≤ last ∧ last ≤ maxPart := by
  obtain ⟨⟨k, hk, rfl⟩, _⟩ := mem_partsAfter.mp
    (SortedSet.mem_def.mpr (List.mem_of_mem_take (List.mem_of_getLast? hlast)))
  have hrange := hnumbered k hk
  exact ⟨by omega, hrange.2⟩

theorem listAllParts_shows (hauth : WriteAuthorized store caller key)
    {choices : Nat → Nat → FsChoice} (hcalm : ∀ call step, Calm caller (choices call step))
    {input : FilesystemPartsRequest} (h : Uploaded store v key input.uploadId parts state)
    (hmaximum : maximumParts input.maxParts = .ok maximum)
    (hmarker : 0 ≤ input.marker.getD 0 ∧ input.marker.getD 0 ≤ maxPart) (calls : Nat)
    (hcalls : (partsAfter parts (input.marker.getD 0)).size < calls) :
    ∃ pages chunks, store.listAllParts caller key choices v calls input = .ok (some pages) ∧
      List.Forall₂ (FilesystemPartsPage.ShowsParts store parts) pages chunks ∧
      chunks.flatten = (partsAfter parts (input.marker.getD 0)).toList ∧
      ∀ chunk ∈ chunks, chunk.length ≤ maximum := by
  have hmax : 1 ≤ maximum := one_le_of_maximumKeys hmaximum
  -- a place is the marker of the next request
  refine @Paging.exists_chunks Int FilesystemStoreError maximum (Option Int) _
    (fun marker => (partsAfter parts (marker.getD 0)).toList)
    (fun calls marker => store.listAllParts caller key choices v calls { input with marker })
    (FilesystemPartsPage.ShowsParts store parts)
    (fun marker => 0 ≤ marker.getD 0 ∧ marker.getD 0 ≤ maxPart) hmax ?_ calls input.marker hmarker
    hcalls
  intro calls marker hmarker
  have hrun := (Machine.Gives.run (@answers_listParts store caller v key parts state hauth
    { input with marker } h maximum hmaximum hmarker) (hcalm calls) ⟨[], []⟩).1
  refine ⟨_, @showsParts_partsPage store parts maximum hmax (marker.getD 0), fun hend => ?_,
    fun hmore => ?_⟩
  · unfold FilesystemStore.listAllParts
    rw [hrun]
    simp only [bind, Except.bind]
    rw [show (partsPage store parts maximum (partsAfter parts (marker.getD 0)).toList).nextMarker =
      none from if_neg hend]
    rfl
  · have hne : (partsAfter parts (marker.getD 0)).toList.take maximum ≠ [] := by
      rw [← List.length_pos_iff, List.length_take]
      omega
    obtain ⟨last, hlast⟩ : ∃ last,
        ((partsAfter parts (marker.getD 0)).toList.take maximum).getLast? = some last :=
      ⟨_, List.getLast?_eq_some_getLast hne⟩
    refine ⟨some last, partsAfter_last_le h.numbered hlast, partsAfter_last hlast,
      fun pages hpages => ?_⟩
    unfold FilesystemStore.listAllParts
    rw [hrun]
    simp only [bind, Except.bind]
    rw [show (partsPage store parts maximum (partsAfter parts (marker.getD 0)).toList).nextMarker =
      some last from (if_pos hmore).trans hlast]
    dsimp only
    rw [hpages]
    rfl

end Pages

namespace Sample

def zeroUpload : Str := Base64.encode (List.replicate 32 0)

def threeParts : AList fun _ : Nat => Payload :=
  ((AList.insert 7 ⟨[1, 2], 5⟩ ∅).insert 2 ⟨[3], 6⟩).insert 10000 ⟨[], 7⟩

def partsManifest : Manifest := ⟨"objects".toList, ['a'], none, 1, 2⟩

def partsVolume : Volume where
  data := Tree.empty
  metadata := Tree.empty
  uploads := AList.insert zeroUpload ⟨some partsManifest, some threeParts⟩ ∅

theorem uploaded_zeroUpload :
    Uploaded smallStore partsVolume ['a'] zeroUpload threeParts partsManifest where
  named := by decide +kernel
  stored := AList.lookup_insert _
  small := by decide
  bucket := rfl
  forKey := rfl
  ordered := by decide
  contentType := rfl
  numbered := by decide

theorem writeAuthorized_smallCaller : WriteAuthorized smallStore smallCaller ['a'] :=
  ⟨rfl, by decide +kernel, by decide +kernel⟩

end Sample

section Pages

variable {store : FilesystemStore} {caller : Caller} {v : Volume} {key : Str}
  {parts : AList fun _ : Nat => Payload} {state : Manifest} {maximum : Nat}

/-- The parts of an upload, page after page. From a marker that is a part number or zero, the calls
end and show every part after the marker exactly once and in order, each with the size, the hash and
the time of its payload; any other marker is refused at once. -/
theorem listParts_exact (hauth : WriteAuthorized store caller key)
    {choices : Nat → Nat → FsChoice} (hcalm : ∀ call step, Calm caller (choices call step))
    {input : FilesystemPartsRequest} (h : Uploaded store v key input.uploadId parts state)
    (hmaximum : maximumParts input.maxParts = .ok maximum) :
    (0 ≤ input.marker.getD 0 ∧ input.marker.getD 0 ≤ maxPart →
      ∀ calls > (partsAfter parts (input.marker.getD 0)).size,
      ∃ pages chunks, store.listAllParts caller key choices v calls input = .ok (some pages) ∧
        List.Forall₂ (FilesystemPartsPage.ShowsParts store parts) pages chunks ∧
        chunks.flatten.Pairwise (· < ·) ∧
        (∀ n, n ∈ chunks.flatten ↔ (∃ k ∈ parts.keys, (k : Int) = n) ∧ input.marker.getD 0 < n) ∧
        ∀ chunk ∈ chunks, chunk.length ≤ maximum) ∧
    (input.marker.getD 0 < 0 ∨ maxPart < input.marker.getD 0 → ∀ calls,
      store.listAllParts caller key choices v (calls + 1) input = .error .invalidArgument) := by
  refine ⟨fun hmarker calls hcalls => ?_, fun hmarker calls => ?_⟩
  · obtain ⟨pages, chunks, hpages, hshown, hflat, hsmall⟩ :=
      listAllParts_shows hauth hcalm h hmaximum hmarker calls hcalls
    refine ⟨pages, chunks, hpages, hshown, ?_, fun n => ?_, hsmall⟩
    · rw [hflat]
      exact (partsAfter parts (input.marker.getD 0)).sorted
    · rw [hflat]
      exact mem_partsAfter
  · unfold FilesystemStore.listAllParts
    rw [(Machine.Gives.run (answers_listParts_refused hauth h.named hmarker) (hcalm calls)
      ⟨[], []⟩).1]
    rfl

end Pages

/-- The parts after the second, two to a page. -/
theorem listParts_exact_after_two :
    ∃ pages chunks, Sample.smallStore.listAllParts Sample.smallCaller ['a']
        (fun _ _ => Sample.undisturbed) Sample.partsVolume 3 ⟨Sample.zeroUpload, some 2, some 2⟩ =
          .ok (some pages) ∧
      List.Forall₂ (FilesystemPartsPage.ShowsParts Sample.smallStore Sample.threeParts) pages chunks ∧
      chunks.flatten.Pairwise (· < ·) ∧
      (∀ n, n ∈ chunks.flatten ↔ (∃ k ∈ Sample.threeParts.keys, (k : Int) = n) ∧ 2 < n) ∧
      ∀ chunk ∈ chunks, chunk.length ≤ 2 :=
  (@listParts_exact Sample.smallStore Sample.smallCaller Sample.partsVolume ['a'] Sample.threeParts
    Sample.partsManifest 2 Sample.writeAuthorized_smallCaller (fun _ _ => Sample.undisturbed)
    (fun _ _ => ⟨rfl, rfl, rfl⟩) ⟨Sample.zeroUpload, some 2, some 2⟩ Sample.uploaded_zeroUpload
    rfl).1 (by decide) 3 (by decide +kernel)

/-- A marker below zero is refused, though every part comes after it. -/
theorem listParts_refuses_marker :
    (∀ k ∈ Sample.threeParts.keys, (-1 : Int) < (k : Int)) ∧
      (∃ input : FilesystemPartsRequest, input.uploadId = Sample.zeroUpload ∧
        input.marker = some (-1) ∧ input.maxParts = some 2 ∧
        Sample.smallStore.listAllParts Sample.smallCaller ['a'] (fun _ _ => Sample.undisturbed)
          Sample.partsVolume 4 input = .error .invalidArgument) := by
  refine ⟨by decide, ⟨Sample.zeroUpload, some (-1), some 2⟩, rfl, rfl, rfl, ?_⟩
  unfold FilesystemStore.listAllParts
  rw [(Machine.Gives.run (@answers_listParts_refused Sample.smallStore Sample.smallCaller
    Sample.partsVolume ['a'] Sample.writeAuthorized_smallCaller
    ⟨Sample.zeroUpload, some (-1), some 2⟩ Sample.uploaded_zeroUpload.named (Or.inl (by decide)))
    (fun _ => (⟨rfl, rfl, rfl⟩ : Calm Sample.smallCaller Sample.undisturbed)) ⟨[], []⟩).1]
  rfl

end GraphitBroker
