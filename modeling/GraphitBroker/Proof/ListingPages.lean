import GraphitBroker.FilesystemRequests
import GraphitBroker.Proof.ListingEntries
import GraphitBroker.Lib.Paging

/-!
# Pages of a listing

A page shows the first entries after its marker, and its token is the marker of the next page: the
last entry shown. Requesting page after page therefore shows all entries, each once and in order.
-/

namespace GraphitBroker

open Steps SepPath

/-- A volume on which every object can be listed: its keys are canonical and its metadata is sound. -/
structure Listable (store : FilesystemStore) (v : Volume) : Prop where
  canonical : v.Canonical
  described : ∀ path ∈ v.data.nodes.keys, (v.data.fileAt path).isSome = true →
    store.described v path = true

structure Authorized (store : FilesystemStore) (caller : Caller) (keyPrefix : Str) : Prop where
  bucket : caller.session.bucket = store.config.bucket
  readable : caller.session.reads (prefixKey keyPrefix) = true

namespace FilesystemStore

variable (store : FilesystemStore) (v : Volume) (input : FilesystemListRequest)

def shownObjects (entries : List Candidate) : List FilesystemListedObject :=
  entries.filterMap fun c =>
    if c.common then none
    else (v.data.fileAt (pathOf c.key)).map fun payload =>
      ⟨encoded c.key input.encoding, store.infoAt v c.key payload⟩

def shownPrefixes (entries : List Candidate) : List Str :=
  (entries.filter (·.common)).map fun c => encoded c.key input.encoding

def pageOf (maximum : Nat) (remaining : List Candidate) : FilesystemListPage where
  objects := store.shownObjects v input (remaining.take maximum)
  commonPrefixes := shownPrefixes input (remaining.take maximum)
  keyCount := (remaining.take maximum).length
  isTruncated := decide (maximum < remaining.length)
  nextToken :=
    if maximum < remaining.length then
      (remaining.take maximum).getLast?.map fun last =>
        (Cursor.mk input.keyPrefix input.delimiter last.key).token
    else none

variable {store v input} {caller : Caller} {parser : CursorParser}

theorem answers_emit (hv : Listable store v)
    (hbucket : caller.session.bucket = store.config.bucket) {entries : List Candidate}
    (h : ∀ c ∈ entries, c.common = false → v.Holds c.key ∧ caller.session.reads c.key = true) :
    Answers caller (store.emit caller input.encoding entries) v
      (.ok (store.shownObjects v input entries, shownPrefixes input entries)) := by
  induction entries with
  | nil => exact Machine.gives_pure _
  | cons c rest ih =>
    have hrest := ih fun d hd => h d (List.mem_cons_of_mem _ hd)
    unfold emit shownObjects shownPrefixes
    cases hcommon : c.common with
    | true =>
      rw [List.filterMap_cons, List.filter_cons]
      simp only [hcommon, if_true]
      exact hrest.then (Machine.gives_pure _)
    | false =>
      obtain ⟨hholds, hreads⟩ := h c List.mem_cons_self hcommon
      obtain ⟨payload, hpayload⟩ := Option.isSome_iff_exists.mp hholds
      have hdescribed := hv.described _ (AList.lookup_isSome.mp hholds.lookup.1) hholds
      rw [List.filterMap_cons, List.filter_cons]
      simp only [hcommon, Bool.false_eq_true, if_false, hpayload, Option.map_some]
      exact (answers_head hbucket hreads hpayload hdescribed).then
        (hrest.then (Machine.gives_pure _))

end FilesystemStore

inductive Marked (caller : Caller) (input : FilesystemListRequest) : Str → Prop where
  | first (htoken : input.continuationToken = none)
      (hstart : input.startAfter.getD [] = [] ∨ byteLen (input.startAfter.getD []) ≤ 1024 ∧
        validKey (prefixKey (input.startAfter.getD [])) = true) :
      Marked caller input (input.startAfter.getD [])
  | resumed (cursor : Cursor) (htoken : input.continuationToken = some cursor.token)
      (hresumes : Resumes caller input cursor) : Marked caller input cursor.marker

section Page

variable {store : FilesystemStore} {v : Volume} {caller : Caller} {parser : CursorParser}
  {input : FilesystemListRequest} {marker : Str} {maximum : Nat}

theorem Marked.continuation (h : Marked caller input marker) :
    ∃ cursor : Option Cursor,
      Answers caller (FilesystemStore.continuation caller parser input) v (.ok cursor) ∧
        ((cursor.map (·.marker)).or input.startAfter).getD [] = marker ∧
        (marker = [] ∨ byteLen marker ≤ 1024 ∧ validKey (prefixKey marker) = true) := by
  cases h with
  | first htoken hstart =>
    refine ⟨none, ?_, rfl, hstart⟩
    unfold FilesystemStore.continuation
    rw [htoken]
    exact Machine.gives_pure none
  | resumed cursor htoken hresumes =>
    exact ⟨some cursor, answers_continuation hresumes htoken, rfl,
      Or.inr ⟨hresumes.marker, (Bool.and_eq_true _ _ ▸ hresumes.readable).1⟩⟩

theorem one_le_of_maximumKeys {value : Option Int} (h : maximumKeys value = .ok maximum) :
    1 ≤ maximum := by
  unfold maximumKeys at h
  split at h
  · cases h
    decide
  · split_ifs at h with hzero hrange
    · cases h
      decide
    · cases h
      omega

def remaining (caller : Caller) (v : Volume) (input : FilesystemListRequest) (marker : Str) :
    SortedSet Candidate :=
  entriesAfter (v.listing (caller.session.shows input.keyPrefix) input.keyPrefix
    input.delimiter.isSome) marker

theorem listedAs_of_mem_remaining (hv : v.Canonical) {c : Candidate}
    (h : c ∈ (remaining caller v input marker).toList) :
    ListedAs caller v input.keyPrefix c ∧ marker < c.key := by
  obtain ⟨hlisted, hmarker⟩ := SortedSet.mem_filter.mp (show c ∈ entriesAfter _ _ from h)
  exact ⟨listedAs_of_mem hv hlisted, of_decide_eq_true hmarker⟩

theorem nextToken_eq (hmax : 1 ≤ maximum) (rest : SortedSet Candidate) :
    FilesystemStore.nextToken input (decide (maximum < rest.size)) (rest.smallest maximum) =
      .ok (if maximum < rest.toList.length then
        (rest.toList.take maximum).getLast?.map fun last =>
          (Cursor.mk input.keyPrefix input.delimiter last.key).token
        else none) := by
  unfold FilesystemStore.nextToken
  simp only [decide_eq_true_eq]
  by_cases hmore : maximum < rest.size
  · have hne : rest.toList.take maximum ≠ [] := by
      rw [← List.length_pos_iff, List.length_take]
      exact lt_min hmax (lt_of_le_of_lt (Nat.zero_le _) hmore)
    have hlast := List.getLast?_eq_some_getLast hne
    have hlast' : (rest.smallest maximum).toList.getLast? = some _ := hlast
    rw [if_pos hmore, if_pos (show maximum < rest.toList.length from hmore), hlast, hlast']
    rfl
  · rw [if_neg hmore, if_neg (show ¬ maximum < rest.toList.length from hmore)]

theorem answers_listPage (hv : Listable store v) (hauth : Authorized store caller input.keyPrefix)
    (hshort : byteLen input.keyPrefix ≤ 1024)
    (hdelimiter : input.delimiter.all (· = "/".toList) = true)
    (hmaximum : maximumKeys input.maxKeys = .ok maximum) (hmarked : Marked caller input marker) :
    Answers caller (store.listPage caller parser input) v
      (.ok (store.pageOf v input maximum (remaining caller v input marker).toList)) := by
  obtain ⟨cursor, hcursor, hmarker, hlegal⟩ := @Marked.continuation v caller parser input marker hmarked
  have hne : input.keyPrefix ≠ [] := by
    intro hnil
    have hreads := hauth.readable
    rw [hnil] at hreads
    cases hreads
  have hdelimiter' : ¬ input.delimiter.any (· ≠ "/".toList) = true := by
    cases hsome : input.delimiter <;> simp_all
  have hmax := one_le_of_maximumKeys hmaximum
  set rest := remaining caller v input marker
  have hfound : Answers caller (Selection.walk ⟨input.keyPrefix, input.delimiter.isSome, marker,
      maximum + 1⟩ caller walkDepth [] [] .empty) v (.ok (rest.smallest (maximum + 1))) :=
    answers_walk hv.canonical hne
  have hlisted : ∀ c ∈ rest.toList.take maximum, ListedAs caller v input.keyPrefix c := fun c hc =>
    (listedAs_of_mem_remaining hv.canonical (List.mem_of_mem_take hc)).1
  refine (answers_failIf (not_or.mpr ⟨not_lt.mpr hshort, hdelimiter'⟩)).then ?_
  refine Machine.Gives.then (Machine.gives_ofExcept_eq hmaximum) (hcursor.then ?_)
  simp only [hmarker]
  refine (answers_failIf ?_).then (hfound.then ?_)
  · rintro ⟨hsome, hbad⟩
    rcases hlegal with hnil | ⟨hlength, hvalid⟩
    · exact hsome hnil
    · rcases hbad with hlong | hinvalid
      · exact absurd hlength (not_le.mpr hlong)
      · rw [hvalid] at hinvalid
        cases hinvalid
  show Answers caller (Prog.bind (.ofExcept (FilesystemStore.nextToken input
    (decide (maximum < (rest.smallest (maximum + 1)).size)) _)) _) v _
  simp only [SortedSet.lt_size_smallest_succ, decide_eq_true_eq, SortedSet.popLast_smallest_succ]
  refine Machine.Gives.then (Machine.gives_ofExcept_eq (nextToken_eq hmax rest)) ?_
  refine Machine.Gives.then (FilesystemStore.answers_emit hv hauth.bucket fun c hc =>
    (hlisted c hc).object) ?_
  exact Machine.gives_pure _

theorem answers_list (hv : Listable store v) (hauth : Authorized store caller input.keyPrefix)
    (hshort : byteLen input.keyPrefix ≤ 1024)
    (hdelimiter : input.delimiter.all (· = "/".toList) = true)
    (hmaximum : maximumKeys input.maxKeys = .ok maximum) (hmarked : Marked caller input marker) :
    Answers caller (store.list caller parser input) v
      (.ok (store.pageOf v input maximum (remaining caller v input marker).toList)) := by
  refine (FilesystemStore.answers_authorize hauth.bucket hauth.readable).then ?_
  refine (Machine.gives_attempt (answers_listPage hv hauth hshort hdelimiter hmaximum
    hmarked)).then (answers_checked.then ?_)
  exact Machine.gives_ofExcept _

end Page

def FilesystemListRequest.resume (input : FilesystemListRequest) (token : Str) :
    FilesystemListRequest :=
  { input with continuationToken := some token }

/-- Requesting page after page: each request after the first has the token of the page before. None if
the calls do not suffice. -/
def FilesystemStore.listAll (store : FilesystemStore) (caller : Caller) (parser : CursorParser)
    (choices : Nat → Nat → FsChoice) (v : Volume) :
    Nat → FilesystemListRequest → Except FilesystemStoreError (Option (List FilesystemListPage))
  | 0, _ => .ok none
  | calls + 1, input => do
    let page ← (fsMachine.run (store.list caller parser input) (choices calls) ⟨[], []⟩ v).result
    match page.nextToken with
    | none => return some [page]
    | some token =>
      let pages ← store.listAll caller parser choices v calls (input.resume token)
      return pages.map (page :: ·)

structure FilesystemListPage.Shows (store : FilesystemStore) (v : Volume)
    (input : FilesystemListRequest) (page : FilesystemListPage) (entries : List Candidate) : Prop where
  objects : page.objects = store.shownObjects v input entries
  commonPrefixes : page.commonPrefixes = FilesystemStore.shownPrefixes input entries
  total : page.objects.length + page.commonPrefixes.length = entries.length
  keyCount : page.keyCount = entries.length
  truncated : page.isTruncated = page.nextToken.isSome

section Pages

variable {store : FilesystemStore} {v : Volume} {caller : Caller} {parser : CursorParser}
  {input : FilesystemListRequest} {marker : Str} {maximum : Nat}

theorem length_shown {entries : List Candidate}
    (h : ∀ c ∈ entries, c.common = false → v.Holds c.key) :
    (store.shownObjects v input entries).length +
      (FilesystemStore.shownPrefixes input entries).length = entries.length := by
  induction entries with
  | nil => rfl
  | cons c rest ih =>
    have hrest := ih fun d hd => h d (List.mem_cons_of_mem _ hd)
    unfold FilesystemStore.shownObjects FilesystemStore.shownPrefixes at hrest ⊢
    rw [List.filterMap_cons, List.filter_cons]
    cases hcommon : c.common with
    | true =>
      simp only [if_true, List.map_cons, List.length_cons]
      omega
    | false =>
      obtain ⟨payload, hpayload⟩ :=
        Option.isSome_iff_exists.mp (h c List.mem_cons_self hcommon)
      simp only [Bool.false_eq_true, if_false, hpayload, Option.map_some, List.length_cons]
      omega

theorem shows_pageOf (hv : v.Canonical) (hmax : 1 ≤ maximum) :
    (store.pageOf v input maximum (remaining caller v input marker).toList).Shows store v input
      ((remaining caller v input marker).toList.take maximum) where
  objects := rfl
  commonPrefixes := rfl
  total := length_shown fun c hc hplain =>
    ((listedAs_of_mem_remaining hv (List.mem_of_mem_take hc)).1.object hplain).1
  keyCount := rfl
  truncated := by
    set rest := (remaining caller v input marker).toList
    show decide (maximum < rest.length) = Option.isSome (if maximum < rest.length then
      (rest.take maximum).getLast?.map _ else none)
    split_ifs with hmore
    · have hne : rest.take maximum ≠ [] := by
        rw [← List.length_pos_iff, List.length_take]
        omega
      rw [List.getLast?_eq_some_getLast hne]
      simpa using hmore
    · simpa using hmore

theorem pairwise_remaining (hv : v.Canonical) :
    (remaining caller v input marker).toList.Pairwise fun a b => a.key < b.key :=
  (remaining caller v input marker).sorted.imp_of_mem fun ha hb hlt =>
    key_lt_of_lt (listedAs_of_mem_remaining hv ha).1 (listedAs_of_mem_remaining hv hb).1 hlt

theorem remaining_last (hv : v.Canonical) {last : Candidate}
    (hlast : ((remaining caller v input marker).toList.take maximum).getLast? = some last) :
    (remaining caller v input last.key).toList =
      (remaining caller v input marker).toList.drop maximum := by
  rw [← Paging.beyond_last (pairwise_remaining hv) hlast]
  show List.filter _ _ = List.filter _ (List.filter _ _)
  rw [List.filter_filter]
  refine List.filter_congr fun c _ => ?_
  have hbefore := (listedAs_of_mem_remaining hv (List.mem_of_mem_take (List.mem_of_getLast? hlast))).2
  by_cases h : last.key < c.key
  · simp [h, hbefore.trans h]
  · simp [h]

theorem resumes_last (hv : v.Canonical) (hshort : byteLen input.keyPrefix ≤ 1024)
    (hdelimiter : input.delimiter.all (· = "/".toList) = true) {last : Candidate} {token : Str}
    (hlast : last ∈ (remaining caller v input marker).toList) :
    Resumes caller (input.resume token) ⟨input.keyPrefix, input.delimiter, last.key⟩ := by
  have hlisted := (listedAs_of_mem_remaining hv hlast).1
  exact {
    canonical :=
      ⟨fun c hc => hlisted.chars c (hlisted.beyond.subset hc), hlisted.chars, hdelimiter⟩
    keyPrefix := rfl
    delimiter := rfl
    short := hshort
    marker := hlisted.short
    beyond := hlisted.beyond
    readable := hlisted.readable }

theorem run_list {choices : Nat → FsChoice} (hv : Listable store v)
    (hauth : Authorized store caller input.keyPrefix) (hshort : byteLen input.keyPrefix ≤ 1024)
    (hdelimiter : input.delimiter.all (· = "/".toList) = true)
    (hmaximum : maximumKeys input.maxKeys = .ok maximum)
    (hcalm : ∀ step, Calm caller (choices step)) (hmarked : Marked caller input marker) :
    (fsMachine.run (store.list caller parser input) choices ⟨[], []⟩ v).result =
      .ok (store.pageOf v input maximum (remaining caller v input marker).toList) :=
  (Machine.Gives.run (answers_list hv hauth hshort hdelimiter hmaximum hmarked) hcalm ⟨[], []⟩).1

theorem nextToken_pageOf (hmax : 1 ≤ maximum) {entries : List Candidate}
    (hmore : maximum < entries.length) :
    ∃ last, (entries.take maximum).getLast? = some last ∧
      (store.pageOf v input maximum entries).nextToken =
        some (Cursor.mk input.keyPrefix input.delimiter last.key).token := by
  have hne : entries.take maximum ≠ [] := by
    rw [← List.length_pos_iff, List.length_take]
    omega
  have hlast := List.getLast?_eq_some_getLast hne
  refine ⟨_, hlast, ?_⟩
  show (if _ then _ else _) = _
  rw [if_pos hmore, hlast]
  rfl

theorem listAll_shows {choices : Nat → Nat → FsChoice} (hv : Listable store v)
    (hauth : Authorized store caller input.keyPrefix) (hshort : byteLen input.keyPrefix ≤ 1024)
    (hdelimiter : input.delimiter.all (· = "/".toList) = true)
    (hmaximum : maximumKeys input.maxKeys = .ok maximum)
    (hcalm : ∀ call step, Calm caller (choices call step)) (calls : Nat)
    (hmarked : Marked caller input marker)
    (hcalls : (remaining caller v input marker).size < calls) :
    ∃ pages chunks, store.listAll caller parser choices v calls input = .ok (some pages) ∧
      List.Forall₂ (FilesystemListPage.Shows store v input) pages chunks ∧
      chunks.flatten = (remaining caller v input marker).toList ∧
      ∀ chunk ∈ chunks, chunk.length ≤ maximum := by
  have hmax := one_le_of_maximumKeys hmaximum
  -- a place is the token of the next request and the marker that it stands for
  refine @Paging.exists_chunks Candidate FilesystemStoreError maximum (Option Str × Str) _
    (fun i => (remaining caller v input i.2).toList)
    (fun calls i => store.listAll caller parser choices v calls
      { input with continuationToken := i.1 }) (FilesystemListPage.Shows store v input)
    (fun i => Marked caller { input with continuationToken := i.1 } i.2) hmax ?_ calls
    (input.continuationToken, marker) hmarked hcalls
  rintro calls ⟨token, marker⟩ hmarked
  have hrun := @run_list store v caller parser { input with continuationToken := token } marker
    maximum (choices calls) hv hauth hshort hdelimiter hmaximum (hcalm calls) hmarked
  have hshows := @shows_pageOf store v caller { input with continuationToken := token } marker maximum
    hv.canonical hmax
  refine ⟨_, ⟨hshows.objects, hshows.commonPrefixes, hshows.total, hshows.keyCount,
    hshows.truncated⟩, fun hend => ?_, fun hmore => ?_⟩
  · unfold FilesystemStore.listAll
    rw [hrun]
    simp only [bind, Except.bind]
    rw [show (store.pageOf v { input with continuationToken := token } maximum (remaining caller v
      { input with continuationToken := token } marker).toList).nextToken = none from if_neg hend]
    rfl
  · obtain ⟨last, hlast, hnext⟩ := @nextToken_pageOf store v
      { input with continuationToken := token } maximum hmax _ hmore
    refine ⟨(some (Cursor.mk input.keyPrefix input.delimiter last.key).token, last.key),
      .resumed _ rfl (resumes_last hv.canonical hshort hdelimiter
        (List.mem_of_mem_take (List.mem_of_getLast? hlast))),
      remaining_last hv.canonical hlast, fun pages hpages => ?_⟩
    unfold FilesystemStore.listAll
    rw [hrun]
    simp only [bind, Except.bind]
    rw [show (store.pageOf v { input with continuationToken := token } maximum (remaining caller v
      { input with continuationToken := token } marker).toList).nextToken = some _ from hnext]
    dsimp only
    rw [show store.listAll caller parser choices v calls (FilesystemListRequest.resume
      { input with continuationToken := token } _) = .ok (some pages) from hpages]
    rfl

def FilesystemListRequest.Accepted (input : FilesystemListRequest) : Prop :=
  byteLen input.keyPrefix ≤ 1024 ∧ (input.startAfter.getD [] = [] ∨
    byteLen (input.startAfter.getD []) ≤ 1024 ∧
      validKey (prefixKey (input.startAfter.getD [])) = true)

theorem run_list_of_not_accepted {choices : Nat → FsChoice}
    (hauth : Authorized store caller input.keyPrefix)
    (hdelimiter : input.delimiter.all (· = "/".toList) = true)
    (hmaximum : maximumKeys input.maxKeys = .ok maximum) (htoken : input.continuationToken = none)
    (hcalm : ∀ step, Calm caller (choices step)) (h : ¬ input.Accepted) :
    (fsMachine.run (store.list caller parser input) choices ⟨[], []⟩ v).result =
      .error .invalidArgument := by
  have hpage : Answers caller (store.listPage caller parser input) v (.error .invalidArgument) := by
    have hdelimiter' : ¬ input.delimiter.any (· ≠ "/".toList) = true := by
      cases hsome : input.delimiter <;> simp_all
    have hcontinuation :
        Answers caller (FilesystemStore.continuation caller parser input) v (.ok none) := by
      unfold FilesystemStore.continuation
      rw [htoken]
      exact Machine.gives_pure none
    by_cases hshort : byteLen input.keyPrefix ≤ 1024
    · refine (answers_failIf (not_or.mpr ⟨not_lt.mpr hshort, hdelimiter'⟩)).then ?_
      refine Machine.Gives.then (Machine.gives_ofExcept_eq hmaximum) (hcontinuation.then ?_)
      refine Machine.Gives.stop (answers_failIf_of ?_)
      by_contra hlegal
      refine h ⟨hshort, ?_⟩
      simp only [Option.map_none, Option.none_or, not_and, not_or, not_lt, Bool.not_eq_false]
        at hlegal
      by_cases hnil : input.startAfter.getD [] = []
      · exact Or.inl hnil
      · exact Or.inr (hlegal hnil)
    · exact Machine.Gives.stop (answers_failIf_of (Or.inl (not_le.mp hshort)))
  refine (Machine.Gives.run ?_ hcalm ⟨[], []⟩).1
  refine (FilesystemStore.answers_authorize hauth.bucket hauth.readable).then ?_
  refine (Machine.gives_attempt hpage).then (answers_checked.then ?_)
  exact Machine.gives_ofExcept _

/-- A listing, page after page. For every volume of canonical keys, every session and every prefix that
it may read, a request with an accepted start shows every entry after the start exactly once and in
order, with at most the wanted number on each page, and none of its own tokens is refused; the entries
are those of the keys under the prefix whose segment at the end of the prefix may be read. A request
with another start, or a longer prefix, is refused at once. -/
theorem list_exact {choices : Nat → Nat → FsChoice} (hv : Listable store v)
    (hauth : Authorized store caller input.keyPrefix)
    (hdelimiter : input.delimiter.all (· = "/".toList) = true)
    (hmaximum : maximumKeys input.maxKeys = .ok maximum) (htoken : input.continuationToken = none)
    (hcalm : ∀ call step, Calm caller (choices call step)) :
    (input.Accepted → ∀ calls > (remaining caller v input (input.startAfter.getD [])).size,
      ∃ pages chunks, store.listAll caller parser choices v calls input = .ok (some pages) ∧
        List.Forall₂ (FilesystemListPage.Shows store v input) pages chunks ∧
        chunks.flatten = (remaining caller v input (input.startAfter.getD [])).toList ∧
        (chunks.flatten.map (·.key)).Pairwise (· < ·) ∧
        ∀ chunk ∈ chunks, chunk.length ≤ maximum) ∧
    (¬ input.Accepted → ∀ calls,
      store.listAll caller parser choices v (calls + 1) input = .error .invalidArgument) := by
  refine ⟨fun haccepted calls hcalls => ?_, fun hrefused calls => ?_⟩
  · obtain ⟨pages, chunks, hpages, hshown, hflat, hsmall⟩ := listAll_shows hv hauth haccepted.1
      hdelimiter hmaximum hcalm calls (.first htoken haccepted.2) hcalls
    refine ⟨pages, chunks, hpages, hshown, hflat, ?_, hsmall⟩
    rw [hflat, List.pairwise_map]
    exact pairwise_remaining hv.canonical
  · unfold FilesystemStore.listAll
    rw [run_list_of_not_accepted hauth hdelimiter hmaximum htoken (hcalm calls) hrefused]
    rfl

end Pages

namespace Sample

def readCursor (bytes : Bytes) : Option Cursor := do
  let rest ← stripPrefix "\x7b\"prefix\":\"".toList (bytes.map fun b => Char.ofNat b.toNat)
  let keyPrefix := rest.takeWhile (· ≠ '\"')
  let rest ← stripPrefix "\",\"delimiter\":".toList (rest.drop keyPrefix.length)
  let delimiter := if "null".toList.isPrefixOf rest then none else some "/".toList
  let rest ← stripPrefix ",\"marker\":\"".toList (rest.drop (if delimiter.isSome then 3 else 4))
  return ⟨keyPrefix, delimiter, rest.takeWhile (· ≠ '\"')⟩

theorem map_utf8_of_keyChars {s : Str} (h : ∀ c ∈ s, c.toNat < 128) :
    (utf8 s).map (fun b => Char.ofNat b.toNat) = s := by
  induction s with
  | nil => rfl
  | cons c rest ih =>
    have hc := h c List.mem_cons_self
    have hencode : String.utf8EncodeChar c = [UInt8.ofNat c.toNat] := by
      have hle : c.val.toNat ≤ 0x7f := Nat.le_of_lt_succ hc
      simp only [String.utf8EncodeChar]
      rw [if_pos hle]
      rfl
    have hback : Char.ofNat (UInt8.ofNat c.toNat).toNat = c := by
      rw [UInt8.toNat_ofNat_of_lt' (by simp [UInt8.size]; omega)]
      exact Char.ofNat_toNat c
    rw [utf8, List.flatMap_cons, hencode, List.singleton_append, List.map_cons, hback]
    exact congrArg (c :: ·) (ih fun d hd => h d (List.mem_cons_of_mem _ hd))

theorem takeWhile_quote {s rest : Str} (h : ∀ c ∈ s, keyChar c = true) :
    (s ++ '\"' :: rest).takeWhile (· ≠ '\"') = s := by
  rw [List.takeWhile_append_of_pos, List.takeWhile_cons_of_neg (by simp), List.append_nil]
  intro c hc
  have hchar := h c hc
  simp only [keyChar, Bool.and_eq_true, bne_iff_ne] at hchar
  exact decide_eq_true hchar.2

theorem ascii_render {cursor : Cursor} (h : cursor.Canonical) :
    ∀ c ∈ cursor.toJson.render, c.toNat < 128 := by
  have hkeys : ∀ s : Str, (∀ c ∈ s, keyChar c = true) → ∀ c ∈ s, c.toNat < 128 := fun s hs c hc => by
    have hchar := hs c hc
    simp only [keyChar, Bool.and_eq_true, decide_eq_true_eq] at hchar
    omega
  have hfixed : ∀ s : Str, s.all (fun c => decide (c.toNat < 128)) = true → ∀ c ∈ s, c.toNat < 128 :=
    fun s hs c hc => of_decide_eq_true (List.all_eq_true.mp hs c hc)
  have hdelimiter : ∀ c ∈ cursor.delimiterText, c.toNat < 128 := by
    unfold Cursor.delimiterText
    split_ifs <;> exact hfixed _ (by decide)
  rw [Cursor.render_toJson h]
  simp only [List.forall_mem_append]
  exact ⟨hfixed _ (by decide), hkeys _ h.1, hfixed _ (by decide), hdelimiter, hfixed _ (by decide),
    hkeys _ h.2.1, hfixed _ (by decide)⟩

theorem readCursor_bytes (cursor : Cursor) (h : cursor.Canonical) :
    readCursor cursor.bytes = some cursor := by
  have hquote : ∀ s rest : Str, (∀ c ∈ s, keyChar c = true) →
      (s ++ ("\",\"delimiter\":".toList ++ rest)).takeWhile (· ≠ '\"') = s := fun s rest hs =>
    takeWhile_quote hs
  have hend : ∀ s : Str, (∀ c ∈ s, keyChar c = true) →
      (s ++ "\"\x7d".toList).takeWhile (· ≠ '\"') = s := fun s hs => takeWhile_quote hs
  have hstrip : ∀ pre rest : Str, stripPrefix pre (pre ++ rest) = some rest := fun pre rest =>
    stripPrefix_eq_some.mpr rfl
  obtain ⟨keyPrefix, delimiter, marker⟩ := cursor
  unfold readCursor
  rw [Cursor.bytes, map_utf8_of_keyChars (ascii_render h), Cursor.render_toJson h]
  obtain ⟨hbegin, hmarker, hdelimiter⟩ := h
  simp only [hstrip, Option.bind_eq_bind, Option.bind_some, hquote _ _ hbegin, List.drop_left]
  cases delimiter with
  | none =>
    have htext : "null".toList.isPrefixOf ("null".toList ++ (",\"marker\":\"".toList ++
        (marker ++ "\"\x7d".toList))) = true :=
      List.isPrefixOf_iff_prefix.mpr (List.prefix_append _ _)
    show Option.bind (stripPrefix _ (List.drop (if Option.isSome (if List.isPrefixOf _
      ("null".toList ++ _) = true then none else some _) then 3 else 4) ("null".toList ++ _))) _ = _
    rw [htext]
    show Option.bind (stripPrefix _ (",\"marker\":\"".toList ++ (marker ++ "\"\x7d".toList))) _ = _
    rw [hstrip, Option.bind_some, hend _ hmarker]
    rfl
  | some text =>
    obtain rfl : text = "/".toList := by simpa using hdelimiter
    show Option.bind (stripPrefix _ (",\"marker\":\"".toList ++ (marker ++ "\"\x7d".toList))) _ = _
    rw [hstrip, Option.bind_some, hend _ hmarker]
    rfl

def cursorParser : CursorParser := ⟨readCursor, readCursor_bytes⟩

def undisturbed : FsChoice := ⟨⟨0, some 0, 0⟩, false, false, 1, 0, some 0, none, []⟩

def neighbourCaller : Caller where
  session := ⟨"objects".toList, fun _ => ["t/a".toList, "t/ab/x".toList], 9, 9,
    by intro op; cases op <;> decide⟩
  deadline := 9

def longCaller : Caller where
  session := ⟨"objects".toList, fun _ => ["t/".toList ++ List.replicate 1022 'a'], 9, 9,
    fun _ => by decide +kernel⟩
  deadline := 9

theorem calm_undisturbed : Calm neighbourCaller undisturbed := ⟨rfl, rfl, rfl⟩

def neighbourVolume : Volume where
  data :=
    ["t/a/1", "t/a/2/3", "t/a/4", "t/ab/x/1"].foldl
      (fun tree key => tree.write (pathOf key.toList) ⟨[1], 0⟩)
      (["t", "t/a", "t/a/2", "t/ab", "t/ab/x"].foldl
        (fun tree dir => tree.makeDir (pathOf dir.toList)) .empty)
  metadata := .empty
  uploads := ∅

theorem listable_neighbourVolume : Listable smallStore neighbourVolume where
  canonical := by unfold Volume.Canonical; decide +kernel
  described := by decide +kernel

def listRequest (keyPrefix : String) (delimiter startAfter : Option Str) (maxKeys : Int) :
    FilesystemListRequest :=
  ⟨keyPrefix.toList, delimiter, startAfter, none, some maxKeys, .plain⟩

end Sample

/-- Two pages of at most two entries each. -/
theorem list_exact_rolledUp :
    ∃ pages chunks,
      Sample.smallStore.listAll Sample.neighbourCaller Sample.cursorParser
        (fun _ _ => Sample.undisturbed) Sample.neighbourVolume 4
        (Sample.listRequest "t/a/" (some "/".toList) none 2) = .ok (some pages) ∧
      List.Forall₂ (FilesystemListPage.Shows Sample.smallStore Sample.neighbourVolume
        (Sample.listRequest "t/a/" (some "/".toList) none 2)) pages chunks ∧
      chunks.flatten = [⟨"t/a/1".toList, false⟩, ⟨"t/a/2/".toList, true⟩, ⟨"t/a/4".toList, false⟩] := by
  have hentries : (remaining Sample.neighbourCaller Sample.neighbourVolume
      (Sample.listRequest "t/a/" (some "/".toList) none 2) []).toList =
      [⟨"t/a/1".toList, false⟩, ⟨"t/a/2/".toList, true⟩, ⟨"t/a/4".toList, false⟩] := by decide +kernel
  have hcalls : 4 > (remaining Sample.neighbourCaller Sample.neighbourVolume
      (Sample.listRequest "t/a/" (some "/".toList) none 2) []).size := by
    rw [SortedSet.size, hentries]
    decide
  obtain ⟨pages, chunks, hpages, hshown, hflat, -, -⟩ :=
    (@list_exact Sample.smallStore Sample.neighbourVolume Sample.neighbourCaller Sample.cursorParser
      (Sample.listRequest "t/a/" (some "/".toList) none 2) 2 (fun _ _ => Sample.undisturbed)
      Sample.listable_neighbourVolume ⟨rfl, by decide +kernel⟩ (by decide) rfl rfl
      fun _ _ => Sample.calm_undisturbed).1 ⟨by decide, Or.inl rfl⟩ 4 hcalls
  exact ⟨pages, chunks, hpages, hshown, hflat.trans hentries⟩

/-- What a listing does not show or refuses: a readable key below a neighbour of the prefix that may
not be read itself, a start that is not canonical, and a readable prefix of 1025 bytes. -/
theorem list_omits_deeper_root :
    (entriesAfter (Sample.neighbourVolume.listing Sample.neighbourCaller.session.reads "t/a".toList true)
      []).toList = [⟨"t/a/".toList, true⟩, ⟨"t/ab/".toList, true⟩] ∧
    Sample.smallStore.listAll Sample.neighbourCaller Sample.cursorParser
      (fun _ _ => Sample.undisturbed) Sample.neighbourVolume 4
      (Sample.listRequest "t/a" (some "/".toList) none 2) =
        .ok (some [⟨[], ["t/a/".toList], 1, false, none⟩]) ∧
    Sample.smallStore.listAll Sample.neighbourCaller Sample.cursorParser
      (fun _ _ => Sample.undisturbed) Sample.neighbourVolume 4
      (Sample.listRequest "t/a" none (some "t/a//".toList) 2) = .error .invalidArgument ∧
    Authorized Sample.smallStore Sample.longCaller ("t/".toList ++ List.replicate 1022 'a' ++ ['/']) ∧
    Sample.smallStore.listAll Sample.longCaller Sample.cursorParser
      (fun _ _ => Sample.undisturbed) Sample.neighbourVolume 4
      ⟨"t/".toList ++ List.replicate 1022 'a' ++ ['/'], none, none, none, some 2, .plain⟩ =
        .error .invalidArgument := by
  refine ⟨by decide +kernel, by decide +kernel, by decide +kernel, ⟨rfl, by decide +kernel⟩,
    by decide +kernel⟩

end GraphitBroker
