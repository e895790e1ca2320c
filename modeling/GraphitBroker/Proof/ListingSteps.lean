import GraphitBroker.Proof.ListingWalk

/-!
# The steps of a page

The parts of a listing besides its walk, in a calm environment: the authorization of a readable key,
the description of an object whose metadata is sound, and the token of a page, which the next request
accepts.
-/

namespace GraphitBroker

open Steps SepPath

namespace FilesystemStore

variable (store : FilesystemStore)

/-- The metadata of an object can be read: where its file may be there is nothing, or a file that
passes the checks. -/
def described (v : Volume) (path : Path) : Bool :=
  (ancestors path).all (fun a => (v.metadata.fileAt a).isNone) && !v.metadata.isDir path &&
    (v.metadata.fileAt path).all fun metadata =>
      decide (store.vendor.metadataSize metadata ≤ store.config.metadataBytes) &&
        metadata.contentType.all store.header

def infoAt (v : Volume) (key : Str) (payload : Payload) : FilesystemObjectInfo :=
  store.infoOf key payload (v.metadata.fileAt (pathOf key))

variable {store} {caller : Caller} {v : Volume} {key : Str} {payload : Payload}

theorem answers_authorize (hbucket : caller.session.bucket = store.config.bucket)
    (hreads : caller.session.reads key = true) :
    Answers caller (store.authorize caller .read key) v (.ok ()) := by
  have hvalid : validKey key = true := (Bool.and_eq_true _ _ ▸ hreads).1
  refine answers_checked.then ((answers_failIf (not_not.mpr hbucket)).then ?_)
  refine (answers_failIf (by simp [hvalid])).then ((answers_allowed key).then ?_)
  exact answers_failIf (by simp [hreads])

theorem answers_openDirs {area : Area} {paths : List Path}
    (h : ∀ path ∈ paths, Answers caller (.perform (.openDir area path)) v (.ok ())) :
    Answers caller (openDirs area false paths) v (.ok ()) := by
  induction paths with
  | nil => exact Machine.gives_pure ()
  | cons path rest ih =>
    have hfirst := Machine.gives_mapError (f := notFoundAs .notFound) (h path List.mem_cons_self)
    exact hfirst.then (ih fun p hp => h p (List.mem_cons_of_mem _ hp))

theorem answers_parent {area : Area} (hvalid : validKey key = true)
    (h : ∀ path ∈ ancestors (pathOf key), Answers caller (.perform (.openDir area path)) v (.ok ())) :
    Answers caller (parent area key false) v (.ok ()) :=
  (answers_failIf (by simp [hvalid])).then (answers_ioStep.then (answers_openDirs h))

theorem answers_dataFile (hvalid : validKey key = true)
    (hfile : v.data.fileAt (pathOf key) = some payload) :
    Answers caller (dataFile key) v (.ok payload) := by
  have hlookup : v.data.lookup (pathOf key) = some (.file payload) := by
    unfold Tree.fileAt at hfile
    split at hfile <;> simp_all
  have hparent : Answers caller (parent .data key false) v (.ok ()) := by
    refine answers_parent hvalid fun path hpath => Selection.answers_openDir ?_
    exact Tree.isDir_iff.mpr (v.data.closed _ (AList.lookup_isSome.mp
      (Option.isSome_of_eq_some hlookup)) path hpath)
  have hopen : Answers caller (.perform (.openData key)) v (.ok (.file payload)) := by
    refine answers_perform fun choice _ => ?_
    show FsOp.silent (FsOp.found (v.data.lookup (pathOf key))) = _
    rw [hlookup]
    rfl
  refine hparent.then ((Machine.gives_mapError hopen).then (answers_ioStep.then ?_))
  exact Machine.gives_pure payload

theorem answers_openDirs_metadata {paths : List Path}
    (h : ∀ path ∈ paths, v.metadata.fileAt path = none) :
    Answers caller (openDirs .metadata false paths) v
      (if paths.all v.metadata.isDir then .ok () else .error .notFound) := by
  induction paths with
  | nil => exact Machine.gives_pure ()
  | cons path rest ih =>
    have hopen : Answers caller (.perform (.openDir .metadata path)) v
        (if v.metadata.isDir path then .ok () else .error (.io .notFound)) := by
      refine answers_perform fun choice _ => ?_
      show FsOp.silent (FsOp.openDirOf v.metadata path) = _
      have hnone := h path List.mem_cons_self
      unfold Tree.fileAt at hnone
      unfold FsOp.openDirOf Tree.isDir
      split at hnone <;> split <;> simp_all [FsOp.silent]
    have hmapped := Machine.gives_mapError (f := notFoundAs .notFound) hopen
    cases hdir : v.metadata.isDir path with
    | true =>
      rw [hdir] at hmapped
      rw [List.all_cons, hdir, Bool.true_and]
      exact hmapped.then (ih fun p hp => h p (List.mem_cons_of_mem _ hp))
    | false =>
      rw [hdir] at hmapped
      rw [List.all_cons, hdir]
      exact hmapped.stop

theorem answers_checkMetadata {metadata : Metadata}
    (hsize : store.vendor.metadataSize metadata ≤ store.config.metadataBytes)
    (hheader : metadata.contentType.all store.header = true) :
    Answers caller (store.checkMetadata metadata) v (.ok (some metadata)) := by
  have hheader' : ¬ metadata.contentType.any (fun s => !store.header s) = true := by
    cases htype : metadata.contentType <;> simp_all
  refine (answers_failIf (not_lt.mpr hsize)).then ((answers_failIf hheader').then ?_)
  exact Machine.gives_pure _

theorem answers_metadata (hvalid : validKey key = true)
    (h : store.described v (pathOf key) = true) :
    Answers caller (store.metadata key) v (.ok (v.metadata.fileAt (pathOf key))) := by
  simp only [described, Bool.and_eq_true, List.all_eq_true, Option.isNone_iff_eq_none,
    Bool.not_eq_true'] at h
  obtain ⟨⟨habove, hplain⟩, hsound⟩ := h
  have hparent : Answers caller (parent .metadata key false) v
      (if (ancestors (pathOf key)).all v.metadata.isDir then .ok () else .error .notFound) :=
    (answers_failIf (by simp [hvalid])).then
      (answers_ioStep.then (answers_openDirs_metadata habove))
  have hopen : Answers caller (.perform (.openMetadata key)) v
      (FsOp.found (v.metadata.lookup (pathOf key))) := answers_perform fun _ _ => rfl
  refine (Machine.gives_attempt hparent).then ?_
  by_cases hall : (ancestors (pathOf key)).all v.metadata.isDir = true
  · rw [if_pos hall]
    refine (Machine.gives_attempt hopen).then ?_
    unfold Tree.isDir at hplain
    unfold Tree.fileAt at hsound ⊢
    cases hnode : v.metadata.lookup (pathOf key) with
    | none => exact Machine.gives_pure none
    | some node =>
      rw [hnode] at hplain hsound
      cases node with
      | dir => cases hplain
      | file metadata =>
        simp only [Option.all_some, Bool.and_eq_true, decide_eq_true_eq] at hsound
        exact answers_ioStep.then (answers_ioStep.then
          (answers_checkMetadata hsound.1 hsound.2))
  · rw [if_neg hall]
    obtain ⟨a, ha, hdir⟩ : ∃ a ∈ ancestors (pathOf key), v.metadata.isDir a = false := by
      simpa using hall
    rw [Tree.fileAt_eq_none_of_not_isDir ha hdir]
    exact Machine.gives_pure none

theorem answers_hashLoop (skip : Nat) (bytes : Bytes) :
    Answers caller (hashLoop caller skip bytes) v (.ok ()) := by
  induction bytes generalizing skip with
  | nil =>
    cases skip <;>
      exact answers_checked.then (Machine.gives_step fun choice hcalm =>
        ⟨_, exec_of_calm hcalm, Machine.gives_pure ()⟩)
  | cons b rest ih =>
    cases skip with
    | zero =>
      exact answers_checked.then (Machine.gives_step fun choice hcalm =>
        ⟨_, exec_of_calm hcalm, ih _⟩)
    | succ skip => exact ih skip

theorem answers_hashUncached (metadata : Option Metadata) :
    Answers caller (hashUncached caller payload metadata) v (.ok ()) := by
  unfold hashUncached
  split_ifs
  · exact Machine.gives_pure ()
  · exact answers_ioStep.then (answers_hashLoop 0 payload.bytes)

theorem answers_describe (hvalid : validKey key = true)
    (h : store.described v (pathOf key) = true) :
    Answers caller (store.describe caller key payload) v (.ok (store.infoAt v key payload)) := by
  refine answers_checked.then (answers_ioStep.then ((answers_metadata hvalid h).then ?_))
  refine (answers_hashUncached _).then (answers_ioStep.then (answers_checked.then ?_))
  exact Machine.gives_pure _

theorem answers_locked {α : Type} {body : FsProg α} {r : Except FilesystemStoreError α}
    (h : Answers caller body v r) : Answers caller (store.locked caller key body) v r := by
  have hacquire : Answers caller (.perform (.acquire caller (store.shard key))) v (.ok ()) := by
    refine answers_perform fun choice hcalm => ?_
    show FsOp.silent (caller.check choice) = _
    rw [hcalm.checked, FsOp.silent]
  have hrelease : Answers caller (.perform (.release (store.shard key))) v (.ok ()) :=
    answers_perform fun _ _ => rfl
  refine answers_checked.then (hacquire.then ?_)
  refine (Machine.gives_attempt (answers_checked.then h)).then (hrelease.then ?_)
  exact Machine.gives_ofExcept r

theorem answers_head (hbucket : caller.session.bucket = store.config.bucket)
    (hreads : caller.session.reads key = true)
    (hfile : v.data.fileAt (pathOf key) = some payload)
    (h : store.described v (pathOf key) = true) :
    Answers caller (store.head caller key) v (.ok (store.infoAt v key payload)) := by
  have hvalid : validKey key = true := (Bool.and_eq_true _ _ ▸ hreads).1
  have hbody : Answers caller ((dataFile key).bind (store.describe caller key)) v
      (.ok (store.infoAt v key payload)) :=
    (answers_dataFile hvalid hfile).then (answers_describe hvalid h)
  refine (answers_authorize hbucket hreads).then ?_
  refine (Machine.gives_attempt (answers_locked hbody)).then (answers_checked.then ?_)
  exact Machine.gives_ofExcept _

end FilesystemStore

theorem escapeChar_of_keyChar {c : Char} (h : keyChar c = true) : Json.escapeChar c = [c] := by
  simp only [keyChar, Bool.and_eq_true, decide_eq_true_eq, bne_iff_ne] at h
  obtain ⟨⟨⟨hlow, _⟩, hslash⟩, hquote⟩ := h
  rw [Json.escapeChar, if_neg hquote, if_neg hslash, if_neg (by omega)]

theorem utf8Size_of_keyChar {c : Char} (h : keyChar c = true) : c.utf8Size = 1 := by
  simp only [keyChar, Bool.and_eq_true, decide_eq_true_eq] at h
  exact Char.utf8Size_eq_one_iff.mpr (by show c.toNat ≤ 127; omega)

theorem renderStr_of_keyChar {s : Str} (h : ∀ c ∈ s, keyChar c = true) :
    Json.renderStr s = '\"' :: s ++ ['\"'] := by
  have hself : s.flatMap Json.escapeChar = s := by
    induction s with
    | nil => rfl
    | cons c rest ih =>
      rw [List.flatMap_cons, escapeChar_of_keyChar (h c List.mem_cons_self),
        ih fun d hd => h d (List.mem_cons_of_mem _ hd)]
      rfl
  rw [Json.renderStr, hself]

namespace Cursor

variable {cursor : Cursor}

def delimiterText (cursor : Cursor) : Str :=
  if cursor.delimiter.isSome then "\"/\"".toList else "null".toList

theorem render_toJson (h : cursor.Canonical) :
    cursor.toJson.render = "\x7b\"prefix\":\"".toList ++ (cursor.keyPrefix ++
      ("\",\"delimiter\":".toList ++ (cursor.delimiterText ++
        (",\"marker\":\"".toList ++ (cursor.marker ++ "\"\x7d".toList))))) := by
  obtain ⟨pre, delimiter, marker⟩ := cursor
  obtain ⟨hpre, hmarker, hdelimiter⟩ := h
  have htext : (delimiter.elim Document.null Document.str).render =
      delimiterText ⟨pre, delimiter, marker⟩ := by
    cases delimiter with
    | none => rfl
    | some d =>
      obtain rfl : d = "/".toList := by simpa using hdelimiter
      rfl
  show '\x7b' :: ((Json.renderStr "prefix".toList ++ ':' :: Json.renderStr pre) ++
    ',' :: ((Json.renderStr "delimiter".toList ++ ':' :: (delimiter.elim Document.null Document.str).render) ++
      ',' :: ((Json.renderStr "marker".toList ++ ':' :: Json.renderStr marker) ++ ['\x7d']))) = _
  rw [renderStr_of_keyChar hpre, renderStr_of_keyChar hmarker, htext]
  have hbegin : Json.renderStr "prefix".toList = "\"prefix\"".toList := by decide
  have hdelimiter : Json.renderStr "delimiter".toList = "\"delimiter\"".toList := by decide
  have hmarker : Json.renderStr "marker".toList = "\"marker\"".toList := by decide
  rw [hbegin, hdelimiter, hmarker]
  simp only [List.append_assoc, List.cons_append, List.nil_append]
  rfl

theorem length_bytes (h : cursor.Canonical) :
    cursor.bytes.length = cursor.keyPrefix.length + cursor.marker.length +
      (if cursor.delimiter.isSome then 41 else 42) := by
  have hkeys : ∀ s : Str, (∀ c ∈ s, keyChar c = true) → byteLen s = s.length := fun s hs =>
    byteLen_eq_length fun c hc => utf8Size_of_keyChar (hs c hc)
  have hfixed : byteLen "\x7b\"prefix\":\"".toList = 11 ∧ byteLen "\",\"delimiter\":".toList = 14 ∧
      byteLen ",\"marker\":\"".toList = 11 ∧ byteLen "\"\x7d".toList = 2 ∧
      byteLen "\"/\"".toList = 3 ∧ byteLen "null".toList = 4 := by decide
  rw [bytes, length_utf8, render_toJson h]
  simp only [byteLen_append, hkeys _ h.1, hkeys _ h.2.1, delimiterText]
  split_ifs <;> omega

theorem maximumCursor_eq : maximumCursor = 2788 := by
  have hkey : ∀ c ∈ List.replicate 1024 'a', keyChar c = true := fun c hc => by
    rw [List.eq_of_mem_replicate hc]
    decide
  rw [maximumCursor, length_bytes ⟨hkey, hkey, rfl⟩]
  simp only [List.length_replicate, Option.isSome_some, if_true]

theorem byteLen_token (h : cursor.Canonical) (hpre : byteLen cursor.keyPrefix ≤ 1024)
    (hmarker : byteLen cursor.marker ≤ 1024) : byteLen cursor.token ≤ maximumCursor := by
  have hdigits : ∀ c ∈ cursor.token, c.utf8Size = 1 := by
    have halphabet : Base64.alphabet.all (fun c => c.utf8Size == 1) = true := by decide
    intro c hc
    simpa using List.all_eq_true.mp halphabet c (Base64.mem_alphabet_of_mem_encode hc)
  have hlength : ∀ s : Str, (∀ c ∈ s, keyChar c = true) → byteLen s = s.length := fun s hs =>
    byteLen_eq_length fun c hc => utf8Size_of_keyChar (hs c hc)
  rw [hlength _ h.1] at hpre
  rw [hlength _ h.2.1] at hmarker
  rw [byteLen_eq_length hdigits, token, Base64.length_encode, length_bytes h, maximumCursor_eq]
  split_ifs <;> omega

end Cursor

structure Resumes (caller : Caller) (input : FilesystemListRequest) (cursor : Cursor) : Prop where
  canonical : cursor.Canonical
  keyPrefix : cursor.keyPrefix = input.keyPrefix
  delimiter : cursor.delimiter = input.delimiter
  short : byteLen input.keyPrefix ≤ 1024
  marker : byteLen cursor.marker ≤ 1024
  beyond : input.keyPrefix <+: cursor.marker
  readable : caller.session.reads (prefixKey cursor.marker) = true

section Continuation

variable {caller : Caller} {v : Volume} {parser : CursorParser} {input : FilesystemListRequest}
  {cursor : Cursor}

theorem answers_tokenCursor (h : Resumes caller input cursor) {maximum : Nat}
    (hlength : byteLen cursor.token ≤ maximum) :
    Answers caller (FilesystemStore.tokenCursor caller parser maximum input cursor.token) v
      (.ok cursor) := by
  have hparse : (Base64.decode cursor.token).bind parser.parse = some cursor := by
    rw [Cursor.token, Base64.decode_encode, Option.bind_some, parser.parse_bytes cursor h.canonical]
  have hvalid : validKey (prefixKey cursor.marker) = true := (Bool.and_eq_true _ _ ▸ h.readable).1
  have hbeyond := List.isPrefixOf_iff_prefix.mpr h.beyond
  unfold FilesystemStore.tokenCursor
  rw [hparse]
  refine (answers_failIf (not_lt.mpr hlength)).then ?_
  refine (answers_failIf ?_).then ((answers_allowed _).then ?_)
  · simp [h.keyPrefix, h.delimiter, h.marker, hvalid, hbeyond]
  · exact (answers_failIf (by simp [h.readable])).then (Machine.gives_pure _)

theorem answers_continuation (h : Resumes caller input cursor)
    (htoken : input.continuationToken = some cursor.token) :
    Answers caller (FilesystemStore.continuation caller parser input) v (.ok (some cursor)) := by
  have hlength := Cursor.byteLen_token h.canonical (h.keyPrefix ▸ h.short) h.marker
  unfold FilesystemStore.continuation
  rw [htoken]
  exact (answers_tokenCursor h hlength).then (Machine.gives_pure _)

end Continuation

end GraphitBroker
