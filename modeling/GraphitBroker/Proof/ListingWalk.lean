import GraphitBroker.FilesystemListing
import GraphitBroker.Lib.Answers

/-!
# What a walk finds

On a volume whose keys are canonical, with a live session and no failures, a walk finds the keys
that start with the prefix and whose heading may be read: the part of the key up to the end of the
segment in which the prefix ends.
-/

namespace GraphitBroker

open Steps SepPath

structure Calm (caller : Caller) (choice : FsChoice) : Prop where
  sound : choice.failed = false
  checked : caller.check choice = .ok ()
  live : caller.session.check choice.clock caller.session.deadline = .ok ()

def VerifiedFilesystemSession.reads (session : VerifiedFilesystemSession) (key : Str) : Bool :=
  validKey key && session.covered (VerifiedFilesystemSession.implying .read) key

theorem VerifiedFilesystemSession.reads_of_below {session : VerifiedFilesystemSession}
    {root key : Str} (h : session.reads root = true) (hbelow : Below '/' root key)
    (hvalid : validKey key = true) : session.reads key = true := by
  rw [reads, Bool.and_eq_true] at h ⊢
  refine ⟨hvalid, ?_⟩
  simp only [covered, List.any_eq_true] at h ⊢
  obtain ⟨_, op, hop, prefixRoot, hroot, habove⟩ := h
  exact ⟨op, hop, prefixRoot, hroot, atOrBelow_iff.mpr ((atOrBelow_iff.mp habove).trans hbelow)⟩

/-- Whatever the environment chooses among the calm choices, the program ends so. -/
abbrev Answers {α : Type} (caller : Caller) (p : FsProg α) (v : Volume)
    (r : Except FilesystemStoreError α) : Prop :=
  fsMachine.Gives (Calm caller) p v r

section Steps

variable {caller : Caller} {v : Volume} {α : Type}

theorem exec_of_calm {op : FsOp α} {choice : FsChoice} (h : Calm caller choice) :
    op.exec choice v = op.succeed choice v := by
  rw [FsOp.exec, h.sound, Bool.false_and, if_neg Bool.false_ne_true]

theorem answers_perform {op : FsOp α} {r : Except FilesystemStoreError α}
    (h : ∀ choice, Calm caller choice → op.succeed choice v = (r, none)) :
    Answers caller (.perform op) v r :=
  Machine.gives_perform fun choice hcalm => (exec_of_calm hcalm).trans (h choice hcalm)

theorem answers_checked : Answers caller caller.checked v (.ok ()) := by
  refine answers_perform fun choice h => ?_
  show FsOp.silent (caller.check choice) = _
  rw [h.checked, FsOp.silent]

theorem answers_ioStep : Answers caller ioStep v (.ok ()) := answers_perform fun _ _ => rfl

theorem answers_failIf {condition : Prop} [Decidable condition] {e : FilesystemStoreError}
    (h : ¬ condition) : Answers caller (failIf condition e) v (.ok ()) := by
  rw [failIf, if_neg h]
  exact Machine.gives_pure ()

theorem answers_failIf_of {condition : Prop} [Decidable condition] {e : FilesystemStoreError}
    (h : condition) : Answers caller (failIf condition e) v (.error e) := by
  rw [failIf, if_pos h]
  exact Machine.gives_throw e

theorem answers_allowed (key : Str) :
    Answers caller (FilesystemStore.allowed caller .read key) v (.ok (caller.session.reads key)) := by
  unfold FilesystemStore.allowed VerifiedFilesystemSession.reads
  split_ifs with hvalid
  · rw [hvalid]
    exact Machine.gives_pure false
  · have hlive : Answers caller (.perform (.live caller.session)) v (.ok true) := by
      refine answers_perform fun choice h => ?_
      show FsOp.silent (.ok (caller.session.check choice.clock caller.session.deadline).isOk) = _
      rw [h.live]
      rfl
    refine hlive.then ?_
    rw [show validKey key = true by simpa using hvalid]
    exact Machine.gives_pure _

end Steps

theorem keyPart_ne_nil {part : Str} (h : keyPart part = true) : part ≠ [] := by
  rintro rfl
  simp [keyPart] at h

theorem length_pathOf_le {key : Str} (h : validKey key = true) : (pathOf key).length ≤ 1024 := by
  simp only [validKey, Bool.and_eq_true, decide_eq_true_eq, List.all_eq_true] at h
  obtain ⟨⟨⟨_, hlength⟩, hchars⟩, hparts⟩ := h
  refine (length_splitOn_le fun word hword => keyPart_ne_nil (hparts word hword)).trans ?_
  refine le_trans ?_ hlength
  rw [← length_utf8, utf8, List.length_flatMap]
  calc key.length = (key.map fun _ => 1).sum := by simp
    _ ≤ (key.map fun c => (String.utf8EncodeChar c).length).sum :=
        List.sum_le_sum fun c _ => by
          rw [String.length_utf8EncodeChar]
          exact Char.utf8Size_pos c

def Volume.Canonical (v : Volume) : Prop :=
  ∀ path ∈ v.data.nodes.keys,
    validKey (['/'].intercalate path) = true ∧ pathOf (['/'].intercalate path) = path

theorem Volume.Canonical.exists_key {v : Volume} (hv : v.Canonical) {path : Path}
    (h : (v.data.lookup path).isSome = true) : ∃ key, validKey key = true ∧ pathOf key = path := by
  obtain ⟨hvalid, hpath⟩ := hv path (AList.lookup_isSome.mp h)
  exact ⟨_, hvalid, hpath⟩

def Volume.Holds (v : Volume) (key : Str) : Prop := (v.data.fileAt (pathOf key)).isSome = true

theorem Volume.Holds.lookup {v : Volume} {key : Str} (h : v.Holds key) :
    (v.data.lookup (pathOf key)).isSome = true ∧ v.data.isDir (pathOf key) = false := by
  unfold Volume.Holds Tree.fileAt at h
  unfold Tree.isDir
  split at h <;> simp_all

theorem Volume.Canonical.valid {v : Volume} (hv : v.Canonical) {key : Str} (h : v.Holds key) :
    validKey key = true := by
  obtain ⟨key', hvalid, hpath⟩ := hv.exists_key h.lookup.1
  rwa [← pathOf_injective hpath]

def Place (path : Path) (parent : Str) : Prop :=
  path = [] ∧ parent = [] ∨ path = pathOf parent ∧ validKey parent = true

def childKey (parent name : Str) : Str := if parent.isEmpty then name else parent ++ '/' :: name

theorem Place.child {path : Path} {parent name key : Str} (h : Place path parent)
    (hkey : pathOf key = path ++ [name]) : childKey parent name = key ∧ '/' ∉ name := by
  have hname : '/' ∉ name := by
    refine notMem_of_mem_splitOn (s := key) ?_
    rw [show key.splitOn '/' = path ++ [name] from hkey]
    exact List.mem_append_right _ (List.mem_singleton_self name)
  refine ⟨?_, hname⟩
  rcases h with ⟨rfl, rfl⟩ | ⟨rfl, hvalid⟩
  · exact (eq_of_splitOn_singleton hkey).symm
  · have hne : parent.isEmpty = false := by
      cases parent with
      | nil => cases hvalid
      | cons c rest => rfl
    rw [childKey, hne, if_neg Bool.false_ne_true]
    exact (eq_of_splitOn_append hkey).symm

namespace Selection

variable (selection : Selection) (session : VerifiedFilesystemSession) (v : Volume)

/-- The key is listed: it has the prefix, and its heading may be read. -/
def Lists (key : Str) : Prop :=
  selection.keyPrefix <+: key ∧ session.reads (heading '/' selection.keyPrefix key) = true

def Finds (path : Path) (c : Candidate) : Prop :=
  ∃ key, v.Holds key ∧ path <+: pathOf key ∧ selection.Lists session key ∧
    selection.marker < c.key ∧ c = selection.candidate key

variable {selection session v} {path : Path} {parent name : Str} {c : Candidate}

theorem finds_iff_entries (hdir : path = [] ∨ v.data.isDir path = true) :
    selection.Finds session v path c ↔
      ∃ entry ∈ v.data.entries path, selection.Finds session v (path ++ [entry.1]) c := by
  constructor
  · rintro ⟨key, hholds, ⟨rest, hrest⟩, hfound⟩
    obtain ⟨hsome, hfile⟩ := hholds.lookup
    cases rest with
    | nil =>
      rw [List.append_nil] at hrest
      rcases hdir with rfl | hdir
      · exact absurd hrest.symm (splitOn_ne_nil key)
      · rw [hrest, hfile] at hdir
        cases hdir
    | cons name rest =>
      have hbelow : path ++ [name] <+: pathOf key := ⟨rest, by rw [← hrest]; simp⟩
      have hlookup : (v.data.lookup (path ++ [name])).isSome = true := by
        by_cases heq : path ++ [name] = pathOf key
        · rwa [heq]
        · have hancestor := v.data.closed _ (AList.lookup_isSome.mp hsome) (path ++ [name])
            (mem_ancestors.mpr ⟨by simp, hbelow, heq⟩)
          rw [show v.data.lookup (path ++ [name]) = some .dir from hancestor]
          rfl
      exact ⟨_, Tree.mem_entries.mpr ⟨hlookup, rfl⟩, key, hholds, hbelow, hfound⟩
  · rintro ⟨entry, _, key, hholds, hbelow, hfound⟩
    exact ⟨key, hholds, (List.prefix_append _ _).trans hbelow, hfound⟩

theorem finds_file {key : Str} (hfile : v.data.isDir (pathOf key) = false)
    (hsome : (v.data.lookup (pathOf key)).isSome = true) :
    selection.Finds session v (pathOf key) c ↔
      selection.Lists session key ∧ selection.marker < c.key ∧ c = selection.candidate key := by
  have hholds : v.Holds key := by
    obtain ⟨node, hnode⟩ := Option.isSome_iff_exists.mp hsome
    rw [Tree.isDir, hnode] at hfile
    rw [Volume.Holds, Tree.fileAt, hnode]
    cases node with
    | dir => cases hfile
    | file payload => rfl
  constructor
  · rintro ⟨key', hholds', hbelow, hfound⟩
    have hsame : pathOf key = pathOf key' := by
      by_contra hne
      have hancestor := v.data.closed _ (AList.lookup_isSome.mp hholds'.lookup.1) (pathOf key)
        (mem_ancestors.mpr ⟨splitOn_ne_nil key, hbelow, hne⟩)
      rw [Tree.isDir_iff.mpr hancestor] at hfile
      cases hfile
    rwa [pathOf_injective hsame]
  · intro hfound
    exact ⟨key, hholds, List.prefix_refl _, hfound⟩

theorem Finds.comparable {key : Str} (h : selection.Finds session v (pathOf key) c) :
    key ++ ['/'] <+: selection.keyPrefix ∨ selection.keyPrefix <+: key := by
  obtain ⟨key', _, hbelow, ⟨hbegin, _⟩, _⟩ := h
  rcases below_iff_splitOn.mpr hbelow with rfl | ⟨rest, rfl⟩
  · exact Or.inr hbegin
  · by_cases hlength : selection.keyPrefix.length ≤ key.length
    · exact Or.inr (List.prefix_of_prefix_length_le hbegin (List.prefix_append _ _) hlength)
    · refine Or.inl (List.prefix_of_prefix_length_le ⟨rest, ?_⟩ hbegin ?_)
      · simp
      · rw [List.length_append, List.length_singleton]
        omega

theorem lists_iff_heading {key key' : Str} (hbegin : selection.keyPrefix <+: key)
    (hbelow : Below '/' key key') :
    selection.Lists session key' ↔
      session.reads (heading '/' selection.keyPrefix key) = true := by
  rw [Lists, heading_of_below hbegin hbelow, and_iff_right (hbegin.trans hbelow.isPrefix)]

variable {caller : Caller}

theorem answers_pruned (parent key : Str) :
    Answers caller (selection.pruned caller parent key) v (.ok
      (!(key ++ ['/']).isPrefixOf selection.keyPrefix && !caller.session.reads parent &&
        !caller.session.reads key)) := by
  unfold pruned
  split_ifs with hway
  · rw [hway]
    exact Machine.gives_pure false
  · rw [Bool.eq_false_iff.mpr hway]
    refine (answers_allowed parent).then ?_
    cases caller.session.reads parent with
    | true => exact Machine.gives_pure false
    | false =>
      refine (answers_allowed key).then ?_
      exact Machine.gives_pure _

structure Entered (selection : Selection) (session : VerifiedFilesystemSession) (path : Path)
    (parent : Str) : Prop where
  place : Place path parent
  readable : selection.keyPrefix <+: parent →
    session.reads (heading '/' selection.keyPrefix parent) = true

theorem Entered.pruned_iff {key : Str} (h : selection.Entered session path parent)
    (hkey : pathOf key = path ++ [name]) (hvalid : validKey key = true)
    (hbegin : selection.keyPrefix <+: key) :
    (session.reads parent = false ∧ session.reads key = false) ↔
      session.reads (heading '/' selection.keyPrefix key) = false := by
  obtain ⟨hchild, hname⟩ := h.place.child hkey
  rcases h.place with ⟨rfl, rfl⟩ | ⟨rfl, hparent⟩
  · have hself : heading '/' selection.keyPrefix key = key := by
      refine heading_eq_self hbegin fun hmem => hname ?_
      rw [show name = key from hchild]
      exact List.mem_of_mem_drop hmem
    rw [hself]
    exact and_iff_right rfl
  · have hbelow : Below '/' parent key :=
      below_iff_splitOn.mpr ⟨[name], hkey.symm⟩
    by_cases hin : selection.keyPrefix <+: parent
    · have hreads := h.readable hin
      rw [heading_of_below hin hbelow, hreads]
      have hparentReads : session.reads parent = true :=
        VerifiedFilesystemSession.reads_of_below hreads (below_heading hin) hparent
      simp [hparentReads]
    · obtain rfl := eq_of_splitOn_append hkey
      rw [heading_of_not_isPrefix hbegin hin hname]
      refine and_iff_right_of_imp fun hno => ?_
      by_contra hyes
      rw [VerifiedFilesystemSession.reads_of_below (by simpa using hyes) hbelow hvalid] at hno
      cases hno

def Collects (selection : Selection) (caller : Caller) (v : Volume)
    (p : SortedSet Candidate → FsProg (SortedSet Candidate)) (F : Candidate → Prop) : Prop :=
  ∀ s : SortedSet Candidate, ∃ s' : SortedSet Candidate, (∀ c, c ∈ s' ↔ c ∈ s ∨ F c) ∧
    Answers caller (p (s.smallest selection.limit)) v (.ok (s'.smallest selection.limit))

variable {p q : SortedSet Candidate → FsProg (SortedSet Candidate)} {F G : Candidate → Prop}

theorem collects_nothing (hF : ∀ c, ¬ F c) : Collects selection caller v (fun s => .pure s) F :=
  fun s => ⟨s, fun c => (or_iff_left (hF c)).symm, Machine.gives_pure _⟩

theorem Collects.then (hp : Collects selection caller v p F) (hq : Collects selection caller v q G) :
    Collects selection caller v (fun s => (p s).bind q) fun c => F c ∨ G c := by
  intro s
  obtain ⟨s₁, hs₁, hp⟩ := hp s
  obtain ⟨s₂, hs₂, hq⟩ := hq s₁
  refine ⟨s₂, fun c => ?_, hp.then hq⟩
  rw [hs₂, hs₁, or_assoc]

theorem Collects.after {α : Type} {first : FsProg α} {value : α}
    {next : α → SortedSet Candidate → FsProg (SortedSet Candidate)}
    (hfirst : Answers caller first v (.ok value)) (hnext : Collects selection caller v (next value) F) :
    Collects selection caller v (fun s => first.bind fun value => next value s) F := by
  intro s
  obtain ⟨s', hs', hnext⟩ := hnext s
  exact ⟨s', hs', hfirst.then hnext⟩

theorem Collects.congr (hp : Collects selection caller v p F) (h : ∀ c, F c ↔ G c) :
    Collects selection caller v p G := by
  intro s
  obtain ⟨s', hs', hp⟩ := hp s
  exact ⟨s', fun c => (hs' c).trans (or_congr_right (h c)), hp⟩

theorem collects_add (candidate : Candidate) :
    Collects selection caller v (fun s => .pure (selection.add s candidate)) fun c =>
      selection.marker < c.key ∧ c = candidate := by
  intro s
  by_cases hmarker : candidate.key ≤ selection.marker
  · refine ⟨s, fun c => (or_iff_left ?_).symm, ?_⟩
    · rintro ⟨hlt, rfl⟩
      exact absurd hlt (not_lt.mpr hmarker)
    · show Answers caller (.pure (selection.add (s.smallest selection.limit) candidate)) v _
      rw [Selection.add, if_pos hmarker]
      exact Machine.gives_pure _
  · refine ⟨s.insert candidate, fun c => ?_, ?_⟩
    · rw [SortedSet.mem_insert, or_comm]
      refine or_congr_right ⟨?_, And.right⟩
      rintro rfl
      exact ⟨not_le.mp hmarker, rfl⟩
    · show Answers caller (.pure (selection.add (s.smallest selection.limit) candidate)) v _
      rw [Selection.add, if_neg hmarker, SortedSet.smallest_insert]
      exact Machine.gives_pure _

theorem answers_openDir (h : v.data.isDir path = true) :
    Answers caller (.perform (.openDir .data path)) v (.ok ()) := by
  refine answers_perform fun choice _ => ?_
  show FsOp.silent (FsOp.openDirOf v.data path) = _
  rw [FsOp.openDirOf, Tree.isDir_iff.mp h]
  rfl

section Entries

variable {descend : Path → Str → SortedSet Candidate → FsProg (SortedSet Candidate)} {isDir : Bool}
  {key : Str}

theorem collects_enter (hsome : (v.data.lookup (pathOf key)).isSome = true)
    (hisDir : v.data.isDir (pathOf key) = isDir) (hvalid : validKey key = true)
    (hreadable : selection.keyPrefix <+: key →
      caller.session.reads (heading '/' selection.keyPrefix key) = true)
    (hdescend : isDir = true → Collects selection caller v (descend (pathOf key) key)
      (selection.Finds caller.session v (pathOf key))) :
    Collects selection caller v (selection.enter caller descend (pathOf key) key isDir)
      (selection.Finds caller.session v (pathOf key)) := by
  refine Collects.after (answers_failIf (by simp [hvalid])) (Collects.after answers_ioStep ?_)
  cases isDir with
  | true => exact Collects.after (answers_openDir hisDir) (hdescend rfl)
  | false =>
    have hfinds := fun c => @finds_file selection caller.session v c key hisDir hsome
    by_cases hbegin : selection.keyPrefix <+: key
    · simp only [Bool.false_eq_true, if_false, List.isPrefixOf_iff_prefix.mpr hbegin,
        Bool.true_eq_false]
      have hlists := (lists_iff_heading hbegin (Below.refl key)).mpr (hreadable hbegin)
      have hreads := VerifiedFilesystemSession.reads_of_below (hreadable hbegin)
        (below_heading hbegin) hvalid
      refine Collects.after (answers_allowed key)
        (Collects.after (answers_failIf (by simp [hreads])) fun s => ?_)
      obtain ⟨s', hs', hadd⟩ := collects_add (selection.candidate key) s
      refine ⟨s', fun c => (hs' c).trans (or_congr_right ?_), hadd⟩
      rw [hfinds, and_iff_right hlists]
    · simp only [Bool.false_eq_true, if_false,
        Bool.eq_false_iff.mpr fun h => hbegin (List.isPrefixOf_iff_prefix.mp h), if_true]
      exact collects_nothing fun c hfound => hbegin ((hfinds c).mp hfound).1.1

theorem collects_visit (h : selection.Entered caller.session path parent)
    (hentry : (name, isDir) ∈ v.data.entries path) (hkey : pathOf key = path ++ [name])
    (hvalid : validKey key = true)
    (hdescend : isDir = true → selection.Entered caller.session (pathOf key) key →
      Collects selection caller v (descend (pathOf key) key)
        (selection.Finds caller.session v (pathOf key))) :
    Collects selection caller v (selection.visit caller descend path parent (name, isDir))
      (selection.Finds caller.session v (pathOf key)) := by
  obtain ⟨hsome, hisDir⟩ := Tree.mem_entries.mp hentry
  rw [← hkey] at hsome hisDir
  have henter : (selection.keyPrefix <+: key →
      caller.session.reads (heading '/' selection.keyPrefix key) = true) →
      Collects selection caller v (selection.enter caller descend (pathOf key) key isDir)
        (selection.Finds caller.session v (pathOf key)) := fun hreadable =>
    collects_enter hsome hisDir hvalid hreadable fun hdir =>
      hdescend hdir ⟨Or.inr ⟨rfl, hvalid⟩, hreadable⟩
  refine Collects.after answers_checked (Collects.after answers_ioStep ?_)
  have hchild : (if parent.isEmpty then name else parent ++ '/' :: name) = key :=
    (h.place.child hkey).1
  simp only [hchild, ← hkey]
  by_cases hbegin : selection.keyPrefix <+: key
  · have hbeyond : (key ++ ['/']).isPrefixOf selection.keyPrefix = false := by
      refine Bool.eq_false_iff.mpr fun hway => ?_
      have hle := ((List.isPrefixOf_iff_prefix.mp hway).trans hbegin).length_le
      rw [List.length_append, List.length_singleton] at hle
      omega
    have hpruned := h.pruned_iff hkey hvalid hbegin
    simp only [List.isPrefixOf_iff_prefix.mpr hbegin, Bool.true_eq_false, and_false, if_false]
    refine Collects.after (answers_pruned parent key) ?_
    rw [hbeyond]
    by_cases hreads : caller.session.reads (heading '/' selection.keyPrefix key) = true
    · have hkept : (!caller.session.reads parent && !caller.session.reads key) = false := by
        by_contra hskip
        rw [Bool.not_eq_false, Bool.and_eq_true, Bool.not_eq_true', Bool.not_eq_true'] at hskip
        rw [hpruned.mp hskip] at hreads
        cases hreads
      simp only [Bool.not_false, Bool.true_and, hkept, Bool.false_eq_true, if_false]
      exact henter fun _ => hreads
    · obtain ⟨hparent, hhere⟩ := hpruned.mpr (by simpa using hreads)
      simp only [hparent, hhere, Bool.not_false, Bool.true_and, if_true]
      refine collects_nothing fun c hfound => hreads ?_
      obtain ⟨key', _, hbelow, hlists, _⟩ := hfound
      exact (lists_iff_heading hbegin (below_iff_splitOn.mpr hbelow)).mp hlists
  · have hnot : selection.keyPrefix.isPrefixOf key = false :=
      Bool.eq_false_iff.mpr fun h => hbegin (List.isPrefixOf_iff_prefix.mp h)
    cases hway : (key ++ ['/']).isPrefixOf selection.keyPrefix with
    | true =>
      simp only [Bool.true_eq_false, false_and, if_false]
      refine Collects.after (answers_pruned parent key) ?_
      simp only [hway, Bool.not_true, Bool.false_and, Bool.false_eq_true, if_false]
      exact henter fun hyes => absurd hyes hbegin
    | false =>
      -- the entry is neither on the way to the prefix nor beyond it
      simp only [hnot, and_self, if_true]
      refine collects_nothing fun c hfinds => ?_
      rcases hfinds.comparable with hreach | hreach
      · exact Bool.eq_false_iff.mp hway (List.isPrefixOf_iff_prefix.mpr hreach)
      · exact hbegin hreach

theorem collects_visitAll (hv : v.Canonical) (h : selection.Entered caller.session path parent)
    (hdescend : ∀ name key, pathOf key = path ++ [name] → v.data.isDir (pathOf key) = true →
      selection.Entered caller.session (pathOf key) key →
        Collects selection caller v (descend (pathOf key) key)
          (selection.Finds caller.session v (pathOf key)))
    {entries : List (Str × Bool)} (hentries : ∀ entry ∈ entries, entry ∈ v.data.entries path) :
    Collects selection caller v (selection.visitAll caller descend path parent entries) fun c =>
      ∃ entry ∈ entries, selection.Finds caller.session v (path ++ [entry.1]) c := by
  induction entries with
  | nil => exact collects_nothing (by simp)
  | cons entry rest ih =>
    have hentry := hentries entry List.mem_cons_self
    obtain ⟨hsome, hisDir⟩ := Tree.mem_entries.mp hentry
    obtain ⟨key, hvalid, hkey⟩ := hv.exists_key hsome
    have hvisit := collects_visit h hentry hkey hvalid fun hdir =>
      hdescend entry.1 key hkey (by rw [hkey, hisDir, hdir])
    refine (hvisit.then (ih fun e he => hentries e (List.mem_cons_of_mem _ he))).congr fun c => ?_
    rw [List.exists_mem_cons_iff, hkey]

end Entries

/-- A walk collects what is below its directory: the depth suffices for canonical keys. -/
theorem collects_walk (hv : v.Canonical) (depth : Nat) (hdepth : 1025 ≤ path.length + depth)
    (h : selection.Entered caller.session path parent)
    (hdir : path = [] ∨ v.data.isDir path = true) :
    Collects selection caller v (selection.walk caller depth path parent)
      (selection.Finds caller.session v path) := by
  induction depth generalizing path parent with
  | zero =>
    rcases h.place with ⟨rfl, _⟩ | ⟨rfl, hvalid⟩
    · simp at hdepth
    · have := length_pathOf_le hvalid
      omega
  | succ depth ih =>
    have hentries : Answers caller (.perform (.entries path)) v (.ok (v.data.entries path)) := by
      refine answers_perform fun choice _ => ?_
      show FsOp.silent (FsOp.entriesOf v.data path) = _
      rw [FsOp.entriesOf, if_pos hdir, FsOp.silent]
    refine Collects.after hentries ?_
    refine (collects_visitAll hv h ?_ fun _ => id).congr fun c => (finds_iff_entries hdir).symm
    intro name key hkey hisDir hentered
    refine ih ?_ hentered (Or.inr hisDir)
    rw [hkey, List.length_append, List.length_singleton]
    omega

end Selection

end GraphitBroker
