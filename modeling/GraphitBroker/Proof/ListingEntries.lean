import GraphitBroker.Proof.ListingSteps

/-!
# The entries of a listing

What a listing is meant to show, as a sorted set over the stored keys, and that the walk of a page
collects the smallest of those after its marker.
-/

namespace GraphitBroker

open Steps SepPath

def Volume.storedKeys (v : Volume) : List Str :=
  (v.data.nodes.keys.filter fun path => (v.data.fileAt path).isSome).map (['/'].intercalate ·)

variable {key : Str}

theorem Volume.Canonical.mem_storedKeys {v : Volume} (hv : v.Canonical) :
    key ∈ v.storedKeys ↔ v.Holds key := by
  simp only [storedKeys, List.mem_map, List.mem_filter]
  constructor
  · rintro ⟨path, ⟨hpath, hfile⟩, rfl⟩
    rw [Holds, (hv path hpath).2]
    exact hfile
  · intro h
    exact ⟨pathOf key, ⟨AList.lookup_isSome.mp h.lookup.1, h⟩, List.intercalate_splitOn '/'⟩

/-- How a key is listed: under a delimiter, a key that goes on past a slash is its common prefix. -/
def rolledUp (keyPrefix : Str) (delimiter : Bool) (key : Str) : Candidate :=
  if delimiter = true ∧ '/' ∈ key.drop keyPrefix.length then
    ⟨heading '/' keyPrefix key ++ ['/'], true⟩
  else ⟨key, false⟩

def Volume.listing (v : Volume) (admits : Str → Bool) (keyPrefix : Str) (delimiter : Bool) :
    SortedSet Candidate :=
  SortedSet.empty.extend
    ((v.storedKeys.filter fun key => keyPrefix.isPrefixOf key && admits key).map
      (rolledUp keyPrefix delimiter))

def entriesAfter (entries : SortedSet Candidate) (marker : Str) : SortedSet Candidate :=
  entries.filter fun c => decide (marker < c.key)

theorem Volume.Canonical.mem_listing {v : Volume} (hv : v.Canonical) {admits : Str → Bool}
    {keyPrefix : Str} {delimiter : Bool} {c : Candidate} :
    c ∈ v.listing admits keyPrefix delimiter ↔
      ∃ key, v.Holds key ∧ keyPrefix <+: key ∧ admits key = true ∧
        c = rolledUp keyPrefix delimiter key := by
  simp only [listing, SortedSet.mem_extend, SortedSet.not_mem_empty, or_false, List.mem_map,
    List.mem_filter, hv.mem_storedKeys, Bool.and_eq_true, List.isPrefixOf_iff_prefix]
  constructor
  · rintro ⟨key, ⟨hholds, hbegin, hadmits⟩, rfl⟩
    exact ⟨key, hholds, hbegin, hadmits, rfl⟩
  · rintro ⟨key, hholds, hbegin, hadmits, rfl⟩
    exact ⟨key, ⟨hholds, hbegin, hadmits⟩, rfl⟩

theorem take_idxOf?_succ (rest : Str) :
    (rest.idxOf? '/').map (fun position => rest.take (position + 1)) =
      if '/' ∈ rest then some (rest.takeWhile (· ≠ '/') ++ ['/']) else none := by
  induction rest with
  | nil => rfl
  | cons c rest ih =>
    rw [List.idxOf?_cons]
    by_cases hc : c = '/'
    · subst hc
      simp
    · have hc' : (c == '/') = false := by simpa using hc
      rw [hc', if_neg Bool.false_ne_true, Option.map_map, List.takeWhile_cons_of_pos (by simpa using hc)]
      have hmem : ('/' ∈ c :: rest) ↔ '/' ∈ rest := by
        rw [List.mem_cons, or_iff_right (Ne.symm hc)]
      simp only [hmem]
      split_ifs at ih ⊢ with hrest
      · obtain ⟨position, hposition, htake⟩ := Option.map_eq_some_iff.mp ih
        rw [hposition, List.cons_append, ← htake]
        rfl
      · rw [Option.map_eq_none_iff] at ih
        rw [ih]
        rfl

theorem Selection.candidate_eq_rolledUp (selection : Selection)
    (hbegin : selection.keyPrefix <+: key) :
    selection.candidate key = rolledUp selection.keyPrefix selection.delimiter key := by
  obtain ⟨rest, rfl⟩ := hbegin
  have hfirst := take_idxOf?_succ rest
  unfold Selection.candidate rolledUp
  rw [heading_append, List.drop_left]
  cases selection.delimiter with
  | false => simp
  | true =>
    simp only [if_true, true_and]
    split_ifs at hfirst ⊢ with hmem
    · obtain ⟨position, hposition, htake⟩ := Option.map_eq_some_iff.mp hfirst
      simp only [hposition]
      rw [add_assoc, List.take_length_add_append, htake, List.append_assoc]
    · rw [Option.map_eq_none_iff] at hfirst
      simp only [hfirst]

section Walk

variable {caller : Caller} {v : Volume} {selection : Selection}

def VerifiedFilesystemSession.shows (session : VerifiedFilesystemSession) (keyPrefix key : Str) :
    Bool :=
  session.reads (heading '/' keyPrefix key)

theorem answers_walk (hv : v.Canonical) (hne : selection.keyPrefix ≠ []) :
    Answers caller (selection.walk caller walkDepth [] [] .empty) v
      (.ok ((entriesAfter (v.listing (caller.session.shows selection.keyPrefix) selection.keyPrefix
        selection.delimiter) selection.marker).smallest selection.limit)) := by
  have hentered : selection.Entered caller.session [] [] :=
    ⟨Or.inl ⟨rfl, rfl⟩, fun h => absurd (List.prefix_nil.mp h) hne⟩
  obtain ⟨found, hfound, hwalk⟩ := Selection.collects_walk hv walkDepth (by decide) hentered
    (Or.inl rfl) .empty
  have hsame : found = entriesAfter (v.listing (caller.session.shows selection.keyPrefix)
      selection.keyPrefix selection.delimiter) selection.marker := by
    refine SortedSet.ext_mem fun c => ?_
    rw [hfound c, or_iff_right (SortedSet.not_mem_empty c), entriesAfter, SortedSet.mem_filter,
      hv.mem_listing, decide_eq_true_eq]
    constructor
    · rintro ⟨key, hholds, _, ⟨hbegin, hreads⟩, hmarker, hc⟩
      rw [selection.candidate_eq_rolledUp hbegin] at hc
      exact ⟨⟨key, hholds, hbegin, hreads, hc⟩, hmarker⟩
    · rintro ⟨⟨key, hholds, hbegin, hreads, hc⟩, hmarker⟩
      rw [← selection.candidate_eq_rolledUp hbegin] at hc
      exact ⟨key, hholds, List.nil_prefix, ⟨hbegin, hreads⟩, hmarker, hc⟩
  have hempty : (SortedSet.empty : SortedSet Candidate).smallest selection.limit = .empty :=
    SortedSet.ext List.take_nil
  rw [hempty] at hwalk
  rw [← hsame]
  exact hwalk

end Walk

/-- What is known of an entry of a listing. -/
structure ListedAs (caller : Caller) (v : Volume) (keyPrefix : Str) (c : Candidate) : Prop where
  beyond : keyPrefix <+: c.key
  chars : ∀ char ∈ c.key, keyChar char = true
  short : byteLen c.key ≤ 1024
  readable : caller.session.reads (prefixKey c.key) = true
  common : c.common = true ↔ c.key.getLast? = some '/'
  object : c.common = false → v.Holds c.key ∧ caller.session.reads c.key = true

theorem validKey_iff : validKey key = true ↔
    key ≠ [] ∧ byteLen key ≤ 1024 ∧ (∀ c ∈ key, keyChar c = true) ∧
      ∀ part ∈ key.splitOn '/', keyPart part = true := by
  simp [validKey, and_assoc]

theorem getLast?_of_validKey (h : validKey key = true) : key.getLast? ≠ some '/' := by
  intro hlast
  obtain ⟨init, rfl⟩ : ∃ init, key = init ++ ['/'] :=
    ⟨key.dropLast, (List.dropLast_append_getLast? _ hlast).symm⟩
  have hpart := (validKey_iff.mp h).2.2.2 [] (by
    rw [show init ++ ['/'] = init ++ '/' :: [] from rfl, splitOn_append_sep]
    simp)
  exact keyPart_ne_nil hpart rfl

theorem prefixKey_append_slash (key : Str) : prefixKey (key ++ ['/']) = key := by
  simp [prefixKey, stripSuffixChar]

theorem prefixKey_of_validKey (h : validKey key = true) : prefixKey key = key := by
  rw [prefixKey, stripSuffixChar, if_neg (getLast?_of_validKey h)]
  rfl

theorem listedAs_of_mem {caller : Caller} {v : Volume} (hv : v.Canonical) {keyPrefix : Str}
    {delimiter : Bool} {c : Candidate}
    (h : c ∈ v.listing (caller.session.shows keyPrefix) keyPrefix delimiter) :
    ListedAs caller v keyPrefix c := by
  obtain ⟨key, hholds, hbegin, hshows, rfl⟩ := hv.mem_listing.mp h
  have hvalid := hv.valid hholds
  obtain ⟨-, hshort, hchars, -⟩ := validKey_iff.mp hvalid
  have hbelow : Below '/' (heading '/' keyPrefix key) key := below_heading hbegin
  unfold rolledUp
  split_ifs with hroll
  · -- the key goes on past its heading, which is therefore followed by a slash
    have hslash : heading '/' keyPrefix key ++ ['/'] <+: key := by
      rcases hbelow with heq | ⟨rest, hrest⟩
      · exfalso
        obtain ⟨tail, rfl⟩ := hbegin
        rw [heading_append, List.append_cancel_left_eq] at heq
        rw [List.drop_left, heq] at hroll
        simpa using List.mem_takeWhile_imp hroll.2
      · exact ⟨rest, by rw [List.append_assoc]; exact hrest.symm⟩
    exact {
      beyond := (isPrefix_heading keyPrefix key).trans (List.prefix_append _ _)
      chars := fun char hchar => hchars char (hslash.subset hchar)
      short := (byteLen_le_of_isPrefix hslash).trans hshort
      readable := by rw [prefixKey_append_slash]; exact hshows
      common := by simp
      object := fun hno => Bool.noConfusion hno }
  · have hreads := VerifiedFilesystemSession.reads_of_below hshows hbelow hvalid
    exact {
      beyond := hbegin
      chars := hchars
      short := hshort
      readable := by rw [prefixKey_of_validKey hvalid]; exact hreads
      common := by simp [getLast?_of_validKey hvalid]
      object := fun _ => ⟨hholds, hreads⟩ }

theorem Candidate.lt_iff {a b : Candidate} :
    a < b ↔ a.key < b.key ∨ a.key = b.key ∧ a.common < b.common :=
  Prod.Lex.toLex_lt_toLex

/-- The keys of the entries increase strictly. -/
theorem key_lt_of_lt {caller : Caller} {v : Volume} {keyPrefix : Str} {a b : Candidate}
    (ha : ListedAs caller v keyPrefix a) (hb : ListedAs caller v keyPrefix b) (h : a < b) :
    a.key < b.key := by
  rcases Candidate.lt_iff.mp h with h | ⟨hkey, hcommon⟩
  · exact h
  · have hsame : a.common = b.common := by
      rw [Bool.eq_iff_iff, ha.common, hb.common, hkey]
    rw [hsame] at hcommon
    exact absurd hcommon (lt_irrefl _)

end GraphitBroker
