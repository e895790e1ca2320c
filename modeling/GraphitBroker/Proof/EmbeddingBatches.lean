import GraphitBroker.Embeddings

/-!
# Batches of embeddings

Every position that a request counts by, among the inputs, the distinct texts, the misses and the
entries of the backend, leads back to one text.
-/

namespace GraphitBroker

open Framing ExceptList

def textHash (sha256 : Bytes → Digest) (text : Str) : Digest := sha256 (utf8 text)

structure DistinctTexts.Covers (sha256 : Bytes → Digest) (found : DistinctTexts) (inputs : List Str) :
    Prop where
  digests : found.digests = found.texts.map (textHash sha256)
  nodup : found.digests.Nodup
  order : List.Forall₂ (fun text (p : Nat) => found.digests[p]? = some (textHash sha256 text)) inputs found.order
  subset : ∀ t ∈ found.texts, t ∈ inputs

section Distinct

variable {sha256 : Bytes → Digest} {found : DistinctTexts} {inputs : List Str}

theorem DistinctTexts.Covers.push (h : found.Covers sha256 inputs) (text : Str) :
    (found.push sha256 text).Covers sha256 (inputs ++ [text]) := by
  unfold DistinctTexts.push
  have hsubset : ∀ t ∈ found.texts, t ∈ inputs ++ [text] := fun t ht =>
    List.mem_append_left _ (h.subset t ht)
  split
  · rename_i index hindex
    refine ⟨h.digests, h.nodup, List.rel_append h.order (.cons ?_ .nil), hsubset⟩
    obtain ⟨hlt, hget, _⟩ := List.idxOf?_eq_some_iff.mp hindex
    exact List.getElem?_eq_some_iff.mpr ⟨hlt, hget⟩
  · rename_i hnone
    have hnew : textHash sha256 text ∉ found.digests := by
      simpa [textHash] using List.idxOf?_eq_none_iff.mp hnone
    have hlength : found.texts.length = found.digests.length := by rw [h.digests, List.length_map]
    refine ⟨?_, ?_, List.rel_append (h.order.imp fun t p ht => ?_) (.cons ?_ .nil), ?_⟩
    · rw [List.map_append, ← h.digests]
      rfl
    · exact List.nodup_append.mpr ⟨h.nodup, List.nodup_singleton _, by
        rintro a ha b hb rfl
        obtain rfl := List.mem_singleton.mp hb
        exact hnew ha⟩
    · have hlt := (List.getElem?_eq_some_iff.mp ht).1
      rw [List.getElem?_append_left hlt]
      exact ht
    · rw [hlength, List.getElem?_concat_length]
      rfl
    · intro t ht
      rcases List.mem_append.mp ht with ht | ht
      · exact hsubset t ht
      · exact List.mem_append_right _ ht

theorem covers_of_distinctTexts {check : Nat → Except WireError Unit} {n : Nat} {rest : List Str}
    {found' : DistinctTexts} (h : found.Covers sha256 inputs)
    (hloop : distinctTexts sha256 check n rest found = .ok found') :
    found'.Covers sha256 (inputs ++ rest) := by
  induction rest generalizing n found inputs with
  | nil =>
    obtain rfl := Except.ok.inj hloop
    rwa [List.append_nil]
  | cons text rest ih =>
    obtain ⟨_, _, hloop⟩ := bind_eq_ok.mp hloop
    have hrest := ih (h.push text) hloop
    rwa [List.append_assoc, List.singleton_append] at hrest

def HashesApart (sha256 : Bytes → Digest) (strings : Set Bytes) : Prop :=
  ∀ a ∈ strings, ∀ b ∈ strings, sha256 a = sha256 b → a = b

variable {strings : Set Bytes}

theorem textHash_inj (hfree : HashesApart sha256 strings) {s t : Str}
    (hs : utf8 s ∈ strings) (ht : utf8 t ∈ strings) (h : textHash sha256 s = textHash sha256 t) :
    s = t :=
  utf8_injective (hfree _ hs _ ht h)

theorem DistinctTexts.Covers.texts_nodup (h : found.Covers sha256 inputs) : found.texts.Nodup :=
  List.Nodup.of_map _ (h.digests ▸ h.nodup)

theorem DistinctTexts.Covers.positions (h : found.Covers sha256 inputs)
    (hfree : HashesApart sha256 strings) (hinputs : ∀ t ∈ inputs, utf8 t ∈ strings) :
    List.Forall₂ (fun text (p : Nat) => found.texts[p]? = some text) inputs found.order := by
  have hall : ∀ t ∈ inputs, ∀ p : Nat, found.digests[p]? = some (textHash sha256 t) →
      found.texts[p]? = some t := by
    intro t ht p hp
    rw [h.digests, List.getElem?_map] at hp
    obtain ⟨t', ht', hhash⟩ := Option.map_eq_some_iff.mp hp
    have hmem : t' ∈ inputs := h.subset t' (List.mem_of_getElem? ht')
    rw [ht', textHash_inj hfree (hinputs t' hmem) (hinputs t ht) hhash]
  have horder := h.order
  generalize found.order = order at horder
  clear hinputs h
  induction horder with
  | nil => exact .nil
  | cons hp _ ih =>
    exact .cons (hall _ List.mem_cons_self _ hp)
      (ih fun t ht => hall t (List.mem_cons_of_mem _ ht))

theorem DistinctTexts.Covers.mem_texts (h : found.Covers sha256 inputs)
    (hfree : HashesApart sha256 strings) (hinputs : ∀ t ∈ inputs, utf8 t ∈ strings) {t : Str} :
    t ∈ found.texts ↔ t ∈ inputs := by
  refine ⟨h.subset t, fun ht => ?_⟩
  obtain ⟨i, hi, rfl⟩ := List.getElem_of_mem ht
  obtain ⟨hlength, hget⟩ := List.forall₂_iff_get.mp (h.positions hfree hinputs)
  exact List.mem_of_getElem? (hget i hi (hlength ▸ hi))

end Distinct

section Place

variable {V : Type} {wellFormed : V → Bool} {misses : List Nat} {entries : List (Nat × V)}
  {vectors vectors' : List (Option V)} {inserted inserted' : List Nat}

theorem mem_missing {p : Nat} : p ∈ missing vectors ↔ vectors[p]? = some none := by
  simp only [missing, List.mem_map, List.mem_filter, List.mem_zipIdx_iff_getElem?,
    Option.isNone_iff_eq_none]
  constructor
  · rintro ⟨⟨v, q⟩, ⟨hget, hv⟩, hq⟩
    simp only at hget hv hq
    rw [← hq, hget, hv]
  · intro hget
    exact ⟨(none, p), ⟨hget, rfl⟩, rfl⟩

theorem nodup_missing : (missing vectors).Nodup := by
  have hsub : (missing vectors).Sublist (vectors.zipIdx.map Prod.snd) :=
    List.Sublist.map _ List.filter_sublist
  rw [List.zipIdx_map_snd] at hsub
  exact List.Nodup.sublist hsub (by simpa using List.nodup_range' (s := 0) (n := vectors.length))

def PlacedAt (wellFormed : V → Bool) (misses : List Nat) (entries : List (Nat × V)) (p : Nat) (v : V) :
    Prop :=
  ∃ i, misses[i]? = some p ∧ (i, v) ∈ entries ∧ wellFormed v = true

structure Placed (wellFormed : V → Bool) (misses : List Nat) (entries : List (Nat × V))
    (vectors vectors' : List (Option V)) (inserted inserted' : List Nat) : Prop where
  length : vectors'.length = vectors.length
  kept : ∀ (p : Nat) v, vectors[p]? = some (some v) → vectors'[p]? = some (some v)
  filled : ∀ (p : Nat) v, vectors'[p]? = some (some v) → vectors[p]? = some (some v) ∨
    PlacedAt wellFormed misses entries p v
  added : ∀ p ∈ inserted', p ∈ inserted ∨
    ∃ v, vectors'[p]? = some (some v) ∧ PlacedAt wellFormed misses entries p v

theorem PlacedAt.cons {entry : Nat × V} {p : Nat} {v : V}
    (h : PlacedAt wellFormed misses entries p v) : PlacedAt wellFormed misses (entry :: entries) p v := by
  obtain ⟨i, hi, hmem, hv⟩ := h
  exact ⟨i, hi, List.mem_cons_of_mem _ hmem, hv⟩

theorem placed_of_place (hplace : place wellFormed misses entries vectors inserted =
      .ok (vectors', inserted')) (hmisses : ∀ p ∈ misses, p < vectors.length) :
    Placed wellFormed misses entries vectors vectors' inserted inserted' := by
  induction entries generalizing vectors inserted with
  | nil =>
    obtain ⟨rfl, rfl⟩ := Prod.mk.inj (Except.ok.inj hplace)
    exact ⟨rfl, fun _ _ h => h, fun _ _ h => Or.inl h, fun _ h => Or.inl h⟩
  | cons entry rest ih =>
    obtain ⟨index, vector⟩ := entry
    rw [place] at hplace
    split at hplace
    · cases hplace
    rename_i position hposition
    split_ifs at hplace with hbad
    obtain ⟨hempty, hwell⟩ := not_or.mp hbad
    rw [Bool.not_eq_false] at hwell
    have hlt := hmisses position (List.mem_of_getElem? hposition)
    have hset : (vectors.set position (some vector))[position]? = some (some vector) := by
      rw [List.getElem?_set_self hlt]
    have hother : ∀ p, p ≠ position →
        (vectors.set position (some vector))[p]? = vectors[p]? := fun p hp =>
      List.getElem?_set_ne (Ne.symm hp)
    have hrest := ih hplace (by simpa using hmisses)
    have hhere : PlacedAt wellFormed misses ((index, vector) :: rest) position vector :=
      ⟨index, hposition, List.mem_cons_self, hwell⟩
    refine ⟨hrest.length.trans (List.length_set ..), fun p v hp => ?_, fun p v hp => ?_,
      fun p hp => ?_⟩
    · have hne : p ≠ position := by
        rintro rfl
        exact hempty (by rw [hp]; rfl)
      exact hrest.kept p v ((hother p hne).trans hp)
    · rcases hrest.filled p v hp with hbefore | hlater
      · by_cases hp' : p = position
        · subst hp'
          rw [hset] at hbefore
          obtain rfl := Option.some.inj (Option.some.inj hbefore)
          exact Or.inr hhere
        · exact Or.inl ((hother p hp').symm.trans hbefore)
      · exact Or.inr hlater.cons
    · rcases hrest.added p hp with hbefore | ⟨v, hv, hlater⟩
      · rcases List.mem_append.mp hbefore with hbefore | hnow
        · exact Or.inl hbefore
        · obtain rfl := List.mem_singleton.mp hnow
          exact Or.inr ⟨vector, hrest.kept _ _ hset, hhere⟩
      · exact Or.inr ⟨v, hv, hlater.cons⟩

end Place

section Cache

variable {V : Type} {codec : VectorCodec V} {limits : EmbeddingCacheLimits} {table : EmbeddingTable}

variable {key : EmbeddingCacheKey} {record : EmbeddingRecord}
  {rows : List (EmbeddingCacheKey × EmbeddingRecord)}

theorem insertAll_kept (h : table key = some record) :
    table.insertAll rows key = some record := by
  induction rows generalizing table with
  | nil => exact h
  | cons row rows ih =>
    refine @ih (table.insertRow row) ?_
    unfold EmbeddingTable.insertRow
    split_ifs
    · rw [h]
      rfl
    · exact h

theorem insertAll_cases (h : table.insertAll rows key = some record) :
    table key = some record ∨ (key, record) ∈ rows := by
  induction rows generalizing table with
  | nil => exact Or.inl h
  | cons row rows ih =>
    rcases @ih (table.insertRow row) h with hbefore | hrow
    · unfold EmbeddingTable.insertRow at hbefore
      split_ifs at hbefore with hkey
      · rcases Option.or_eq_some_iff.mp hbefore with hold | ⟨_, hnew⟩
        · exact Or.inl hold
        · refine Or.inr (List.mem_cons.mpr (Or.inl ?_))
          rw [hkey, ← Option.some.inj hnew]
      · exact Or.inl hbefore
    · exact Or.inr (List.mem_cons_of_mem _ hrow)

theorem exists_entry_of_prepareInsert {provenance : EmbeddingCacheProvenance}
    {entries : List (EmbeddingCacheKey × V)}
    (h : prepareInsert codec limits provenance entries = .ok rows) (hrow : (key, record) ∈ rows) :
    ∃ vector, (key, vector) ∈ entries ∧ codec.wellFormed limits.dimensions vector = true ∧
      record.json = codec.encode vector := by
  obtain ⟨_, _, hmap⟩ := bind_eq_ok.mp h
  obtain ⟨⟨key', vector⟩, hentry, _, hmade, rfl⟩ :=
    (exists_mem_mapM hmap (· = (key, record))).mp ⟨_, hrow, rfl⟩
  obtain ⟨_, _, hmade⟩ := bind_eq_ok.mp hmade
  obtain ⟨json, hjson, hmade⟩ := bind_eq_ok.mp hmade
  obtain ⟨_, hwell, hjson⟩ := bind_eq_ok.mp hjson
  obtain ⟨_, _, hjson⟩ := bind_eq_ok.mp hjson
  obtain ⟨rfl, rfl⟩ := Prod.mk.inj (Except.ok.inj hmade)
  refine ⟨vector, hentry, ?_, (Except.ok.inj hjson).symm⟩
  simpa using failIf_eq_ok.mp hwell

theorem decode_of_readKey {vector : V} (h : readKey codec limits table key = .ok (some vector)) :
    ∃ record, table key = some record ∧ codec.decode limits.dimensions record.json = some vector := by
  unfold readKey at h
  split at h
  · cases h
  rename_i record hrecord
  obtain ⟨vector', hread, hsome⟩ := map_eq_ok.mp h
  obtain rfl := Option.some.inj hsome
  obtain ⟨_, _, hread⟩ := bind_eq_ok.mp hread
  obtain ⟨_, _, hread⟩ := bind_eq_ok.mp hread
  refine ⟨record, hrecord, ?_⟩
  unfold decodeVector at hread
  split_ifs at hread
  split at hread
  · cases hread
  · rename_i vector hdecode
    rw [hdecode, Except.ok.inj hread]

theorem none_iff_of_readKey {found : Option V}
    (h : readKey codec limits table key = .ok found) : found = none ↔ table key = none := by
  unfold readKey at h
  split at h
  · rename_i hnone
    simp [hnone, ← Except.ok.inj h]
  · rename_i record hrecord
    obtain ⟨vector, _, rfl⟩ := map_eq_ok.mp h
    simp [hrecord]

theorem ok_of_cacheResult {α : Type} {check : Except WireError Unit}
    {result : Except EmbeddingCacheError α} {value : α} (h : cacheResult check result = .ok value) :
    result = .ok value := by
  unfold cacheResult at h
  split at h
  · obtain ⟨_, _, h⟩ := bind_eq_ok.mp h
    rw [Except.ok.inj h]
  · obtain ⟨_, _, h⟩ := bind_eq_ok.mp h
    cases h
  · cases h

theorem readKeys_of_readCache {control : Option ControlError} {keys : List EmbeddingCacheKey}
    {vectors : List (Option V)} (h : readCache codec limits control table keys = .ok vectors) :
    List.Forall₂ (fun key found => readKey codec limits table key = .ok found) keys vectors := by
  obtain ⟨_, _, h⟩ := bind_eq_ok.mp h
  cases control with
  | none => exact mapM_eq_ok_iff.mp h
  | some error => cases h

end Cache

section Requests

variable {V : Type} (codec : VectorCodec V) (sha256 : Bytes → Digest) (service : EmbeddingService)
  (input : InputType) (computed : Digest → Str → V → Prop) (strings : Set Bytes)

def textKey (text : Str) : EmbeddingCacheKey :=
  (service.compatibility sha256 input, textHash sha256 text)

/-- Each entry of the namespace for the hash of a text is a vector computed for that text. -/
def SoundTable (table : EmbeddingTable) : Prop :=
  ∀ text, utf8 text ∈ strings → ∀ record, table (textKey sha256 service input text) = some record →
    ∀ vector, codec.decode service.cacheLimits.dimensions record.json = some vector →
      computed (service.compatibility sha256 input) text vector

def HonestOutcome (asked : List Str) (outcome : EmbeddingOutcome V) : Prop :=
  ∀ entry ∈ outcome.entries, ∀ text, asked[entry.1]? = some text →
    computed (service.compatibility sha256 input) text entry.2

def Gained (run : EmbeddingRun V) (asked : Option (List Str)) (key : EmbeddingCacheKey)
    (record : EmbeddingRecord) : Prop :=
  ∃ texts, asked = some texts ∧ ∃ entry ∈ (run.infer texts).entries, ∃ text,
    texts[entry.1]? = some text ∧ key = textKey sha256 service input text ∧
    codec.wellFormed service.cacheLimits.dimensions entry.2 = true ∧
    record.json = codec.encode entry.2

structure AnsweredExactly (run : EmbeddingRun V) (inputs : List Str) (table : EmbeddingTable)
    (done : EmbeddingEnd V) : Prop where
  rows : ∀ response, done.answer = .ok response →
    List.Forall₂ (fun text (row : EmbeddingRow V) =>
      computed (service.compatibility sha256 input) text row.embedding) inputs response.data
  indexed : ∀ response, done.answer = .ok response →
    response.data.map EmbeddingRow.index = List.range inputs.length
  equalInputs : ∀ response, done.answer = .ok response → ∀ (i j : Nat) (a b : EmbeddingRow V),
    inputs[i]? = inputs[j]? → response.data[i]? = some a → response.data[j]? = some b →
      a.embedding = b.embedding
  asked : ∀ texts, done.asked = some texts → texts ≠ [] ∧ texts.Nodup ∧
    ∀ t, t ∈ texts ↔ t ∈ inputs ∧ table (textKey sha256 service input t) = none
  unasked : ∀ response, done.answer = .ok response → done.asked = none →
    ∀ t ∈ inputs, table (textKey sha256 service input t) ≠ none
  kept : ∀ key record, table key = some record → done.table key = some record
  gained : ∀ key record, done.table key = some record →
    table key = some record ∨ Gained codec sha256 service input run done.asked key record
  sound : SoundTable codec sha256 service input computed strings done.table

variable {codec sha256 service input computed strings} {run : EmbeddingRun V} {inputs : List Str}
  {table : EmbeddingTable} {found : DistinctTexts} {vectors : List (Option V)}

structure LookedUp (codec : VectorCodec V) (sha256 : Bytes → Digest) (service : EmbeddingService)
    (input : InputType) (table : EmbeddingTable) (texts : List Str) (vectors : List (Option V)) :
    Prop where
  length : vectors.length = texts.length
  hit : ∀ (p : Nat) text vector, texts[p]? = some text → vectors[p]? = some (some vector) →
    ∃ record, table (textKey sha256 service input text) = some record ∧
      codec.decode service.cacheLimits.dimensions record.json = some vector
  miss : ∀ (p : Nat) text, texts[p]? = some text →
    (vectors[p]? = some none ↔ table (textKey sha256 service input text) = none)

theorem lookedUp_of_readKeys (hcovers : found.digests = found.texts.map (textHash sha256))
    (h : List.Forall₂ (fun key found => readKey codec service.cacheLimits table key = .ok found)
      (found.digests.map fun digest => (service.compatibility sha256 input, digest)) vectors) :
    LookedUp codec sha256 service input table found.texts vectors := by
  rw [hcovers, List.map_map] at h
  obtain ⟨hlength, hget⟩ := List.forall₂_iff_get.mp h
  rw [List.length_map] at hlength
  have hkey : ∀ (p : Nat) text, found.texts[p]? = some text → ∃ vector, vectors[p]? = some vector ∧
      readKey codec service.cacheLimits table (textKey sha256 service input text) = .ok vector := by
    intro p text hp
    obtain ⟨hlt, rfl⟩ := List.getElem?_eq_some_iff.mp hp
    have hlt' : p < vectors.length := hlength ▸ hlt
    refine ⟨vectors[p], List.getElem?_eq_getElem hlt', ?_⟩
    simpa [textKey] using hget p (by rwa [List.length_map]) hlt'
  refine ⟨hlength.symm, fun p text vector hp hv => ?_, fun p text hp => ?_⟩
  · obtain ⟨vector', hv', hread⟩ := hkey p text hp
    obtain rfl := Option.some.inj (hv.symm.trans hv')
    exact decode_of_readKey hread
  · obtain ⟨vector', hv', hread⟩ := hkey p text hp
    rw [hv', Option.some.injEq]
    exact none_iff_of_readKey hread

theorem getElem?_asked (hlength : vectors.length = found.texts.length) (i : Nat) :
    ((missing vectors).filterMap fun position => found.texts[position]?)[i]? =
      (missing vectors)[i]?.bind fun position => found.texts[position]? := by
  have hall : ∀ p ∈ missing vectors, (found.texts[p]?).isSome = true := by
    intro p hp
    have hlt := (List.getElem?_eq_some_iff.mp (mem_missing.mp hp)).1
    rw [hlength] at hlt
    simp [hlt]
  generalize missing vectors = misses at hall
  induction misses generalizing i with
  | nil => simp
  | cons p rest ih =>
    obtain ⟨text, htext⟩ := Option.isSome_iff_exists.mp (hall p List.mem_cons_self)
    have hrest := fun i => ih i fun q hq => hall q (List.mem_cons_of_mem _ hq)
    rw [List.filterMap_cons, htext]
    cases i with
    | zero => simp [htext]
    | succ i => simpa using hrest i

variable {data : List (EmbeddingRow V)} {order : List Nat} {outcome : EmbeddingOutcome V}
  {table' : EmbeddingTable}

theorem rows_of_rowsOf (h : rowsOf vectors order = some data) :
    List.Forall₂ (fun (p : Nat) (row : EmbeddingRow V) => vectors[p]? = some (some row.embedding))
      order data ∧ data.map EmbeddingRow.index = List.range order.length := by
  have hfrom : ∀ (k : Nat) (data : List (EmbeddingRow V)),
      ((order.zipIdx k).mapM fun entry => (vectors[entry.1]?.join).map fun vector =>
        (⟨vector, entry.2⟩ : EmbeddingRow V)) = some data →
      List.Forall₂ (fun (p : Nat) (row : EmbeddingRow V) => vectors[p]? = some (some row.embedding))
        order data ∧ data.map EmbeddingRow.index = List.range' k order.length := by
    clear h
    induction order with
    | nil =>
      intro k data hdata
      obtain rfl : [] = data := by simpa using hdata
      exact ⟨.nil, rfl⟩
    | cons p rest ih =>
      intro k data hdata
      rw [List.zipIdx_cons, List.mapM_cons] at hdata
      obtain ⟨row, hrow, hdata⟩ := Option.bind_eq_some_iff.mp hdata
      obtain ⟨rows, hrows, hdata⟩ := Option.bind_eq_some_iff.mp hdata
      obtain rfl : row :: rows = data := Option.some.inj hdata
      obtain ⟨vector, hvector, rfl⟩ := Option.map_eq_some_iff.mp hrow
      obtain ⟨hforall, hindex⟩ := ih (k + 1) rows hrows
      refine ⟨.cons (Option.join_eq_some_iff.mp hvector) hforall, ?_⟩
      rw [List.map_cons, hindex, List.length_cons, List.range'_succ]
  rw [List.range_eq_range']
  exact hfrom 0 data h

theorem response_of_finish {usage : List Nat} {hit : Bool}
    {response : EmbeddingResponse V} (h : finish run order vectors usage hit = .ok response) :
    rowsOf vectors order = some response.data := by
  obtain ⟨_, _, h⟩ := bind_eq_ok.mp h
  obtain ⟨_, _, h⟩ := bind_eq_ok.mp h
  split at h
  · cases h
  rename_i data hdata
  obtain ⟨_, _, h⟩ := bind_eq_ok.mp h
  obtain ⟨_, _, h⟩ := bind_eq_ok.mp h
  rw [hdata, ← Except.ok.inj h]

theorem rows_computed {texts : List Str}
    (horder : List.Forall₂ (fun text (p : Nat) => texts[p]? = some text) inputs order)
    (hvectors : ∀ (p : Nat) text vector, texts[p]? = some text →
      vectors[p]? = some (some vector) → computed (service.compatibility sha256 input) text vector)
    (hdata : rowsOf vectors order = some data) :
    List.Forall₂ (fun text (row : EmbeddingRow V) =>
        computed (service.compatibility sha256 input) text row.embedding) inputs data ∧
      data.map EmbeddingRow.index = List.range inputs.length := by
  obtain ⟨hrows, hindex⟩ := rows_of_rowsOf hdata
  refine ⟨?_, by rw [hindex, horder.length_eq]⟩
  clear hindex hdata
  induction horder generalizing data with
  | nil =>
    cases hrows
    exact .nil
  | cons hp _ ih =>
    cases hrows with
    | cons hrow hrest => exact .cons (hvectors _ _ _ hp hrow) (ih hrest)

theorem rows_equal {texts : List Str} (hnodup : texts.Nodup)
    (horder : List.Forall₂ (fun text (p : Nat) => texts[p]? = some text) inputs order)
    (hdata : rowsOf vectors order = some data) {i j : Nat} {a b : EmbeddingRow V}
    (hsame : inputs[i]? = inputs[j]?) (ha : data[i]? = some a) (hb : data[j]? = some b) :
    a.embedding = b.embedding := by
  obtain ⟨hlength, hrows⟩ := List.forall₂_iff_get.mp (rows_of_rowsOf hdata).1
  obtain ⟨hlength', hinputs⟩ := List.forall₂_iff_get.mp horder
  obtain ⟨hi, rfl⟩ := List.getElem?_eq_some_iff.mp ha
  obtain ⟨hj, rfl⟩ := List.getElem?_eq_some_iff.mp hb
  have hi' : i < order.length := hlength ▸ hi
  have hj' : j < order.length := hlength ▸ hj
  have hi'' : i < inputs.length := hlength' ▸ hi'
  have hj'' : j < inputs.length := hlength' ▸ hj'
  rw [List.getElem?_eq_getElem hi'', List.getElem?_eq_getElem hj'', Option.some.injEq] at hsame
  have hpi : texts[order[i]]? = some inputs[i] := hinputs i hi'' hi'
  have hpj : texts[order[j]]? = some inputs[j] := hinputs j hj'' hj'
  have hposition : order[i] = order[j] := by
    rw [← hsame] at hpj
    exact (List.getElem?_inj (List.getElem?_eq_some_iff.mp hpi).1 hnodup).mp (hpi.trans hpj.symm)
  have hrowi : vectors[order[i]]? = some (some data[i].embedding) := hrows i hi' hi
  have hrowj : vectors[order[j]]? = some (some data[j].embedding) := hrows j hj' hj
  rw [hposition, hrowj] at hrowi
  exact (Option.some.inj (Option.some.inj hrowi)).symm

def askedTexts (texts : List Str) (vectors : List (Option V)) : List Str :=
  (missing vectors).filterMap fun position => texts[position]?

def CompletedFor (asked : List Str) (outcome : EmbeddingOutcome V) (text : Str) (vector : V) : Prop :=
  ∃ entry ∈ outcome.entries, asked[entry.1]? = some text ∧ entry.2 = vector

theorem completedFor_of_placedAt {wellFormed : V → Bool}
    (hlength : vectors.length = found.texts.length) {p : Nat} {text : Str} {vector : V}
    (htext : found.texts[p]? = some text)
    (h : PlacedAt wellFormed (missing vectors) outcome.entries p vector) :
    CompletedFor (askedTexts found.texts vectors) outcome text vector := by
  obtain ⟨i, hi, hmem, _⟩ := h
  refine ⟨(i, vector), hmem, ?_, rfl⟩
  rw [askedTexts, getElem?_asked hlength, hi]
  exact htext

theorem table_of_storeEntries {entries : List (EmbeddingCacheKey × V)}
    {result : Except EmbeddingCacheError Unit}
    (h : storeEntries codec service input run entries table = (result, table')) :
    table' = table ∨ ∃ provenance rows,
      prepareInsert codec service.cacheLimits provenance entries = .ok rows ∧
        table' = table.insertAll rows := by
  unfold storeEntries at h
  split at h
  · exact Or.inl (Prod.mk.inj h).2.symm
  rename_i rows hrows
  split at h
  · exact Or.inr ⟨_, rows, hrows, (Prod.mk.inj h).2.symm⟩
  · exact Or.inl (Prod.mk.inj h).2.symm
  · exact Or.inr ⟨_, rows, hrows, (Prod.mk.inj h).2.symm⟩

theorem mem_filledEntries {keys : List EmbeddingCacheKey} {inserted : List Nat}
    {key : EmbeddingCacheKey} {vector : V} (h : (key, vector) ∈ filledEntries keys vectors inserted) :
    ∃ p ∈ inserted, keys[p]? = some key ∧ vectors[p]? = some (some vector) := by
  obtain ⟨p, hp, hentry⟩ := List.mem_filterMap.mp h
  obtain ⟨key', hkey, hentry⟩ := Option.bind_eq_some_iff.mp hentry
  obtain ⟨vector', hvector, hentry⟩ := Option.bind_eq_some_iff.mp hentry
  obtain ⟨rfl, rfl⟩ := Prod.mk.inj (Option.some.inj hentry)
  exact ⟨p, hp, hkey, Option.join_eq_some_iff.mp hvector⟩

structure Absorbed (codec : VectorCodec V) (sha256 : Bytes → Digest) (service : EmbeddingService)
    (input : InputType) (texts : List Str) (vectors : List (Option V)) (outcome : EmbeddingOutcome V)
    (table : EmbeddingTable) (result : Except WireError (List (Option V)) × EmbeddingTable) : Prop where
  kept : ∀ key record, table key = some record → result.2 key = some record
  gained : ∀ key record, result.2 key = some record → table key = some record ∨
    ∃ text vector, CompletedFor (askedTexts texts vectors) outcome text vector ∧
      key = textKey sha256 service input text ∧
      codec.wellFormed service.cacheLimits.dimensions vector = true ∧
      record.json = codec.encode vector
  filled : ∀ vectors', result.1 = .ok vectors' → ∀ (p : Nat) text vector, texts[p]? = some text →
    vectors'[p]? = some (some vector) → vectors[p]? = some (some vector) ∨
      CompletedFor (askedTexts texts vectors) outcome text vector

theorem absorbed_of_unchanged {result : Except WireError (List (Option V))}
    (hfilled : ∀ vectors', result = .ok vectors' → ∀ (p : Nat) text vector,
      found.texts[p]? = some text → vectors'[p]? = some (some vector) →
        vectors[p]? = some (some vector) ∨
          CompletedFor (askedTexts found.texts vectors) outcome text vector) :
    Absorbed codec sha256 service input found.texts vectors outcome table (result, table) :=
  ⟨fun _ _ h => h, fun _ _ h => Or.inl h, hfilled⟩

theorem absorbed_of_stored (hdigests : found.digests = found.texts.map (textHash sha256))
    (hlength : vectors.length = found.texts.length) {vectors' : List (Option V)}
    {inserted : List Nat} (hplaced : Placed (codec.wellFormed service.dimensions) (missing vectors)
      outcome.entries vectors vectors' [] inserted) {stored : Except EmbeddingCacheError Unit}
    (hstored : storeEntries codec service input run (filledEntries
      (found.digests.map fun digest => (service.compatibility sha256 input, digest)) vectors' inserted)
        table = (stored, table')) {result : Except WireError (List (Option V))}
    (hresult : ∀ vectors'', result = .ok vectors'' → vectors'' = vectors') :
    Absorbed codec sha256 service input found.texts vectors outcome table (result, table') where
  kept key record h := by
    rcases table_of_storeEntries hstored with rfl | ⟨_, rows, _, rfl⟩
    · exact h
    · exact insertAll_kept h
  gained key record h := by
    rcases table_of_storeEntries hstored with rfl | ⟨_, rows, hrows, rfl⟩
    · exact Or.inl h
    rcases insertAll_cases h with hbefore | hrow
    · exact Or.inl hbefore
    obtain ⟨vector, hentry, hwell, hjson⟩ := exists_entry_of_prepareInsert hrows hrow
    obtain ⟨p, hp, hkey, hvector⟩ := mem_filledEntries hentry
    rw [hdigests, List.map_map, List.getElem?_map] at hkey
    obtain ⟨text, htext, rfl⟩ := Option.map_eq_some_iff.mp hkey
    obtain hnone | ⟨vector', hvector', hat⟩ := hplaced.added p hp
    · exact absurd hnone List.not_mem_nil
    obtain rfl := Option.some.inj (Option.some.inj (hvector.symm.trans hvector'))
    exact Or.inr ⟨text, vector, completedFor_of_placedAt hlength htext hat, rfl, hwell, hjson⟩
  filled vectors'' hok p text vector htext hvector := by
    rw [hresult vectors'' hok] at hvector
    rcases hplaced.filled p vector hvector with hbefore | hat
    · exact Or.inl hbefore
    · exact Or.inr (completedFor_of_placedAt hlength htext hat)

theorem absorbed (hdigests : found.digests = found.texts.map (textHash sha256))
    (hlength : vectors.length = found.texts.length) :
    Absorbed codec sha256 service input found.texts vectors outcome table
      (absorb codec service input run
        (found.digests.map fun digest => (service.compatibility sha256 input, digest))
        (missing vectors) vectors outcome table) := by
  have hmisses : ∀ p ∈ missing vectors, p < vectors.length := fun p hp =>
    (List.getElem?_eq_some_iff.mp (mem_missing.mp hp)).1
  unfold absorb
  split
  · exact absorbed_of_unchanged fun _ h => by cases h
  split
  · exact absorbed_of_unchanged fun _ h => by cases h
  rename_i vectors' inserted hplace
  have hplaced := placed_of_place hplace hmisses
  split_ifs with hnone
  · refine absorbed_of_unchanged fun vectors'' hok p text vector htext hvector => ?_
    obtain rfl := Except.ok.inj hok
    rcases hplaced.filled p vector hvector with hbefore | hat
    · exact Or.inl hbefore
    · exact Or.inr (completedFor_of_placedAt hlength htext hat)
  split
  · exact absorbed_of_unchanged fun _ h => by cases h
  dsimp only
  split
  · exact absorbed_of_stored hdigests hlength hplaced Prod.mk.eta.symm fun _ h => by cases h
  · exact absorbed_of_stored hdigests hlength hplaced Prod.mk.eta.symm fun _ h =>
      (Except.ok.inj h).symm

theorem mem_askedTexts (h : LookedUp codec sha256 service input table found.texts vectors) {t : Str} :
    t ∈ askedTexts found.texts vectors ↔
      t ∈ found.texts ∧ table (textKey sha256 service input t) = none := by
  constructor
  · intro ht
    obtain ⟨p, hp, htext⟩ := List.mem_filterMap.mp ht
    exact ⟨List.mem_of_getElem? htext, (h.miss p t htext).mp (mem_missing.mp hp)⟩
  · rintro ⟨ht, hnone⟩
    obtain ⟨p, hp⟩ := List.getElem?_of_mem ht
    exact List.mem_filterMap.mpr ⟨p, mem_missing.mpr ((h.miss p t hp).mpr hnone), hp⟩

theorem nodup_askedTexts (hnodup : found.texts.Nodup) : (askedTexts found.texts vectors).Nodup := by
  refine List.Nodup.filterMap (fun p q t hp hq => ?_) nodup_missing
  exact (List.getElem?_inj (List.getElem?_eq_some_iff.mp hp).1 hnodup).mp (Eq.trans hp hq.symm)

theorem askedTexts_ne_nil (hlength : vectors.length = found.texts.length)
    (hne : missing vectors ≠ []) : askedTexts found.texts vectors ≠ [] := by
  obtain ⟨p, hp⟩ := List.exists_mem_of_ne_nil _ hne
  have hlt := (List.getElem?_eq_some_iff.mp (mem_missing.mp hp)).1
  rw [hlength] at hlt
  exact List.ne_nil_of_mem (List.mem_filterMap.mpr ⟨p, hp, List.getElem?_eq_getElem hlt⟩)

theorem answeredExactly_of_error {asked : Option (List Str)} (error : WireError)
    (hasked : ∀ texts, asked = some texts → texts ≠ [] ∧ texts.Nodup ∧
      ∀ t, t ∈ texts ↔ t ∈ inputs ∧ table (textKey sha256 service input t) = none)
    (hkept : ∀ key record, table key = some record → table' key = some record)
    (hgained : ∀ key record, table' key = some record →
      table key = some record ∨ Gained codec sha256 service input run asked key record)
    (hsound : SoundTable codec sha256 service input computed strings table') :
    AnsweredExactly codec sha256 service input computed strings run inputs table
      ⟨.error error, table', asked⟩ where
  rows _ h := by cases h
  indexed _ h := by cases h
  equalInputs _ h := by cases h
  asked := hasked
  unasked _ h := by cases h
  kept := hkept
  gained := hgained
  sound := hsound

theorem answeredExactly_of_refused
    (hsound : SoundTable codec sha256 service input computed strings table) (error : WireError) :
    AnsweredExactly codec sha256 service input computed strings run inputs table
      ⟨.error error, table, none⟩ :=
  answeredExactly_of_error error (fun _ h => by cases h) (fun _ _ h => h) (fun _ _ h => Or.inl h) hsound

section Answer

variable (hfree : HashesApart sha256 strings) (hinputs : ∀ t ∈ inputs, utf8 t ∈ strings)
  (hsound : SoundTable codec sha256 service input computed strings table)
  (hhonest : ∀ asked, HonestOutcome sha256 service input computed asked (run.infer asked))
  (hcovers : found.Covers sha256 inputs)
  (hlooked : LookedUp codec sha256 service input table found.texts vectors)

include hfree hinputs hsound hhonest hcovers hlooked

theorem computed_of_filled {vectors' : List (Option V)}
    (hfilled : ∀ (p : Nat) text vector, found.texts[p]? = some text →
      vectors'[p]? = some (some vector) → vectors[p]? = some (some vector) ∨
        CompletedFor (askedTexts found.texts vectors)
          (run.infer (askedTexts found.texts vectors)) text vector)
    (p : Nat) (text : Str) (vector : V) (htext : found.texts[p]? = some text)
    (hvector : vectors'[p]? = some (some vector)) :
    computed (service.compatibility sha256 input) text vector := by
  rcases hfilled p text vector htext hvector with hbefore | ⟨entry, hentry, hasked, rfl⟩
  · obtain ⟨record, hrecord, hdecode⟩ := hlooked.hit p text vector htext hbefore
    have hmem := (hcovers.mem_texts hfree hinputs).mp (List.mem_of_getElem? htext)
    exact hsound text (hinputs text hmem) record hrecord vector hdecode
  · exact hhonest _ entry hentry text hasked

theorem sound_of_gained {table' : EmbeddingTable}
    (hgained : ∀ key record, table' key = some record → table key = some record ∨
      ∃ text vector, CompletedFor (askedTexts found.texts vectors)
          (run.infer (askedTexts found.texts vectors)) text vector ∧
        key = textKey sha256 service input text ∧
        codec.wellFormed service.cacheLimits.dimensions vector = true ∧
        record.json = codec.encode vector) :
    SoundTable codec sha256 service input computed strings table' := by
  intro text htext record hrecord vector hdecode
  rcases hgained _ record hrecord with hbefore | ⟨text', vector', hdone, hkey, hwell, hjson⟩
  · exact hsound text htext record hbefore vector hdecode
  · obtain ⟨entry, hentry, hasked, rfl⟩ := hdone
    have hmem : text' ∈ inputs :=
      (hcovers.mem_texts hfree hinputs).mp ((mem_askedTexts hlooked).mp (List.mem_of_getElem? hasked)).1
    obtain rfl := textHash_inj hfree htext (hinputs text' hmem) (Prod.mk.inj hkey).2
    rw [hjson, codec.decode_encode _ _ hwell] at hdecode
    obtain rfl := Option.some.inj hdecode
    exact hhonest _ entry hentry text hasked

theorem answeredExactly_answerBatch :
    AnsweredExactly codec sha256 service input computed strings run inputs table
      (answerBatch codec sha256 service input run found vectors table) := by
  have horder := hcovers.positions hfree hinputs
  have hnodup := hcovers.texts_nodup
  have hmem : ∀ t, t ∈ found.texts ↔ t ∈ inputs := fun t => hcovers.mem_texts hfree hinputs
  unfold answerBatch
  dsimp only
  split_ifs with hmisses
  · -- every distinct text was in the cache
    have hcomputed : ∀ (p : Nat) text vector, found.texts[p]? = some text →
        vectors[p]? = some (some vector) → computed (service.compatibility sha256 input) text vector :=
      computed_of_filled hfree hinputs hsound hhonest hcovers hlooked fun _ _ _ _ h => Or.inl h
    refine ⟨fun response hok => ?_, fun response hok => ?_, fun response hok => ?_, ?_, ?_,
      fun _ _ h => h, fun _ _ h => Or.inl h, hsound⟩
    · exact (rows_computed horder hcomputed (response_of_finish hok)).1
    · exact (rows_computed horder hcomputed (response_of_finish hok)).2
    · exact fun i j a b => rows_equal hnodup horder (response_of_finish hok)
    · intro _ h
      cases h
    · intro _ _ _ t ht hnone
      have hasked := (mem_askedTexts hlooked).mpr ⟨(hmem t).mpr ht, hnone⟩
      rw [askedTexts, hmisses] at hasked
      exact absurd hasked List.not_mem_nil
  split
  · exact answeredExactly_of_refused hsound _
  have habsorbed := @absorbed V codec sha256 service input run table found vectors
    (run.infer (askedTexts found.texts vectors)) hcovers.digests hlooked.length
  have hasked : ∀ texts, some (askedTexts found.texts vectors) = some texts → texts ≠ [] ∧
      texts.Nodup ∧ ∀ t, t ∈ texts ↔ t ∈ inputs ∧ table (textKey sha256 service input t) = none := by
    rintro texts htexts
    obtain rfl := Option.some.inj htexts
    refine ⟨askedTexts_ne_nil hlooked.length hmisses, nodup_askedTexts hnodup, fun t => ?_⟩
    rw [mem_askedTexts hlooked, hmem]
  have hgained : ∀ table' : EmbeddingTable, (∀ key record, table' key = some record → table key = some record ∨
      ∃ text vector, CompletedFor (askedTexts found.texts vectors)
          (run.infer (askedTexts found.texts vectors)) text vector ∧
        key = textKey sha256 service input text ∧
        codec.wellFormed service.cacheLimits.dimensions vector = true ∧
        record.json = codec.encode vector) →
      ∀ key record, table' key = some record → table key = some record ∨
        Gained codec sha256 service input run (some (askedTexts found.texts vectors)) key record := by
    intro table' h key record hrecord
    rcases h key record hrecord with hbefore | ⟨text, vector, hdone, hkey, hwell, hjson⟩
    · exact Or.inl hbefore
    · obtain ⟨entry, hentry, hasked, rfl⟩ := hdone
      exact Or.inr ⟨_, rfl, entry, hentry, text, hasked, hkey, hwell, hjson⟩
  rw [show (missing vectors).filterMap (fun position => found.texts[position]?) =
    askedTexts found.texts vectors from rfl]
  generalize habsorb : absorb codec service input run _ _ _ _ _ = result at habsorbed ⊢
  obtain ⟨outcome, table'⟩ := result
  have hsound' := sound_of_gained hfree hinputs hsound hhonest hcovers hlooked habsorbed.gained
  cases outcome with
  | error error =>
    exact answeredExactly_of_error error hasked habsorbed.kept (hgained _ habsorbed.gained) hsound'
  | ok vectors' =>
    have hcomputed := computed_of_filled hfree hinputs hsound hhonest hcovers hlooked
      (habsorbed.filled vectors' rfl)
    dsimp only
    split
    · exact answeredExactly_of_error _ hasked habsorbed.kept (hgained _ habsorbed.gained) hsound'
    · refine ⟨fun response hok => ?_, fun response hok => ?_, fun response hok => ?_, hasked, ?_,
        habsorbed.kept, hgained _ habsorbed.gained, hsound'⟩
      · exact (rows_computed horder hcomputed (response_of_finish hok)).1
      · exact (rows_computed horder hcomputed (response_of_finish hok)).2
      · exact fun i j a b => rows_equal hnodup horder (response_of_finish hok)
      · intro _ _ h
        cases h

end Answer

theorem answeredExactly_pipeline (hfree : HashesApart sha256 strings)
    (hinputs : ∀ t ∈ inputs, utf8 t ∈ strings)
    (hsound : SoundTable codec sha256 service input computed strings table)
    (hhonest : ∀ asked, HonestOutcome sha256 service input computed asked (run.infer asked)) :
    AnsweredExactly codec sha256 service input computed strings run inputs table
      (embeddingPipeline codec sha256 service input run inputs table) := by
  unfold embeddingPipeline
  split
  · exact answeredExactly_of_refused hsound _
  rename_i found hfound
  have hcovers : found.Covers sha256 ([] ++ inputs) :=
    covers_of_distinctTexts ⟨rfl, List.nodup_nil, .nil, fun _ h => h⟩ hfound
  rw [List.nil_append] at hcovers
  dsimp only
  split
  · exact answeredExactly_of_refused hsound _
  rename_i vectors hread
  exact answeredExactly_answerBatch hfree hinputs hsound hhonest hcovers
    (lookedUp_of_readKeys hcovers.digests (readKeys_of_readCache (ok_of_cacheResult hread)))

end Requests

structure SameNamespace (a b : EmbeddingService) (x y : InputType) : Prop where
  protocol : a.protocol = b.protocol
  sourceIdentity : a.sourceIdentity = b.sourceIdentity
  backendModel : a.backendModel = b.backendModel
  revision : a.revision = b.revision
  model : a.model = b.model
  modelRevision : a.modelRevision = b.modelRevision
  recipe : a.recipe = b.recipe
  dimensions : a.dimensions = b.dimensions
  sendDimensions : a.sendDimensions = b.sendDimensions
  input : x = y

section Namespaces

variable {a b : EmbeddingService} {x y : InputType}

theorem EmbeddingService.namespaceParts_fit (service : EmbeddingService) (input : InputType) :
    ∀ part ∈ (service.namespaceParts input).map utf8, part.length < 2 ^ 64 := by
  have hfits := service.fits
  have hflag : byteLen (if service.sendDimensions then "true".toList else "false".toList) < 2 ^ 64 := by
    split_ifs <;> decide
  have hinput : byteLen input.asStr < 2 ^ 64 := by cases input <;> decide
  have hname : byteLen "graphit-embedding-cache-v1".toList < 2 ^ 64 := by decide
  simp only [List.forall_mem_cons] at hfits
  simp only [namespaceParts, List.map_cons, List.map_nil, List.forall_mem_cons, length_utf8, hname,
    hflag, hinput, hfits, true_and, List.not_mem_nil, false_imp_iff, implies_true]

theorem namespaceParts_eq (h : a.namespaceBytes x = b.namespaceBytes y) :
    a.namespaceParts x = b.namespaceParts y := by
  have hcoded : coded (beBytes 8) ((a.namespaceParts x).map utf8) ++ [] =
      coded (beBytes 8) ((b.namespaceParts y).map utf8) ++ [] := by
    rw [List.append_nil, List.append_nil]
    exact h
  have hcode : ∀ n m, n < 2 ^ 64 → m < 2 ^ 64 → beBytes 8 n = beBytes 8 m → n = m :=
    fun n m hn hm => beBytes_inj (by omega) (by omega)
  have hlength : ((a.namespaceParts x).map utf8).length = ((b.namespaceParts y).map utf8).length := rfl
  have hmap := (coded_append_inj (length_beBytes 8) hcode hlength (a.namespaceParts_fit x)
    (b.namespaceParts_fit y) hcoded).1
  exact List.map_injective_iff.mpr utf8_injective hmap

theorem sameNamespace_of_parts (h : a.namespaceParts x = b.namespaceParts y) :
    SameNamespace a b x y := by
  simp only [EmbeddingService.namespaceParts, List.cons.injEq, true_and, and_true] at h
  obtain ⟨hprotocol, hsource, hbackend, hrevision, hmodel, hmodelRevision, hrecipe, hdimensions, hsend,
    hinput⟩ := h
  refine ⟨hprotocol, hsource, hbackend, hrevision, hmodel, hmodelRevision, hrecipe,
    Nat.repr_injective (String.toList_injective hdimensions), ?_, ?_⟩
  · cases ha : a.sendDimensions <;> cases hb : b.sendDimensions <;> rw [ha, hb] at hsend <;>
      first | rfl | exact absurd hsend (by decide)
  · cases x <;> cases y <;> first | rfl | exact absurd hinput (by decide)

end Namespaces

section Backends

variable {V : Type} {sha256 : Bytes → Digest} {service : EmbeddingService} {input : InputType}
  {computed : Digest → Str → V → Prop} {texts : List Str}

theorem honest_remoteOutcome {answer : RemoteAnswer V}
    (hbatch : ∀ vectors usage, answer = .batch vectors usage → ∀ (i : Nat) text vector,
      vectors[i]? = some vector → texts[i]? = some text →
        computed (service.compatibility sha256 input) text vector)
    (herror : ∀ completed usage failure, answer = .error completed usage failure →
      ∀ entry ∈ completed, ∀ text, texts[entry.1]? = some text →
        computed (service.compatibility sha256 input) text entry.2) :
    HonestOutcome sha256 service input computed texts (remoteOutcome answer) := by
  intro entry hentry text htext
  cases answer with
  | batch vectors usage =>
    obtain ⟨⟨vector, i⟩, hmem, rfl⟩ := List.mem_map.mp hentry
    exact hbatch vectors usage rfl i text vector (List.mem_zipIdx_iff_getElem?.mp hmem) htext
  | error completed usage failure => exact herror completed usage failure rfl entry hentry text htext

theorem localEntries_of_text {admission : Nat → Except WireError Unit}
    {embed : Nat → Str → Except EmbeddingFailure (List V)}
    (hembed : ∀ offset text batch, embed offset text = .ok batch → batch.length ≤ 1 ∧
      ∀ vector ∈ batch, computed (service.compatibility sha256 input) text vector)
    (offset : Nat) : ∀ entry ∈ (localEntries admission embed offset texts).1,
      ∃ k, entry.1 = offset + k ∧ ∀ text, texts[k]? = some text →
        computed (service.compatibility sha256 input) text entry.2 := by
  induction texts generalizing offset with
  | nil => exact fun _ h => absurd h List.not_mem_nil
  | cons text rest ih =>
    intro entry hentry
    unfold localEntries at hentry
    split at hentry
    · exact absurd hentry List.not_mem_nil
    split at hentry
    · exact absurd hentry List.not_mem_nil
    rename_i batch hbatch
    obtain ⟨hone, hvectors⟩ := hembed offset text batch hbatch
    rcases List.mem_append.mp hentry with hnow | hlater
    · obtain ⟨⟨vector, i⟩, hmem, rfl⟩ := List.mem_map.mp hnow
      have hget := List.mem_zipIdx_iff_getElem?.mp hmem
      have hlt := (List.getElem?_eq_some_iff.mp hget).1
      refine ⟨0, by simp only; omega, fun text' htext => ?_⟩
      obtain rfl : text = text' := by simpa using htext
      exact hvectors vector (List.mem_of_getElem? hget)
    · obtain ⟨k, hk, htext⟩ := ih (offset + 1) entry hlater
      exact ⟨k + 1, by omega, fun text' h => htext text' (by simpa using h)⟩

theorem honest_localInfer {admission : Nat → Except WireError Unit}
    {embed : Nat → Str → Except EmbeddingFailure (List V)} {last : Except WireError Unit}
    (hembed : ∀ offset text batch, embed offset text = .ok batch → batch.length ≤ 1 ∧
      ∀ vector ∈ batch, computed (service.compatibility sha256 input) text vector) :
    HonestOutcome sha256 service input computed texts (localInfer admission embed last texts) := by
  intro entry hentry text htext
  have hentries : entry ∈ (localEntries admission embed 0 texts).1 := by
    unfold localInfer at hentry
    dsimp only at hentry
    split at hentry <;> exact hentry
  obtain ⟨k, hk, hcomputed⟩ := localEntries_of_text hembed 0 entry hentries
  rw [Nat.zero_add] at hk
  exact hcomputed text (hk ▸ htext)

end Backends

/-- Batches are answered exactly, for every cache whose entries are of their texts and whatever the
backend answers, its entries being of the texts they have the index of; and only configurations that
agree in everything the vectors depend on share a namespace. The strings are those whose hashes are
taken, which do not collide. -/
theorem embeddings_exact {V : Type} (codec : VectorCodec V) (sha256 : Bytes → Digest)
    (strings : Set Bytes) (hfree : HashesApart sha256 strings)
    (computed : Digest → Str → V → Prop) :
    (∀ (service : EmbeddingService) (input : InputType) (run : EmbeddingRun V) (inputs : List Str)
        (table : EmbeddingTable), (∀ t ∈ inputs, utf8 t ∈ strings) →
      SoundTable codec sha256 service input computed strings table →
      (∀ asked, HonestOutcome sha256 service input computed asked (run.infer asked)) →
        AnsweredExactly codec sha256 service input computed strings run inputs table
          (embeddingPipeline codec sha256 service input run inputs table)) ∧
    ∀ (a b : EmbeddingService) (x y : InputType), a.namespaceBytes x ∈ strings →
      b.namespaceBytes y ∈ strings → a.compatibility sha256 x = b.compatibility sha256 y →
        SameNamespace a b x y := by
  refine ⟨fun service input run inputs table hinputs hsound hhonest => ?_,
    fun a b x y ha hb h => ?_⟩
  · exact answeredExactly_pipeline hfree hinputs hsound hhonest
  · exact sameNamespace_of_parts (namespaceParts_eq (hfree _ ha _ hb h))

namespace Sample

def unaryCodec : VectorCodec Nat where
  wellFormed _ _ := true
  encode n := List.replicate n 'x'
  decode _ s := some s.length
  decode_encode _ n _ := by rw [List.length_replicate]

theorem length_lengthHash (bytes : Bytes) :
    (List.replicate 32 (UInt8.ofNat bytes.length)).length = 32 :=
  List.length_replicate

def lengthHash (bytes : Bytes) : Digest :=
  ⟨List.replicate 32 (UInt8.ofNat bytes.length), length_lengthHash bytes⟩

def embeddingService : EmbeddingService where
  protocol := ['p']
  sourceIdentity := ['s']
  backendModel := ['m']
  revision := ['r']
  model := ['m']
  modelRevision := ['r']
  recipe := ['c']
  dimensions := 1
  sendDimensions := true
  cacheLimits := ⟨1, 8, 8, 16⟩
  fits := by decide

/-- The same backend with another recipe. -/
def otherRecipe : EmbeddingService :=
  { embeddingService with recipe := ['c', 'd'], fits := by decide }

def hashedStrings : List Bytes :=
  [utf8 ['a'], utf8 ['a', 'b'], embeddingService.namespaceBytes .query,
    otherRecipe.namespaceBytes .query]

/-- The vectors of the two recipes: a text's length, and three more for the other recipe. -/
def recipeVector (compatibility : Digest) (text : Str) : Nat :=
  if compatibility = otherRecipe.compatibility lengthHash .query then text.length + 3 else text.length

/-- One text is cached for the recipe, the other one only for the other recipe. -/
def cachedTexts : EmbeddingTable := fun key =>
  if key = textKey lengthHash embeddingService .query ['a'] then
    some ⟨⟨['p'], ['r'], ['m'], "query".toList⟩, ['x']⟩
  else if key = textKey lengthHash otherRecipe .query ['a', 'b'] then
    some ⟨⟨['p'], ['r'], ['m'], "query".toList⟩, "xxxxx".toList⟩
  else none

def lengthRun : EmbeddingRun Nat where
  checkText _ := .ok ()
  readControl := none
  checkRead := .ok ()
  checkAsk := .ok ()
  infer texts := ⟨(texts.zipIdx.map fun entry => (entry.2, entry.1.length)).reverse, [], none⟩
  checkAnswer := .ok ()
  checkStore := .ok ()
  write := .committed
  checkWritten := .ok ()
  checkComplete := .ok ()
  serialize := .ok ()
  checkSend := .ok ()

def threeTexts : EmbeddingEnd Nat :=
  embeddingPipeline unaryCodec lengthHash embeddingService .query lengthRun
    [['a', 'b'], ['a'], ['a', 'b']] cachedTexts

end Sample

/-- Three inputs of which two are equal and one is cached: the backend is asked for the other one,
which is cached for another recipe only; the recipes do not share their vectors. -/
theorem embeddings_exact_three :
    (Sample.threeTexts.answer.map fun response =>
        response.data.map fun row => (row.index, row.embedding)).toOption =
          some [(0, 2), (1, 1), (2, 2)] ∧
      Sample.threeTexts.asked = some [['a', 'b']] ∧
      AnsweredExactly Sample.unaryCodec Sample.lengthHash Sample.embeddingService .query
        (fun compatibility text vector => vector = Sample.recipeVector compatibility text)
        {bytes | bytes ∈ Sample.hashedStrings} Sample.lengthRun
        [['a', 'b'], ['a'], ['a', 'b']] Sample.cachedTexts Sample.threeTexts ∧
      Sample.embeddingService.compatibility Sample.lengthHash .query ≠
        Sample.otherRecipe.compatibility Sample.lengthHash .query := by
  have hfree : HashesApart Sample.lengthHash {bytes | bytes ∈ Sample.hashedStrings} := by
    show ∀ a ∈ Sample.hashedStrings, ∀ b ∈ Sample.hashedStrings, _
    decide +kernel
  obtain ⟨hexact, hnamespace⟩ := embeddings_exact Sample.unaryCodec Sample.lengthHash _ hfree
    fun compatibility text vector => vector = Sample.recipeVector compatibility text
  have hrecipe : ∀ text, Sample.recipeVector
      (Sample.embeddingService.compatibility Sample.lengthHash .query) text = text.length :=
    fun text => if_neg (by decide +kernel)
  refine ⟨by decide +kernel, by decide +kernel,
    hexact Sample.embeddingService .query Sample.lengthRun _ _ ?_ ?_ ?_, fun heq => ?_⟩
  · show ∀ t ∈ _, utf8 t ∈ Sample.hashedStrings
    decide +kernel
  · intro text htext record hrecord vector hvector
    unfold Sample.cachedTexts at hrecord
    split_ifs at hrecord with hfirst hsecond
    · obtain rfl := textHash_inj hfree htext (by show _ ∈ Sample.hashedStrings; decide +kernel)
        (Prod.mk.inj hfirst).2
      obtain rfl := Option.some.inj hrecord
      rw [hrecipe]
      exact (Option.some.inj hvector).symm
    · exact absurd (Prod.mk.inj hsecond).1 (by decide +kernel)
  · intro asked entry hentry text htext
    obtain ⟨⟨text', i⟩, hmem, rfl⟩ := List.mem_map.mp (List.mem_reverse.mp hentry)
    rw [List.mem_zipIdx_iff_getElem?.mp hmem] at htext
    rw [hrecipe, ← Option.some.inj htext]
  · have hsame := (hnamespace Sample.embeddingService Sample.otherRecipe .query .query
      (by show _ ∈ Sample.hashedStrings; decide +kernel)
      (by show _ ∈ Sample.hashedStrings; decide +kernel) heq).recipe
    exact absurd hsame (by decide)

end GraphitBroker
