import GraphitBroker.UploadDigests
import GraphitBroker.Proof.ErrorAtomicity
import GraphitBroker.Proof.ListingPages

/-!
# Uploads with checksums

An upload behind a `DigestReader` is staged exactly if its length and every checksum that was given
with it are those of the whole body, however the body arrives.
-/

namespace GraphitBroker

open Steps ExceptList

theorem ChecksumAlgorithm.header_injective : Function.Injective ChecksumAlgorithm.header := by
  intro a b h
  have hname : a.name = b.name := List.append_cancel_left h
  cases a <;> cases b <;> first | rfl | exact absurd hname (by decide)

theorem ChecksumAlgorithm.mem_all (a : ChecksumAlgorithm) : a ∈ ChecksumAlgorithm.all := by
  cases a <;> decide

theorem ChecksumAlgorithm.ofHeader_eq_some_iff {h : Str} {a : ChecksumAlgorithm} :
    ofHeader h = some a ↔ h = a.header := by
  constructor
  · intro hfind
    simpa using List.find?_some hfind
  · rintro rfl
    cases hfind : ofHeader a.header with
    | none => exact absurd (beq_self_eq_true _) (List.find?_eq_none.mp hfind a a.mem_all)
    | some b =>
      have hb : a.header = b.header := by simpa using List.find?_some hfind
      rw [ChecksumAlgorithm.header_injective hb]

theorem DigestKey.mem_all (key : DigestKey) : key ∈ DigestKey.all := by
  cases key with
  | contentMd5 => exact List.mem_cons_self
  | checksum a => exact List.mem_cons_of_mem _ (List.mem_map_of_mem a.mem_all)

def Carries (values : List Bytes) (o : Option Str) : Prop :=
  (values = [] ∧ o = none) ∨ ∃ value t, values = [value] ∧ headerText value = some t ∧ o = some t

def Declares (headers : HeaderMap) (a : ChecksumAlgorithm) : Prop :=
  ∃ value ∈ headers.getAll "x-amz-trailer".toList, ∃ t, headerText value = some t ∧
    a.header ∈ (t.splitOn ',').map trim

namespace DigestReader

variable {crate : ChecksumCrate} {headers : HeaderMap} {trailers : Option HeaderMap}
  {length : Option Int} {reader : DigestReader crate} {expected expected' : ExpectedDigests}
  {a : ChecksumAlgorithm}

theorem text_eq_ok {value : Bytes} {t : Str} : text value = .ok t ↔ headerText value = some t := by
  unfold text
  cases headerText value with
  | none => exact ⟨nofun, nofun⟩
  | some t' =>
    rw [Except.ok.injEq, Option.some.injEq]

variable {as : List ChecksumAlgorithm}

theorem headerDigests_spec (hnodup : as.Nodup)
    (h : headerDigests headers as expected = .ok expected')
    (hnone : ∀ a ∈ as, expected (.checksum a) = none) :
    (∀ a, (a ∈ as → Carries (headers.getAll a.header) (expected' (.checksum a))) ∧
      (a ∉ as → expected' (.checksum a) = expected (.checksum a))) ∧
    expected' .contentMd5 = expected .contentMd5 := by
  induction as generalizing expected with
  | nil =>
    obtain rfl := Except.ok.inj h
    exact ⟨fun _ => ⟨fun ha => absurd ha List.not_mem_nil, fun _ => rfl⟩, rfl⟩
  | cons first rest ih =>
    obtain ⟨hfirst, hrest⟩ := List.nodup_cons.mp hnodup
    rw [headerDigests] at h
    split at h
    · next hvalues =>
      obtain ⟨hall, hmd5⟩ := ih hrest h fun a ha => hnone a (List.mem_cons_of_mem _ ha)
      refine ⟨fun a => ⟨fun ha => ?_, fun ha => ?_⟩, hmd5⟩
      · rcases List.mem_cons.mp ha with rfl | ha
        · exact .inl ⟨hvalues, ((hall a).2 hfirst).trans (hnone a List.mem_cons_self)⟩
        · exact (hall a).1 ha
      · exact (hall a).2 fun hmem => ha (List.mem_cons_of_mem _ hmem)
    · next value hvalues =>
      obtain ⟨t, ht, h⟩ := bind_eq_ok.mp h
      have hother : ∀ a, a ≠ first →
          Function.update expected (.checksum first) (some t) (.checksum a) =
            expected (.checksum a) :=
        fun a ha => Function.update_of_ne (fun heq => ha (DigestKey.checksum.inj heq)) _ _
      obtain ⟨hall, hmd5⟩ := ih hrest h fun a ha => by
        rw [hother a fun heq => hfirst (heq ▸ ha)]
        exact hnone a (List.mem_cons_of_mem _ ha)
      refine ⟨fun a => ⟨fun ha => ?_, fun ha => ?_⟩,
        hmd5.trans (Function.update_of_ne (by simp) _ _)⟩
      · rcases List.mem_cons.mp ha with rfl | ha
        · refine .inr ⟨value, t, hvalues, text_eq_ok.mp ht, ?_⟩
          rw [(hall a).2 hfirst, Function.update_self]
        · exact (hall a).1 ha
      · rw [(hall a).2 fun hmem => ha (List.mem_cons_of_mem _ hmem)]
        exact hother a fun heq => ha (heq ▸ List.mem_cons_self)
    · cases h

theorem contentMd5_spec (h : contentMd5 headers expected = .ok expected')
    (hnone : expected .contentMd5 = none)
    (hlength : (headers.getAll "content-md5".toList).length ≤ 1) :
    (∀ a, expected' (.checksum a) = expected (.checksum a)) ∧
      Carries (headers.getAll "content-md5".toList) (expected' .contentMd5) := by
  unfold contentMd5 at h
  split at h
  · next hvalues =>
    obtain rfl := Except.ok.inj h
    exact ⟨fun _ => rfl, .inl ⟨hvalues, hnone⟩⟩
  · next value rest hvalues =>
    obtain ⟨t, ht, h⟩ := bind_eq_ok.mp h
    obtain rfl := Except.ok.inj h
    obtain rfl : rest = [] := by
      rw [hvalues, List.length_cons] at hlength
      exact List.length_eq_zero_iff.mp (by omega)
    exact ⟨fun a => Function.update_of_ne (by simp) _ _,
      .inr ⟨value, t, hvalues, text_eq_ok.mp ht, Function.update_self _ _ _⟩⟩

theorem trailerNames_spec {names : List Str} (h : trailerNames headers = .ok names)
    (hlength : (headers.getAll "x-amz-trailer".toList).length ≤ 1) :
    a.header ∈ names ↔ Declares headers a := by
  unfold trailerNames at h
  unfold Declares
  split at h
  · next hvalues =>
    obtain rfl := Except.ok.inj h
    rw [hvalues]
    simp
  · next value rest hvalues =>
    obtain ⟨t, ht, h⟩ := bind_eq_ok.mp h
    obtain rfl := Except.ok.inj h
    obtain rfl : rest = [] := by
      rw [hvalues, List.length_cons] at hlength
      exact List.length_eq_zero_iff.mp (by omega)
    rw [hvalues]
    constructor
    · intro hmem
      exact ⟨value, List.mem_singleton_self _, t, text_eq_ok.mp ht, hmem⟩
    · rintro ⟨value', hvalue', t', ht', hmem⟩
      obtain rfl := List.mem_singleton.mp hvalue'
      obtain rfl := Option.some.inj ((text_eq_ok.mp ht).symm.trans ht')
      exact hmem

theorem declaredTrailers_spec {names : List Str} {declared declared' : List ChecksumAlgorithm}
    (h : declaredTrailers expected names declared = .ok declared') :
    (∀ a, a ∈ declared' ↔ a ∈ declared ∨ a.header ∈ names) ∧
      ∀ a ∈ declared', a ∈ declared ∨ expected (.checksum a) = none := by
  induction names generalizing declared with
  | nil =>
    obtain rfl := Except.ok.inj h
    exact ⟨fun a => by simp, fun a ha => .inl ha⟩
  | cons name rest ih =>
    rw [declaredTrailers] at h
    split at h
    · cases h
    · next first hfirst =>
      split_ifs at h with hrepeated
      obtain ⟨hmem, hnone⟩ := ih h
      obtain rfl := ChecksumAlgorithm.ofHeader_eq_some_iff.mp hfirst
      rw [Bool.or_eq_true, not_or, Bool.not_eq_true, Option.isSome_eq_false_iff,
        Option.isNone_iff_eq_none] at hrepeated
      refine ⟨fun a => ?_, fun a ha => ?_⟩
      · rw [hmem, List.mem_append, List.mem_singleton, List.mem_cons, or_assoc,
          ChecksumAlgorithm.header_injective.eq_iff]
      · rcases hnone a ha with ha | ha
        · rcases List.mem_append.mp ha with ha | ha
          · exact .inl ha
          · rw [List.mem_singleton.mp ha]
            exact .inr hrepeated.1
        · exact .inr ha

structure OfRequest (headers : HeaderMap) (trailers : Option HeaderMap) (length : Option Int)
    (reader : DigestReader crate) : Prop where
  given : ∀ a, Carries (headers.getAll a.header) (reader.expected (.checksum a))
  md5Given : Carries (headers.getAll "content-md5".toList) (reader.expected .contentMd5)
  announced : ∀ a, a ∈ reader.declared ↔ Declares headers a
  disjoint : ∀ a ∈ reader.declared, reader.expected (.checksum a) = none
  taken : reader.trailers = trailers
  size : reader.length.map Int.ofNat = length
  running : ∀ a, reader.hasher a =
    if requested reader.expected reader.declared a then some (crate.new a) else none
  fresh : reader.read = 0

theorem ofRequest_of_new (h : new crate headers trailers length = .ok reader) :
    reader.OfRequest headers trailers length := by
  simp only [new, bind_eq_ok, ExceptList.failIf_eq_ok, not_or, Nat.not_lt] at h
  obtain ⟨first, hfirst, -, ⟨hmd5s, htrailers⟩, second, hsecond, names, hnames, declared, hdeclared,
    n, hn, h⟩ := h
  obtain rfl := Except.ok.inj h
  obtain ⟨hall, hnone⟩ := headerDigests_spec (by decide) hfirst fun _ _ => rfl
  obtain ⟨hkept, hmd5⟩ := contentMd5_spec hsecond hnone hmd5s
  obtain ⟨hmem, hdisjoint⟩ := declaredTrailers_spec hdeclared
  refine ⟨fun a => ?_, hmd5, fun a => ?_, fun a ha => ?_, rfl, ?_, fun a => rfl, rfl⟩
  · show Carries _ (second (.checksum a))
    rw [hkept]
    exact (hall a).1 a.mem_all
  · rw [hmem, trailerNames_spec hnames htrailers]
    simp
  · exact (hdisjoint a ha).resolve_left List.not_mem_nil
  · show n.map Int.ofNat = length
    cases length with
    | none =>
      obtain rfl := Except.ok.inj hn
      rfl
    | some m =>
      rw [declaredLength] at hn
      split_ifs at hn with hneg
      obtain rfl := Except.ok.inj hn
      exact congrArg some (Int.toNat_of_nonneg (Int.not_lt.mp hneg))

def fed (reader : DigestReader crate) (bytes : Bytes) : DigestReader crate :=
  { reader with
    read := reader.read + bytes.length
    hasher := fun a => (reader.hasher a).map fun s => crate.update s bytes }

theorem fed_nil (reader : DigestReader crate) : reader.fed [] = reader := by
  have hhasher : (fun a => (reader.hasher a).map fun s => crate.update s []) = reader.hasher := by
    funext a
    simp only [crate.update_nil, Option.map_id']
  rw [fed, hhasher]
  rfl

theorem fed_fed (reader : DigestReader crate) (a b : Bytes) :
    (reader.fed a).fed b = reader.fed (a ++ b) := by
  simp only [fed, Option.map_map, Function.comp_def, crate.update_append, List.length_append,
    Nat.add_assoc]

theorem feed_eq_ok {reader' : DigestReader crate} {chunk : Bytes} :
    reader.feed chunk = .ok reader' ↔ reader.read + chunk.length < 2 ^ 64 ∧
      reader' = reader.fed chunk := by
  unfold feed
  split_ifs with hlarge
  · exact ⟨nofun, fun h => absurd h.1 (Nat.not_lt.mpr hlarge)⟩
  · rw [Except.ok.injEq]
    exact ⟨fun h => ⟨Nat.lt_of_not_le hlarge, h.symm⟩, fun h => h.2.symm⟩

def TrailerText (headers : HeaderMap) (a : ChecksumAlgorithm) (t : Str) : Prop :=
  ∃ value, headers.getAll a.header = [value] ∧ headerText value = some t

theorem TrailerText.unique {t t' : Str} (h : TrailerText headers a t)
    (h' : TrailerText headers a t') : t = t' := by
  obtain ⟨value, hvalues, ht⟩ := h
  obtain ⟨value', hvalues', ht'⟩ := h'
  obtain ⟨rfl, -⟩ := List.cons.inj (hvalues.symm.trans hvalues')
  exact Option.some.inj (ht.symm.trans ht')

theorem trailerDigests_spec (h : trailerDigests headers as expected = .ok expected') :
    (∀ a, (a ∈ as → ∃ t, TrailerText headers a t ∧ expected' (.checksum a) = some t) ∧
      (a ∉ as → expected' (.checksum a) = expected (.checksum a))) ∧
    expected' .contentMd5 = expected .contentMd5 := by
  induction as generalizing expected with
  | nil =>
    obtain rfl := Except.ok.inj h
    exact ⟨fun _ => ⟨fun ha => absurd ha List.not_mem_nil, fun _ => rfl⟩, rfl⟩
  | cons first rest ih =>
    rw [trailerDigests] at h
    split at h
    · next value hvalues =>
      obtain ⟨t, ht, h⟩ := bind_eq_ok.mp h
      obtain ⟨hall, hmd5⟩ := ih h
      refine ⟨fun a => ⟨fun ha => ?_, fun ha => ?_⟩,
        hmd5.trans (Function.update_of_ne (by simp) _ _)⟩
      · by_cases hmem : a ∈ rest
        · exact (hall a).1 hmem
        · obtain rfl : a = first := (List.mem_cons.mp ha).resolve_right hmem
          refine ⟨t, ⟨value, hvalues, text_eq_ok.mp ht⟩, ?_⟩
          rw [(hall a).2 hmem, Function.update_self]
      · rw [(hall a).2 fun hmem => ha (List.mem_cons_of_mem _ hmem)]
        refine Function.update_of_ne (fun heq => ha ?_) _ _
        exact DigestKey.checksum.inj heq ▸ List.mem_cons_self
    · cases h

theorem exists_trailerDigests (h : ∀ a ∈ as, ∃ t, TrailerText headers a t) :
    ∃ expected', trailerDigests headers as expected = .ok expected' := by
  induction as generalizing expected with
  | nil => exact ⟨expected, rfl⟩
  | cons first rest ih =>
    obtain ⟨t, value, hvalues, ht⟩ := h first List.mem_cons_self
    obtain ⟨expected', h'⟩ := @ih (Function.update expected (.checksum first) (some t))
      fun a ha => h a (List.mem_cons_of_mem _ ha)
    refine ⟨expected', ?_⟩
    rw [trailerDigests, hvalues]
    exact bind_eq_ok.mpr ⟨t, text_eq_ok.mpr ht, h'⟩

theorem allExpected_spec (h : reader.allExpected = .ok expected') :
    (∀ a, (a ∈ reader.declared → ∃ hs t, reader.trailers = some hs ∧ TrailerText hs a t ∧
        expected' (.checksum a) = some t) ∧
      (a ∉ reader.declared → expected' (.checksum a) = reader.expected (.checksum a))) ∧
    expected' .contentMd5 = reader.expected .contentMd5 := by
  unfold allExpected at h
  split_ifs at h with hempty
  · obtain rfl := Except.ok.inj h
    rw [List.isEmpty_iff] at hempty
    rw [hempty]
    exact ⟨fun a => ⟨fun ha => absurd ha List.not_mem_nil, fun _ => rfl⟩, rfl⟩
  · split at h
    · cases h
    · next hs htrailers =>
      obtain ⟨hall, hmd5⟩ := trailerDigests_spec h
      refine ⟨fun a => ⟨fun ha => ?_, (hall a).2⟩, hmd5⟩
      obtain ⟨t, htext, ht⟩ := (hall a).1 ha
      exact ⟨hs, t, htrailers, htext, ht⟩

theorem exists_allExpected (h : ∀ a ∈ reader.declared, ∃ hs t, reader.trailers = some hs ∧
    TrailerText hs a t) : ∃ expected', reader.allExpected = .ok expected' := by
  unfold allExpected
  split_ifs with hempty
  · exact ⟨_, rfl⟩
  · obtain ⟨first, hfirst⟩ := List.exists_mem_of_ne_nil _ fun hnil =>
      hempty (List.isEmpty_iff.mpr hnil)
    obtain ⟨hs, -, htrailers, -⟩ := h first hfirst
    rw [htrailers]
    refine exists_trailerDigests fun a ha => ?_
    obtain ⟨hs', t, htrailers', htext⟩ := h a ha
    obtain rfl := Option.some.inj (htrailers.symm.trans htrailers')
    exact ⟨t, htext⟩

structure Matches (crate : ChecksumCrate) (headers : HeaderMap) (trailers : Option HeaderMap)
    (length : Option Int) (body : Bytes) : Prop where
  declaredLength : ∀ n, length = some n → (body.length : Int) = n
  checksums : ∀ a, ∀ value ∈ headers.getAll a.header,
    headerText value = some (crate.digest a body)
  contentMd5 : ∀ value ∈ headers.getAll "content-md5".toList,
    headerText value = some (crate.digest .md5 body)
  trailing : ∀ a, Declares headers a → ∃ hs value, trailers = some hs ∧
    hs.getAll a.header = [value] ∧ headerText value = some (crate.digest a body)

def Reports (crate : ChecksumCrate) (headers : HeaderMap) (body : Bytes) (checksum : Checksum) :
    Prop :=
  ∀ a t, checksum a = some t ↔
    (headers.getAll a.header ≠ [] ∨ Declares headers a) ∧ t = crate.digest a body

theorem finish_fed_eq_ok {body : Bytes} {checksum : Checksum} (hfresh : reader.read = 0) :
    (reader.fed body).finish = .ok checksum ↔
      (∀ n, reader.length = some n → n = body.length) ∧ ∃ expected',
        reader.allExpected = .ok expected' ∧
        (∀ key v, expected' key = some v →
          ((reader.fed body).hasher key.algorithm).map crate.finalize = some v) ∧
        checksum = fun a => if a == .md5 && (expected' (.checksum .md5)).isNone then none
          else ((reader.fed body).hasher a).map crate.finalize := by
  have hread : (reader.fed body).read = body.length := by rw [fed, hfresh, Nat.zero_add]
  have hlength : ¬((reader.fed body).length.any (fun n => n != (reader.fed body).read) = true) ↔
      ∀ n, reader.length = some n → n = body.length := by
    rw [hread]
    show ¬(reader.length.any _ = true) ↔ _
    cases reader.length <;> simp
  have hall : ∀ expected' : ExpectedDigests,
      ¬((DigestKey.all.all fun key => (expected' key).all fun v =>
        ((reader.fed body).hasher key.algorithm).map crate.finalize == some v) = false) ↔
      ∀ key v, expected' key = some v →
        ((reader.fed body).hasher key.algorithm).map crate.finalize = some v := by
    intro expected'
    rw [Bool.not_eq_false, List.all_eq_true]
    simp only [Option.all_eq_true, beq_iff_eq]
    exact ⟨fun h key => h key key.mem_all, fun h key _ => h key⟩
  simp only [finish, bind_eq_ok, ExceptList.failIf_eq_ok, hlength, hall]
  constructor
  · rintro ⟨-, hn, expected', hexpected, -, hvalues, h⟩
    exact ⟨hn, expected', hexpected, hvalues, (Except.ok.inj h).symm⟩
  · rintro ⟨hn, expected', hexpected, hvalues, rfl⟩
    exact ⟨(), hn, expected', hexpected, (), hvalues, rfl⟩

section Finish

variable {body : Bytes} (hr : reader.OfRequest headers trailers length)

include hr

theorem OfRequest.isSome_iff (hexpected : reader.allExpected = .ok expected') :
    (expected' (.checksum a)).isSome = true ↔ headers.getAll a.header ≠ [] ∨ Declares headers a := by
  obtain ⟨hall, -⟩ := allExpected_spec hexpected
  by_cases ha : a ∈ reader.declared
  · obtain ⟨hs, t, -, -, ht⟩ := (hall a).1 ha
    rw [ht]
    exact ⟨fun _ => .inr ((hr.announced a).mp ha), fun _ => rfl⟩
  · rw [(hall a).2 ha]
    rcases hr.given a with ⟨hvalues, hnone⟩ | ⟨value, t, hvalues, -, ht⟩
    · rw [hnone, hvalues]
      exact ⟨nofun, fun h => (h.resolve_left (not_not.mpr rfl) |> (hr.announced a).mpr |> ha).elim⟩
    · rw [ht, hvalues]
      exact ⟨fun _ => .inl (List.cons_ne_nil _ _), fun _ => rfl⟩

theorem OfRequest.actual_eq (a : ChecksumAlgorithm) :
    ((reader.fed body).hasher a).map crate.finalize =
      if requested reader.expected reader.declared a then some (crate.digest a body) else none := by
  show ((reader.hasher a).map _).map _ = _
  rw [hr.running a]
  split_ifs <;> rfl

theorem OfRequest.actual_eq_some {t : Str}
    (h : ((reader.fed body).hasher a).map crate.finalize = some t) : t = crate.digest a body := by
  rw [hr.actual_eq] at h
  split_ifs at h
  exact (Option.some.inj h).symm

theorem OfRequest.requested_of_asked (h : headers.getAll a.header ≠ [] ∨ Declares headers a) :
    requested reader.expected reader.declared a = true := by
  unfold requested
  rcases h with h | h
  · rcases hr.given a with ⟨hvalues, -⟩ | ⟨value, t, -, -, ht⟩
    · exact absurd hvalues h
    · rw [ht]
      rfl
  · rw [List.contains_iff_mem.mpr ((hr.announced a).mpr h), Bool.or_true, Bool.true_or]

theorem OfRequest.matches_of_finish {checksum : Checksum}
    (h : (reader.fed body).finish = .ok checksum) :
    Matches crate headers trailers length body ∧ Reports crate headers body checksum := by
  obtain ⟨hlength, expected', hexpected, hvalues, rfl⟩ := (finish_fed_eq_ok hr.fresh).mp h
  obtain ⟨hall, hmd5⟩ := allExpected_spec hexpected
  refine ⟨⟨fun n hn => ?_, fun a value hvalue => ?_, fun value hvalue => ?_, fun a ha => ?_⟩,
    fun a t => ?_⟩
  · obtain ⟨m, hm, rfl⟩ := Option.map_eq_some_iff.mp (hr.size.trans hn)
    rw [hlength m hm]
    rfl
  · rcases hr.given a with ⟨hnil, -⟩ | ⟨value', t, hone, htext, ht⟩
    · rw [hnil] at hvalue
      cases hvalue
    · obtain rfl : value = value' := List.mem_singleton.mp (hone ▸ hvalue)
      have hfree : a ∉ reader.declared := by
        intro ha
        rw [hr.disjoint a ha] at ht
        cases ht
      rw [htext, hr.actual_eq_some (hvalues (.checksum a) t (((hall a).2 hfree).trans ht))]
      rfl
  · rcases hr.md5Given with ⟨hnil, -⟩ | ⟨value', t, hone, htext, ht⟩
    · rw [hnil] at hvalue
      cases hvalue
    · obtain rfl : value = value' := List.mem_singleton.mp (hone ▸ hvalue)
      rw [htext, hr.actual_eq_some (hvalues .contentMd5 t (hmd5.trans ht))]
      rfl
  · obtain ⟨hs, t, htaken, ⟨value, hvalue, htext⟩, ht⟩ := (hall a).1 ((hr.announced a).mpr ha)
    refine ⟨hs, value, hr.taken.symm.trans htaken, hvalue, ?_⟩
    rw [htext, hr.actual_eq_some (hvalues (.checksum a) t ht)]
    rfl
  · have hasked := @OfRequest.isSome_iff _ _ _ _ _ _ a hr hexpected
    dsimp only
    split_ifs with hhidden
    · -- An MD5 that only `content-md5` asked for is not reported.
      rw [Bool.and_eq_true, beq_iff_eq, Option.isNone_iff_eq_none] at hhidden
      obtain ⟨rfl, hnone⟩ := hhidden
      rw [hnone] at hasked
      exact ⟨nofun, fun h => absurd (hasked.mpr h.1) Bool.false_ne_true⟩
    · rw [hr.actual_eq]
      constructor
      · intro h
        split_ifs at h with hrequested
        refine ⟨hasked.mp ?_, (Option.some.inj h).symm⟩
        by_contra hnone
        rw [Option.not_isSome_iff_eq_none] at hnone
        have hother : a ≠ .md5 := by
          rintro rfl
          exact hhidden (by rw [hnone]; rfl)
        have hnot : ¬(headers.getAll a.header ≠ [] ∨ Declares headers a) := by
          intro hask
          have := hasked.mpr hask
          rw [hnone] at this
          cases this
        rw [requested, Bool.or_eq_true, Bool.or_eq_true, Bool.and_eq_true, beq_iff_eq] at hrequested
        rcases hrequested with (hgiven | hdeclared) | ⟨hmd5', -⟩
        · rcases hr.given a with ⟨-, hnone'⟩ | ⟨value, t', hone, -, -⟩
          · rw [hnone'] at hgiven
            cases hgiven
          · exact hnot (.inl (by rw [hone]; exact List.cons_ne_nil _ _))
        · exact hnot (.inr ((hr.announced a).mp (List.contains_iff_mem.mp hdeclared)))
        · exact hother hmd5'
      · rintro ⟨hask, rfl⟩
        rw [if_pos (hr.requested_of_asked hask)]

theorem OfRequest.exists_finish (h : Matches crate headers trailers length body) :
    ∃ checksum, (reader.fed body).finish = .ok checksum := by
  have htrailing : ∀ a ∈ reader.declared, ∃ hs, reader.trailers = some hs ∧
      TrailerText hs a (crate.digest a body) := by
    intro a ha
    obtain ⟨hs, value, hs', hvalue, htext⟩ := h.trailing a ((hr.announced a).mp ha)
    exact ⟨hs, hr.taken.trans hs', value, hvalue, htext⟩
  obtain ⟨expected', hexpected⟩ := exists_allExpected fun a ha => by
    obtain ⟨hs, htaken, htext⟩ := htrailing a ha
    exact ⟨hs, _, htaken, htext⟩
  refine ⟨_, (finish_fed_eq_ok hr.fresh).mpr ⟨fun n hn => ?_, expected', hexpected, ?_, rfl⟩⟩
  · have := h.declaredLength n (by rw [← hr.size, hn]; rfl)
    omega
  · obtain ⟨hall, hmd5⟩ := allExpected_spec hexpected
    rintro (a | _) v hv
    · show ((reader.fed body).hasher a).map crate.finalize = some v
      have hasked := (@OfRequest.isSome_iff _ _ _ _ _ _ a hr hexpected).mp (by rw [hv]; rfl)
      rw [hr.actual_eq, if_pos (hr.requested_of_asked hasked)]
      by_cases ha : a ∈ reader.declared
      · obtain ⟨hs, t, htaken, htext, ht⟩ := (hall a).1 ha
        obtain ⟨hs', htaken', htext'⟩ := htrailing a ha
        obtain rfl := Option.some.inj (htaken.symm.trans htaken')
        rw [htext'.unique htext, ← hv, ht]
      · rw [(hall a).2 ha] at hv
        rcases hr.given a with ⟨-, hnone⟩ | ⟨value, t, hone, htext, ht⟩
        · rw [hnone] at hv
          cases hv
        · rw [← hv, ht, ← htext, h.checksums a value (by rw [hone]; exact List.mem_singleton_self _)]
    · show ((reader.fed body).hasher .md5).map crate.finalize = some v
      rw [hmd5] at hv
      have hrequested : requested reader.expected reader.declared .md5 = true := by
        rw [requested, hv]
        simp
      rw [hr.actual_eq, if_pos hrequested]
      rcases hr.md5Given with ⟨-, hnone⟩ | ⟨value, t, hone, htext, ht⟩
      · rw [hnone] at hv
        cases hv
      · rw [← hv, ht, ← htext, h.contentMd5 value (by rw [hone]; exact List.mem_singleton_self _)]

end Finish

end DigestReader

namespace FilesystemStore

open DigestReader

variable {store : FilesystemStore} {caller : Caller} {crate : ChecksumCrate}
  {reader : DigestReader crate} {alone : Prop} {permits : Volume → Mutation → Prop}
  {held : List Nat} {v : Volume} {key : Str}

theorem quiet_digestStep {α : Type} {r : Except S3ErrorCode α} {F : α → Volume → Prop}
    (h : ∀ value, r = .ok value → F value v) :
    store.Quiet alone permits (digestStep r) held v F := by
  cases r with
  | ok value => exact quiet_pure (h value rfl)
  | error e => exact quiet_throw rfl

theorem chunkSize_pos {left chunk : Nat} (h : 0 < left) : 0 < chunkSize left chunk := by
  rw [chunkSize]
  omega

theorem chunkSize_le (left chunk : Nat) : chunkSize left chunk ≤ left := Nat.min_le_left _ _

theorem quiet_read {left : Nat} (hleft : 0 < left) :
    store.Quiet alone permits (.perform (.read left)) held v
      fun count _ => 0 < count ∧ count ≤ left := by
  refine quiet_perform rfl fun choice v' count _ hcount => ?_
  rw [FsOp.exec_eq_succeed hcount] at hcount
  obtain rfl : chunkSize left choice.chunk = count := Except.ok.inj hcount
  exact ⟨chunkSize_pos hleft, chunkSize_le _ _⟩

theorem take_append_drop_pred {b : UInt8} {rest : Bytes} {count : Nat} (h : 0 < count) :
    (b :: rest).take count ++ rest.drop (count - 1) = b :: rest := by
  obtain ⟨n, rfl⟩ := Nat.exists_eq_succ_of_ne_zero h.ne'
  rw [List.take_succ_cons, Nat.succ_sub_one, List.cons_append, List.take_append_drop]

theorem quiet_digestDrain (staged bytes : Bytes) (skip : Nat)
    (hstaged : staged.length ≤ store.config.maxObjectBytes) :
    store.Quiet alone permits
      (store.digestDrain caller (reader.fed staged) staged skip bytes) held v
      fun result _ => result.1 = staged ++ bytes.drop skip ∧
        result.1.length ≤ store.config.maxObjectBytes ∧
        (reader.fed result.1).finish = .ok result.2 := by
  induction bytes generalizing staged skip v with
  | nil =>
    have hnil : staged ++ ([] : Bytes).drop skip = staged := by simp
    rw [hnil]
    cases skip <;>
      exact (quiet_step rfl).next fun _ _ => (quiet_digestStep fun checksum h => h).bind
        fun checksum _ _ h => quiet_pure ⟨rfl, hstaged, h⟩
  | cons b rest ih =>
    cases skip with
    | succ skip => exact ih staged skip hstaged
    | zero =>
      refine (quiet_read (Nat.succ_pos _)).bind fun count v₁ _ hcount => ?_
      refine (quiet_digestStep (F := fun fed _ =>
        fed = reader.fed (staged ++ (b :: rest).take count)) fun fed hfed => ?_).bind
          fun fed v₂ _ hfed => ?_
      · rw [(feed_eq_ok.mp hfed).2, fed_fed]
      · refine (quiet_failIf rfl).bind fun _ v₃ _ hfits => quiet_ioStep.next fun _ v₄ =>
          quiet_checked.next fun _ v₅ => ?_
        have hlength : (staged ++ (b :: rest).take count).length = staged.length + count := by
          rw [List.length_append, List.length_take, List.length_cons, Nat.min_eq_left hcount.2]
        rw [hfed]
        refine (ih _ (count - 1) (by omega)).mono fun result _ _ hresult => ?_
        rw [List.append_assoc, take_append_drop_pred hcount.1] at hresult
        exact hresult

theorem run_digestDrain {body : Bytes} {choices : Nat → FsChoice} {result : Bytes × Checksum}
    (hfresh : reader.fed [] = reader)
    (h : (fsMachine.run (store.digestDrain caller reader [] 0 body) choices ⟨[], []⟩ v).result =
      .ok result) :
    result.1 = body ∧ body.length ≤ store.config.maxObjectBytes ∧
      (reader.fed body).finish = .ok result.2 := by
  have hquiet := @quiet_digestDrain store caller _ reader True (fun _ _ => True) [] v [] body 0
    (Nat.zero_le _)
  rw [hfresh] at hquiet
  have hsound := (Machine.run_sound rely_refl (hquiet []) choices).2
  rw [h] at hsound
  obtain ⟨hbytes, hlength, hfinish⟩ := hsound
  rw [List.nil_append, List.drop_zero] at hbytes
  rw [hbytes] at hlength hfinish
  exact ⟨hbytes, hlength, hfinish⟩

theorem answers_read {α : Type} {left : Nat} {f : Nat → FsProg α}
    {r : Except FilesystemStoreError α} (hleft : 0 < left)
    (h : ∀ count, 0 < count → count ≤ left → Answers caller (f count) v r) :
    Answers caller (Prog.bind (.perform (.read left)) f) v r :=
  Machine.gives_step fun _ hcalm =>
    ⟨_, exec_of_calm hcalm, h _ (chunkSize_pos hleft) (chunkSize_le _ _)⟩

theorem answers_digestDrain {checksum : Checksum} (hu64 : store.config.maxObjectBytes < 2 ^ 64)
    (hfresh : reader.read = 0) (staged bytes : Bytes) (skip : Nat)
    (hlength : (staged ++ bytes.drop skip).length ≤ store.config.maxObjectBytes)
    (hfinish : (reader.fed (staged ++ bytes.drop skip)).finish = .ok checksum) :
    Answers caller (store.digestDrain caller (reader.fed staged) staged skip bytes) v
      (.ok (staged ++ bytes.drop skip, checksum)) := by
  induction bytes generalizing staged skip with
  | nil =>
    have hnil : staged ++ ([] : Bytes).drop skip = staged := by simp
    rw [hnil] at hfinish ⊢
    have hread : Answers caller (.perform (.read 0)) v (.ok 0) :=
      answers_perform fun choice _ => by
        show FsOp.silent (.ok (chunkSize 0 choice.chunk)) = _
        rw [chunkSize, Nat.zero_min]
        rfl
    cases skip <;>
      · refine hread.then (Machine.Gives.then (Machine.gives_ofExcept_eq ?_) (Machine.gives_pure _))
        rw [hfinish]
        rfl
  | cons b rest ih =>
    cases skip with
    | succ skip => exact ih staged skip hlength hfinish
    | zero =>
      refine answers_read (Nat.succ_pos _) fun count hpos hle => ?_
      have htotal : staged ++ (b :: rest).drop 0 =
          (staged ++ (b :: rest).take count) ++ rest.drop (count - 1) := by
        rw [List.append_assoc, take_append_drop_pred hpos, List.drop_zero]
      have hchunk : ((b :: rest).take count).length = count := by
        rw [List.length_take, List.length_cons, Nat.min_eq_left hle]
      have hpart : staged.length + count ≤ store.config.maxObjectBytes := by
        rw [htotal, List.length_append, List.length_append, hchunk] at hlength
        omega
      have hfeed : (reader.fed staged).feed ((b :: rest).take count) =
          .ok (reader.fed (staged ++ (b :: rest).take count)) := by
        refine feed_eq_ok.mpr ⟨?_, (fed_fed _ _ _).symm⟩
        show reader.read + staged.length + _ < _
        rw [hfresh, hchunk]
        omega
      have hstep : Answers caller (digestStep ((reader.fed staged).feed ((b :: rest).take count))) v
          (.ok (reader.fed (staged ++ (b :: rest).take count))) :=
        Machine.gives_ofExcept_eq (by rw [hfeed]; rfl)
      refine hstep.then ?_
      refine (answers_failIf (Nat.not_lt.mpr hpart)).then (answers_ioStep.then
        (answers_checked.then ?_))
      rw [htotal] at hlength hfinish ⊢
      exact ih _ _ hlength hfinish

theorem does_putDigested {body : Bytes} {options : FilesystemPutOptions} (hfresh : reader.fed [] = reader) :
    store.Does True (fun _ _ => True) (store.putDigested caller key reader body options) [] v
      (Written key fun prepared => prepared.payload.bytes = body ∧
        body.length ≤ store.config.maxObjectBytes ∧
        ∃ checksum, (reader.fed body).finish = .ok checksum) := by
  refine (quiet_authorize .write).then (fun _ v₁ _ _ => does_settled_written ?_)
    fun _ => settles_of_certain
  refine (quiet_prepare (B := fun bytes _ => bytes = body ∧
    body.length ≤ store.config.maxObjectBytes ∧ ∃ checksum, (reader.fed body).finish = .ok checksum)
    (fun _ _ _ _ h => h) fun v₂ _ => ?_).then (fun prepared v₂ _ hprepared => ?_)
    fun _ => settles_of_certain
  · have hquiet := @quiet_digestDrain store caller _ reader True (fun _ _ => True) [] v₂ [] body 0
      (Nat.zero_le _)
    rw [hfresh] at hquiet
    refine hquiet.bind fun result v₃ _ hresult => quiet_pure ?_
    rw [List.nil_append, List.drop_zero] at hresult
    obtain ⟨hbytes, hlength, hfinish⟩ := hresult
    rw [hbytes] at hlength hfinish
    exact ⟨hbytes, hlength, _, hfinish⟩
  · refine does_locked (fun l hl => absurd hl List.not_mem_nil) (fun v₃ _ => ?_)
      fun _ => settles_of_certain
    exact (does_publishLocked List.mem_cons_self (fun _ _ _ => trivial) fun _ _ => trivial).mono
      fun r ms => written_of_prepared hprepared.1

theorem run_putDigested_of_mismatch {body : Bytes} {options : FilesystemPutOptions}
    (hfresh : reader.fed [] = reader) (choices : Nat → FsChoice)
    (h : ¬(body.length ≤ store.config.maxObjectBytes ∧
      ∃ checksum, (reader.fed body).finish = .ok checksum)) :
    (∃ e, (fsMachine.run (store.putDigested caller key reader body options) choices ⟨[], []⟩ v).result =
      .error e) ∧
    SameFiles v
      (fsMachine.run (store.putDigested caller key reader body options) choices ⟨[], []⟩ v).state := by
  obtain ⟨ms, hwritten, hevolves⟩ := (@does_putDigested store caller _ reader v key body options
    hfresh).run choices
  cases hresult : (fsMachine.run (store.putDigested caller key reader body options) choices
      ⟨[], []⟩ v).result with
  | ok info =>
    rw [hresult] at hwritten
    obtain ⟨prepared, ⟨-, hmatch⟩, -⟩ := hwritten
    exact absurd hmatch h
  | error e =>
    rw [hresult, Written, Settles] at hwritten
    refine ⟨⟨e, rfl⟩, ?_⟩
    split_ifs at hwritten
    · obtain ⟨prepared, ⟨-, hmatch⟩, -⟩ := hwritten
      exact absurd hmatch h
    · rw [hwritten] at hevolves
      exact hevolves.sameFiles

/-- An upload behind an accepted `DigestReader`: it is staged exactly if the body has the declared
length and every checksum given with it and is within the limit of the store, whatever the chunks. What
is staged is the body, what is reported are the checksums that were asked for, and if the body does not
match nothing is published. -/
theorem digested_upload_exact (store : FilesystemStore) (caller : Caller) (crate : ChecksumCrate)
    (headers : HeaderMap) (trailers : Option HeaderMap) (length : Option Int)
    (reader : DigestReader crate) (hnew : DigestReader.new crate headers trailers length = .ok reader)
    (hu64 : store.config.maxObjectBytes < 2 ^ 64) (body : Bytes) (v : Volume) :
    (Matches crate headers trailers length body ∧ body.length ≤ store.config.maxObjectBytes →
      ∃ checksum, Reports crate headers body checksum ∧
        Answers caller (store.digestDrain caller reader [] 0 body) v (.ok (body, checksum))) ∧
    (∀ choices result,
      (fsMachine.run (store.digestDrain caller reader [] 0 body) choices ⟨[], []⟩ v).result =
        .ok result →
      (Matches crate headers trailers length body ∧ body.length ≤ store.config.maxObjectBytes) ∧
        result.1 = body ∧ Reports crate headers body result.2) ∧
    (¬(Matches crate headers trailers length body ∧ body.length ≤ store.config.maxObjectBytes) →
      ∀ key options choices,
        (∃ e, (fsMachine.run (store.putDigested caller key reader body options) choices
          ⟨[], []⟩ v).result = .error e) ∧
        SameFiles v (fsMachine.run (store.putDigested caller key reader body options) choices
          ⟨[], []⟩ v).state) := by
  have hr := ofRequest_of_new hnew
  refine ⟨fun ⟨hmatches, hlength⟩ => ?_, fun choices result hresult => ?_,
    fun hmismatch key options choices => ?_⟩
  · obtain ⟨checksum, hfinish⟩ := hr.exists_finish hmatches
    refine ⟨checksum, (hr.matches_of_finish hfinish).2, ?_⟩
    have hanswers := @answers_digestDrain store caller _ reader v checksum hu64 hr.fresh [] body 0
      hlength hfinish
    rw [fed_nil] at hanswers
    exact hanswers
  · obtain ⟨hbytes, hlength, hfinish⟩ := run_digestDrain (fed_nil reader) hresult
    obtain ⟨hmatches, hreports⟩ := hr.matches_of_finish hfinish
    exact ⟨⟨hmatches, hlength⟩, hbytes, hreports⟩
  · refine run_putDigested_of_mismatch (fed_nil reader) choices fun ⟨hlength, checksum, hfinish⟩ => ?_
    exact hmismatch ⟨(hr.matches_of_finish hfinish).1, hlength⟩

end FilesystemStore

namespace Sample

def echoCrate : ChecksumCrate where
  State := Bytes
  new := fun _ => []
  update := fun s bytes => s ++ bytes
  finalize := fun s => s.map fun b => Char.ofNat b.toNat
  update_nil := List.append_nil
  update_append := List.append_assoc

def plainReader : DigestReader echoCrate where
  expected := fun _ => none
  trailers := none
  declared := []
  hasher := fun a => if DigestReader.requested (fun _ => none) [] a then some [] else none
  length := none
  read := 0

theorem matches_plain (body : Bytes) : DigestReader.Matches echoCrate [] none none body where
  declaredLength := nofun
  checksums := fun _ _ h => absurd h List.not_mem_nil
  contentMd5 := fun _ h => absurd h List.not_mem_nil
  trailing := fun _ h => by
    obtain ⟨_, h, -⟩ := h
    cases h

end Sample

/-- A body without checksums that is longer than the store admits is not staged, however it arrives. -/
theorem oversized_body_refused :
    DigestReader.new Sample.echoCrate [] none none = .ok Sample.plainReader ∧
    ∀ (store : FilesystemStore) (caller : Caller) (v : Volume) (choices : Nat → FsChoice) result,
      DigestReader.Matches Sample.echoCrate [] none none
        (List.replicate (store.config.maxObjectBytes + 1) 0) ∧
      (fsMachine.run (store.digestDrain caller Sample.plainReader [] 0
        (List.replicate (store.config.maxObjectBytes + 1) 0)) choices ⟨[], []⟩ v).result ≠
          .ok result := by
  refine ⟨rfl, fun store caller v choices result => ⟨Sample.matches_plain _, fun hresult => ?_⟩⟩
  obtain ⟨-, hlength, -⟩ := FilesystemStore.run_digestDrain (DigestReader.fed_nil _) hresult
  rw [List.length_replicate] at hlength
  exact absurd hlength (Nat.not_succ_le_self _)

namespace Sample

def hello : Bytes := utf8 "hello".toList

/-- The hash functions as a table for the body `hello`; of other bodies the text is not one of theirs. -/
def checksumCrate : ChecksumCrate where
  State := ChecksumAlgorithm × Bytes
  new := fun a => (a, [])
  update := fun s bytes => (s.1, s.2 ++ bytes)
  finalize := fun s =>
    if s.2 = hello then
      match s.1 with
      | .crc32 => "NhCmhg==".toList
      | .md5 => "XUFAKrxLKna5cZ2REBfFkg==".toList
      | .sha256 => "LPJNul+wow4m6DsqxbninhsWHlwfp0JecwQzYpOLmCQ=".toList
      | _ => []
    else []
  update_nil := fun s => by rw [List.append_nil]
  update_append := fun s a b => by rw [List.append_assoc]

def checkedHeaders : HeaderMap :=
  [("content-md5".toList, utf8 "XUFAKrxLKna5cZ2REBfFkg==".toList),
    ("x-amz-checksum-crc32".toList, utf8 "NhCmhg==".toList),
    ("x-amz-trailer".toList, utf8 "x-amz-checksum-sha256".toList)]

def checkedTrailers : HeaderMap :=
  [("x-amz-checksum-sha256".toList, utf8 "LPJNul+wow4m6DsqxbninhsWHlwfp0JecwQzYpOLmCQ=".toList)]

theorem declares_checkedHeaders {a : ChecksumAlgorithm} (h : Declares checkedHeaders a) :
    a = .sha256 := by
  obtain ⟨value, hvalue, t, ht, hname⟩ := h
  have hvalues : checkedHeaders.getAll "x-amz-trailer".toList =
      [utf8 "x-amz-checksum-sha256".toList] := by decide +kernel
  have htext : headerText (utf8 "x-amz-checksum-sha256".toList) =
      some "x-amz-checksum-sha256".toList := by decide +kernel
  rw [hvalues] at hvalue
  obtain rfl := List.mem_singleton.mp hvalue
  obtain rfl := Option.some.inj (htext.symm.trans ht)
  have hnames : ("x-amz-checksum-sha256".toList.splitOn ',').map trim =
      [ChecksumAlgorithm.sha256.header] := by decide +kernel
  rw [hnames] at hname
  exact ChecksumAlgorithm.header_injective (List.mem_singleton.mp hname)

theorem matches_hello :
    DigestReader.Matches checksumCrate checkedHeaders (some checkedTrailers) (some 5) hello where
  declaredLength := fun n hn => by
    rw [← Option.some.inj hn]
    decide +kernel
  checksums := fun a => by cases a <;> decide +kernel
  contentMd5 := by decide +kernel
  trailing := fun a ha => by
    rw [declares_checkedHeaders ha]
    exact ⟨checkedTrailers, _, rfl, rfl, by decide +kernel⟩

end Sample

/-- A body of a declared length with a checksum and an MD5 among the headers and another checksum in
the trailer is staged. Five other bytes under the same headers are not. -/
theorem digested_upload_exact_hello :
    ∃ reader, DigestReader.new Sample.checksumCrate Sample.checkedHeaders (some Sample.checkedTrailers)
        (some 5) = .ok reader ∧
      (∃ checksum, checksum .crc32 = some "NhCmhg==".toList ∧ checksum .md5 = none ∧
        checksum .sha256 = some "LPJNul+wow4m6DsqxbninhsWHlwfp0JecwQzYpOLmCQ=".toList ∧
        Answers Sample.neighbourCaller
          (Sample.smallStore.digestDrain Sample.neighbourCaller reader [] 0 Sample.hello)
          Sample.neighbourVolume (.ok (Sample.hello, checksum))) ∧
      ∀ choices, SameFiles Sample.neighbourVolume
        (fsMachine.run (Sample.smallStore.putDigested Sample.neighbourCaller "t/a/5".toList reader
          (utf8 "jello".toList) ⟨none, none, ⟨none, none⟩⟩) choices ⟨[], []⟩
          Sample.neighbourVolume).state := by
  obtain ⟨reader, hnew⟩ : ∃ reader, DigestReader.new Sample.checksumCrate Sample.checkedHeaders
      (some Sample.checkedTrailers) (some 5) = .ok reader := exists_ok_of_isOk (by decide +kernel)
  obtain ⟨checksum, hreports, hanswers⟩ := (FilesystemStore.digested_upload_exact Sample.smallStore
    Sample.neighbourCaller _ _ _ _ reader hnew (by decide) Sample.hello Sample.neighbourVolume).1
    ⟨Sample.matches_hello, by decide +kernel⟩
  have hmd5 : ¬ (Sample.checkedHeaders.getAll ChecksumAlgorithm.md5.header ≠ [] ∨
      Declares Sample.checkedHeaders .md5) := by
    rintro (hheader | hdeclared)
    · exact hheader (by decide +kernel)
    · cases Sample.declares_checkedHeaders hdeclared
  refine ⟨reader, hnew, ⟨checksum, (hreports _ _).mpr ⟨.inl (by decide +kernel), by decide +kernel⟩,
    ?_, (hreports _ _).mpr ⟨.inr ?_, by decide +kernel⟩, hanswers⟩, fun choices => ?_⟩
  · exact Option.eq_none_iff_forall_ne_some.mpr fun t ht => hmd5 ((hreports _ t).mp ht).1
  · exact ⟨_, List.mem_singleton.mpr rfl, _, rfl, by decide +kernel⟩
  · refine ((FilesystemStore.digested_upload_exact Sample.smallStore Sample.neighbourCaller _ _ _ _
      reader hnew (by decide) (utf8 "jello".toList) Sample.neighbourVolume).2.2 (fun h => ?_)
      "t/a/5".toList ⟨none, none, ⟨none, none⟩⟩ choices).2
    have hother : headerText (utf8 "NhCmhg==".toList) ≠
        some (Sample.checksumCrate.digest .crc32 (utf8 "jello".toList)) := by decide +kernel
    exact hother (h.1.checksums .crc32 _ (by decide +kernel))

end GraphitBroker
