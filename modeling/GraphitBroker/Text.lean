import GraphitBroker.Lib.SepPath
import Mathlib

/-!
# Text and bytes

A Rust `str` is modelled by its characters. UTF-8 preserves prefixes and order, so `strip_prefix`,
`starts_with`, `split`, `replace` and the ordering of strings are the list operations; `str::len` is
the encoded length. Byte predicates such as `is_ascii_alphanumeric` are false on every byte of a
non-ASCII character, so they are character predicates as well.
-/

namespace GraphitBroker

abbrev Str := List Char

abbrev Bytes := List UInt8

def utf8 (s : Str) : Bytes := s.flatMap String.utf8EncodeChar

/-- `str::len`: the number of UTF-8 bytes. -/
def byteLen (s : Str) : Nat := (s.map Char.utf8Size).sum

theorem length_utf8 (s : Str) : (utf8 s).length = byteLen s := by
  simp [utf8, byteLen, List.length_flatMap]

theorem byteLen_append (s t : Str) : byteLen (s ++ t) = byteLen s + byteLen t := by
  rw [byteLen, List.map_append, List.sum_append, byteLen, byteLen]

theorem byteLen_le_of_isPrefix {s t : Str} (h : s <+: t) : byteLen s ≤ byteLen t := by
  obtain ⟨rest, rfl⟩ := h
  rw [byteLen_append]
  exact Nat.le_add_right _ _

theorem byteLen_eq_length {s : Str} (h : ∀ c ∈ s, c.utf8Size = 1) : byteLen s = s.length := by
  induction s with
  | nil => rfl
  | cons c s ih =>
    have hc := h c List.mem_cons_self
    have hs := ih fun d hd => h d (List.mem_cons_of_mem _ hd)
    simp only [byteLen, List.map_cons, List.sum_cons, List.length_cons] at hs ⊢
    omega

theorem utf8_injective : Function.Injective utf8 := by
  intro a b hab
  have hencode : a.utf8Encode = b.utf8Encode := by
    simp only [List.utf8Encode]
    exact congrArg _ hab
  have hofList : String.ofList a = String.ofList b := by
    simp only [String.ofList, hencode]
  simpa using congrArg String.toList hofList

/-- `char::is_whitespace`: the Unicode `White_Space` characters. -/
def isWhitespace (c : Char) : Bool :=
  let n := c.toNat
  (0x09 ≤ n && n ≤ 0x0d) || n == 0x20 || n == 0x85 || n == 0xa0 || n == 0x1680 ||
    (0x2000 ≤ n && n ≤ 0x200a) || n == 0x2028 || n == 0x2029 || n == 0x202f || n == 0x205f ||
    n == 0x3000

/-- `str::trim_matches`. -/
def trimMatches (p : Char → Bool) (s : Str) : Str :=
  ((s.dropWhile p).reverse.dropWhile p).reverse

/-- `str::trim`. -/
def trim (s : Str) : Str := trimMatches isWhitespace s

/-- `str::strip_prefix`. -/
def stripPrefix (pre s : Str) : Option Str :=
  if pre.isPrefixOf s then some (s.drop pre.length) else none

/-- `str::strip_suffix` with a character. -/
def stripSuffixChar (c : Char) (s : Str) : Option Str :=
  if s.getLast? = some c then some s.dropLast else none

/-- `str::contains`. -/
def contains (s pat : Str) : Bool := s.tails.any pat.isPrefixOf

/-- `str::replace`: the occurrences of a nonempty pattern are replaced from left to right. The number
counts the characters of a found occurrence that are still to be passed over. -/
def replaceFrom (pat value : Str) : Nat → Str → Str
  | _, [] => []
  | skip + 1, _ :: rest => replaceFrom pat value skip rest
  | 0, c :: rest =>
    if pat.isPrefixOf (c :: rest) then value ++ replaceFrom pat value (pat.length - 1) rest
    else c :: replaceFrom pat value 0 rest

def replace (pat value s : Str) : Str := replaceFrom pat value 0 s

def toAsciiLowercase (s : Str) : Str := s.map Char.toLower

/-- `u64::to_be_bytes` and its narrower kin: the low `width` bytes of a number. -/
def beBytes : Nat → Nat → Bytes
  | 0, _ => []
  | width + 1, n => beBytes width (n / 256) ++ [UInt8.ofNat n]

@[simp]
theorem length_beBytes (width n : Nat) : (beBytes width n).length = width := by
  induction width generalizing n with
  | zero => rfl
  | succ width ih => simp [beBytes, ih]

theorem beBytes_inj {width a b : Nat} (ha : a < 256 ^ width) (hb : b < 256 ^ width)
    (h : beBytes width a = beBytes width b) : a = b := by
  induction width generalizing a b with
  | zero =>
    rw [Nat.pow_zero] at ha hb
    omega
  | succ width ih =>
    rw [Nat.pow_succ] at ha hb
    have hsplit := List.append_inj' h rfl
    have hhigh := ih (Nat.div_lt_of_lt_mul (by omega)) (Nat.div_lt_of_lt_mul (by omega)) hsplit.1
    have hlow : a % 256 = b % 256 := by
      have := congrArg UInt8.toNat (List.cons.inj hsplit.2).1
      simpa using this
    omega

def hexDigits : Str := "0123456789abcdef".toList

def hexDigit (n : Nat) : Char := hexDigits.getD n '0'

def hexEncode (bytes : Bytes) : Str :=
  bytes.flatMap fun b => [hexDigit (b.toNat / 16), hexDigit (b.toNat % 16)]

theorem hexDigit_inj {a b : Nat} (ha : a < 16) (hb : b < 16) (h : hexDigit a = hexDigit b) :
    a = b := by
  have hall : ∀ x : Fin 16, ∀ y : Fin 16, hexDigit x = hexDigit y → x = y := by decide
  exact congrArg Fin.val (hall ⟨a, ha⟩ ⟨b, hb⟩ h)

theorem hexDigit_mem {n : Nat} (hn : n < 16) : hexDigit n ∈ hexDigits := by
  have hall : ∀ x : Fin 16, hexDigit x ∈ hexDigits := by decide
  exact hall ⟨n, hn⟩

theorem length_hexEncode (bytes : Bytes) : (hexEncode bytes).length = 2 * bytes.length := by
  induction bytes with
  | nil => rfl
  | cons b bytes ih =>
    simp only [hexEncode, List.flatMap_cons, List.length_append, List.length_cons] at ih ⊢
    rw [ih]
    simp
    omega

theorem hexEncode_mem {bytes : Bytes} {c : Char} (hc : c ∈ hexEncode bytes) : c ∈ hexDigits := by
  simp only [hexEncode, List.mem_flatMap, List.mem_cons, List.not_mem_nil, or_false] at hc
  obtain ⟨b, _, rfl | rfl⟩ := hc
  · exact hexDigit_mem (Nat.div_lt_of_lt_mul b.toNat_lt)
  · exact hexDigit_mem (Nat.mod_lt _ (by decide))

theorem hexEncode_injective : Function.Injective hexEncode := by
  intro xs ys h
  induction xs generalizing ys with
  | nil =>
    cases ys with
    | nil => rfl
    | cons y ys => simp [hexEncode] at h
  | cons x xs ih =>
    cases ys with
    | nil => simp [hexEncode] at h
    | cons y ys =>
      simp only [hexEncode, List.flatMap_cons, List.cons_append, List.nil_append,
        List.cons.injEq] at h
      obtain ⟨hhigh, hlow, hrest⟩ := h
      have hdiv := hexDigit_inj (Nat.div_lt_of_lt_mul x.toNat_lt)
        (Nat.div_lt_of_lt_mul y.toNat_lt) hhigh
      have hmod := hexDigit_inj (Nat.mod_lt _ (by decide)) (Nat.mod_lt _ (by decide)) hlow
      have hbyte : x = y := UInt8.toNat_inj.mp (by omega)
      rw [hbyte, ih hrest]

/-! ### Path segments -/

def segmentChar (c : Char) : Bool := c.isAlphanum || "._-".toList.contains c

def segmentText (s : Str) : Bool :=
  !s.isEmpty && decide (byteLen s ≤ 128) && s.head?.any Char.isAlphanum && s.all segmentChar

/-- `target == root || target.strip_prefix(root).is_some_and(|s| s.starts_with('/'))`. -/
def atOrBelow (root target : Str) : Bool :=
  target == root || (stripPrefix root target).any fun s => "/".toList.isPrefixOf s

theorem stripPrefix_eq_some {pre s rest : Str} :
    stripPrefix pre s = some rest ↔ s = pre ++ rest := by
  rw [stripPrefix]
  split_ifs with hpre
  · obtain ⟨tail, rfl⟩ := List.isPrefixOf_iff_prefix.mp hpre
    simp
  · simp only [false_iff]
    rintro rfl
    exact hpre (List.isPrefixOf_iff_prefix.mpr (List.prefix_append _ _))

theorem stripPrefix_any_slash {pre s : Str} :
    ((stripPrefix pre s).any fun rest => "/".toList.isPrefixOf rest) = true ↔
      ∃ rest, s = pre ++ '/' :: rest := by
  rw [Option.any_eq_true]
  constructor
  · rintro ⟨rest, hrest, hslash⟩
    obtain ⟨tail, rfl⟩ := List.isPrefixOf_iff_prefix.mp hslash
    exact ⟨tail, stripPrefix_eq_some.mp hrest⟩
  · rintro ⟨rest, rfl⟩
    exact ⟨'/' :: rest, stripPrefix_eq_some.mpr rfl, by simp⟩

theorem atOrBelow_iff {root target : Str} :
    atOrBelow root target = true ↔ SepPath.Below '/' root target := by
  rw [atOrBelow, Bool.or_eq_true, stripPrefix_any_slash, beq_iff_eq]
  rfl

end GraphitBroker
