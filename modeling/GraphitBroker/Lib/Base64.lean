import Mathlib

/-!
# URL-safe base64 without padding

The canonical form only: a text decodes if its characters are in the alphabet, its length is that of
some encoding, and the bits its last character does not need are zero.
-/

namespace Base64

def alphabet : List Char :=
  "ABCDEFGHIJKLMNOPQRSTUVWXYZabcdefghijklmnopqrstuvwxyz0123456789-_".toList

def digit (n : Nat) : Char := alphabet.getD n 'A'

def value (c : Char) : Option Nat := alphabet.idxOf? c

theorem value_digit {n : Nat} (hn : n < 64) : value (digit n) = some n := by
  have hall : ∀ x : Fin 64, value (digit x) = some x.val := by decide +kernel
  exact hall ⟨n, hn⟩

def sextets : List UInt8 → List Nat
  | a :: b :: c :: rest =>
    [a.toNat / 4, a.toNat % 4 * 16 + b.toNat / 16, b.toNat % 16 * 4 + c.toNat / 64,
      c.toNat % 64] ++ sextets rest
  | [a, b] => [a.toNat / 4, a.toNat % 4 * 16 + b.toNat / 16, b.toNat % 16 * 4]
  | [a] => [a.toNat / 4, a.toNat % 4 * 16]
  | [] => []

def ofSextets : List Nat → Option (List UInt8)
  | w :: x :: y :: z :: rest =>
    (ofSextets rest).map ([UInt8.ofNat (w * 4 + x / 16), UInt8.ofNat (x % 16 * 16 + y / 4),
      UInt8.ofNat (y % 4 * 64 + z)] ++ ·)
  | [w, x, y] =>
    if y % 4 = 0 then some [UInt8.ofNat (w * 4 + x / 16), UInt8.ofNat (x % 16 * 16 + y / 4)]
    else none
  | [w, x] => if x % 16 = 0 then some [UInt8.ofNat (w * 4 + x / 16)] else none
  | [_] => none
  | [] => some []

def encode (bytes : List UInt8) : List Char := (sextets bytes).map digit

def decode (text : List Char) : Option (List UInt8) := (text.mapM value).bind ofSextets

theorem sextets_lt {bytes : List UInt8} {n : Nat} (hn : n ∈ sextets bytes) : n < 64 := by
  fun_induction sextets bytes with
  | case1 a b c rest ih =>
    rcases List.mem_append.mp hn with hn | hn
    · have ha := a.toNat_lt
      have hb := b.toNat_lt
      have hc := c.toNat_lt
      simp only [List.mem_cons, List.not_mem_nil, or_false] at hn
      omega
    · exact ih hn
  | case2 a b =>
    have ha := a.toNat_lt
    have hb := b.toNat_lt
    simp only [List.mem_cons, List.not_mem_nil, or_false] at hn
    omega
  | case3 a =>
    have ha := a.toNat_lt
    simp only [List.mem_cons, List.not_mem_nil, or_false] at hn
    omega
  | case4 => simp at hn

theorem ofNat_eq_of_toNat {n : Nat} {b : UInt8} (h : n = b.toNat) : UInt8.ofNat n = b := by
  rw [h, UInt8.ofNat_toNat]

theorem ofSextets_sextets (bytes : List UInt8) : ofSextets (sextets bytes) = some bytes := by
  fun_induction sextets bytes with
  | case1 a b c rest ih =>
    have ha := a.toNat_lt
    have hb := b.toNat_lt
    have hc := c.toNat_lt
    simp only [List.cons_append, List.nil_append, ofSextets, ih, Option.map_some]
    rw [ofNat_eq_of_toNat (b := a) (by omega), ofNat_eq_of_toNat (b := b) (by omega),
      ofNat_eq_of_toNat (b := c) (by omega)]
  | case2 a b =>
    have ha := a.toNat_lt
    have hb := b.toNat_lt
    rw [ofSextets, if_pos (by omega), ofNat_eq_of_toNat (b := a) (by omega),
      ofNat_eq_of_toNat (b := b) (by omega)]
  | case3 a =>
    have ha := a.toNat_lt
    rw [ofSextets, if_pos (by omega), ofNat_eq_of_toNat (b := a) (by omega)]
  | case4 => rfl

theorem mapM_value_map_digit {ns : List Nat} (hns : ∀ n ∈ ns, n < 64) :
    (ns.map digit).mapM value = some ns := by
  induction ns with
  | nil => rfl
  | cons n ns ih =>
    rw [List.map_cons, List.mapM_cons, value_digit (hns n List.mem_cons_self),
      ih fun m hm => hns m (List.mem_cons_of_mem n hm)]
    rfl

@[simp]
theorem decode_encode (bytes : List UInt8) : decode (encode bytes) = some bytes := by
  rw [decode, encode, mapM_value_map_digit fun _ => sextets_lt, Option.bind_some, ofSextets_sextets]

theorem mem_alphabet_of_mem_encode {bytes : List UInt8} {c : Char} (hc : c ∈ encode bytes) :
    c ∈ alphabet := by
  obtain ⟨n, hn, rfl⟩ := List.mem_map.mp hc
  rw [digit, List.getD_eq_getElem _ _ (sextets_lt hn)]
  exact List.getElem_mem _

theorem length_encode (bytes : List UInt8) :
    (encode bytes).length = (4 * bytes.length + 2) / 3 := by
  rw [encode, List.length_map]
  fun_induction sextets bytes with
  | case1 a b c rest ih =>
    rw [List.length_append, ih]
    simp only [List.length_cons, List.length_nil]
    omega
  | case2 a b => simp
  | case3 a => simp
  | case4 => rfl

end Base64
