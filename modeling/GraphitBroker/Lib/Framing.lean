import Mathlib

/-!
# Length-prefixed framing

A byte string is framed by a code of its length, such as eight little-endian bytes. Frames of strings
whose lengths the code tells apart can be read back, also when more bytes follow.
-/

namespace Framing

def le64 (n : Nat) : List UInt8 := (List.range 8).map fun i => UInt8.ofNat (n / 256 ^ i)

def frame (bytes : List UInt8) : List UInt8 := le64 bytes.length ++ bytes

def frames (parts : List (List UInt8)) : List UInt8 := parts.flatMap frame

@[simp]
theorem length_le64 (n : Nat) : (le64 n).length = 8 := by
  rw [le64, List.length_map, List.length_range]

theorem le64_inj {n m : Nat} (hn : n < 2 ^ 64) (hm : m < 2 ^ 64) (h : le64 n = le64 m) : n = m := by
  have hdigit : ∀ i < 8, n / 256 ^ i % 256 = m / 256 ^ i % 256 := by
    intro i hi
    have hget := List.map_inj_left.mp h i (List.mem_range.mpr hi)
    simpa using congrArg UInt8.toNat hget
  have h0 := hdigit 0 (by decide)
  have h1 := hdigit 1 (by decide)
  have h2 := hdigit 2 (by decide)
  have h3 := hdigit 3 (by decide)
  have h4 := hdigit 4 (by decide)
  have h5 := hdigit 5 (by decide)
  have h6 := hdigit 6 (by decide)
  have h7 := hdigit 7 (by decide)
  norm_num at h0 h1 h2 h3 h4 h5 h6 h7 hn hm
  omega

def coded (code : Nat → List UInt8) (parts : List (List UInt8)) : List UInt8 :=
  parts.flatMap fun part => code part.length ++ part

section Coded

variable {code : Nat → List UInt8} {width bound : Nat} {as bs : List (List UInt8)}
  {x y : List UInt8}

theorem coded_append_inj (hwidth : ∀ n, (code n).length = width)
    (hcode : ∀ n m, n < bound → m < bound → code n = code m → n = m)
    (hlength : as.length = bs.length) (ha : ∀ a ∈ as, a.length < bound)
    (hb : ∀ b ∈ bs, b.length < bound) (h : coded code as ++ x = coded code bs ++ y) :
    as = bs ∧ x = y := by
  induction as generalizing bs with
  | nil =>
    obtain rfl := List.length_eq_zero_iff.mp hlength.symm
    exact ⟨rfl, h⟩
  | cons a as ih =>
    cases bs with
    | nil => cases hlength
    | cons b bs =>
      simp only [coded, List.flatMap_cons, List.append_assoc] at h
      obtain ⟨hcodes, hrest⟩ := List.append_inj h (by rw [hwidth, hwidth])
      have hsame : a.length = b.length :=
        hcode _ _ (ha a List.mem_cons_self) (hb b List.mem_cons_self) hcodes
      obtain ⟨rfl, htail⟩ := List.append_inj hrest hsame
      obtain ⟨rfl, hxy⟩ := ih (Nat.succ.inj hlength)
        (fun a' ha' => ha a' (List.mem_cons_of_mem _ ha'))
        (fun b' hb' => hb b' (List.mem_cons_of_mem _ hb')) htail
      exact ⟨rfl, hxy⟩

end Coded

theorem frames_append_inj {as bs : List (List UInt8)} {x y : List UInt8}
    (hlength : as.length = bs.length) (ha : ∀ a ∈ as, a.length < 2 ^ 64)
    (hb : ∀ b ∈ bs, b.length < 2 ^ 64) (h : frames as ++ x = frames bs ++ y) : as = bs ∧ x = y :=
  coded_append_inj length_le64 (fun _ _ => le64_inj) hlength ha hb h

theorem frame_append_inj {a b x y : List UInt8} (ha : a.length < 2 ^ 64) (hb : b.length < 2 ^ 64)
    (h : frame a ++ x = frame b ++ y) : a = b ∧ x = y := by
  have hframes : frames [a] ++ x = frames [b] ++ y := by
    simpa only [frames, List.flatMap_singleton] using h
  obtain ⟨hab, hxy⟩ := @frames_append_inj [a] [b] x y rfl (List.forall_mem_singleton.mpr ha)
    (List.forall_mem_singleton.mpr hb) hframes
  exact ⟨(List.cons.inj hab).1, hxy⟩

end Framing
