import GraphitBroker.Lib.SepPath

/-!
# Wildcard patterns

Patterns in which `*` stands for any text and `?` for any one character, as in the `StringLike`
conditions and the resources of an access policy. A literal pattern and the same pattern followed by
a separator and a star together match the paths at or below it.
-/

namespace Wildcard

def like : List Char → List Char → Bool
  | [], s => s.isEmpty
  | c :: p, s =>
    if c = '*' then s.tails.any (like p)
    else
      match s with
      | [] => false
      | d :: s => (c == '?' || c == d) && like p s

def Literal (p : List Char) : Prop := '*' ∉ p ∧ '?' ∉ p

variable {p : List Char}

theorem Literal.of_cons {c : Char} (h : Literal (c :: p)) :
    c ≠ '*' ∧ c ≠ '?' ∧ Literal p := by
  simp only [Literal, List.mem_cons, not_or] at h ⊢
  exact ⟨Ne.symm h.1.1, Ne.symm h.2.1, h.1.2, h.2.2⟩

theorem Literal.append {p q : List Char} (hp : Literal p) (hq : Literal q) : Literal (p ++ q) := by
  simp only [Literal, List.mem_append, not_or] at hp hq ⊢
  exact ⟨⟨hp.1, hq.1⟩, hp.2, hq.2⟩

theorem like_literal_append (hp : Literal p) (q s : List Char) :
    like (p ++ q) s = true ↔ ∃ rest, s = p ++ rest ∧ like q rest = true := by
  induction p generalizing s with
  | nil => simp
  | cons c p ih =>
    obtain ⟨hstar, hmark, hp⟩ := hp.of_cons
    cases s with
    | nil => simp [like, hstar]
    | cons d s =>
      simp only [List.cons_append, like, hstar, if_false, Bool.and_eq_true, Bool.or_eq_true,
        beq_iff_eq, hmark, false_or, ih hp, List.cons.injEq]
      constructor
      · rintro ⟨rfl, rest, rfl, hrest⟩
        exact ⟨rest, ⟨rfl, rfl⟩, hrest⟩
      · rintro ⟨rest, ⟨rfl, rfl⟩, hrest⟩
        exact ⟨rfl, rest, rfl, hrest⟩

theorem like_literal (hp : Literal p) (s : List Char) :
    like p s = true ↔ s = p := by
  have h := like_literal_append hp [] s
  simpa [like, List.isEmpty_iff] using h

theorem like_star (s : List Char) : like ['*'] s = true := by
  simp only [like, if_true, List.any_eq_true, List.mem_tails, List.isEmpty_iff]
  exact ⟨[], List.nil_suffix, rfl⟩

theorem like_literal_sep_star (hp : Literal p) {sep : Char} (hsep : Literal [sep])
    (s : List Char) : like (p ++ [sep, '*']) s = true ↔ ∃ rest, s = p ++ sep :: rest := by
  have h := like_literal_append (hp.append hsep) ['*'] s
  simpa [like_star, List.append_assoc] using h

theorem like_or_descendant (hp : Literal p) {sep : Char} (hsep : Literal [sep]) (s : List Char) :
    (like p s = true ∨ like (p ++ [sep, '*']) s = true) ↔ SepPath.Below sep p s := by
  rw [like_literal hp, like_literal_sep_star hp hsep, SepPath.Below]

end Wildcard
