import Mathlib

/-!
# Pages of an ordered list

A list in strictly increasing order of its keys is read in pages. A page starts after a key; if more
elements follow, it ends with the key of its last element, from which the next page starts. Reading
on from page to page gives every element once, in order.
-/

namespace Paging

variable {α κ ε : Type} [LinearOrder κ] (key : α → κ) (limit : Nat)

structure Page (α κ : Type) where
  items : List α
  next : Option κ

def beyond (after : Option κ) (l : List α) : List α :=
  l.filter fun a => after.all fun c => decide (c < key a)

def page (l : List α) (after : Option κ) : Page α κ :=
  ⟨(beyond key after l).take limit,
    if limit < (beyond key after l).length then
      ((beyond key after l).take limit).getLast?.map key
    else none⟩

def follow (read : Option κ → Except ε (Page α κ)) : Nat → Option κ → Except ε (List (Page α κ))
  | 0, _ => .ok []
  | fuel + 1, after => do
    let p ← read after
    match p.next with
    | none => return [p]
    | some c => return p :: (← follow read fuel (some c))

variable {key limit} {l : List α}

theorem mem_beyond {after : Option κ} {a : α} :
    a ∈ beyond key after l ↔ a ∈ l ∧ ∀ c ∈ after, c < key a := by
  rw [beyond, List.mem_filter]
  cases after <;> simp

theorem pairwise_beyond (hl : l.Pairwise fun a b => key a < key b) (after : Option κ) :
    (beyond key after l).Pairwise fun a b => key a < key b :=
  hl.filter _

theorem eq_of_mem_iff {l' : List α} (hl : l.Pairwise fun a b => key a < key b)
    (hl' : l'.Pairwise fun a b => key a < key b) (h : ∀ a, a ∈ l ↔ a ∈ l') : l = l' := by
  have hne : ∀ {a b : α}, key a < key b → a ≠ b := fun hlt heq => hlt.ne (congrArg key heq)
  have hperm : l.Perm l' := by
    rw [List.perm_ext_iff_of_nodup (hl.imp hne) (hl'.imp hne)]
    exact h
  exact hperm.eq_of_pairwise (fun a b _ _ hab hba => absurd hab hba.asymm) hl hl'

theorem beyond_beyond {after : Option κ} {a : α} (ha : a ∈ beyond key after l) :
    beyond key (some (key a)) l = beyond key (some (key a)) (beyond key after l) := by
  have hafter := (List.mem_filter.mp ha).2
  rw [beyond, beyond, beyond, List.filter_filter]
  refine List.filter_congr fun b _ => ?_
  cases after with
  | none => simp
  | some c =>
    have hc : c < key a := by simpa using hafter
    have hiff : key a < key b → c < key b := hc.trans
    by_cases hb : key a < key b
    · simp [hb, hiff hb]
    · simp [hb]

theorem beyond_last {r : List α} (hr : r.Pairwise fun a b => key a < key b) {a : α}
    (ha : (r.take limit).getLast? = some a) : beyond key (some (key a)) r = r.drop limit := by
  obtain ⟨init, hinit⟩ : ∃ init, r.take limit = init ++ [a] := List.getLast?_eq_some_iff.mp ha
  have hsplit : r = (init ++ [a]) ++ r.drop limit := by rw [← hinit, List.take_append_drop]
  rw [hsplit, List.append_assoc, List.pairwise_append] at hr
  obtain ⟨-, htail, hinitLt⟩ := hr
  have hrest : ∀ b ∈ r.drop limit, key a < key b := fun b hb =>
    (List.pairwise_cons.mp htail).1 b hb
  nth_rewrite 1 [hsplit]
  rw [beyond, List.filter_append, List.filter_append]
  have hnone : init.filter (fun b => (some (key a)).all fun c => decide (c < key b)) = [] := by
    rw [List.filter_eq_nil_iff]
    intro b hb
    simpa using (hinitLt b hb a (by simp)).le
  have hall : (r.drop limit).filter (fun b => (some (key a)).all fun c => decide (c < key b)) =
      r.drop limit := by
    rw [List.filter_eq_self]
    intro b hb
    simpa using hrest b hb
  rw [hnone, hall]
  simp

variable (key limit l) in
/-- Reading from a key either gives the page that starts there or fails. `Complete` says of a key
that nothing beyond it makes a read fail; a page that is given has passed everything up to the key
that it ends with. -/
def ReadsPage (read : Option κ → Except ε (Page α κ)) (e : ε) (Complete : Option κ → Prop)
    (after : Option κ) : Prop :=
  (read after = .error e ∧ ¬ Complete after) ∨
    (read after = .ok (page key limit l after) ∧
      ((page key limit l after).next = none → Complete after) ∧
      ∀ c, (page key limit l after).next = some c → (Complete (some c) ↔ Complete after))

/-- Reading on from page to page gives every element, or ends with the error. -/
theorem follow_page (hl : l.Pairwise fun a b => key a < key b) (hlimit : 0 < limit)
    {read : Option κ → Except ε (Page α κ)} {e : ε} {Complete : Option κ → Prop}
    (hread : ∀ a ∈ l, ReadsPage key limit l read e Complete (some (key a)))
    {fuel : Nat} {after : Option κ} (hstart : ReadsPage key limit l read e Complete after)
    (hfuel : (beyond key after l).length < fuel) :
    (¬ Complete after ∧ follow read fuel after = .error e) ∨
      (Complete after ∧ ∃ pages, follow read fuel after = .ok pages ∧
        pages.flatMap Page.items = beyond key after l) := by
  induction fuel generalizing after with
  | zero => omega
  | succ fuel ih =>
    rcases hstart with ⟨hfailed, hincomplete⟩ | ⟨hpage, hlast, hnext⟩
    · refine .inl ⟨hincomplete, ?_⟩
      simp only [follow, hfailed, bind, Except.bind]
    by_cases hmore : limit < (beyond key after l).length
    · -- a full page ends with an element, and the next one starts there
      have hnonempty : (beyond key after l).take limit ≠ [] := by
        intro hempty
        have := congrArg List.length hempty
        simp only [List.length_take, List.length_nil] at this
        omega
      obtain ⟨a, ha⟩ : ∃ a, ((beyond key after l).take limit).getLast? = some a :=
        ⟨_, List.getLast?_eq_some_getLast hnonempty⟩
      have hmem : a ∈ beyond key after l := List.mem_of_mem_take (List.mem_of_getLast? ha)
      have hrest : beyond key (some (key a)) l = (beyond key after l).drop limit := by
        rw [beyond_beyond hmem, beyond_last (pairwise_beyond hl after) ha]
      have hfewer : (beyond key (some (key a)) l).length < fuel := by
        rw [hrest, List.length_drop]
        omega
      have hcursor : (page key limit l after).next = some (key a) := by
        simp only [page, if_pos hmore, ha, Option.map_some]
      rcases ih (hread a (List.mem_filter.mp hmem).1) hfewer with
        ⟨hincomplete, hfailed⟩ | ⟨hcomplete, pages, hpages, hitems⟩
      · refine .inl ⟨fun h => hincomplete ((hnext _ hcursor).mpr h), ?_⟩
        simp only [follow, hpage, hcursor, hfailed, bind, Except.bind]
      · refine .inr ⟨(hnext _ hcursor).mp hcomplete, page key limit l after :: pages, ?_, ?_⟩
        · simp only [follow, hpage, hcursor, hpages, bind, Except.bind, pure, Except.pure]
        · rw [List.flatMap_cons, hitems, hrest]
          exact List.take_append_drop limit _
    · have hcursor : (page key limit l after).next = none := if_neg hmore
      refine .inr ⟨hlast hcursor, [page key limit l after], ?_, ?_⟩
      · simp only [follow, hpage, hcursor, bind, Except.bind, pure, Except.pure]
      · rw [List.flatMap_singleton]
        exact List.take_of_length_le (Nat.not_lt.mp hmore)

/-- Calls that each show the next elements, as many as the limit allows, and go on while more are
left, show everything. `rest` is what is left at a place, and `all` what the calls from there give. -/
theorem exists_chunks {ι π : Type} {rest : ι → List α}
    {all : Nat → ι → Except ε (Option (List π))} {Shows : π → List α → Prop} {Good : ι → Prop}
    (hlimit : 0 < limit)
    (hstep : ∀ calls i, Good i → ∃ p, Shows p ((rest i).take limit) ∧
      (¬ limit < (rest i).length → all (calls + 1) i = .ok (some [p])) ∧
      (limit < (rest i).length → ∃ j, Good j ∧ rest j = (rest i).drop limit ∧
        ∀ pages, all calls j = .ok (some pages) → all (calls + 1) i = .ok (some (p :: pages))))
    {calls : Nat} {i : ι} (hi : Good i) (hcalls : (rest i).length < calls) :
    ∃ pages chunks, all calls i = .ok (some pages) ∧ List.Forall₂ Shows pages chunks ∧
      chunks.flatten = rest i ∧ ∀ chunk ∈ chunks, chunk.length ≤ limit := by
  induction calls generalizing i with
  | zero => omega
  | succ calls ih =>
    obtain ⟨p, hshows, hend, hgoes⟩ := hstep calls i hi
    have hlength := List.length_take_le limit (rest i)
    by_cases hmore : limit < (rest i).length
    · obtain ⟨j, hj, hrest, hall⟩ := hgoes hmore
      have hfewer : (rest j).length < calls := by
        rw [hrest, List.length_drop]
        omega
      obtain ⟨pages, chunks, hpages, hshown, hflat, hsmall⟩ := ih hj hfewer
      refine ⟨p :: pages, _ :: chunks, hall pages hpages, .cons hshows hshown, ?_,
        List.forall_mem_cons.mpr ⟨hlength, hsmall⟩⟩
      rw [List.flatten_cons, hflat, hrest, List.take_append_drop]
    · refine ⟨[p], [_], hend hmore, .cons hshows .nil, ?_, List.forall_mem_singleton.mpr hlength⟩
      rw [List.flatten_singleton, List.take_of_length_le (not_lt.mp hmore)]

end Paging
