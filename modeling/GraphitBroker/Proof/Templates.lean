import GraphitBroker.Proof.StorageExactness

/-!
# Prefix templates

A template is read once, from left to right, as literal characters and placeholders. Its meaning is
the text in which all placeholders are replaced at the same time.
-/

namespace GraphitBroker

open SepPath

variable {ts : List Token} {f : Placeholder → Str} {template : Str} {p : Placeholder}

inductive Placeholder where
  | project
  | username
  | organization
  | subject
  deriving DecidableEq, Repr

def Placeholder.word : Placeholder → Str
  | .project => "project".toList
  | .username => "username".toList
  | .organization => "organization".toList
  | .subject => "subject".toList

def Placeholder.name (p : Placeholder) : Str := '{' :: (p.word ++ ['}'])

def Placeholder.all : List Placeholder := [.project, .username, .organization, .subject]

def Placeholder.value (identity : StorageIdentity) (project : Option Str) : Placeholder → Option Str
  | .project => project
  | .username => identity.username
  | .organization => identity.organization
  | .subject => some identity.subject

inductive Token where
  | text (c : Char)
  | hole (p : Placeholder)
  deriving DecidableEq, Repr

def holeAt (s : Str) : Option Placeholder := Placeholder.all.find? fun p => p.name.isPrefixOf s

/-- The tokens of a template. As in `replaceFrom`, the number counts the characters of a found
placeholder that are still to be passed over. -/
def tokensFrom : Nat → Str → List Token
  | _, [] => []
  | skip + 1, _ :: rest => tokensFrom skip rest
  | 0, c :: rest =>
    match holeAt (c :: rest) with
    | some p => .hole p :: tokensFrom (p.name.length - 1) rest
    | none => .text c :: tokensFrom 0 rest

def tokens (template : Str) : List Token := tokensFrom 0 template

def Token.expand (f : Placeholder → Str) : Token → Str
  | .text c => [c]
  | .hole p => f p

def expand (f : Placeholder → Str) (ts : List Token) : Str := ts.flatMap (Token.expand f)

def substitute (f : Placeholder → Str) (template : Str) : Str := expand f (tokens template)

@[simp] theorem expand_nil (f : Placeholder → Str) : expand f [] = [] := rfl

@[simp] theorem expand_text (f : Placeholder → Str) (c : Char) (ts : List Token) :
    expand f (.text c :: ts) = c :: expand f ts := rfl

@[simp] theorem expand_hole (f : Placeholder → Str) (p : Placeholder) (ts : List Token) :
    expand f (.hole p :: ts) = f p ++ expand f ts := rfl

theorem expand_append (f : Placeholder → Str) (ts us : List Token) :
    expand f (ts ++ us) = expand f ts ++ expand f us := List.flatMap_append

theorem expand_congr {f g : Placeholder → Str}
    (h : ∀ p, Token.hole p ∈ ts → f p = g p) : expand f ts = expand g ts := by
  refine List.flatMap_congr fun t ht => ?_
  cases t with
  | text c => rfl
  | hole p => exact h p ht

variable {c : Char} {p q : Placeholder} {s : Str}

theorem mem_expand :
    c ∈ expand f ts ↔ Token.text c ∈ ts ∨ ∃ p, Token.hole p ∈ ts ∧ c ∈ f p := by
  induction ts with
  | nil => simp
  | cons t ts ih =>
    cases t with
    | text d => simp [ih, or_assoc]
    | hole p =>
      simp only [expand_hole, List.mem_append, ih, List.mem_cons, reduceCtorEq, false_or,
        Token.hole.injEq, or_and_right, exists_or, exists_eq_left]
      tauto

theorem Placeholder.mem_all (p : Placeholder) : p ∈ Placeholder.all := by cases p <;> decide

theorem Placeholder.brace_notMem_word (p : Placeholder) : '{' ∉ p.word := by cases p <;> decide

theorem Placeholder.slash_notMem_name (p : Placeholder) : '/' ∉ p.name := by cases p <;> decide

theorem Placeholder.name_ne_nil (p : Placeholder) : p.name ≠ [] := List.cons_ne_nil _ _

theorem Placeholder.eq_of_take_name (h : p.name.take 2 = q.name.take 2) :
    p = q := by
  revert h
  cases p <;> cases q <;> decide

theorem Placeholder.eq_of_name_prefix (h : p.name <+: q.name ++ s) :
    p = q := by
  obtain ⟨t, ht⟩ := h
  have hlong : ∀ r : Placeholder, 2 ≤ r.name.length := fun r => by cases r <;> decide
  have htake := congrArg (List.take 2) ht
  rw [List.take_append_of_le_length (hlong p), List.take_append_of_le_length (hlong q)] at htake
  exact Placeholder.eq_of_take_name htake

theorem holeAt_eq_some (h : holeAt s = some p) : p.name <+: s := by
  simpa using List.find?_some h

theorem holeAt_eq_none (h : holeAt s = none) (p : Placeholder) : ¬ p.name <+: s := by
  simpa using List.find?_eq_none.mp h p p.mem_all

theorem expand_tokensFrom (skip : Nat) (s : Str) :
    expand Placeholder.name (tokensFrom skip s) = s.drop skip := by
  induction s generalizing skip with
  | nil => simp [tokensFrom]
  | cons c rest ih =>
    cases skip with
    | succ skip => simpa [tokensFrom] using ih skip
    | zero =>
      cases hhole : holeAt (c :: rest) with
      | none => simp [tokensFrom, hhole, ih]
      | some p =>
        obtain ⟨tail, htail⟩ := holeAt_eq_some hhole
        have hrest : rest.drop (p.name.length - 1) = tail := by
          simp [← (List.cons.inj htail).2, Placeholder.name]
        simp only [tokensFrom, hhole, expand_hole, ih, hrest, htail, List.drop_zero]

theorem substitute_name (template : Str) : substitute Placeholder.name template = template :=
  expand_tokensFrom 0 template

def Scanned : List Token → Prop
  | [] => True
  | .text c :: ts => (∀ p : Placeholder, ¬ p.name <+: c :: expand Placeholder.name ts) ∧ Scanned ts
  | .hole _ :: ts => Scanned ts

theorem scanned_tokensFrom (skip : Nat) (s : Str) : Scanned (tokensFrom skip s) := by
  induction s generalizing skip with
  | nil => simp [tokensFrom, Scanned]
  | cons c rest ih =>
    cases skip with
    | succ skip => simpa [tokensFrom] using ih skip
    | zero =>
      cases hhole : holeAt (c :: rest) with
      | none =>
        simp only [tokensFrom, hhole, Scanned, expand_tokensFrom, List.drop_zero]
        exact ⟨holeAt_eq_none hhole, ih 0⟩
      | some p => simpa only [tokensFrom, hhole, Scanned] using ih _

theorem replaceFrom_skip (pat value : Str) (skip : Nat) (s : Str) :
    replaceFrom pat value skip s = replaceFrom pat value 0 (s.drop skip) := by
  induction s generalizing skip with
  | nil => simp [replaceFrom]
  | cons c rest ih =>
    cases skip with
    | zero => rfl
    | succ skip => simpa [replaceFrom] using ih skip

theorem replace_pattern {pat : Str} (hpat : pat ≠ []) (value s : Str) :
    replace pat value (pat ++ s) = value ++ replace pat value s := by
  obtain ⟨c, tail, rfl⟩ := List.exists_cons_of_ne_nil hpat
  have hfound : (c :: tail).isPrefixOf (c :: (tail ++ s)) = true := by simp
  simp only [replace, List.cons_append, replaceFrom, hfound, if_true]
  rw [replaceFrom_skip]
  simp

theorem replace_cons_of_not_prefix {pat s : Str} (h : ¬ pat <+: c :: s) (value : Str) :
    replace pat value (c :: s) = c :: replace pat value s := by
  simp [replace, replaceFrom, h]

theorem contains_cons (s pat : Str) (c : Char) :
    contains (c :: s) pat = (pat.isPrefixOf (c :: s) || contains s pat) := by
  simp [contains]

def Passes (pat block s : Str) : Prop := ∀ t, t ≠ [] → t <:+ block → ¬ pat <+: t ++ s

theorem Passes.tail {pat block s : Str} (h : Passes pat (c :: block) s) :
    Passes pat block s :=
  fun t ht hsuffix => h t ht (hsuffix.trans (List.suffix_cons c block))

theorem Passes.head {pat block s : Str} (h : Passes pat (c :: block) s) :
    ¬ pat <+: c :: (block ++ s) :=
  h (c :: block) (List.cons_ne_nil _ _) (List.suffix_refl _)

theorem replace_block {pat block s : Str} (h : Passes pat block s) (value : Str) :
    replace pat value (block ++ s) = block ++ replace pat value s := by
  induction block with
  | nil => rfl
  | cons c block ih =>
    rw [List.cons_append, replace_cons_of_not_prefix h.head, ih h.tail, List.cons_append]

theorem contains_block {pat block s : Str} (h : Passes pat block s) :
    contains (block ++ s) pat = contains s pat := by
  induction block with
  | nil => rfl
  | cons c block ih =>
    have hhead : pat.isPrefixOf (c :: (block ++ s)) = false :=
      Bool.eq_false_iff.mpr fun hstart => h.head (List.isPrefixOf_iff_prefix.mp hstart)
    rw [List.cons_append, contains_cons, hhead, Bool.false_or, ih h.tail]

theorem passes_of_brace_notMem {block : Str} (h : '{' ∉ block) (p : Placeholder) (s : Str) :
    Passes p.name block s := by
  rintro (_ | ⟨c, t⟩) ht hsuffix hstart
  · exact ht rfl
  · have hc : '{' = c := (List.cons_prefix_cons.mp hstart).1
    exact h (hc ▸ hsuffix.subset List.mem_cons_self)

theorem passes_name (hpq : p ≠ q) (s : Str) : Passes p.name q.name s := by
  intro t ht hsuffix hstart
  rcases List.suffix_cons_iff.mp hsuffix with rfl | hinner
  · exact hpq (Placeholder.eq_of_name_prefix hstart)
  · have hbrace : '{' ∉ q.word ++ ['}'] := by
      simpa using q.brace_notMem_word
    exact passes_of_brace_notMem hbrace p s t ht hinner hstart

def Inert (f : Placeholder → Str) (p : Placeholder) : Prop := f p = p.name ∨ '{' ∉ f p

def Clear (f : Placeholder → Str) (p : Placeholder) : List Token → Prop
  | [] => True
  | .text c :: ts => (¬ p.name <+: c :: expand f ts) ∧ Clear f p ts
  | .hole _ :: ts => Clear f p ts

theorem Inert.passes (h : Inert f q) (hpq : p ≠ q) (s : Str) : Passes p.name (f q) s := by
  rcases h with h | h
  · rw [h]
    exact passes_name hpq s
  · exact passes_of_brace_notMem h p s

theorem replace_expand
    (hp : f p = p.name) (hinert : ∀ q, Token.hole q ∈ ts → Inert f q) (hclear : Clear f p ts)
    (value : Str) :
    replace p.name value (expand f ts) = expand (Function.update f p value) ts := by
  induction ts with
  | nil => rfl
  | cons t ts ih =>
    have htail := fun q hq => hinert q (List.mem_cons_of_mem t hq)
    cases t with
    | text c =>
      rw [expand_text, replace_cons_of_not_prefix hclear.1, ih htail hclear.2, expand_text]
    | hole q =>
      simp only [expand_hole]
      by_cases hpq : p = q
      · subst hpq
        rw [hp, replace_pattern p.name_ne_nil, ih htail hclear, Function.update_self]
      · have hpass := (hinert q List.mem_cons_self).passes hpq (expand f ts)
        rw [replace_block hpass, ih htail hclear, Function.update_of_ne (Ne.symm hpq)]

theorem contains_expand
    (hp : f p = p.name) (hinert : ∀ q, Token.hole q ∈ ts → Inert f q) (hclear : Clear f p ts) :
    contains (expand f ts) p.name = true ↔ Token.hole p ∈ ts := by
  induction ts with
  | nil => simp [contains, Placeholder.name]
  | cons t ts ih =>
    have htail := fun q hq => hinert q (List.mem_cons_of_mem t hq)
    cases t with
    | text c =>
      have hhead : p.name.isPrefixOf (c :: expand f ts) = false :=
        Bool.eq_false_iff.mpr fun hstart => hclear.1 (List.isPrefixOf_iff_prefix.mp hstart)
      rw [expand_text, contains_cons, hhead, Bool.false_or, ih htail hclear.2]
      simp
    | hole q =>
      simp only [expand_hole, List.mem_cons, Token.hole.injEq]
      by_cases hpq : p = q
      · subst hpq
        rw [hp]
        simp [Placeholder.name, contains_cons]
      · have hpass := (hinert q List.mem_cons_self).passes hpq (expand f ts)
        rw [contains_block hpass, ih htail hclear]
        simp [hpq]

def filled (g : Placeholder → Str) (done : List Placeholder) (p : Placeholder) : Str :=
  if p ∈ done then g p else p.name

theorem filled_of_notMem {g : Placeholder → Str} {done : List Placeholder}
    (h : p ∉ done) : filled g done p = p.name := if_neg h

theorem update_filled (g : Placeholder → Str) (done : List Placeholder) (p : Placeholder) :
    Function.update (filled g done) p (g p) = filled g (p :: done) := by
  funext q
  by_cases hq : q = p
  · simp [filled, hq]
  · simp [filled, hq]

theorem expand_filled_nil (g : Placeholder → Str) (template : Str) :
    expand (filled g []) (tokens template) = template :=
  (expand_congr fun _ _ => by simp [filled]).trans (substitute_name template)

theorem expand_filled_all {g : Placeholder → Str} {done : List Placeholder}
    (h : ∀ p, p ∈ done) (template : Str) :
    expand (filled g done) (tokens template) = substitute g template :=
  expand_congr fun p _ => by simp [filled, h p]

def probeWord : Str := "validation".toList

theorem word_prefix_of_probed (hf : ∀ p, f p = p.name ∨ f p = probeWord) {word : Str}
    (hbrace : '{' ∉ word) (hprobe : ¬ probeWord <:+: word)
    (h : word ++ ['}'] <+: expand f ts) : word ++ ['}'] <+: expand Placeholder.name ts := by
  induction ts generalizing word with
  | nil => simp at h
  | cons t ts ih =>
    cases t with
    | text c =>
      cases word with
      | nil => simpa using h
      | cons a word =>
        simp only [List.cons_append, expand_text, List.cons_prefix_cons] at h ⊢
        refine ⟨h.1, ih (fun hmem => hbrace (List.mem_cons_of_mem a hmem)) ?_ h.2⟩
        exact fun hinner => hprobe (hinner.trans (List.suffix_cons a word).isInfix)
    | hole p =>
      simp only [expand_hole] at h
      have hclose : '}' ∉ probeWord := by decide
      rcases hf p with hname | hword
      · -- the name of a placeholder starts with a brace, the rest of a name does not
        rw [hname] at h
        cases word with
        | nil => simp [Placeholder.name] at h
        | cons a word =>
          have ha : a = '{' := (List.cons_prefix_cons.mp h).1
          exact absurd List.mem_cons_self (ha ▸ hbrace)
      · rw [hword] at h
        rcases List.prefix_or_prefix_of_prefix h (List.prefix_append _ _) with hle | hle
        · exact absurd (hle.subset (by simp)) hclose
        · rcases List.prefix_concat_iff.mp hle with heq | hle
          · exact absurd (by simp [heq]) hclose
          · exact absurd hle.isInfix hprobe

theorem Placeholder.probeWord_not_infix_word (p : Placeholder) : ¬ probeWord <:+: p.word := by
  cases p <;> decide

theorem clear_of_probed (hf : ∀ p, f p = p.name ∨ f p = probeWord)
    (p : Placeholder) (h : Scanned ts) : Clear f p ts := by
  induction ts with
  | nil => trivial
  | cons t ts ih =>
    cases t with
    | hole q => exact ih h
    | text c =>
      refine ⟨fun hstart => h.1 p ?_, ih h.2⟩
      obtain ⟨hc, hrest⟩ := List.cons_prefix_cons.mp hstart
      exact List.cons_prefix_cons.mpr ⟨hc,
        word_prefix_of_probed hf p.brace_notMem_word p.probeWord_not_infix_word hrest⟩

theorem replace_probed (hf : ∀ p, f p = p.name ∨ f p = probeWord) (hp : f p = p.name) (h : Scanned ts) :
    replace p.name probeWord (expand f ts) = expand (Function.update f p probeWord) ts := by
  refine replace_expand hp (fun q _ => (hf q).imp_right fun hq => ?_) (clear_of_probed hf p h) _
  rw [hq]
  decide

theorem templateProbe_eq (template : Str) :
    templateProbe template = substitute (fun _ => probeWord) template := by
  have hscanned : Scanned (tokens template) := scanned_tokensFrom 0 template
  have hstep : ∀ (done : List Placeholder) (p : Placeholder), p ∉ done →
      replace p.name probeWord (expand (filled (fun _ => probeWord) done) (tokens template)) =
        expand (filled (fun _ => probeWord) (p :: done)) (tokens template) := by
    intro done p hp
    rw [replace_probed (fun q => by unfold filled; split <;> simp) (filled_of_notMem hp) hscanned,
      ← update_filled]
  calc templateProbe template
      = Placeholder.all.foldl (fun probe p => replace p.name probeWord probe) template := rfl
    _ = expand (filled (fun _ => probeWord) Placeholder.all.reverse) (tokens template) := by
      nth_rewrite 1 [← expand_filled_nil (fun _ => probeWord) template]
      simp only [Placeholder.all, List.foldl_cons, List.foldl_nil]
      rw [hstep _ _ (by decide), hstep _ _ (by decide), hstep _ _ (by decide),
        hstep _ _ (by decide)]
      rfl
    _ = substitute (fun _ => probeWord) template :=
      expand_filled_all (fun p => List.mem_reverse.mpr p.mem_all) template

theorem safeSegment_parts :
    safeSegment s = true ↔
      s.head?.any Char.isAlphanum = true ∧ (∀ c ∈ s, segmentChar c = true) ∧ byteLen s ≤ 128 := by
  rw [safeSegment_iff, segmentText_iff]
  cases s with
  | nil => simp
  | cons c rest => simp only [ne_eq, reduceCtorEq, not_false_eq_true]; tauto

theorem notMem_of_safeSegment (h : safeSegment s = true) (hc : segmentChar c = false) : c ∉ s := by
  intro hmem
  rw [(safeSegment_parts.mp h).2.1 c hmem] at hc
  cases hc

theorem splitOn_expand (hf : ∀ p, Token.hole p ∈ ts → '/' ∉ f p) :
    (expand f ts).splitOn '/' = (ts.splitOn (.text '/')).map (expand f) := by
  induction hlen : ts.length using Nat.strong_induction_on generalizing ts with
  | _ n ih =>
    by_cases hsep : Token.text '/' ∈ ts
    · obtain ⟨a, b, rfl⟩ := List.append_of_mem hsep
      have hlengths : a.length + (b.length + 1) = n := by simpa using hlen
      rw [expand_append, expand_text, splitOn_append_sep, splitOn_append_sep, List.map_append,
        ih a.length (by omega) (fun p hp => hf p (by simp [hp])) rfl,
        ih b.length (by omega) (fun p hp => hf p (by simp [hp])) rfl]
    · have hslash : '/' ∉ expand f ts := by
        rw [mem_expand]
        rintro (h | ⟨p, hp, h⟩)
        · exact hsep h
        · exact hf p hp h
      rw [splitOn_of_notMem hslash, splitOn_of_notMem hsep]
      rfl

theorem mem_of_mem_splitOn {α : Type} [DecidableEq α] {sep : α} {s word : List α} {c : α}
    (hword : word ∈ s.splitOn sep) (hc : c ∈ word) : c ∈ s := by
  induction hlen : s.length using Nat.strong_induction_on generalizing s with
  | _ n ih =>
    by_cases hsep : sep ∈ s
    · obtain ⟨a, b, rfl⟩ := List.append_of_mem hsep
      have hlengths : a.length + (b.length + 1) = n := by simpa using hlen
      rw [splitOn_append_sep] at hword
      rcases List.mem_append.mp hword with ha | hb
      · exact List.mem_append_left _ (ih a.length (by omega) ha rfl)
      · exact List.mem_append_right _ (List.mem_cons_of_mem _ (ih b.length (by omega) hb rfl))
    · rw [splitOn_of_notMem hsep] at hword
      rwa [← List.mem_singleton.mp hword]

def AcceptedTemplate (template : Str) : Prop := safePath (templateProbe template) = true

theorem AcceptedTemplate.segments (h : AcceptedTemplate template) :
    ∀ segment ∈ (tokens template).splitOn (.text '/'),
      safeSegment (expand (fun _ => probeWord) segment) = true := by
  rw [AcceptedTemplate, templateProbe_eq, substitute, safePath,
    splitOn_expand fun _ _ => by decide] at h
  simpa using (Bool.and_eq_true_iff.mp h).2

theorem AcceptedTemplate.no_brace (h : AcceptedTemplate template) :
    Token.text '{' ∉ tokens template := by
  intro hmem
  obtain ⟨segment, hsegment, hbrace⟩ :=
    exists_mem_splitOn hmem (show Token.text '{' ≠ Token.text '/' by decide)
  exact notMem_of_safeSegment (h.segments segment hsegment) (by decide)
    (mem_expand.mpr (Or.inl hbrace))

theorem safeSegment_expand {segment : List Token}
    (hprobe : safeSegment (expand (fun _ => probeWord) segment) = true)
    (hf : ∀ p, Token.hole p ∈ segment → safeSegment (f p) = true) :
    safeSegment (expand f segment) = true ↔ byteLen (expand f segment) ≤ 128 := by
  obtain ⟨hhead, hchars, -⟩ := safeSegment_parts.mp hprobe
  rw [safeSegment_parts]
  refine ⟨fun h => h.2.2, fun hlen => ⟨?_, fun c hc => ?_, hlen⟩⟩
  · cases segment with
    | nil => simp at hhead
    | cons t segment =>
      cases t with
      | text c => simpa using hhead
      | hole p =>
        have hvalue := (safeSegment_parts.mp (hf p List.mem_cons_self)).1
        cases hfp : f p with
        | nil => simp [hfp] at hvalue
        | cons c rest => simpa [hfp] using hvalue
  · rcases mem_expand.mp hc with htext | ⟨p, hp, hcp⟩
    · exact hchars c (mem_expand.mpr (Or.inl htext))
    · exact (safeSegment_parts.mp (hf p hp)).2.1 c hcp

theorem length_splitOn_substitute (hf : ∀ p, Token.hole p ∈ tokens template → '/' ∉ f p) :
    ((substitute f template).splitOn '/').length = (template.splitOn '/').length := by
  conv_rhs => rw [← substitute_name template]
  rw [substitute, substitute, splitOn_expand hf, splitOn_expand fun p _ => p.slash_notMem_name,
    List.length_map, List.length_map]

theorem AcceptedTemplate.safePath_substitute (h : AcceptedTemplate template)
    (hf : ∀ p, Token.hole p ∈ tokens template → safeSegment (f p) = true) :
    safePath (substitute f template) = true ↔
      ∀ segment ∈ (substitute f template).splitOn '/', byteLen segment ≤ 128 := by
  have hslash : ∀ p, Token.hole p ∈ tokens template → '/' ∉ f p :=
    fun p hp => notMem_of_safeSegment (hf p hp) (by decide)
  have hsegment : ∀ segment ∈ (tokens template).splitOn (.text '/'),
      (safeSegment (expand f segment) = true ↔ byteLen (expand f segment) ≤ 128) :=
    fun segment hmem => safeSegment_expand (h.segments segment hmem)
      fun p hp => hf p (mem_of_mem_splitOn hmem hp)
  have hall : (∀ segment ∈ (substitute f template).splitOn '/', safeSegment segment = true) ↔
      ∀ segment ∈ (substitute f template).splitOn '/', byteLen segment ≤ 128 := by
    rw [substitute, splitOn_expand hslash]
    simp only [List.forall_mem_map]
    exact forall₂_congr hsegment
  rw [← hall, safePath, Bool.and_eq_true, List.all_eq_true, and_iff_right_iff_imp]
  intro hsafe
  cases hsubst : substitute f template with
  | nil => exact absurd (hsafe [] (by simp [hsubst])) (by decide)
  | cons c rest => rfl

theorem clear_of_no_brace (h : Token.text '{' ∉ ts) (f : Placeholder → Str)
    (p : Placeholder) : Clear f p ts := by
  induction ts with
  | nil => trivial
  | cons t ts ih =>
    have htail := ih fun hmem => h (List.mem_cons_of_mem t hmem)
    cases t with
    | hole q => exact htail
    | text c =>
      refine ⟨fun hstart => h ?_, htail⟩
      rw [← (List.cons_prefix_cons.mp hstart).1]
      exact List.mem_cons_self

section Render

variable (identity : StorageIdentity) (project : Option Str)

def Placeholder.text (p : Placeholder) : Str := (p.value identity project).getD []

def Placeholder.safe (p : Placeholder) : Bool := (p.value identity project).any safeSegment

variable {identity project}

theorem Placeholder.safeSegment_text (h : p.safe identity project = true) :
    safeSegment (p.text identity project) = true := by
  unfold Placeholder.safe at h
  unfold Placeholder.text
  cases hvalue : p.value identity project with
  | none => simp [hvalue] at h
  | some v => simpa [hvalue] using h

theorem renderPlaceholder_filled (hbrace : Token.text '{' ∉ ts)
    {done : List Placeholder} (hp : p ∉ done)
    (hdone : ∀ q ∈ done, Token.hole q ∈ ts → q.safe identity project = true) :
    renderPlaceholder p.name (p.value identity project)
        (expand (filled (Placeholder.text identity project) done) ts) =
      if Token.hole p ∈ ts ∧ p.safe identity project = false then .error .invalidPolicy
      else .ok (expand (filled (Placeholder.text identity project) (p :: done)) ts) := by
  have hname := filled_of_notMem (g := Placeholder.text identity project) hp
  have hclear := clear_of_no_brace hbrace (filled (Placeholder.text identity project) done) p
  have hinert : ∀ q, Token.hole q ∈ ts →
      Inert (filled (Placeholder.text identity project) done) q := by
    intro q hq
    by_cases hmem : q ∈ done
    · right
      rw [filled, if_pos hmem]
      exact notMem_of_safeSegment (Placeholder.safeSegment_text (hdone q hmem hq)) (by decide)
    · exact Or.inl (filled_of_notMem hmem)
  have hcontains := contains_expand hname hinert hclear
  unfold renderPlaceholder
  by_cases huse : Token.hole p ∈ ts
  · rw [if_pos (hcontains.mpr huse), ← update_filled, ← replace_expand hname hinert hclear]
    unfold Placeholder.safe Placeholder.text
    cases p.value identity project with
    | none => simp [huse]
    | some v => cases hv : safeSegment v <;> simp [huse, hv, Option.filter]
  · rw [if_neg (fun h => huse (hcontains.mp h)), if_neg (fun h => huse h.1), ← update_filled]
    refine congrArg Except.ok (expand_congr fun q hq => ?_)
    rw [Function.update_of_ne]
    rintro rfl
    exact huse hq

theorem foldlM_renderPlaceholder (hbrace : Token.text '{' ∉ ts)
    (ps done : List Placeholder) (hnodup : (ps.reverse ++ done).Nodup)
    (hdone : ∀ p ∈ done, Token.hole p ∈ ts → p.safe identity project = true) :
    ps.foldlM (fun rendered p => renderPlaceholder p.name (p.value identity project) rendered)
        (expand (filled (Placeholder.text identity project) done) ts) =
      if ∃ p ∈ ps, Token.hole p ∈ ts ∧ p.safe identity project = false then .error .invalidPolicy
      else .ok (expand (filled (Placeholder.text identity project) (ps.reverse ++ done)) ts) := by
  induction ps generalizing done with
  | nil => simp [pure, Except.pure]
  | cons p ps ih =>
    have hp : p ∉ done := fun hmem =>
      (List.nodup_append.mp hnodup).2.2 p (by simp) p hmem rfl
    have hnext : (ps.reverse ++ (p :: done)).Nodup := by simpa using hnodup
    rw [List.foldlM_cons, renderPlaceholder_filled hbrace hp hdone]
    by_cases hbad : Token.hole p ∈ ts ∧ p.safe identity project = false
    · rw [if_pos hbad, if_pos ⟨p, List.mem_cons_self, hbad⟩]
      rfl
    · have hsafe : ∀ q ∈ p :: done, Token.hole q ∈ ts → q.safe identity project = true := by
        rintro q hq hmem
        rcases List.mem_cons.mp hq with rfl | hq
        · exact Bool.of_not_eq_false fun hfalse => hbad ⟨hmem, hfalse⟩
        · exact hdone q hq hmem
      rw [if_neg hbad]
      refine (ih (p :: done) hnext hsafe).trans ?_
      simp [hbad]

theorem render_eq (template : Str) :
    render template identity project =
      if project.isNone && contains template Placeholder.project.name then .ok none
      else
        (Placeholder.all.foldlM
          (fun rendered p => renderPlaceholder p.name (p.value identity project) rendered)
          template) >>= fun rendered =>
            if safePath rendered then .ok (some rendered) else .error .invalidPolicy := by
  simp only [Placeholder.all, List.foldlM_cons, List.foldlM_nil, bind_assoc, pure_bind]
  refine if_congr Iff.rfl rfl (bind_congr fun _ => bind_congr fun _ => bind_congr fun _ =>
    bind_congr fun rendered => ?_)
  cases safePath rendered <;> rfl

end Render

theorem AcceptedTemplate.contains_iff (h : AcceptedTemplate template) (p : Placeholder) :
    contains template p.name = true ↔ Token.hole p ∈ tokens template := by
  have hexpand := contains_expand (f := Placeholder.name) (p := p) rfl (fun _ _ => Or.inl rfl)
    (clear_of_no_brace h.no_brace Placeholder.name p)
  rwa [show expand Placeholder.name (tokens template) = template from substitute_name template]
    at hexpand

theorem AcceptedTemplate.render_eq (h : AcceptedTemplate template)
    (identity : StorageIdentity) (project : Option Str) :
    render template identity project =
      if project = none ∧ contains template Placeholder.project.name = true then .ok none
      else if ∃ p ∈ Placeholder.all,
          contains template p.name = true ∧ p.safe identity project = false then
        .error .invalidPolicy
      else if safePath (substitute (Placeholder.text identity project) template) = true then
        .ok (some (substitute (Placeholder.text identity project) template))
      else .error .invalidPolicy := by
  have hloop := @foldlM_renderPlaceholder _ identity project h.no_brace Placeholder.all []
    (by decide) (by simp)
  rw [expand_filled_nil, expand_filled_all (fun p => by simp [p.mem_all])] at hloop
  rw [GraphitBroker.render_eq, hloop]
  simp only [← h.contains_iff, Bool.and_eq_true, Option.isNone_iff_eq_none]
  split_ifs with hnone hbad hsafe
  · rfl
  · rfl
  · exact if_pos hsafe
  · exact if_neg hsafe

theorem acceptedTemplate_of_compile {vendor : Vendor} {snapshot : ResourceGrantSnapshot}
    {policy : StoragePolicy} (hcompile : StoragePolicy.compile vendor snapshot = .ok policy)
    {rule : StorageRule} (hrule : rule ∈ policy.rules)
    (htemplate : template ∈ rule.templates) : AcceptedTemplate template := by
  have hrules : snapshot.rules.mapM (StorageRule.compile vendor) = .ok policy.rules :=
    ExceptList.mapM_eq_ok_iff.mpr ((@ExceptList.forall₂_zip_iff _ _ _
      (fun stored hub => HubRule.compile vendor stored = .ok hub)
      (fun stored rule => StorageRule.compile vendor stored = .ok rule) _ _ _
      policy.aligned.symm).mp (compile_eq_ok_iff.mp hcompile)).2
  obtain ⟨stored, -, _, hstored, rfl⟩ :=
    (ExceptList.exists_mem_mapM hrules (· = rule)).mp ⟨rule, hrule, rfl⟩
  rw [StorageRule.compile, ExceptList.bind_eq_ok] at hstored
  obtain ⟨operations, -, hstored⟩ := hstored
  obtain ⟨templates, htemplates, hstored⟩ := ExceptList.bind_eq_ok.mp hstored
  cases hstored
  obtain ⟨raw, -, _, hraw, rfl⟩ :=
    (ExceptList.exists_mem_mapM htemplates (· = template)).mp ⟨template, htemplate, rfl⟩
  unfold compileTemplate at hraw
  split_ifs at hraw with hprobe
  cases hraw
  simpa [AcceptedTemplate] using hprobe

/-- A template of a compiled policy means the text in which every placeholder is replaced at once.
Without a project a template that uses one is passed over, whatever its other placeholders are;
otherwise rendering fails on a used placeholder whose value is missing or not a safe segment and on
a segment that has become too long, and on nothing else. -/
theorem render_substitutes {vendor : Vendor} {snapshot : ResourceGrantSnapshot}
    {policy : StoragePolicy} (hcompile : StoragePolicy.compile vendor snapshot = .ok policy)
    {rule : StorageRule} (hrule : rule ∈ policy.rules) {template : Str}
    (htemplate : template ∈ rule.templates) (identity : StorageIdentity) (project : Option Str) :
    (∀ rendered, render template identity project = .ok (some rendered) →
      rendered = substitute (Placeholder.text identity project) template ∧
      (rendered.splitOn '/').length = (template.splitOn '/').length ∧
      safePath rendered = true) ∧
    (render template identity project = .ok none ↔
      contains template Placeholder.project.name = true ∧ project = none) ∧
    ((∃ error, render template identity project = .error error) ↔
      ¬ (contains template Placeholder.project.name = true ∧ project = none) ∧
      ((∃ p : Placeholder, contains template p.name = true ∧
          (p.value identity project).any safeSegment = false) ∨
        ∃ segment ∈ (substitute (Placeholder.text identity project) template).splitOn '/',
          128 < byteLen segment)) := by
  have haccepted := acceptedTemplate_of_compile hcompile hrule htemplate
  have hrender := haccepted.render_eq identity project
  by_cases hnone : contains template Placeholder.project.name = true ∧ project = none
  · rw [if_pos hnone.symm] at hrender
    exact ⟨by simp [hrender], iff_of_true hrender hnone,
      iff_of_false (by simp [hrender]) fun h => h.1 hnone⟩
  rw [if_neg (fun h => hnone h.symm)] at hrender
  by_cases hbad : ∃ p : Placeholder, contains template p.name = true ∧
      p.safe identity project = false
  · obtain ⟨p, hp⟩ := hbad
    rw [if_pos ⟨p, p.mem_all, hp⟩] at hrender
    refine ⟨by simp [hrender], by simp [hrender, hnone], ?_⟩
    exact ⟨fun _ => ⟨hnone, Or.inl ⟨p, hp⟩⟩, fun _ => ⟨_, hrender⟩⟩
  rw [if_neg (fun ⟨p, _, hp⟩ => hbad ⟨p, hp⟩)] at hrender
  have hvalues : ∀ p, Token.hole p ∈ tokens template →
      safeSegment (p.text identity project) = true := by
    intro p hp
    refine Placeholder.safeSegment_text (Bool.of_not_eq_false fun hfalse => hbad ⟨p, ?_, hfalse⟩)
    exact (haccepted.contains_iff p).mpr hp
  have hsafe := haccepted.safePath_substitute hvalues
  by_cases hlong :
      ∃ segment ∈ (substitute (Placeholder.text identity project) template).splitOn '/',
        128 < byteLen segment
  · have hunsafe : ¬ safePath (substitute (Placeholder.text identity project) template) = true := by
      obtain ⟨segment, hsegment, hlong⟩ := hlong
      intro h
      exact absurd (hsafe.mp h segment hsegment) (by omega)
    rw [if_neg hunsafe] at hrender
    refine ⟨by simp [hrender], by simp [hrender, hnone], ?_⟩
    exact ⟨fun _ => ⟨hnone, Or.inr hlong⟩, fun _ => ⟨_, hrender⟩⟩
  · have hpath := hsafe.mpr fun segment hsegment =>
      Nat.not_lt.mp fun hlt => hlong ⟨segment, hsegment, hlt⟩
    rw [if_pos hpath] at hrender
    refine ⟨?_, by simp [hrender, hnone], ?_⟩
    · intro rendered h
      rw [hrender] at h
      obtain rfl := Option.some.inj (Except.ok.inj h)
      refine ⟨rfl, length_splitOn_substitute fun p hp => ?_, hpath⟩
      exact notMem_of_safeSegment (hvalues p hp) (by decide)
    · constructor
      · rintro ⟨error, herror⟩
        rw [hrender] at herror
        cases herror
      · rintro ⟨-, hcase⟩
        exact absurd hcase (not_or.mpr ⟨hbad, hlong⟩)

namespace Sample

def projectUsers : ResourceGrantRule :=
  { readWrite with s3Prefixes := ["v1/{project}/users/{username}".toList] }

def broker : Option Str := some "broker".toList

end Sample

/-- The template of `projectUsers` for `alice`, with and without a project. -/
theorem render_substitutes_alice :
    ∃ policy rule, ∃ template ∈ rule.templates,
      StoragePolicy.compile Sample.crates ⟨[Sample.projectUsers]⟩ = .ok policy ∧
      rule ∈ policy.rules ∧
      render template Sample.alice none = .ok none ∧
      render template Sample.alice Sample.broker =
        .ok (some (substitute (Placeholder.text Sample.alice Sample.broker) template)) := by
  have happly : ∀ policy rule template,
      StoragePolicy.compile Sample.crates ⟨[Sample.projectUsers]⟩ = .ok policy →
      rule ∈ policy.rules → template ∈ rule.templates →
      contains template Placeholder.project.name = true →
      (∃ rendered, render template Sample.alice Sample.broker = .ok (some rendered)) →
      render template Sample.alice none = .ok none ∧
      render template Sample.alice Sample.broker =
        .ok (some (substitute (Placeholder.text Sample.alice Sample.broker) template)) := by
    rintro policy rule template hcompile hrule htemplate huses ⟨rendered, hrendered⟩
    have hnone := (render_substitutes hcompile hrule htemplate Sample.alice none).2.1.mpr
      ⟨huses, rfl⟩
    have hsome := (render_substitutes hcompile hrule htemplate Sample.alice _).1 _ hrendered
    exact ⟨hnone, by rw [hrendered, hsome.1]⟩
  refine ⟨_, _, "v1/{project}/users/{username}".toList, ?_, rfl, List.mem_singleton_self _, ?_⟩
  · exact List.mem_singleton_self _
  · exact happly _ _ _ rfl (List.mem_singleton_self _) (List.mem_singleton_self _) (by decide)
      ⟨_, rfl⟩

end GraphitBroker
