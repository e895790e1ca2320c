import GraphitBroker.Lib.Document

/-!
# Documents as JSON texts

The compact text of a document, as `serde_json` writes it, and a reader of such texts that goes down
a bounded number of levels.
-/

namespace Json

def escapeControl (n : Nat) : List Char :=
  if n = 8 then ['\\', 'b']
  else if n = 9 then ['\\', 't']
  else if n = 10 then ['\\', 'n']
  else if n = 12 then ['\\', 'f']
  else if n = 13 then ['\\', 'r']
  else ['\\', 'u', '0', '0', Nat.digitChar (n / 16), Nat.digitChar (n % 16)]

def escapeChar (c : Char) : List Char :=
  if c = '\"' then ['\\', '\"']
  else if c = '\\' then ['\\', '\\']
  else if c.toNat < 32 then escapeControl c.toNat
  else [c]

def renderStr (s : List Char) : List Char := '\"' :: s.flatMap escapeChar ++ ['\"']

def renderSeq (close : Char) : List (List Char) → List Char
  | [] => [close]
  | [piece] => piece ++ [close]
  | piece :: next :: pieces => piece ++ ',' :: renderSeq close (next :: pieces)

theorem escapeControl_head (n : Nat) :
    ∃ e rest, escapeControl n = '\\' :: e :: rest ∧ e ≠ '\"' ∧ e ≠ '\\' := by
  unfold escapeControl
  split_ifs
  all_goals exact ⟨_, _, rfl, by decide, by decide⟩

theorem escapeChar_cases (c : Char) :
    (escapeChar c = ['\\', c] ∧ (c = '\"' ∨ c = '\\')) ∨
    (escapeChar c = escapeControl c.toNat ∧ c.toNat < 32) ∨
    (escapeChar c = [c] ∧ c ≠ '\"' ∧ c ≠ '\\') := by
  unfold escapeChar
  split_ifs with hquote hslash hcontrol
  · exact Or.inl ⟨by rw [hquote], Or.inl hquote⟩
  · exact Or.inl ⟨by rw [hslash], Or.inr hslash⟩
  · exact Or.inr (Or.inl ⟨rfl, hcontrol⟩)
  · exact Or.inr (Or.inr ⟨rfl, hquote, hslash⟩)

theorem escapeChar_head (c : Char) : ∃ e rest, escapeChar c = e :: rest ∧ e ≠ '\"' := by
  obtain ⟨e, rest, hhead, _, _⟩ := escapeControl_head c.toNat
  rcases escapeChar_cases c with ⟨hc, _⟩ | ⟨hc, _⟩ | ⟨hc, hquote, _⟩
  · exact ⟨_, _, hc, by decide⟩
  · exact ⟨_, _, hc.trans hhead, by decide⟩
  · exact ⟨_, _, hc, hquote⟩

end Json

namespace Document

open Json

mutual

def render : Document → List Char
  | .null => "null".toList
  | .bool b => if b then "true".toList else "false".toList
  | .number n => Nat.toDigits 10 n.toNat
  | .otherNumber => "-1".toList
  | .str s => renderStr s
  | .arr items => '[' :: renderSeq ']' (renderItems items)
  | .obj fields => '{' :: renderSeq '}' (renderFields fields)
termination_by structural doc => doc

def renderItems : List Document → List (List Char)
  | [] => []
  | item :: items => render item :: renderItems items
termination_by structural items => items

def renderFields : List (List Char × Document) → List (List Char)
  | [] => []
  | field :: fields => renderField field :: renderFields fields
termination_by structural fields => fields

def renderField : List Char × Document → List Char
  | (key, value) => renderStr key ++ ':' :: render value
termination_by structural field => field

end

theorem renderItems_eq (items : List Document) : renderItems items = items.map render := by
  induction items with
  | nil => rfl
  | cons item items ih => rw [renderItems, ih, List.map_cons]

theorem renderFields_eq (fields : List (List Char × Document)) :
    renderFields fields = fields.map renderField := by
  induction fields with
  | nil => rfl
  | cons field fields ih => rw [renderFields, ih, List.map_cons]

/-! ### Reading -/

def hexDigit (c : Char) : Nat := if c.isDigit then c.toNat - 48 else c.toNat - 87

/-- The character that an escape stands for, behind its backslash. -/
def unescape : List Char → Option (Char × List Char)
  | 'b' :: rest => some (Char.ofNat 8, rest)
  | 't' :: rest => some (Char.ofNat 9, rest)
  | 'n' :: rest => some (Char.ofNat 10, rest)
  | 'f' :: rest => some (Char.ofNat 12, rest)
  | 'r' :: rest => some (Char.ofNat 13, rest)
  | 'u' :: '0' :: '0' :: high :: low :: rest =>
    some (Char.ofNat (16 * hexDigit high + hexDigit low), rest)
  | '\"' :: rest => some ('\"', rest)
  | '\\' :: rest => some ('\\', rest)
  | _ => none

def readChar : List Char → Option (Char × List Char)
  | [] => none
  | c :: rest => if c = '\\' then unescape rest else some (c, rest)

def readChars : Nat → List Char → Option (List Char × List Char)
  | 0, _ => none
  | fuel + 1, text =>
    if text.head? = some '\"' then some ([], text.tail)
    else do
      let (c, rest) ← readChar text
      let (s, rest) ← readChars fuel rest
      return (c :: s, rest)

def readStr (text : List Char) : Option (List Char × List Char) :=
  if text.head? = some '\"' then readChars text.length text.tail else none

def readItems {α : Type} (read : List Char → Option (α × List Char)) (close : Char) :
    Nat → List Char → Option (List α × List Char)
  | 0, _ => none
  | fuel + 1, text => do
    let (item, rest) ← read text
    if rest.head? = some close then return ([item], rest.tail)
    else if rest.head? = some ',' then do
      let (items, rest) ← readItems read close fuel rest.tail
      return (item :: items, rest)
    else none

def readSeq {α : Type} (read : List Char → Option (α × List Char)) (close : Char)
    (text : List Char) : Option (List α × List Char) :=
  if text.head? = some close then some ([], text.tail) else readItems read close text.length text

def readField (read : List Char → Option (Document × List Char)) (text : List Char) :
    Option ((List Char × Document) × List Char) := do
  let (key, rest) ← readStr text
  if rest.head? = some ':' then do
    let (value, rest) ← read rest.tail
    return ((key, value), rest)
  else none

def readWord (word : String) (doc : Document) (text : List Char) : Option (Document × List Char) :=
  if word.toList.isPrefixOf text then some (doc, text.drop word.toList.length) else none

def readNumber (text : List Char) : Option (Document × List Char) :=
  let digits := text.takeWhile Char.isDigit
  let value := Nat.ofDigitChars 10 digits 0
  if digits = [] then none
  else some (if value < 2 ^ 64 then .number (UInt64.ofNat value) else .otherNumber,
    text.dropWhile Char.isDigit)

def readScalar (text : List Char) : Option (Document × List Char) :=
  if text.head? = some '\"' then (readStr text).map fun r => (.str r.1, r.2)
  else if text.head? = some '-' then (readNumber text.tail).map fun r => (.otherNumber, r.2)
  else (readWord "null" .null text).or ((readWord "true" (.bool true) text).or
    ((readWord "false" (.bool false) text).or (readNumber text)))

/-- The document that a text begins with, and what stands behind it. -/
def readValue : Nat → List Char → Option (Document × List Char)
  | 0, text => readScalar text
  | depth + 1, text =>
    if text.head? = some '[' then
      (readSeq (readValue depth) ']' text.tail).map fun r => (.arr r.1, r.2)
    else if text.head? = some '{' then
      (readSeq (readField (readValue depth)) '}' text.tail).map fun r => (.obj r.1, r.2)
    else readScalar text

def parse (depth : Nat) (text : List Char) : Option Document :=
  match readValue depth text with
  | some (doc, []) => some doc
  | _ => none

/-! ### What is written is read back -/

variable {rest : List Char}

theorem unescape_escapeControl (n : Fin 32) (rest : List Char) :
    readChar (escapeControl n ++ rest) = some (Char.ofNat n, rest) := by
  fin_cases n <;> rfl

theorem readChar_escapeChar (c : Char) (rest : List Char) :
    readChar (escapeChar c ++ rest) = some (c, rest) := by
  rcases escapeChar_cases c with ⟨hc, rfl | rfl⟩ | ⟨hc, hcontrol⟩ | ⟨hc, -, hslash⟩
  · rfl
  · rfl
  · rw [hc, unescape_escapeControl ⟨c.toNat, hcontrol⟩ rest, Char.ofNat_toNat]
  · rw [hc, List.singleton_append, readChar, if_neg hslash]

theorem readChars_flatMap (s : List Char) {fuel : Nat} (hfuel : s.length < fuel) :
    readChars fuel (s.flatMap escapeChar ++ '\"' :: rest) = some (s, rest) := by
  induction s generalizing fuel with
  | nil =>
    obtain ⟨fuel, rfl⟩ := Nat.exists_eq_add_of_lt hfuel
    rfl
  | cons c s ih =>
    obtain ⟨fuel, rfl⟩ : ∃ n, fuel = n + 1 := ⟨fuel - 1, by omega⟩
    obtain ⟨e, tail, he, hquote⟩ := escapeChar_head c
    have hhead : (escapeChar c ++ (s.flatMap escapeChar ++ '\"' :: rest)).head? ≠ some '\"' := by
      rw [he]
      exact fun h => hquote (Option.some.inj h)
    rw [List.flatMap_cons, List.append_assoc, readChars, if_neg hhead, readChar_escapeChar]
    simp [ih (Nat.lt_of_succ_lt_succ hfuel)]

theorem length_le_flatMap (s : List Char) : s.length ≤ (s.flatMap escapeChar).length := by
  induction s with
  | nil => exact Nat.zero_le _
  | cons c s ih =>
    obtain ⟨e, tail, he, -⟩ := escapeChar_head c
    rw [List.flatMap_cons, List.length_append, he, List.length_cons, List.length_cons]
    omega

theorem readStr_renderStr (s rest : List Char) :
    readStr (renderStr s ++ rest) = some (s, rest) := by
  have hfuel : s.length < (renderStr s ++ rest).length := by
    have := length_le_flatMap s
    simp only [renderStr, List.length_append, List.length_cons]
    omega
  have hhead : (renderStr s ++ rest).head? = some '\"' := rfl
  rw [readStr, if_pos hhead]
  have htail : (renderStr s ++ rest).tail = s.flatMap escapeChar ++ '\"' :: rest := by
    simp [renderStr]
  rw [htail, readChars_flatMap s hfuel]

/-- What stands behind a document does not go on with a digit. -/
def Ends (rest : List Char) : Prop := ∀ c ∈ rest.head?, c.isDigit = false

theorem ends_cons {c : Char} (h : c.isDigit = false) (rest : List Char) : Ends (c :: rest) := by
  intro d hd
  rwa [← Option.some.inj hd]

theorem readItems_renderSeq {α : Type} {read : List Char → Option (α × List Char)}
    {f : α → List Char} {close : Char} (hclose : close ≠ ',') (hdigit : close.isDigit = false)
    {xs : List α} (hxs : ∀ x ∈ xs, ∀ rest, Ends rest → read (f x ++ rest) = some (x, rest))
    (hne : xs ≠ []) {fuel : Nat} (hfuel : xs.length ≤ fuel) :
    readItems read close fuel (renderSeq close (xs.map f) ++ rest) = some (xs, rest) := by
  induction xs generalizing fuel with
  | nil => exact absurd rfl hne
  | cons x xs ih =>
    obtain ⟨fuel, rfl⟩ : ∃ n, fuel = n + 1 :=
      ⟨fuel - 1, by rw [List.length_cons] at hfuel; omega⟩
    have hx := hxs x List.mem_cons_self
    cases xs with
    | nil =>
      have hread := hx (close :: rest) (ends_cons hdigit rest)
      simp only [List.map_cons, List.map_nil, renderSeq, List.append_assoc, List.singleton_append,
        readItems, hread]
      simp
    | cons y ys =>
      have hread := hx (',' :: (renderSeq close ((y :: ys).map f) ++ rest))
        (ends_cons (by decide) _)
      have hrest := ih (fun z hz => hxs z (List.mem_cons_of_mem _ hz)) (List.cons_ne_nil y ys)
        (Nat.le_of_succ_le_succ hfuel)
      simp only [List.map_cons] at hread hrest
      simp only [List.map_cons, renderSeq, List.append_assoc, List.cons_append, readItems, hread]
      simp [hclose.symm, hrest]

theorem length_le_renderSeq {α : Type} {f : α → List Char} (close : Char)
    (xs : List α) : xs.length ≤ (renderSeq close (xs.map f)).length := by
  induction xs with
  | nil => exact Nat.zero_le _
  | cons x xs ih =>
    cases xs with
    | nil => simp [renderSeq]
    | cons y ys =>
      simp only [List.map_cons, renderSeq, List.length_append, List.length_cons] at ih ⊢
      omega

theorem readSeq_renderSeq {α : Type} {read : List Char → Option (α × List Char)}
    {f : α → List Char} {close : Char} (hclose : close ≠ ',') (hdigit : close.isDigit = false)
    (hhead : ∀ a, ∃ e tail, f a = e :: tail ∧ e ≠ close) {xs : List α}
    (hxs : ∀ x ∈ xs, ∀ rest, Ends rest → read (f x ++ rest) = some (x, rest)) :
    readSeq read close (renderSeq close (xs.map f) ++ rest) = some (xs, rest) := by
  cases xs with
  | nil => simp [readSeq, renderSeq]
  | cons x xs =>
    have hopen : (renderSeq close ((x :: xs).map f) ++ rest).head? ≠ some close := by
      obtain ⟨e, tail, he, hne⟩ := hhead x
      cases xs <;> simp [renderSeq, he, hne]
    rw [readSeq, if_neg hopen]
    refine readItems_renderSeq hclose hdigit hxs (List.cons_ne_nil x xs) ?_
    calc (x :: xs).length ≤ (renderSeq close ((x :: xs).map f)).length :=
          length_le_renderSeq close (x :: xs)
      _ ≤ (renderSeq close ((x :: xs).map f) ++ rest).length := by simp

theorem readNumber_append {digits : List Char} (hne : digits ≠ [])
    (hdigits : ∀ c ∈ digits, c.isDigit = true) (hrest : Ends rest) :
    readNumber (digits ++ rest) =
      some (if Nat.ofDigitChars 10 digits 0 < 2 ^ 64 then
        .number (UInt64.ofNat (Nat.ofDigitChars 10 digits 0)) else .otherNumber, rest) := by
  have htake : (digits ++ rest).takeWhile Char.isDigit = digits := by
    rw [List.takeWhile_append_of_pos hdigits]
    cases rest with
    | nil => simp
    | cons c rest => rw [List.takeWhile_cons_of_neg (by simp [hrest c rfl]), List.append_nil]
  have hdrop : (digits ++ rest).dropWhile Char.isDigit = rest := by
    rw [List.dropWhile_append_of_pos hdigits]
    cases rest with
    | nil => rfl
    | cons c rest => rw [List.dropWhile_cons_of_neg (by simp [hrest c rfl])]
  simp only [readNumber, htake, hdrop, if_neg hne]

theorem readNumber_toDigits (n : UInt64) (hrest : Ends rest) :
    readNumber (Nat.toDigits 10 n.toNat ++ rest) = some (.number n, rest) := by
  have hvalue : Nat.ofDigitChars 10 (Nat.toDigits 10 n.toNat) 0 = n.toNat :=
    Nat.ofDigitChars_toDigits (by decide) (by decide)
  have hdigits : ∀ c ∈ Nat.toDigits 10 n.toNat, c.isDigit = true := fun c hc =>
    Nat.isDigit_of_mem_toDigits (by decide) (by decide) hc
  rw [readNumber_append Nat.toDigits_ne_nil hdigits hrest, hvalue, if_pos n.toNat_lt,
    UInt64.ofNat_toNat]

theorem toDigits_head (n : Nat) :
    ∃ d tail, Nat.toDigits 10 n = d :: tail ∧ d.isDigit = true := by
  obtain ⟨d, tail, hd⟩ := List.exists_cons_of_ne_nil (Nat.toDigits_ne_nil )
  exact ⟨d, tail, hd, Nat.isDigit_of_mem_toDigits (by decide) (by decide) (hd ▸ List.mem_cons_self)⟩

theorem readScalar_number (n : UInt64) (hrest : Ends rest) :
    readScalar (Nat.toDigits 10 n.toNat ++ rest) = some (.number n, rest) := by
  obtain ⟨d, tail, hd, hdigit⟩ := toDigits_head n.toNat
  have hother : ∀ c : Char, c.isDigit = false → d ≠ c := by
    rintro c hc rfl
    rw [hc] at hdigit
    cases hdigit
  have hhead : (Nat.toDigits 10 n.toNat ++ rest).head? = some d := by rw [hd]; rfl
  have hword : ∀ (c : Char) (word : List Char), c.isDigit = false →
      (c :: word).isPrefixOf (Nat.toDigits 10 n.toNat ++ rest) = false := by
    intro c word hc
    rw [hd, List.cons_append, List.isPrefixOf_cons_cons, beq_false_of_ne (hother c hc).symm,
      Bool.false_and]
  have hnull : readWord "null" .null (Nat.toDigits 10 n.toNat ++ rest) = none :=
    if_neg (by rw [show "null".toList = ['n', 'u', 'l', 'l'] from rfl, hword 'n' _ (by decide)]; simp)
  have htrue : readWord "true" (.bool true) (Nat.toDigits 10 n.toNat ++ rest) = none :=
    if_neg (by rw [show "true".toList = ['t', 'r', 'u', 'e'] from rfl, hword 't' _ (by decide)]; simp)
  have hfalse : readWord "false" (.bool false) (Nat.toDigits 10 n.toNat ++ rest) = none :=
    if_neg (by
      rw [show "false".toList = ['f', 'a', 'l', 's', 'e'] from rfl, hword 'f' _ (by decide)]; simp)
  rw [readScalar, hhead, if_neg fun h => hother '\"' (by decide) (Option.some.inj h),
    if_neg fun h => hother '-' (by decide) (Option.some.inj h), hnull, htrue, hfalse,
    readNumber_toDigits n hrest]
  rfl

theorem render_head (doc : Document) : ∃ e tail, render doc = e :: tail ∧ e ≠ ']' := by
  cases doc with
  | number n =>
    obtain ⟨d, tail, hd, hdigit⟩ := toDigits_head n.toNat
    refine ⟨d, tail, hd, ?_⟩
    rintro rfl
    cases hdigit
  | bool b => cases b <;> exact ⟨_, _, rfl, by decide⟩
  | null => exact ⟨_, _, rfl, by decide⟩
  | otherNumber => exact ⟨_, _, rfl, by decide⟩
  | str s => exact ⟨_, _, rfl, by decide⟩
  | arr items => exact ⟨_, _, rfl, by decide⟩
  | obj fields => exact ⟨_, _, rfl, by decide⟩

theorem renderField_head (field : List Char × Document) :
    ∃ e tail, renderField field = e :: tail ∧ e ≠ '}' := by
  obtain ⟨key, value⟩ := field
  exact ⟨_, _, rfl, by decide⟩

theorem readScalar_otherNumber (hrest : Ends rest) :
    readScalar ("-1".toList ++ rest) = some (.otherNumber, rest) := by
  have hread := readNumber_append (List.cons_ne_nil '1' []) (by simp) hrest
  have htext : "-1".toList ++ rest = '-' :: ('1' :: rest) := rfl
  rw [readScalar, htext, List.head?_cons, if_neg (by simp), if_pos rfl, List.tail_cons]
  exact (congrArg (Option.map _) hread).trans rfl

theorem readScalar_render {doc : Document} (h : Within 0 doc) (hrest : Ends rest) :
    readScalar (render doc ++ rest) = some (doc, rest) := by
  cases doc with
  | null => rfl
  | bool b => cases b <;> rfl
  | number n => exact readScalar_number n hrest
  | otherNumber => exact readScalar_otherNumber hrest
  | str s =>
    have hhead : (renderStr s ++ rest).head? = some '\"' := rfl
    rw [render, readScalar, if_pos hhead, readStr_renderStr]
    rfl
  | arr items => exact absurd h id
  | obj fields => exact absurd h id

theorem scalar_or_nested (doc : Document) :
    (Within 0 doc ∧ ∀ c, (render doc).head? = some c → c ≠ '[' ∧ c ≠ '{') ∨
      (∃ items, doc = .arr items) ∨ ∃ fields, doc = .obj fields := by
  cases doc with
  | null => exact .inl ⟨trivial, fun c hc => by obtain rfl := Option.some.inj hc; decide⟩
  | bool b =>
    refine .inl ⟨trivial, fun c hc => ?_⟩
    cases b <;> obtain rfl := Option.some.inj hc <;> decide
  | number n =>
    refine .inl ⟨trivial, fun c hc => ?_⟩
    obtain ⟨d, tail, hd, hdigit⟩ := toDigits_head n.toNat
    rw [render, hd] at hc
    obtain rfl := Option.some.inj hc
    constructor <;> rintro rfl <;> cases hdigit
  | otherNumber => exact .inl ⟨trivial, fun c hc => by obtain rfl := Option.some.inj hc; decide⟩
  | str s => exact .inl ⟨trivial, fun c hc => by obtain rfl := Option.some.inj hc; decide⟩
  | arr items => exact .inr (.inl ⟨items, rfl⟩)
  | obj fields => exact .inr (.inr ⟨fields, rfl⟩)

theorem readField_renderField {read : List Char → Option (Document × List Char)}
    {field : List Char × Document}
    (h : ∀ rest, Ends rest → read (render field.2 ++ rest) = some (field.2, rest))
    {rest : List Char} (hrest : Ends rest) :
    readField read (renderField field ++ rest) = some (field, rest) := by
  obtain ⟨key, value⟩ := field
  simp only [renderField, List.append_assoc, List.cons_append, readField, readStr_renderStr]
  simp [h rest hrest]

theorem exists_bound {α : Type} (l : List α) (P : Nat → α → Prop)
    (hmono : ∀ m n a, P m a → m ≤ n → P n a) (h : ∀ a ∈ l, ∃ n, P n a) : ∃ n, ∀ a ∈ l, P n a := by
  induction l with
  | nil => exact ⟨0, fun _ hmem => absurd hmem List.not_mem_nil⟩
  | cons a l ih =>
    obtain ⟨hhead, htail⟩ := List.forall_mem_cons.mp h
    obtain ⟨m, hm⟩ := hhead
    obtain ⟨n, hn⟩ := ih htail
    refine ⟨max m n, List.forall_mem_cons.mpr ⟨hmono _ _ _ hm (Nat.le_max_left m n), ?_⟩⟩
    exact fun b hb => hmono _ _ _ (hn b hb) (Nat.le_max_right m n)

/-- A document is read back from its text if it is not nested deeper than the reader goes. -/
theorem readValue_render {depth : Nat} {doc : Document} (h : Within depth doc) {rest : List Char}
    (hrest : Ends rest) : readValue depth (render doc ++ rest) = some (doc, rest) := by
  induction depth generalizing doc rest with
  | zero => exact readScalar_render h hrest
  | succ depth ih =>
    rcases scalar_or_nested doc with ⟨hscalar, hhead⟩ | ⟨items, rfl⟩ | ⟨fields, rfl⟩
    · obtain ⟨e, tail, he, -⟩ := render_head doc
      have hfirst : (render doc ++ rest).head? = some e := by rw [he]; rfl
      obtain ⟨harr, hobj⟩ := hhead e (by rw [he]; rfl)
      rw [readValue, hfirst, if_neg fun h => harr (Option.some.inj h),
        if_neg fun h => hobj (Option.some.inj h)]
      exact readScalar_render hscalar hrest
    · have hitems : readSeq (readValue depth) ']' (renderSeq ']' (renderItems items) ++ rest) =
          some (items, rest) := by
        rw [renderItems_eq]
        exact readSeq_renderSeq (by decide) (by decide) render_head
          fun item hitem rest hrest => ih (h item hitem) hrest
      show (readSeq (readValue depth) ']' (renderSeq ']' (renderItems items) ++ rest)).map _ = _
      rw [hitems]
      rfl
    · have hfields : readSeq (readField (readValue depth)) '}'
          (renderSeq '}' (renderFields fields) ++ rest) = some (fields, rest) := by
        rw [renderFields_eq]
        exact readSeq_renderSeq (by decide) (by decide) renderField_head
          fun field hfield rest hrest =>
            readField_renderField (fun rest hrest => ih (h field hfield) hrest) hrest
      show (readSeq (readField (readValue depth)) '}'
        (renderSeq '}' (renderFields fields) ++ rest)).map _ = _
      rw [hfields]
      rfl

theorem parse_render {depth : Nat} {doc : Document} (h : Within depth doc) :
    parse depth (render doc) = some doc := by
  have hends : Ends [] := by simp [Ends]
  have hread := readValue_render h hends
  rw [List.append_nil] at hread
  rw [parse, hread]

theorem exists_within : ∀ doc : Document, ∃ n, Within n doc
  | .arr items => by
    obtain ⟨n, hn⟩ := exists_bound items (fun n item => Within n item)
      (fun _ _ _ h hle => h.mono hle) fun item _ => exists_within item
    exact ⟨n + 1, hn⟩
  | .obj fields => by
    obtain ⟨n, hn⟩ := exists_bound fields (fun n field => Within n field.2)
      (fun _ _ _ h hle => h.mono hle) fun (key, value) hfield => by
        have hlt : sizeOf value < sizeOf fields := by
          have := List.sizeOf_lt_of_mem hfield
          rw [Prod.mk.sizeOf_spec] at this
          omega
        exact exists_within value
    exact ⟨n + 1, hn⟩
  | .null | .bool _ | .number _ | .otherNumber | .str _ => ⟨0, trivial⟩

theorem render_injective : Function.Injective render := by
  intro doc doc' h
  obtain ⟨m, hm⟩ := exists_within doc
  obtain ⟨n, hn⟩ := exists_within doc'
  have hread := parse_render (hm.mono (Nat.le_max_left m n))
  rw [h, parse_render (hn.mono (Nat.le_max_right m n))] at hread
  exact (Option.some.inj hread).symm

end Document
