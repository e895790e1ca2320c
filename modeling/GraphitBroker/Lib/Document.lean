import GraphitBroker.Lib.ExceptList

/-!
# Documents of a self-describing format

The values that a serializer is given and a deserializer gives back, before they are text. A record is
an object with named fields; reading one refuses unknown, repeated and missing names.
-/

inductive Document where
  | null
  | bool (b : Bool)
  | number (n : UInt64)
  /-- A number that is negative, has a fraction or does not fit 64 bits. -/
  | otherNumber
  | str (s : List Char)
  | arr (items : List Document)
  | obj (fields : List (List Char × Document))

namespace Document

def Within : Nat → Document → Prop
  | 0, .arr _ => False
  | 0, .obj _ => False
  | n + 1, .arr items => ∀ item ∈ items, Within n item
  | n + 1, .obj fields => ∀ field ∈ fields, Within n field.2
  | _, _ => True

@[simp]
theorem within_null (n : Nat) : Within n .null := by cases n <;> trivial

@[simp]
theorem within_bool (n : Nat) (b : Bool) : Within n (.bool b) := by cases n <;> trivial

@[simp]
theorem within_number (n : Nat) (k : UInt64) : Within n (.number k) := by cases n <;> trivial

@[simp]
theorem within_str (n : Nat) (s : List Char) : Within n (.str s) := by cases n <;> trivial

theorem Within.mono {doc : Document} {m n : Nat} (h : Within m doc) (hle : m ≤ n) :
    Within n doc := by
  induction m generalizing doc n with
  | zero => cases doc <;> cases n <;> simp_all [Within]
  | succ m ih =>
    obtain ⟨n, rfl⟩ := Nat.exists_eq_add_of_lt hle
    cases doc with
    | arr items => exact fun item hitem => ih (h item hitem) (by omega)
    | obj fields => exact fun field hfield => ih (h field hfield) (by omega)
    | _ => trivial

theorem within_elim {α : Type} {n : Nat} {write : α → Document} (h : ∀ a, Within n (write a))
    (x : Option α) : Within n (x.elim .null write) := by
  cases x with
  | none => exact within_null n
  | some a => exact h a

def asStr : Document → Option (List Char)
  | .str s => some s
  | _ => none

def asNumber : Document → Option UInt64
  | .number n => some n
  | _ => none

def asBool : Document → Option Bool
  | .bool b => some b
  | _ => none

def struct (names : List (List Char)) : Document → Option (List Document)
  | .obj fields =>
    if fields.all (names.contains ·.1) && decide (fields.map (·.1)).Nodup then
      names.mapM fun name => fields.lookup name
    else none
  | _ => none

section Reading

variable {α β : Type}

theorem lookup_eq_some [BEq α] [LawfulBEq α] {l : List (α × β)} {a : α} {b : β}
    (hkeys : (l.map (·.1)).Nodup) (h : (a, b) ∈ l) : l.lookup a = some b := by
  induction l with
  | nil => cases h
  | cons entry l ih =>
    rw [List.map_cons, List.nodup_cons] at hkeys
    rcases List.mem_cons.mp h with rfl | h
    · exact List.lookup_cons_self
    · have hne : a ≠ entry.1 := fun heq => hkeys.1 (heq ▸ List.mem_map_of_mem h)
      rw [List.lookup_cons, beq_false_of_ne hne]
      exact ih hkeys.2 h

theorem struct_obj {names : List (List Char)} {fields : List (List Char × Document)}
    (hkeys : fields.map (·.1) = names) (hnames : names.Nodup) :
    struct names (.obj fields) = some (fields.map (·.2)) := by
  have hknown : fields.all (names.contains ·.1) = true := by
    rw [List.all_eq_true]
    intro field hfield
    exact List.contains_iff_mem.mpr (hkeys ▸ List.mem_map_of_mem hfield)
  have hnodup : (fields.map (·.1)).Nodup := by rwa [hkeys]
  rw [struct, hknown, decide_eq_true hnodup, Bool.and_self, if_pos rfl, ← hkeys]
  refine ExceptList.mapM_eq_some_iff.mpr ?_
  rw [List.forall₂_map_left_iff, List.forall₂_map_right_iff]
  exact List.forall₂_same.mpr fun field hfield => lookup_eq_some hnodup hfield

def nullable (read : Document → Option α) : Document → Option (Option α)
  | .null => some none
  | doc => (read doc).map some

def listOf (read : Document → Option α) : Document → Option (List α)
  | .arr items => items.mapM read
  | _ => none

theorem listOf_map {read : Document → Option α} {write : α → Document}
    (h : ∀ a, read (write a) = some a) (l : List α) : listOf read (.arr (l.map write)) = some l := by
  refine ExceptList.mapM_eq_some_iff.mpr ?_
  rw [List.forall₂_map_left_iff]
  exact List.forall₂_same.mpr fun a _ => h a

theorem nullable_elim {read : Document → Option α} {write : α → Document}
    (h : ∀ a, read (write a) = some a) (hnull : ∀ a, write a ≠ .null) (x : Option α) :
    nullable read (x.elim .null write) = some x := by
  cases x with
  | none => rfl
  | some a =>
    have hvalue : nullable read (write a) = (read (write a)).map some := by
      cases hw : write a with
      | null => exact absurd hw (hnull a)
      | _ => rfl
    rw [Option.elim_some, hvalue, h a, Option.map_some]

end Reading

end Document
