import Mathlib

/-!
# JSON documents and two ways to read them

A document keeps the members of an object in their order, repeated keys included.

* **As a dynamic value** (`get`, `asI64`, …): the last value of a repeated key counts, and an accessor
  of the wrong kind has no result. A number written as an integer is `int`, every other one `float`; an
  integer that fits no machine integer is a number all the same.
* **As a record** (`record`): the fields by name in an object, by position in an array. A missing field
  is absent, an unknown member is ignored, and a repeated field is an error.

`get_of_field` joins the two: what a record has under a name, the dynamic value has.
-/

inductive Json where
  | null
  | bool (b : Bool)
  | int (z : ℤ)
  | float (q : ℚ)
  | str (s : String)
  | arr (elems : List Json)
  | obj (members : List (String × Json))

namespace Json

variable {α : Type*}

/-! ## Dynamic values -/

/-- The values of a key, in order. -/
def values (members : List (String × Json)) (key : String) : List Json :=
  (members.filter (·.1 = key)).map (·.2)

def get (key : String) : Json → Option Json
  | .obj members => (values members key).getLast?
  | _ => none

def isNull : Json → Bool
  | .null => true
  | _ => false

def isObject : Json → Bool
  | .obj _ => true
  | _ => false

def asI64 : Json → Option ℤ
  | .int z => if -2 ^ 63 ≤ z ∧ z < 2 ^ 63 then some z else none
  | _ => none

def asU64 : Json → Option ℕ
  | .int z => if 0 ≤ z ∧ z < 2 ^ 64 then some z.toNat else none
  | _ => none

def asU32 (j : Json) : Option ℕ := j.asU64.filter (· < 2 ^ 32)

def asF64 : Json → Option ℚ
  | .int z => some z
  | .float q => some q
  | _ => none

def asBool : Json → Option Bool
  | .bool b => some b
  | _ => none

def asStr : Json → Option String
  | .str s => some s
  | _ => none

def asArray : Json → Option (List Json)
  | .arr elems => some elems
  | _ => none

variable {members : List (String × Json)} {key : String} {j v : Json}

/-- An integer that can be read as one of 64 bits is one. -/
theorem asI64_range {z : ℤ} (h : j.asI64 = some z) : -2 ^ 63 ≤ z ∧ z < 2 ^ 63 := by
  cases j with
  | int z' =>
    rw [asI64] at h
    split at h
    · rename_i hrange
      cases h
      exact hrange
    · cases h
  | null | bool | float | str | arr | obj => cases h

theorem asArray_eq_some {elems : List Json} (h : j.asArray = some elems) : j = .arr elems := by
  cases j with
  | arr elems' =>
    cases h
    rfl
  | null | bool | int | float | str | obj => cases h

/-- Only an object has members. -/
theorem isObject_of_get (h : j.get key = some v) : j.isObject = true := by
  cases j with
  | obj members => rfl
  | null | bool | int | float | str | arr => cases h

theorem values_eq_nil : values members key = [] ↔ ∀ v, (key, v) ∉ members := by
  unfold values
  rw [List.map_eq_nil_iff, List.filter_eq_nil_iff]
  constructor
  · intro h v hv
    exact h _ hv (decide_eq_true rfl)
  · rintro h ⟨k, v⟩ hv hk
    obtain rfl : k = key := of_decide_eq_true hk
    exact h v hv

theorem get_eq_none : (obj members).get key = none ↔ ∀ v, (key, v) ∉ members := by
  rw [get, List.getLast?_eq_none_iff, values_eq_nil]

/-! ## Records -/

/-- A field of a record in an object: absent, or its value; two of them are an error. -/
def field (members : List (String × Json)) (key : String) : Option (Option Json) :=
  match values members key with
  | [] => some none
  | [v] => some (some v)
  | _ => none

/-- The fields of a record, in the order of `names`. -/
def record (names : List String) : Json → Option (List (Option Json))
  | .obj members => names.mapM (field members)
  | .arr elems =>
    if elems.length ≤ names.length then some ((List.range names.length).map fun i => elems[i]?) else none
  | _ => none

/-- A field with a default. -/
def orDefault (decode : Json → Option α) (default : α) : Option Json → Option α
  | none => some default
  | some v => decode v

/-- A field that may be null. -/
def nullable (decode : Json → Option α) : Json → Option (Option α)
  | .null => some none
  | v => (decode v).map some

def listOf (decode : Json → Option α) : Json → Option (List α)
  | .arr elems => elems.mapM decode
  | _ => none

theorem field_eq_none_or (members : List (String × Json)) (key : String) :
    field members key = none ∨ field members key = some ((obj members).get key) := by
  rw [show (obj members).get key = (values members key).getLast? from rfl, field]
  cases values members key with
  | nil => exact .inr rfl
  | cons v vs =>
    cases vs with
    | nil => exact .inr rfl
    | cons v' vs => exact .inl rfl

/-- What a record has under a name, the dynamic value has. -/
theorem get_of_field {o : Option Json} (h : field members key = some o) : (obj members).get key = o := by
  rcases field_eq_none_or members key with hf | hf
  · rw [hf] at h
    cases h
  · exact Option.some.inj (hf.symm.trans h)

/-- A key that does not occur is an absent field. -/
theorem field_of_get_eq_none (h : (obj members).get key = none) : field members key = some none := by
  rw [get_eq_none, ← values_eq_nil] at h
  rw [field, h]

/-- The first field of a record: by name or in first place. -/
def first (key : String) : Json → Option Json
  | .arr elems => elems.head?
  | j => j.get key

theorem record_first {names : List String} {o : Option Json} {os : List (Option Json)}
    (h : j.record (key :: names) = some (o :: os)) : j.first key = o := by
  cases j with
  | obj members =>
    rw [record, List.mapM_cons] at h
    obtain ⟨o', ho', h⟩ := Option.bind_eq_some_iff.mp h
    obtain ⟨os', -, h⟩ := Option.bind_eq_some_iff.mp h
    obtain ⟨rfl, -⟩ := List.cons.inj (Option.some.inj h)
    exact get_of_field ho'
  | arr elems =>
    rw [record] at h
    split at h
    · rw [List.length_cons, List.range_succ_eq_map] at h
      obtain ⟨rfl, -⟩ := List.cons.inj (Option.some.inj h)
      exact List.head?_eq_getElem?
    · cases h
  | null | bool | int | float | str => cases h

theorem orDefault_eq_some {decode : Json → Option α} {default a : α} {o : Option Json}
    (h : orDefault decode default o = some a) : (o = none ∧ a = default) ∨ ∃ v, o = some v ∧ decode v = some a := by
  cases o with
  | none => exact .inl ⟨rfl, (Option.some.inj h).symm⟩
  | some v => exact .inr ⟨v, rfl, h⟩

/-- A field that is there, in a chain of fields. -/
theorem bind_orDefault {α β : Type} {decode : Json → Option α} {a : α} (h : decode v = some a) (default : α)
    (f : α → Option β) : (orDefault decode default (some v) >>= f) = f a := by
  rw [orDefault, h]
  rfl

theorem listOf_eq_some {decode : Json → Option α} {as : List α} (h : listOf decode j = some as) :
    ∃ elems, j = .arr elems ∧ elems.mapM decode = some as := by
  cases j with
  | arr elems => exact ⟨elems, rfl, h⟩
  | null | bool | int | float | str | obj => cases h

/-! ## Writing a record -/

/-- The object with the fields `names`, in order. -/
def ofFields (names : List String) (vals : List Json) : Json := .obj (names.zip vals)

theorem values_of_mem (hnd : (members.map (·.1)).Nodup) (h : (key, v) ∈ members) : values members key = [v] := by
  induction members with
  | nil => cases h
  | cons m members ih =>
    rw [List.map_cons, List.nodup_cons] at hnd
    have hrest : ∀ u, (m.1, u) ∉ members := fun u hu => hnd.1 (List.mem_map.mpr ⟨_, hu, rfl⟩)
    rcases List.mem_cons.mp h with rfl | h
    · rw [show values ((key, v) :: members) key = v :: values members key by simp [values], values_eq_nil.mpr hrest]
    · have hne : m.1 ≠ key := fun he => hrest v (he ▸ h)
      rw [show values (m :: members) key = values members key by simp [values, hne]]
      exact ih hnd.2 h

theorem mapM_eq_some {β γ : Type*} {f : β → Option γ} {bs : List β} {cs : List γ}
    (h : List.Forall₂ (fun b c => f b = some c) bs cs) : bs.mapM f = some cs := by
  induction h with
  | nil => rfl
  | cons hb _ ih =>
    rw [List.mapM_cons, hb, ih]
    rfl

/-- **A record is read back field by field.** -/
theorem record_ofFields {names : List String} {vals : List Json} (hnd : names.Nodup)
    (hlen : names.length = vals.length) : (ofFields names vals).record names = some (vals.map some) := by
  have hkeys : ((names.zip vals).map (·.1)).Nodup := by
    rw [List.map_fst_zip (le_of_eq hlen)]
    exact hnd
  refine mapM_eq_some (List.forall₂_map_right_iff.mpr (List.forall₂_iff_zip.mpr ⟨hlen, fun hmem => ?_⟩))
  rw [field, values_of_mem hkeys hmem]

end Json
