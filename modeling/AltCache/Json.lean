import Mathlib

/-!
# JSON values

The values two programs exchange, and how a typed reader takes them apart: a required member
must be there, an optional one may be absent or null. Numbers are integers; the readers of
machine integers check their range. Members of an object are written once each.
-/

namespace AltCache

/-- A JSON value. -/
inductive Json where
  | null
  | bool (value : Bool)
  | num (value : ℤ)
  | str (value : String)
  | arr (items : List Json)
  | obj (members : List (String × Json))

namespace Json

variable {α : Type*}

/-- The members of an object. -/
def members? : Json → Option (List (String × Json))
  | .obj members => some members
  | _ => none

/-- Read a boolean. -/
def bool? : Json → Option Bool
  | .bool value => some value
  | _ => none

/-- Read a string. -/
def str? : Json → Option String
  | .str value => some value
  | _ => none

/-- Read an array. -/
def arr? : Json → Option (List Json)
  | .arr items => some items
  | _ => none

/-- Read an unsigned 64-bit integer. -/
def u64? : Json → Option ℕ
  | .num value => if 0 ≤ value ∧ value < 2 ^ 64 then some value.toNat else none
  | _ => none

/-- Read a signed 64-bit integer. -/
def i64? : Json → Option ℤ
  | .num value => if -2 ^ 63 ≤ value ∧ value < 2 ^ 63 then some value else none
  | _ => none

/-- Read every item of an array. -/
def items? (read : Json → Option α) (json : Json) : Option (List α) :=
  json.arr?.bind fun items => items.mapM read

/-- The member of a name. -/
def member? (name : String) (json : Json) : Option Json :=
  json.members?.bind fun members => (members.find? (·.1 = name)).map Prod.snd

/-- Read a required member. -/
def required? (name : String) (read : Json → Option α) (json : Json) : Option α :=
  (json.member? name).bind read

/-- Read an optional member: absent and null both mean that it is not given. -/
def optional? (name : String) (read : Json → Option α) (json : Json) : Option (Option α) :=
  match json.member? name with
  | none => some none
  | some .null => some none
  | some value => (read value).map some

/-- The value of an optional member that is always written. -/
def ofOption (write : α → Json) : Option α → Json
  | none => .null
  | some value => write value

/-- The member of a name in an object is the first one written under it. -/
@[simp] theorem member?_obj_cons (name other : String) (value : Json)
    (members : List (String × Json)) :
    (obj ((other, value) :: members)).member? name =
      if other = name then some value else (obj members).member? name := by
  by_cases hname : other = name <;> simp [member?, members?, hname]

/-- An empty object has no members. -/
@[simp] theorem member?_obj_nil (name : String) : (obj []).member? name = none := rfl

/-- A required member is read. -/
theorem required?_eq {name : String} {json value : Json} (h : json.member? name = some value)
    (read : Json → Option α) : json.required? name read = read value := by
  rw [required?, h, Option.bind_some]

/-- An optional member that is absent is not given. -/
theorem optional?_eq_none {name : String} {json : Json} (h : json.member? name = none)
    (read : Json → Option α) : json.optional? name read = some none := by
  rw [optional?, h]

/-- An optional member that is there is read, if it is not null. -/
theorem optional?_obj {name : String} {json : Json} {members : List (String × Json)}
    (h : json.member? name = some (obj members)) (read : Json → Option α) :
    json.optional? name read = (read (obj members)).map some := by
  rw [optional?, h]

/-- A number that fits is read back. -/
@[simp] theorem u64?_num {n : ℕ} (h : n < 2 ^ 64) : (num n).u64? = some n := by
  have hbound : (n : ℤ) < 2 ^ 64 := by exact_mod_cast h
  simp only [u64?]
  rw [if_pos ⟨Int.natCast_nonneg n, hbound⟩, Int.toNat_natCast]

/-- Items that are read back one by one are read back. -/
theorem items?_arr_map {β : Type*} {read : Json → Option α} {write : β → Json} {f : β → α}
    {values : List β} (h : ∀ value ∈ values, read (write value) = some (f value)) :
    (arr (values.map write)).items? read = some (values.map f) := by
  change (values.map write).mapM read = _
  induction values with
  | nil => rfl
  | cons value values ih =>
    rw [List.map_cons, List.mapM_cons, h value List.mem_cons_self,
      ih fun other hother => h other (List.mem_cons_of_mem _ hother)]
    rfl

end Json

end AltCache
