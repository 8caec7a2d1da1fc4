import Mathlib

/-!
# The protobuf wire format

A message is the concatenation of its fields, each a tag and a value. Numbers are varints,
seven bits a byte, lowest first; byte strings and embedded messages carry their length. A
number or byte string with the default value is omitted, an element of a repeated field never.
The length of a message is the length of its encoding.
-/

namespace AltCache.Wire

/-- Write a number in base 128, lowest digit first; all bytes but the last are marked. -/
def varint (n : ℕ) : List UInt8 :=
  if n < 128 then [UInt8.ofNat n] else UInt8.ofNat (n % 128 + 128) :: varint (n / 128)
termination_by n
decreasing_by omega

/-- Write a field's tag: its number and wire type. -/
def tag (number wireType : ℕ) : List UInt8 := varint (8 * number + wireType)

/-- Write a number; zero is omitted. -/
def numberField (number value : ℕ) : List UInt8 :=
  if value = 0 then [] else tag number 0 ++ varint value

/-- Write a field that carries its length. -/
def lengthDelimited (number : ℕ) (payload : List UInt8) : List UInt8 :=
  tag number 2 ++ varint payload.length ++ payload

/-- Write a byte string; the empty one is omitted. -/
def bytesField (number : ℕ) (payload : List UInt8) : List UInt8 :=
  if payload = [] then [] else lengthDelimited number payload

/-- Write the elements of a repeated message field. -/
def repeatedField {α : Type*} (number : ℕ) (encode : α → List UInt8) (elements : List α) :
    List UInt8 :=
  elements.flatMap fun element => lengthDelimited number (encode element)

/-- A number below a power of 128 takes at most as many bytes as the exponent. -/
theorem length_varint_le (k : ℕ) {n : ℕ} (h : n < 128 ^ (k + 1)) : (varint n).length ≤ k + 1 := by
  induction k generalizing n with
  | zero =>
    rw [varint, if_pos (by omega)]
    rfl
  | succ k ih =>
    rw [varint]
    split
    · simp
    · have hdigit : n / 128 < 128 ^ (k + 1) := by
        rw [Nat.div_lt_iff_lt_mul (by decide), ← pow_succ]
        exact h
      have hrest := ih hdigit
      rw [List.length_cons]
      omega

/-- A machine word takes at most ten bytes. -/
theorem length_varint_le_ten {n : ℕ} (h : n < 2 ^ 64) : (varint n).length ≤ 10 :=
  length_varint_le 9 (h.trans_le (by norm_num))

/-- A machine word's field with a small number takes at most eleven bytes. -/
theorem length_numberField_le {number value : ℕ} (hnumber : number < 16) (hvalue : value < 2 ^ 64) :
    (numberField number value).length ≤ 11 := by
  unfold numberField
  split
  · simp
  · have htag : (tag number 0).length ≤ 1 := length_varint_le 0 (by omega)
    have hdigits := length_varint_le_ten hvalue
    rw [List.length_append]
    omega

/-- Elements of a repeated field are written one after the other. -/
theorem repeatedField_append {α : Type*} (number : ℕ) (encode : α → List UInt8)
    (first second : List α) :
    repeatedField number encode (first ++ second) =
      repeatedField number encode first ++ repeatedField number encode second :=
  List.flatMap_append ..

/-- A byte string is no longer than its field. -/
theorem length_le_bytesField (number : ℕ) (payload : List UInt8) :
    payload.length ≤ (bytesField number payload).length := by
  unfold bytesField
  split
  · next hempty => rw [hempty]
  · rw [lengthDelimited, List.length_append]
    exact Nat.le_add_left _ _

/-- An element is no longer than the field it is repeated in. -/
theorem length_le_repeatedField {α : Type*} (number : ℕ) (encode : α → List UInt8)
    {elements : List α} {element : α} (h : element ∈ elements) :
    (encode element).length ≤ (repeatedField number encode elements).length := by
  rw [repeatedField, List.length_flatMap]
  refine le_trans ?_ (List.le_sum_of_mem (List.mem_map_of_mem h))
  rw [lengthDelimited, List.length_append]
  exact Nat.le_add_left _ _

end AltCache.Wire
