import Mathlib

/-!
# Decimal text

How `u64` values are parsed from text, and how text is split at a separator. Formatting is
the usual decimal notation, which parsing reads back.
-/

namespace AltCache.Decimal

/-- The number of `u64` values. -/
def u64Count : ℕ := 2 ^ 64

/-- `u64::from_str`: an optional plus sign and at least one digit, without overflow. -/
def parseU64 (text : String) : Option ℕ :=
  let digits := if text.toList.head? = some '+' then text.toList.tail else text.toList
  if digits = [] ∨ ¬ digits.all Char.isDigit then none
  else
    let value := Nat.ofDigitChars 10 digits 0
    if value < u64Count then some value else none

/-- `str::split_once`: the text before and after the first separator. -/
def splitOnce (separator : Char) (text : String) : Option (String × String) :=
  if separator ∈ text.toList then
    some (.ofList (text.toList.takeWhile (· ≠ separator)),
      .ofList (text.toList.dropWhile (· ≠ separator)).tail)
  else none

/-- Splitting undoes joining, if the first part has no separator. -/
theorem splitOnce_join {separator : Char} {first : String} (h : separator ∉ first.toList)
    (second : String) :
    splitOnce separator (first ++ String.singleton separator ++ second) =
      some (first, second) := by
  have hfirst : ∀ c ∈ first.toList, decide (c ≠ separator) = true := fun c hc =>
    decide_eq_true fun hsame => h (hsame ▸ hc)
  have htext : (first ++ String.singleton separator ++ second).toList =
      first.toList ++ separator :: second.toList := by simp
  unfold splitOnce
  rw [htext, if_pos (by simp), List.takeWhile_append_of_pos hfirst,
    List.dropWhile_append_of_pos hfirst]
  simp

/-- Decimal text contains digits only. -/
theorem isDigit_of_mem_toString {n : ℕ} {c : Char} (h : c ∈ (toString n).toList) :
    c.isDigit = true := by
  rw [Nat.toString_eq_repr, Nat.toList_repr] at h
  exact Nat.isDigit_of_mem_toDigits (by decide) (by decide) h

/-- The characters of a numeral after its plus sign, if it has one. -/
def digitsOf (text : String) : List Char :=
  if text.toList.head? = some '+' then text.toList.tail else text.toList

/-- The number that a numeral stands for, however large. -/
def numeral? (text : String) : Option ℕ :=
  if digitsOf text = [] ∨ ¬ (digitsOf text).all Char.isDigit then none
  else some (Nat.ofDigitChars 10 (digitsOf text) 0)

section Numeral

variable {text first second : String} {separator : Char} {n : ℕ}

/-- Parsing takes the digits and checks the number that they stand for. -/
theorem parseU64_eq (text : String) :
    parseU64 text =
      if digitsOf text = [] ∨ ¬ (digitsOf text).all Char.isDigit then none
      else if Nat.ofDigitChars 10 (digitsOf text) 0 < u64Count then
        some (Nat.ofDigitChars 10 (digitsOf text) 0)
      else none :=
  rfl

/-- What is parsed is the number a numeral stands for, if it fits. -/
theorem parseU64_eq_some : parseU64 text = some n ↔ numeral? text = some n ∧ n < u64Count := by
  rw [parseU64_eq]
  unfold numeral?
  split
  · simp
  · rw [Option.ite_none_right_eq_some, Option.some.injEq]
    constructor
    · rintro ⟨hvalue, rfl⟩
      exact ⟨rfl, hvalue⟩
    · rintro ⟨rfl, hvalue⟩
      exact ⟨hvalue, rfl⟩

/-- A numeral may have a plus sign and leading zeros. -/
theorem numeral?_padded (n zeros : ℕ) {sign : String} (hsign : sign = "" ∨ sign = "+") :
    numeral? (sign ++ (.ofList (List.replicate zeros '0') ++ toString n)) = some n := by
  have hdigits : (toString n).toList = Nat.toDigits 10 n := by
    rw [Nat.toString_eq_repr, Nat.toList_repr]
  have hall : ∀ c ∈ List.replicate zeros '0' ++ (toString n).toList, c.isDigit = true := by
    intro c hc
    rcases List.mem_append.mp hc with hzero | hdigit
    · rw [List.eq_of_mem_replicate hzero]
      rfl
    · exact isDigit_of_mem_toString hdigit
  have hdigitsOf : digitsOf (sign ++ (.ofList (List.replicate zeros '0') ++ toString n)) =
      List.replicate zeros '0' ++ (toString n).toList := by
    unfold digitsOf
    rw [String.toList_append, String.toList_append, String.toList_ofList]
    rcases hsign with rfl | rfl
    · rw [String.toList_empty, List.nil_append, if_neg]
      intro hplus
      exact absurd (hall _ (List.mem_of_head? hplus)) (by decide)
    · rfl
  have hnonempty : List.replicate zeros '0' ++ (toString n).toList ≠ [] := by
    rw [hdigits]
    exact List.append_ne_nil_of_right_ne_nil _ Nat.toDigits_ne_nil
  unfold numeral?
  rw [hdigitsOf, if_neg (not_or.mpr ⟨hnonempty, not_not.mpr (List.all_eq_true.mpr hall)⟩),
    Nat.ofDigitChars_append, Nat.ofDigitChars_replicate_zero, Nat.mul_zero, hdigits,
    Nat.ofDigitChars_ten_toDigits]

/-- Parsing undoes formatting. -/
theorem parseU64_toString (h : n < u64Count) : parseU64 (toString n) = some n := by
  apply parseU64_eq_some.mpr
  exact ⟨by simpa using numeral?_padded n 0 (Or.inl rfl), h⟩

/-- A list is what stands before the first occurrence of an element, the element and the rest. -/
theorem takeWhile_append_dropWhile_tail {chars : List Char} (h : separator ∈ chars) :
    chars.takeWhile (· ≠ separator) ++ separator :: (chars.dropWhile (· ≠ separator)).tail =
      chars := by
  induction chars with
  | nil => cases h
  | cons c chars ih =>
    by_cases hc : c = separator
    · subst hc
      simp
    · have hmem : separator ∈ chars := List.mem_of_ne_of_mem (Ne.symm hc) h
      have hbefore : decide (c ≠ separator) = true := decide_eq_true hc
      rw [List.takeWhile_cons_of_pos (p := fun other => decide (other ≠ separator)) hbefore,
        List.dropWhile_cons_of_pos (p := fun other => decide (other ≠ separator)) hbefore,
        List.cons_append, ih hmem]

/-- Text is split at the first separator. -/
theorem splitOnce_eq_some :
    splitOnce separator text = some (first, second) ↔
      separator ∉ first.toList ∧ text = first ++ String.singleton separator ++ second := by
  constructor
  · intro h
    unfold splitOnce at h
    split at h
    · next hmem =>
      obtain ⟨rfl, rfl⟩ := Prod.mk.inj (Option.some.inj h)
      constructor
      · intro hfirst
        rw [String.toList_ofList] at hfirst
        simpa using List.mem_takeWhile_imp hfirst
      · apply String.toList_injective
        simp only [String.toList_append, String.toList_singleton, String.toList_ofList,
          List.append_assoc, List.singleton_append]
        exact (takeWhile_append_dropWhile_tail hmem).symm
    · cases h
  · rintro ⟨hfirst, rfl⟩
    exact splitOnce_join hfirst second

end Numeral

end AltCache.Decimal
