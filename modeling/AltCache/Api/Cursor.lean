import AltCache.Api.JsonRpc

/-!
# The meaning of a cursor

Which texts are cursors, and of which position: a numeral of the slot that fits, up to the
first colon, and the text of a 32-byte key after it. Of base-58 it is only used that decoding
undoes encoding.
-/

namespace AltCache.JsonRpc

section Meaning

variable {codecs : Codecs} {cursor slotText keyText : String} {slot other : ℕ}
  {key otherKey : Key}

/-- The text of a key decodes to its bytes. -/
theorem toOption_parseKey :
    (parseKey codecs keyText).toOption = some key ↔
      codecs.bs58Decode keyText = some key.toList := by
  unfold parseKey
  cases codecs.bs58Decode keyText with
  | none => simp [Except.toOption]
  | some bytes =>
    dsimp only
    rw [Option.some.injEq, ← Key.ofBytes?_eq_some]
    cases Key.ofBytes? bytes with
    | none => simp [Except.toOption]
    | some other => simp [Except.toOption]

/-- The positions that texts joined by a colon are cursors of. -/
theorem parseCursor_join (hcolon : ':' ∉ slotText.toList) :
    parseCursor codecs (slotText ++ String.singleton ':' ++ keyText) = some (slot, key) ↔
      Decimal.numeral? slotText = some slot ∧ slot < Decimal.u64Count ∧
        codecs.bs58Decode keyText = some key.toList := by
  unfold parseCursor
  rw [Decimal.splitOnce_join hcolon, Option.bind_eq_bind, Option.bind_some]
  dsimp only
  rw [← toOption_parseKey, ← and_assoc, ← Decimal.parseU64_eq_some]
  cases Decimal.parseU64 slotText with
  | none => simp
  | some value =>
    cases (parseKey codecs keyText).toOption with
    | none => simp
    | some read => simp

/-- What a text is a cursor of. -/
theorem parseCursor_eq_some :
    parseCursor codecs cursor = some (slot, key) ↔
      ∃ slotText keyText, ':' ∉ slotText.toList ∧
        cursor = slotText ++ String.singleton ':' ++ keyText ∧
        Decimal.numeral? slotText = some slot ∧ slot < Decimal.u64Count ∧
        codecs.bs58Decode keyText = some key.toList := by
  constructor
  · intro h
    cases hsplit : Decimal.splitOnce ':' cursor with
    | none =>
      unfold parseCursor at h
      rw [hsplit] at h
      cases h
    | some texts =>
      obtain ⟨hcolon, rfl⟩ := Decimal.splitOnce_eq_some.mp hsplit
      exact ⟨texts.1, texts.2, hcolon, rfl, (parseCursor_join hcolon).mp h⟩
  · rintro ⟨slotText, keyText, hcolon, rfl, h⟩
    exact (parseCursor_join hcolon).mpr h

/-- A cursor is read back, also with a plus sign and leading zeros before it. -/
theorem parseCursor_padded
    (hbs58 : ∀ bytes, codecs.bs58Decode (codecs.bs58Encode bytes) = some bytes)
    (hslot : slot < Decimal.u64Count) (key : Key) (zeros : ℕ) {sign : String}
    (hsign : sign = "" ∨ sign = "+") :
    parseCursor codecs
        (sign ++ (.ofList (List.replicate zeros '0') ++ formatCursor codecs slot key)) =
      some (slot, key) := by
  have hcolon : ':' ∉ (sign ++ (.ofList (List.replicate zeros '0') ++ toString slot)).toList := by
    intro hmem
    rw [String.toList_append, String.toList_append, String.toList_ofList, List.mem_append,
      List.mem_append] at hmem
    rcases hmem with hplus | hzero | hdigit
    · rcases hsign with rfl | rfl <;> simp at hplus
    · exact absurd (List.eq_of_mem_replicate hzero) (by decide)
    · exact absurd (Decimal.isDigit_of_mem_toString hdigit) (by decide)
  have hcursor : sign ++ (.ofList (List.replicate zeros '0') ++ formatCursor codecs slot key) =
      sign ++ (.ofList (List.replicate zeros '0') ++ toString slot) ++ String.singleton ':' ++
        codecs.bs58Encode key.toList := by
    unfold formatCursor
    simp only [String.append_assoc]
  rw [hcursor, parseCursor_join hcolon]
  exact ⟨Decimal.numeral?_padded slot zeros hsign, hslot, hbs58 key.toList⟩

end Meaning

/-- Cursors round-trip and have one meaning. What is written for a position is read back as
it, so different positions have different texts; a plus sign and leading zeros change nothing.
Whatever text is accepted, the position it is read as is written and read back as the same
one. A slot that does not fit and a key text that is not of 32 bytes are rejected. -/
theorem cursor_meaning (codecs : Codecs)
    (hbs58 : ∀ bytes, codecs.bs58Decode (codecs.bs58Encode bytes) = some bytes) :
    (∀ slot < Decimal.u64Count, ∀ key,
      parseCursor codecs (formatCursor codecs slot key) = some (slot, key)) ∧
    (∀ slot < Decimal.u64Count, ∀ other < Decimal.u64Count, ∀ key otherKey,
      formatCursor codecs slot key = formatCursor codecs other otherKey →
        slot = other ∧ key = otherKey) ∧
    (∀ slot < Decimal.u64Count, ∀ key zeros sign, sign = "" ∨ sign = "+" →
      parseCursor codecs
          (sign ++ (.ofList (List.replicate zeros '0') ++ formatCursor codecs slot key)) =
        some (slot, key)) ∧
    (∀ cursor slot key, parseCursor codecs cursor = some (slot, key) →
      slot < Decimal.u64Count ∧
        parseCursor codecs (formatCursor codecs slot key) = some (slot, key)) ∧
    ∀ slotText keyText : String, ':' ∉ slotText.toList →
      ((∃ slot, Decimal.numeral? slotText = some slot ∧ Decimal.u64Count ≤ slot) ∨
        (∀ bytes, codecs.bs58Decode keyText = some bytes → bytes.length ≠ 32)) →
      parseCursor codecs (slotText ++ String.singleton ':' ++ keyText) = none := by
  have hround (slot : ℕ) (hslot : slot < Decimal.u64Count) (key : Key) :
      parseCursor codecs (formatCursor codecs slot key) = some (slot, key) := by
    simpa using parseCursor_padded hbs58 hslot key 0 (Or.inl rfl)
  refine ⟨hround, ?_, ?_, ?_, ?_⟩
  · intro slot hslot other hother key otherKey hsame
    have hread := hround slot hslot key
    rw [hsame, hround other hother otherKey] at hread
    obtain ⟨rfl, rfl⟩ := Prod.mk.inj (Option.some.inj hread)
    exact ⟨rfl, rfl⟩
  · intro slot hslot key zeros sign hsign
    exact parseCursor_padded hbs58 hslot key zeros hsign
  · intro cursor slot key hread
    obtain ⟨-, -, -, -, -, hslot, -⟩ := parseCursor_eq_some.mp hread
    exact ⟨hslot, hround slot hslot key⟩
  · intro slotText keyText hcolon hbad
    rw [Option.eq_none_iff_forall_ne_some]
    rintro ⟨slot, key⟩ hread
    obtain ⟨hslot, hfits, hkey⟩ := (parseCursor_join hcolon).mp hread
    rcases hbad with ⟨value, hvalue, hlarge⟩ | hlength
    · obtain rfl := Option.some.inj (hslot.symm.trans hvalue)
      exact absurd hfits (not_lt.mpr hlarge)
    · exact hlength _ hkey key.size_toArray

/-- With plain encoders, the cursor of slot 5 may be written with a sign and zeros. -/
theorem cursor_meaning_plain :
    parseCursor .plain ("+" ++ (.ofList (List.replicate 2 '0') ++
      formatCursor .plain 5 (.filled 1))) = some (5, .filled 1) :=
  (cursor_meaning .plain Codecs.plain_lawful.bs58).2.2.1 5 (by decide) (.filled 1) 2 "+"
    (Or.inr rfl)

end AltCache.JsonRpc
