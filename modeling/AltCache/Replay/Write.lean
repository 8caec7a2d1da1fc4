import Mathlib

/-!
# Tagged writes and version admission

A write names a key and carries a tag, its slot and then its version, compared
lexicographically. Admission keeps a write only if it is at or above a floor slot and
newer than every write of its key admitted before it. The admitted writes of a key are
therefore the running maxima of its delivered writes, and the last of them is the newest
delivered write, the first one delivered among equals.
-/

namespace AltCache.Replay

/-- A write of one key at a slot and a version within that slot. -/
@[ext]
structure Write (κ β : Type*) where
  key : κ
  slot : ℕ
  version : ℕ
  value : β
  deriving DecidableEq

variable {κ β : Type*}

namespace Write

/-- The position of a write in its key's history. -/
def tag (w : Write κ β) : ℕ ×ₗ ℕ := toLex (w.slot, w.version)

/-- Tags compare by slot, then by version. -/
theorem tag_lt_iff {a b : Write κ β} :
    a.tag < b.tag ↔ a.slot < b.slot ∨ a.slot = b.slot ∧ a.version < b.version :=
  Prod.Lex.toLex_lt_toLex

/-- Tags compare by slot, then by version. -/
theorem tag_le_iff {a b : Write κ β} :
    a.tag ≤ b.tag ↔ a.slot < b.slot ∨ a.slot = b.slot ∧ a.version ≤ b.version :=
  Prod.Lex.toLex_le_toLex

/-- A tag determines the slot and the version. -/
theorem tag_eq_iff {a b : Write κ β} :
    a.tag = b.tag ↔ a.slot = b.slot ∧ a.version = b.version := by
  simp [tag]

/-- A newer write is not of an earlier slot. -/
theorem slot_le_of_tag_le {a b : Write κ β} (h : a.tag ≤ b.tag) : a.slot ≤ b.slot := by
  rcases tag_le_iff.mp h with h | ⟨h, -⟩ <;> omega

/-- A write of a later slot is newer. -/
theorem tag_lt_of_slot_lt {a b : Write κ β} (h : a.slot < b.slot) : a.tag < b.tag :=
  tag_lt_iff.mpr (Or.inl h)

end Write

variable [DecidableEq κ]

/-- The writes of one key. -/
def ofKey (k : κ) (writes : List (Write κ β)) : List (Write κ β) := writes.filter (·.key = k)

@[simp] theorem ofKey_nil (k : κ) : ofKey k ([] : List (Write κ β)) = [] := rfl

@[simp] theorem ofKey_append (k : κ) (left right : List (Write κ β)) :
    ofKey k (left ++ right) = ofKey k left ++ ofKey k right :=
  List.filter_append ..

@[simp] theorem mem_ofKey {k : κ} {writes : List (Write κ β)} {w : Write κ β} :
    w ∈ ofKey k writes ↔ w ∈ writes ∧ w.key = k := by
  simp [ofKey]

/-- Selecting a key commutes with any other selection of writes. -/
theorem ofKey_filter (k : κ) (p : Write κ β → Bool) (writes : List (Write κ β)) :
    ofKey k (writes.filter p) = (ofKey k writes).filter p :=
  List.filter_comm ..

/-- A write extends the selection of its own key only. -/
theorem ofKey_singleton (k : κ) (w : Write κ β) :
    ofKey k [w] = if w.key = k then [w] else [] := by
  simp [ofKey, List.filter_cons]

/-- Whether a write is admitted after the writes already admitted. -/
def Admissible (floor : ℕ) (admitted : List (Write κ β)) (w : Write κ β) : Prop :=
  floor ≤ w.slot ∧ ∀ a ∈ admitted, a.key = w.key → a.tag < w.tag

instance (floor : ℕ) (admitted : List (Write κ β)) (w : Write κ β) :
    Decidable (Admissible floor admitted w) :=
  inferInstanceAs (Decidable (_ ∧ _))

/-- Admission looks only at the writes of the same key. -/
theorem admissible_congr {floor : ℕ} {left right : List (Write κ β)} {w : Write κ β}
    (h : ofKey w.key left = ofKey w.key right) :
    Admissible floor left w ↔ Admissible floor right w := by
  have hmem (a : Write κ β) : (a ∈ left ∧ a.key = w.key) ↔ (a ∈ right ∧ a.key = w.key) := by
    rw [← mem_ofKey, ← mem_ofKey, h]
  refine and_congr_right fun _ => ⟨fun hleft a ha hk => ?_, fun hright a ha hk => ?_⟩
  · exact hleft a ((hmem a).mpr ⟨ha, hk⟩).1 hk
  · exact hright a ((hmem a).mp ⟨ha, hk⟩).1 hk

/-- The newest write delivered for a key, the first of equals. -/
def newest (k : κ) (delivered : List (Write κ β)) : Option (Write κ β) :=
  (ofKey k delivered).argmax Write.tag

/-- The newest delivered write is of the key, delivered, and no older than any other. -/
theorem newest_eq_some {k : κ} {delivered : List (Write κ β)} {w : Write κ β}
    (h : newest k delivered = some w) :
    w ∈ delivered ∧ w.key = k ∧ ∀ a ∈ delivered, a.key = k → a.tag ≤ w.tag := by
  obtain ⟨hw, hk⟩ := mem_ofKey.mp (List.argmax_mem h)
  exact ⟨hw, hk, fun a ha hak => List.le_of_mem_argmax (mem_ofKey.mpr ⟨ha, hak⟩) h⟩

/-- A key has no newest write exactly when nothing was delivered for it. -/
theorem newest_eq_none {k : κ} {delivered : List (Write κ β)} :
    newest k delivered = none ↔ ∀ a ∈ delivered, a.key ≠ k := by
  rw [newest, List.argmax_eq_none, List.eq_nil_iff_forall_not_mem]
  exact forall_congr' fun a => by simp

/-- Delivering one more write replaces the newest one only by a strictly newer one. -/
theorem newest_concat (k : κ) (delivered : List (Write κ β)) (w : Write κ β) :
    newest k (delivered ++ [w]) =
      if w.key = k then
        match newest k delivered with
        | none => some w
        | some a => if a.tag < w.tag then some w else some a
      else newest k delivered := by
  rw [newest, ofKey_append, ofKey_singleton]
  split
  · rw [List.argmax_concat, newest]
    cases (ofKey k delivered).argmax Write.tag <;> rfl
  · rw [List.append_nil, newest]

/-- The writes admitted from a delivery, in order of delivery. -/
def admitted (floor : ℕ) (delivered : List (Write κ β)) : List (Write κ β) :=
  delivered.foldl (fun kept w => if Admissible floor kept w then kept ++ [w] else kept) []

@[simp] theorem admitted_nil (floor : ℕ) : admitted floor ([] : List (Write κ β)) = [] := rfl

/-- The admission step for one more delivered write. -/
theorem admitted_concat (floor : ℕ) (delivered : List (Write κ β)) (w : Write κ β) :
    admitted floor (delivered ++ [w]) =
      if Admissible floor (admitted floor delivered) w then admitted floor delivered ++ [w]
      else admitted floor delivered := by
  rw [admitted, List.foldl_concat, admitted]

/-- Only delivered writes at or above the floor are admitted. -/
theorem mem_of_mem_admitted {floor : ℕ} {delivered : List (Write κ β)} {w : Write κ β}
    (h : w ∈ admitted floor delivered) : w ∈ delivered ∧ floor ≤ w.slot := by
  induction delivered using List.reverseRecOn with
  | nil => simp at h
  | append_singleton delivered v ih =>
    rw [admitted_concat] at h
    split at h
    · next hv =>
      rcases List.mem_append.mp h with h | h
      · exact ⟨List.mem_append_left _ (ih h).1, (ih h).2⟩
      · rw [List.mem_singleton.mp h]
        exact ⟨List.mem_append_right _ List.mem_cons_self, hv.1⟩
    · exact ⟨List.mem_append_left _ (ih h).1, (ih h).2⟩

/-- The last admitted write of a key is its newest delivered write at or above the floor. -/
theorem getLast?_ofKey_admitted (floor : ℕ) (k : κ) (delivered : List (Write κ β)) :
    (ofKey k (admitted floor delivered)).getLast? =
      newest k (delivered.filter (floor ≤ ·.slot)) := by
  induction delivered using List.reverseRecOn with
  | nil => rfl
  | append_singleton delivered w ih =>
    by_cases hfloor : floor ≤ w.slot
    · rw [admitted_concat, List.filter_append, List.filter_singleton, decide_eq_true hfloor,
        cond_true, newest_concat]
      by_cases hk : w.key = k
      · rw [if_pos hk, ← ih]
        cases hlast : (ofKey k (admitted floor delivered)).getLast? with
        | none =>
          have hnil := List.getLast?_eq_none_iff.mp hlast
          have hadm : Admissible floor (admitted floor delivered) w :=
            ⟨hfloor, fun a ha hak =>
              (List.not_mem_nil (hnil ▸ mem_ofKey.mpr ⟨ha, hak.trans hk⟩)).elim⟩
          simp [hadm, ofKey_singleton, hk]
        | some a =>
          obtain ⟨ha, hak⟩ := mem_ofKey.mp (List.mem_of_getLast? hlast)
          obtain ⟨-, -, hmax⟩ := newest_eq_some (ih ▸ hlast)
          by_cases hlt : a.tag < w.tag
          · have hadm : Admissible floor (admitted floor delivered) w := by
              refine ⟨hfloor, fun b hb hbk => ?_⟩
              obtain ⟨hbd, hbf⟩ := mem_of_mem_admitted hb
              exact (hmax b (List.mem_filter.mpr ⟨hbd, by simpa using hbf⟩)
                (hbk.trans hk)).trans_lt hlt
            simp [hadm, hlt, ofKey_singleton, hk]
          · have hadm : ¬ Admissible floor (admitted floor delivered) w :=
              fun h => hlt (h.2 a ha (hak.trans hk.symm))
            simp [hadm, hlt, hlast]
      · rw [if_neg hk, ← ih]
        split
        · rw [ofKey_append, ofKey_singleton, if_neg hk, List.append_nil]
        · rfl
    · have hadm : ¬ Admissible floor (admitted floor delivered) w := fun h => hfloor h.1
      rw [admitted_concat, if_neg hadm, ih, List.filter_append, List.filter_singleton,
        decide_eq_false hfloor, cond_false, List.append_nil]

/-- Every delivered write at or above the floor is matched by an admitted one at least as new. -/
theorem exists_admitted_ge {floor : ℕ} {delivered : List (Write κ β)} {w : Write κ β}
    (hw : w ∈ delivered) (hfloor : floor ≤ w.slot) :
    ∃ a ∈ admitted floor delivered, a.key = w.key ∧ w.tag ≤ a.tag := by
  have hmem : w ∈ delivered.filter (floor ≤ ·.slot) :=
    List.mem_filter.mpr ⟨hw, by simpa using hfloor⟩
  cases hnew : newest w.key (delivered.filter (floor ≤ ·.slot)) with
  | none => exact (newest_eq_none.mp hnew w hmem rfl).elim
  | some a =>
    obtain ⟨-, hak, hmax⟩ := newest_eq_some hnew
    have hlast := (getLast?_ofKey_admitted floor w.key delivered).trans hnew
    exact ⟨a, (mem_ofKey.mp (List.mem_of_getLast? hlast)).1, hak, hmax w hmem rfl⟩

/-- Later deliveries never withdraw an admitted write. -/
theorem admitted_prefix (floor : ℕ) (delivered later : List (Write κ β)) :
    admitted floor delivered <+: admitted floor (delivered ++ later) := by
  induction later using List.reverseRecOn with
  | nil => simp
  | append_singleton later w ih =>
    rw [← List.append_assoc, admitted_concat]
    split
    · exact ih.trans (List.prefix_append _ _)
    · exact ih

/-- A write is admitted when it arrives newer than everything delivered for its key before it. -/
theorem mem_admitted_iff {floor : ℕ} {delivered : List (Write κ β)} {w : Write κ β} :
    w ∈ admitted floor delivered ↔
      ∃ before after, delivered = before ++ w :: after ∧ floor ≤ w.slot ∧
        ∀ a ∈ before, a.key = w.key → a.tag < w.tag := by
  constructor
  · intro hw
    induction delivered using List.reverseRecOn with
    | nil => simp at hw
    | append_singleton delivered v ih =>
      by_cases hold : w ∈ admitted floor delivered
      · obtain ⟨before, after, rfl, hfloor, hnewer⟩ := ih hold
        exact ⟨before, after ++ [v], by simp, hfloor, hnewer⟩
      · rw [admitted_concat] at hw
        split at hw
        · next hadm =>
          obtain rfl := List.mem_singleton.mp ((List.mem_append.mp hw).resolve_left hold)
          refine ⟨delivered, [], rfl, hadm.1, fun a ha hak => ?_⟩
          by_cases haf : floor ≤ a.slot
          · obtain ⟨b, hb, hbk, hab⟩ := exists_admitted_ge ha haf
            exact hab.trans_lt (hadm.2 b hb (hbk.trans hak))
          · have := hadm.1
            exact Write.tag_lt_of_slot_lt (by omega)
        · exact (hold hw).elim
  · rintro ⟨before, after, rfl, hfloor, hnewer⟩
    have hadm : Admissible floor (admitted floor before) w :=
      ⟨hfloor, fun a ha hak => hnewer a (mem_of_mem_admitted ha).1 hak⟩
    have hfirst : w ∈ admitted floor (before ++ [w]) := by
      rw [admitted_concat, if_pos hadm]
      exact List.mem_append_right _ List.mem_cons_self
    have hpre := admitted_prefix floor (before ++ [w]) after
    rw [List.append_assoc, List.singleton_append] at hpre
    exact hpre.subset hfirst

/-- An admitted write is the first one delivered with its key and tag. -/
theorem find?_of_mem_admitted {floor : ℕ} {delivered : List (Write κ β)} {w : Write κ β}
    (h : w ∈ admitted floor delivered) :
    delivered.find? (fun v => v.key = w.key ∧ v.tag = w.tag) = some w := by
  obtain ⟨before, after, rfl, -, hnewer⟩ := mem_admitted_iff.mp h
  have hbefore : before.find? (fun v => v.key = w.key ∧ v.tag = w.tag) = none :=
    List.find?_eq_none.mpr fun v hv hsame =>
      have hsame := of_decide_eq_true hsame
      (hnewer v hv hsame.1).ne hsame.2
  rw [List.find?_append, hbefore, Option.none_or]
  exact List.find?_cons_of_pos (by simp)

/-- In a delivery ordered by time an admitted write is newer than the earlier ones of its key. -/
theorem tag_lt_of_mem_admitted {floor : ℕ} {delivered : List (Write κ β)} {time : Write κ β → ℕ}
    (hordered : delivered.Pairwise fun a b => time a < time b) {v w : Write κ β}
    (hw : w ∈ admitted floor delivered) (hv : v ∈ delivered) (hkey : v.key = w.key)
    (htime : time v < time w) : v.tag < w.tag := by
  obtain ⟨before, after, rfl, -, hnewer⟩ := mem_admitted_iff.mp hw
  rcases List.mem_append.mp hv with hv | hv
  · exact hnewer v hv hkey
  · rcases List.mem_cons.mp hv with rfl | hv
    · exact absurd htime (lt_irrefl _)
    · have hafter := (List.pairwise_cons.mp (List.pairwise_append.mp hordered).2.1).1 v hv
      exact absurd htime hafter.not_gt

/-- If a key's writes above a slot arrive after its writes up to that slot, the admitted
writes up to the slot are those of the delivery cut at the slot. -/
theorem ofKey_admitted_filter_le {floor bound : ℕ} {k : κ} {delivered : List (Write κ β)}
    (harrival : (ofKey k delivered).Pairwise (fun a b => bound < a.slot → bound < b.slot)) :
    (ofKey k (admitted floor delivered)).filter (·.slot ≤ bound) =
      ofKey k (admitted floor (delivered.filter (·.slot ≤ bound))) := by
  induction delivered using List.reverseRecOn with
  | nil => rfl
  | append_singleton delivered w ih =>
    rw [ofKey_append, List.pairwise_append] at harrival
    obtain ⟨hold, -, hcross⟩ := harrival
    have ih := ih hold
    by_cases hk : w.key = k
    · by_cases hs : w.slot ≤ bound
      · have hall : (ofKey k (admitted floor delivered)).filter (·.slot ≤ bound) =
            ofKey k (admitted floor delivered) := by
          apply List.filter_eq_self.mpr
          intro a ha
          obtain ⟨ha, hak⟩ := mem_ofKey.mp ha
          have h := hcross a (mem_ofKey.mpr ⟨(mem_of_mem_admitted ha).1, hak⟩) w (by simp [hk])
          simp only [decide_eq_true_eq]
          omega
        have hsame : ofKey w.key (admitted floor delivered) =
            ofKey w.key (admitted floor (delivered.filter (·.slot ≤ bound))) := by
          rw [hk, ← hall, ih]
        have hsplit : (delivered ++ [w]).filter (·.slot ≤ bound) =
            delivered.filter (·.slot ≤ bound) ++ [w] := by simp [hs]
        rw [hsplit, admitted_concat, admitted_concat, if_congr (admissible_congr hsame) rfl rfl]
        split
        · simp [List.filter_append, ih, ofKey_singleton, hk, hs]
        · exact ih
      · have hsplit : (delivered ++ [w]).filter (·.slot ≤ bound) =
            delivered.filter (·.slot ≤ bound) := by simp [hs]
        rw [hsplit, admitted_concat]
        split
        · simp [List.filter_append, ih, ofKey_singleton, hk, hs]
        · exact ih
    · have hother (kept : List (Write κ β)) (p : Prop) [Decidable p] :
          ofKey k (if p then kept ++ [w] else kept) = ofKey k kept := by
        split
        · rw [ofKey_append, ofKey_singleton, if_neg hk, List.append_nil]
        · rfl
      rw [admitted_concat, hother, ih, List.filter_append, List.filter_singleton]
      cases decide (w.slot ≤ bound) with
      | false => rw [cond_false, List.append_nil]
      | true => rw [cond_true, admitted_concat, hother]

end AltCache.Replay
