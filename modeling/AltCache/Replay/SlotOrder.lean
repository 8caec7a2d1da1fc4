import Mathlib

/-!
# Stable arrangement by slot

Writes reach a replay engine in arrival order and leave it in slot order. Inside one
slot arrival order is kept, so the arrangement is a stable sort by slot number. A list
that is ordered by slot is determined by its slots' contents; this is what lets a map of
per-slot queues be compared with one arrival-ordered list.
-/

namespace AltCache.Replay

variable {W : Type*} (slot : W → ℕ)

/-- The entries of one slot, in arrival order. -/
def inSlot (s : ℕ) (entries : List W) : List W := entries.filter (fun w => slot w = s)

/-- Arrange entries by slot, keeping arrival order inside a slot. -/
def bySlot (entries : List W) : List W := entries.insertionSort (fun a b => slot a ≤ slot b)

@[simp] theorem inSlot_nil (s : ℕ) : inSlot slot s ([] : List W) = [] := rfl

@[simp] theorem inSlot_append (s : ℕ) (left right : List W) :
    inSlot slot s (left ++ right) = inSlot slot s left ++ inSlot slot s right :=
  List.filter_append ..

/-- Selecting a slot commutes with any other selection of entries. -/
theorem inSlot_filter (s : ℕ) (p : W → Bool) (entries : List W) :
    inSlot slot s (entries.filter p) = (inSlot slot s entries).filter p :=
  List.filter_comm ..

variable {slot} in
/-- Membership in a slot's queue. -/
@[simp] theorem mem_inSlot {s : ℕ} {entries : List W} {w : W} :
    w ∈ inSlot slot s entries ↔ w ∈ entries ∧ slot w = s := by
  simp [inSlot]

/-- The entries of one slot are trivially in slot order. -/
theorem inSlot_pairwise (s : ℕ) (entries : List W) :
    (inSlot slot s entries).Pairwise (fun a b => slot a ≤ slot b) :=
  List.pairwise_of_forall_mem_list fun a ha b hb => by
    rw [(mem_inSlot.mp ha).2, (mem_inSlot.mp hb).2]

/-- Of one slot's queue, another slot's selection keeps nothing. -/
theorem inSlot_inSlot (s t : ℕ) (entries : List W) :
    inSlot slot s (inSlot slot t entries) = if s = t then inSlot slot s entries else [] := by
  split
  · next h =>
    subst h
    exact List.filter_eq_self.mpr fun w hw => by simpa using (mem_inSlot.mp hw).2
  · next h =>
    rw [inSlot, List.filter_eq_nil_iff]
    intro w hw hs
    exact h ((of_decide_eq_true hs).symm.trans (mem_inSlot.mp hw).2)

/-- Concatenating the queues of distinct slots leaves each of those queues intact. -/
theorem inSlot_flatMap_inSlot (s : ℕ) {slots : List ℕ} (hslots : slots.Nodup) (entries : List W) :
    inSlot slot s (slots.flatMap (inSlot slot · entries)) =
      if s ∈ slots then inSlot slot s entries else [] := by
  induction slots with
  | nil => rfl
  | cons t slots ih =>
    obtain ⟨ht, hrest⟩ := List.nodup_cons.mp hslots
    rw [List.flatMap_cons, inSlot_append, inSlot_inSlot, ih hrest]
    by_cases hst : s = t
    · subst hst
      simp [ht]
    · simp [hst]

private instance slotTrans : IsTrans W (fun a b => slot a ≤ slot b) := ⟨fun _ _ _ => le_trans⟩

private instance slotTotal : Std.Total (fun a b : W => slot a ≤ slot b) := ⟨fun _ _ => le_total _ _⟩

/-- The arrangement is ordered by slot. -/
theorem bySlot_pairwise (entries : List W) :
    (bySlot slot entries).Pairwise (fun a b => slot a ≤ slot b) :=
  List.pairwise_insertionSort _ entries

/-- The arrangement neither drops nor duplicates an entry. -/
theorem bySlot_perm (entries : List W) : (bySlot slot entries).Perm entries :=
  List.perm_insertionSort _ entries

variable {slot} in
/-- Membership is unaffected by the arrangement. -/
@[simp] theorem mem_bySlot {entries : List W} {w : W} :
    w ∈ bySlot slot entries ↔ w ∈ entries :=
  (bySlot_perm slot entries).mem_iff

/-- Entries already in slot order are left alone. -/
theorem bySlot_eq_self {entries : List W} (h : entries.Pairwise (fun a b => slot a ≤ slot b)) :
    bySlot slot entries = entries :=
  h.insertionSort_eq

/-- Stability: each slot keeps its entries in arrival order. -/
theorem inSlot_bySlot (s : ℕ) (entries : List W) :
    inSlot slot s (bySlot slot entries) = inSlot slot s entries := by
  have hsub : (inSlot slot s entries).Sublist (bySlot slot entries) :=
    List.sublist_insertionSort (inSlot_pairwise slot s entries) List.filter_sublist
  have hslot : (inSlot slot s entries).Sublist (inSlot slot s (bySlot slot entries)) := by
    have h := hsub.filter (fun w => slot w = s)
    rwa [List.filter_eq_self.mpr fun w hw => by simpa using (mem_inSlot.mp hw).2] at h
  exact (hslot.eq_of_length ((bySlot_perm slot entries).filter _).length_eq.symm).symm

variable {slot}

/-- Lists in slot order agree when every slot holds the same entries in the same order. -/
theorem eq_of_inSlot_eq {left right : List W}
    (hleft : left.Pairwise (fun a b => slot a ≤ slot b))
    (hright : right.Pairwise (fun a b => slot a ≤ slot b))
    (h : ∀ s, inSlot slot s left = inSlot slot s right) : left = right := by
  induction left generalizing right with
  | nil =>
    cases right with
    | nil => rfl
    | cons b right => simpa [inSlot] using h (slot b)
  | cons a left ih =>
    cases right with
    | nil => simpa [inSlot] using h (slot a)
    | cons b right =>
      have hba : slot b ≤ slot a := by
        have ha : a ∈ b :: right :=
          (mem_inSlot.mp (h (slot a) ▸ mem_inSlot.mpr ⟨List.mem_cons_self, rfl⟩)).1
        rcases List.mem_cons.mp ha with rfl | ha
        · exact le_rfl
        · exact (List.pairwise_cons.mp hright).1 a ha
      have hab : slot a ≤ slot b := by
        have hb : b ∈ a :: left :=
          (mem_inSlot.mp ((h (slot b)).symm ▸ mem_inSlot.mpr ⟨List.mem_cons_self, rfl⟩)).1
        rcases List.mem_cons.mp hb with rfl | hb
        · exact le_rfl
        · exact (List.pairwise_cons.mp hleft).1 b hb
      have hslots : slot b = slot a := le_antisymm hba hab
      have hhead : a = b := by
        have hs := h (slot a)
        simp only [inSlot, List.filter_cons, hslots, decide_true, if_true, List.cons.injEq] at hs
        exact hs.1
      subst hhead
      congr 1
      apply ih (List.pairwise_cons.mp hleft).2 (List.pairwise_cons.mp hright).2
      intro s
      have hs := h s
      by_cases has : slot a = s
      · simpa [inSlot, List.filter_cons, has] using hs
      · simpa [inSlot, List.filter_cons, has] using hs

/-- Arranging by slot commutes with selecting entries. -/
theorem filter_bySlot (p : W → Bool) (entries : List W) :
    (bySlot slot entries).filter p = bySlot slot (entries.filter p) := by
  refine eq_of_inSlot_eq ((bySlot_pairwise slot entries).sublist List.filter_sublist)
    (bySlot_pairwise slot _) fun s => ?_
  rw [inSlot_filter, inSlot_bySlot, inSlot_bySlot, inSlot_filter]

/-- In a list in slot order, the slots up to a bound come before the slots above it. -/
theorem filter_le_append_filter_gt {entries : List W}
    (h : entries.Pairwise (fun a b => slot a ≤ slot b)) (bound : ℕ) :
    entries.filter (fun w => slot w ≤ bound) ++ entries.filter (fun w => bound < slot w) =
      entries := by
  induction entries with
  | nil => rfl
  | cons a entries ih =>
    obtain ⟨hfirst, hrest⟩ := List.pairwise_cons.mp h
    by_cases ha : slot a ≤ bound
    · simpa [List.filter_cons, ha, not_lt.mpr ha] using ih hrest
    · have hnone : entries.filter (fun w => slot w ≤ bound) = [] := by
        rw [List.filter_eq_nil_iff]
        intro w hw
        have := hfirst w hw
        simp only [decide_eq_true_eq]
        omega
      have hall : entries.filter (fun w => bound < slot w) = entries := by
        rw [List.filter_eq_self]
        intro w hw
        have := hfirst w hw
        simp only [decide_eq_true_eq]
        omega
      simp [ha, hnone, hall, not_le.mp ha]

/-- Arranging up to a bound is arranging up to an earlier bound and then what lies between. -/
theorem bySlot_filter_le {low high : ℕ} (h : low ≤ high) (entries : List W) :
    bySlot slot (entries.filter (fun w => slot w ≤ high)) =
      bySlot slot (entries.filter (fun w => slot w ≤ low)) ++
        bySlot slot ((entries.filter (fun w => low < slot w)).filter (fun w => slot w ≤ high)) := by
  have hsplit := filter_le_append_filter_gt
    (bySlot_pairwise slot (entries.filter (fun w => slot w ≤ high))) low
  rw [← hsplit, filter_bySlot, filter_bySlot, List.filter_filter, List.filter_comm]
  congr 2
  apply List.filter_congr
  intro w _
  simp only [← Bool.decide_and, decide_eq_decide]
  omega

/-- One more entry is arranged after every entry of its slot and of the earlier slots. -/
theorem bySlot_concat (entries : List W) (w : W) :
    bySlot slot (entries ++ [w]) = (bySlot slot entries).filter (fun v => slot v ≤ slot w) ++
      w :: (bySlot slot entries).filter (fun v => slot w < slot v) := by
  have hsorted := bySlot_pairwise slot entries
  refine eq_of_inSlot_eq (bySlot_pairwise slot _) ?_ fun s => ?_
  · refine List.pairwise_append.mpr ⟨hsorted.sublist List.filter_sublist,
      List.pairwise_cons.mpr ⟨fun b hb => ?_, hsorted.sublist List.filter_sublist⟩,
      fun a ha b hb => ?_⟩
    · exact (of_decide_eq_true (List.mem_filter.mp hb).2).le
    · have hle := of_decide_eq_true (List.mem_filter.mp ha).2
      rcases List.mem_cons.mp hb with rfl | hb
      · exact hle
      · exact hle.trans (of_decide_eq_true (List.mem_filter.mp hb).2).le
  · have hkept (p : W → Bool) (hp : ∀ v, slot v = s → p v = true) :
        inSlot slot s ((bySlot slot entries).filter p) = inSlot slot s entries := by
      rw [inSlot_filter, inSlot_bySlot]
      exact List.filter_eq_self.mpr fun v hv => hp v (mem_inSlot.mp hv).2
    have hdropped (p : W → Bool) (hp : ∀ v, slot v = s → p v = false) :
        inSlot slot s ((bySlot slot entries).filter p) = [] := by
      rw [inSlot_filter, List.filter_eq_nil_iff]
      intro v hv
      simp [hp v (mem_inSlot.mp hv).2]
    have hcons : inSlot slot s (w :: (bySlot slot entries).filter fun v => slot w < slot v) =
        inSlot slot s [w] ++ inSlot slot s ((bySlot slot entries).filter fun v => slot w < slot v) :=
      inSlot_append slot s [w] _
    rw [inSlot_bySlot, inSlot_append, inSlot_append, hcons]
    by_cases hs : s ≤ slot w
    · rw [hkept _ fun v hv => by simpa [hv] using hs,
        hdropped _ fun v hv => by simpa [hv] using hs, List.append_nil]
    · have hother : inSlot slot s [w] = [] := by
        simp only [inSlot, List.filter_singleton]
        simp [show slot w ≠ s by omega]
      rw [hdropped _ fun v hv => by simpa [hv] using hs,
        hkept _ fun v hv => by simpa [hv] using hs, hother]
      simp

end AltCache.Replay
