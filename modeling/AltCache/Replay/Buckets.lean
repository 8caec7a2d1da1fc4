import AltCache.Replay.SlotOrder

/-!
# Per-slot queues

A map from slots to arrival-ordered queues, as a replay engine keeps it between the
arrival of a write and the confirmation of its slot. Draining every queue up to a slot
hands out the queued entries in slot order; the theorems compare this with a single
arrival-ordered list of entries.
-/

namespace AltCache.Replay

open Std (ExtTreeMap)

variable {W β δ : Type*}

/-- Queued entries of each slot, oldest first. -/
abbrev Buckets (β : Type*) := ExtTreeMap ℕ (List β)

namespace Buckets

/-- Append an entry to its slot's queue, opening the queue if the slot has none. -/
def push (buckets : Buckets β) (slot : ℕ) (entry : β) : Buckets β :=
  buckets.insert slot (buckets.getD slot [] ++ [entry])

/-- The slots with a queue, up to and including a bound, in ascending order. -/
def slotsThrough (buckets : Buckets β) (bound : ℕ) : List ℕ :=
  buckets.keys.filter (· ≤ bound)

/-- Everything queued up to and including a bound, in the order a drain visits it. -/
def through (buckets : Buckets β) (bound : ℕ) : List β :=
  (buckets.slotsThrough bound).flatMap (buckets.getD · [])

/-- Drop every queue up to and including a bound. -/
def dropThrough (buckets : Buckets β) (bound : ℕ) : Buckets β :=
  (buckets.slotsThrough bound).foldl ExtTreeMap.erase buckets

/-- The queues hold the images of a list of entries, and no queue is empty. -/
structure Holds (slot : W → ℕ) (image : W → β) (buckets : Buckets β) (entries : List W) : Prop where
  queue : ∀ s : ℕ, buckets.getD s [] = (inSlot slot s entries).map image
  nonempty : ∀ s : ℕ, buckets[s]? ≠ some []

/-- Visited slots are the keys up to the bound. -/
@[simp] theorem mem_slotsThrough {buckets : Buckets β} {bound s : ℕ} :
    s ∈ buckets.slotsThrough bound ↔ s ∈ buckets ∧ s ≤ bound := by
  simp [slotsThrough]

/-- A drain visits slots in strictly ascending order. -/
theorem slotsThrough_pairwise (buckets : Buckets β) (bound : ℕ) :
    (buckets.slotsThrough bound).Pairwise (· < ·) :=
  (buckets.ordered_keys.imp fun h => Nat.compare_eq_lt.mp h).sublist List.filter_sublist

/-- Erasing a list of slots removes exactly those queues. -/
theorem getElem?_foldl_erase (slots : List ℕ) (buckets : Buckets β) (s : ℕ) :
    (slots.foldl ExtTreeMap.erase buckets)[s]? = if s ∈ slots then none else buckets[s]? := by
  induction slots generalizing buckets with
  | nil => simp
  | cons t slots ih =>
    rw [List.foldl_cons, ih, ExtTreeMap.getElem?_erase]
    by_cases hs : s ∈ slots
    · simp [hs]
    · by_cases hts : t = s
      · simp [hts]
      · simp [hs, hts, Ne.symm hts]

/-- After a drain no queue up to the bound remains and the others are untouched. -/
theorem getElem?_dropThrough (buckets : Buckets β) (bound s : ℕ) :
    (buckets.dropThrough bound)[s]? = if s ≤ bound then none else buckets[s]? := by
  rw [dropThrough, getElem?_foldl_erase]
  by_cases hs : s ≤ bound
  · by_cases hmem : s ∈ buckets
    · simp [hs, hmem]
    · simp [hs, hmem]
  · simp [hs]

/-- The queue read by default lookup, from the optional lookup. -/
theorem getD_eq (buckets : Buckets β) (s : ℕ) : buckets.getD s [] = buckets[s]?.getD [] :=
  ExtTreeMap.getD_eq_getD_getElem?

/-- Erasing one slot does not disturb the queue of another. -/
theorem getD_erase_of_ne (buckets : Buckets β) {s t : ℕ} (h : t ≠ s) :
    ExtTreeMap.getD (buckets.erase s) t [] = buckets.getD t [] := by
  rw [getD_eq, getD_eq, ExtTreeMap.getElem?_erase, if_neg]
  rw [Nat.compare_eq_eq]
  exact Ne.symm h

variable {slot : W → ℕ} {image : W → β} {buckets : Buckets β} {entries : List W}

/-- No queue holds the empty list of entries. -/
theorem holds_empty (slot : W → ℕ) (image : W → β) : Holds slot image (∅ : Buckets β) [] :=
  ⟨fun s => by simp, fun s => by simp⟩

/-- Pushing an entry extends the list held. -/
theorem Holds.push (h : Holds slot image buckets entries) (w : W) :
    Holds slot image (buckets.push (slot w) (image w)) (entries ++ [w]) := by
  refine ⟨fun s => ?_, fun s => ?_⟩
  · rw [getD_eq, Buckets.push, ExtTreeMap.getElem?_insert, inSlot_append, List.map_append]
    by_cases hs : slot w = s
    · simp [hs, h.queue, inSlot]
    · simp [hs, ← getD_eq, h.queue, inSlot]
  · rw [Buckets.push, ExtTreeMap.getElem?_insert]
    by_cases hs : slot w = s
    · simp [hs]
    · simpa [hs, Nat.compare_eq_eq] using h.nonempty s

/-- A slot has a queue exactly when one of the entries held is of that slot. -/
theorem Holds.mem_iff (h : Holds slot image buckets entries) {s : ℕ} :
    s ∈ buckets ↔ ∃ w ∈ entries, slot w = s := by
  have hqueue := h.queue s
  rw [getD_eq] at hqueue
  rw [ExtTreeMap.mem_iff_isSome_getElem?]
  cases hs : buckets[s]? with
  | none =>
    rw [hs, Option.getD_none, eq_comm, List.map_eq_nil_iff] at hqueue
    simp only [Option.isSome_none, Bool.false_eq_true, false_iff, not_exists, not_and]
    intro w hw hws
    exact List.not_mem_nil (hqueue ▸ mem_inSlot.mpr ⟨hw, hws⟩)
  | some queue =>
    have hne : queue ≠ [] := fun hnil => h.nonempty s (hnil ▸ hs)
    rw [hs, Option.getD_some] at hqueue
    simp only [Option.isSome_some, true_iff]
    obtain ⟨x, hx⟩ := List.exists_mem_of_ne_nil queue hne
    rw [hqueue, List.mem_map] at hx
    obtain ⟨w, hw, -⟩ := hx
    exact ⟨w, mem_inSlot.mp hw⟩

/-- A drain hands out the entries up to the bound, arranged by slot. -/
theorem Holds.through_eq (h : Holds slot image buckets entries) (bound : ℕ) :
    buckets.through bound =
      (bySlot slot (entries.filter (fun w => slot w ≤ bound))).map image := by
  have hmap : buckets.through bound =
      ((buckets.slotsThrough bound).flatMap (inSlot slot · entries)).map image := by
    rw [through, List.map_flatMap]
    exact List.flatMap_congr fun s _ => h.queue s
  rw [hmap]
  congr 1
  refine eq_of_inSlot_eq ?_ (bySlot_pairwise slot _) fun s => ?_
  · rw [List.pairwise_flatMap]
    refine ⟨fun s _ => inSlot_pairwise slot s entries, ?_⟩
    refine (buckets.slotsThrough_pairwise bound).imp fun hst a ha b hb => ?_
    rw [(mem_inSlot.mp ha).2, (mem_inSlot.mp hb).2]
    exact hst.le
  · rw [inSlot_bySlot, inSlot_filter, inSlot_flatMap_inSlot slot s
      ((buckets.slotsThrough_pairwise bound).imp ne_of_lt)]
    by_cases hs : s ≤ bound
    · rw [List.filter_eq_self.mpr fun w hw => by simpa [(mem_inSlot.mp hw).2] using hs]
      split
      · rfl
      · next hnot =>
        refine (List.eq_nil_iff_forall_not_mem.mpr fun w hw => hnot ?_).symm
        exact mem_slotsThrough.mpr ⟨h.mem_iff.mpr ⟨w, mem_inSlot.mp hw⟩, hs⟩
    · rw [if_neg fun hmem => hs (mem_slotsThrough.mp hmem).2, eq_comm, List.filter_eq_nil_iff]
      intro w hw
      simpa [(mem_inSlot.mp hw).2] using hs

/-- All queues together hand out all entries, arranged by slot. -/
theorem Holds.keys_flatMap (h : Holds slot image buckets entries) :
    buckets.keys.flatMap (buckets.getD · []) = (bySlot slot entries).map image := by
  have hbound (w : W) (hw : w ∈ entries) : slot w ≤ (entries.map slot).sum :=
    List.single_le_sum (fun _ _ => Nat.zero_le _) _ (List.mem_map_of_mem hw)
  have hkeys : buckets.slotsThrough (entries.map slot).sum = buckets.keys := by
    apply List.filter_eq_self.mpr
    intro s hs
    obtain ⟨w, hw, rfl⟩ := h.mem_iff.mp (ExtTreeMap.mem_keys.mp hs)
    exact decide_eq_true (hbound w hw)
  have hentries : entries.filter (fun w => slot w ≤ (entries.map slot).sum) = entries :=
    List.filter_eq_self.mpr fun w hw => decide_eq_true (hbound w hw)
  have hthrough := h.through_eq (entries.map slot).sum
  rwa [through, hkeys, hentries] at hthrough

/-- After a drain the queues hold the entries above the bound. -/
theorem Holds.dropThrough (h : Holds slot image buckets entries) (bound : ℕ) :
    Holds slot image (buckets.dropThrough bound) (entries.filter (fun w => bound < slot w)) := by
  refine ⟨fun s => ?_, fun s => ?_⟩
  · rw [getD_eq, getElem?_dropThrough, inSlot_filter]
    by_cases hs : s ≤ bound
    · rw [if_pos hs, Option.getD_none, eq_comm, List.map_eq_nil_iff, List.filter_eq_nil_iff]
      intro w hw
      simpa [(mem_inSlot.mp hw).2] using hs
    · rw [if_neg hs, ← getD_eq, h.queue,
        List.filter_eq_self.mpr fun w hw => by simpa [(mem_inSlot.mp hw).2] using hs]
  · rw [getElem?_dropThrough]
    split
    · simp
    · exact h.nonempty s

end Buckets

end AltCache.Replay
