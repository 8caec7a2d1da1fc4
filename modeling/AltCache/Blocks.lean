import Mathlib

/-!
# Reassembly from blocks

A collection of distinct elements is sent in nonempty blocks, of which any may be lost,
repeated or reordered. Counting the distinct elements received detects every loss: the count
is complete exactly when every block was received.
-/

namespace AltCache.Blocks

variable {α β : Type*} {entries : β → List α} {blocks received : List β}

/-- Distinct elements do not occur in two distinct blocks. -/
theorem eq_of_mem_of_mem (hnodup : (blocks.flatMap entries).Nodup) {b c : β} {a : α}
    (hb : b ∈ blocks) (hc : c ∈ blocks) (hab : a ∈ entries b) (hac : a ∈ entries c) : b = c := by
  by_contra hne
  have hdisjoint := (List.nodup_flatMap.mp hnodup).2
  have hsymm : Std.Symm (Function.onFun List.Disjoint entries) :=
    ⟨fun _ _ h => h.symm⟩
  exact hdisjoint.forall hb hc hne hab hac

/-- Nonempty blocks of distinct elements are distinct. -/
theorem nodup (hnodup : (blocks.flatMap entries).Nodup)
    (hnonempty : ∀ b ∈ blocks, entries b ≠ []) : blocks.Nodup := by
  refine (List.nodup_flatMap.mp hnodup).2.imp_of_mem fun {b c} hb _ hdisjoint heq => ?_
  obtain ⟨a, ha⟩ := List.exists_mem_of_ne_nil _ (hnonempty b hb)
  exact hdisjoint ha (heq ▸ ha)

variable [DecidableEq α]

/-- What is received is part of what was sent. -/
theorem toFinset_subset (entries : β → List α) (h : received ⊆ blocks) :
    (received.flatMap entries).toFinset ⊆ (blocks.flatMap entries).toFinset := by
  intro a ha
  obtain ⟨block, hblock, hentry⟩ := List.mem_flatMap.mp (List.mem_toFinset.mp ha)
  exact List.mem_toFinset.mpr (List.mem_flatMap.mpr ⟨block, h hblock, hentry⟩)

/-- Counting the distinct elements received detects every lost block. -/
theorem card_eq_length_iff (hnodup : (blocks.flatMap entries).Nodup)
    (hnonempty : ∀ b ∈ blocks, entries b ≠ []) (hreceived : received ⊆ blocks) :
    (received.flatMap entries).toFinset.card = (blocks.flatMap entries).length ↔
      blocks ⊆ received := by
  rw [← List.toFinset_card_of_nodup hnodup]
  constructor
  · intro hcard block hblock
    have hall := Finset.eq_of_subset_of_card_le (toFinset_subset entries hreceived) hcard.ge
    obtain ⟨a, ha⟩ := List.exists_mem_of_ne_nil _ (hnonempty block hblock)
    have hsent : a ∈ (blocks.flatMap entries).toFinset :=
      List.mem_toFinset.mpr (List.mem_flatMap.mpr ⟨block, hblock, ha⟩)
    obtain ⟨other, hother, hmem⟩ :=
      List.mem_flatMap.mp (List.mem_toFinset.mp (hall.symm ▸ hsent))
    exact eq_of_mem_of_mem hnodup hblock (hreceived hother) ha hmem ▸ hother
  · intro hall
    rw [(toFinset_subset entries hreceived).antisymm (toFinset_subset entries hall)]

end AltCache.Blocks
