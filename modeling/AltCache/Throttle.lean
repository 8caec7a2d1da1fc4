import Mathlib.Data.List.Basic
import Mathlib.Data.Nat.Notation

/-!
# Letting one message through in a while

A throttle lets a message through unless the last one it let through is too recent. What it has
let through is spaced by its gap, and whatever it has held back came within the gap after
something that it had let through.
-/

namespace AltCache.Throttle

variable {α : Type*} {gap now : ℕ} {latest : Option ℕ} {arrived passed : List (α × ℕ)}

/-- The last message let through is too recent. -/
def Recent (gap now : ℕ) (latest : Option ℕ) : Prop :=
  ∃ instant, latest = some instant ∧ now - instant < gap

/-- What a throttle has let through of what has arrived at it. -/
structure Throttled (gap : ℕ) (latest : Option ℕ) (arrived passed : List (α × ℕ)) : Prop where
  last : latest = passed.getLast?.map Prod.snd
  sublist : passed.Sublist arrived
  spaced : passed.Pairwise fun first second => first.2 + gap ≤ second.2
  covered : ∀ message ∈ arrived, ∃ earlier ∈ passed, earlier.2 ≤ message.2 ∧
    message.2 < earlier.2 + gap

/-- At first nothing has arrived. -/
theorem throttled_nil (gap : ℕ) : Throttled gap none ([] : List (α × ℕ)) [] where
  last := rfl
  sublist := .slnil
  spaced := .nil
  covered _ h := absurd h List.not_mem_nil

namespace Throttled

/-- A message that arrives too early is held back. -/
theorem hold (h : Throttled gap latest arrived passed) (hrecent : Recent gap now latest)
    (hclock : ∀ instant ∈ latest, instant ≤ now) (a : α) :
    Throttled gap latest (arrived ++ [(a, now)]) passed := by
  refine ⟨h.last, h.sublist.trans (List.sublist_append_left ..), h.spaced, fun message hmem => ?_⟩
  rcases List.mem_append.mp hmem with hearlier | hnew
  · exact h.covered message hearlier
  · obtain rfl := List.mem_singleton.mp hnew
    obtain ⟨instant, hat, hearly⟩ := hrecent
    have hlast := h.last
    rw [hat] at hlast
    obtain ⟨earlier, hearlier, htime⟩ := Option.map_eq_some_iff.mp hlast.symm
    have hle := hclock instant hat
    refine ⟨earlier, List.mem_of_getLast? hearlier, ?_, ?_⟩
    · omega
    · omega

/-- Whatever was let through is no later than the last. -/
theorem le_last (h : Throttled gap latest arrived passed) {earlier : α × ℕ}
    (hearlier : earlier ∈ passed) : ∃ instant, latest = some instant ∧ earlier.2 ≤ instant := by
  obtain ⟨front, final, rfl⟩ := (List.eq_nil_or_concat' passed).resolve_left
    (List.ne_nil_of_mem hearlier)
  refine ⟨final.2, by rw [h.last, List.getLast?_concat]; rfl, ?_⟩
  rcases List.mem_append.mp hearlier with hfront | hfinal
  · have hspaced := (List.pairwise_append.mp h.spaced).2.2 earlier hfront final
      (List.mem_singleton_self _)
    omega
  · exact (List.mem_singleton.mp hfinal) ▸ Nat.le_refl _

/-- A message that arrives late enough is let through. -/
theorem pass (h : Throttled gap latest arrived passed) (hlate : ¬ Recent gap now latest)
    (hclock : ∀ instant ∈ latest, instant ≤ now) (hgap : 0 < gap) (a : α) :
    Throttled gap (some now) (arrived ++ [(a, now)]) (passed ++ [(a, now)]) := by
  refine ⟨by rw [List.getLast?_concat]; rfl, h.sublist.append (List.Sublist.refl _), ?_, ?_⟩
  · refine List.pairwise_append.mpr ⟨h.spaced, List.pairwise_singleton _ _, ?_⟩
    intro earlier hearlier message hmessage
    rw [List.mem_singleton.mp hmessage]
    obtain ⟨instant, hat, hle⟩ := h.le_last hearlier
    have hspaced : ¬ now - instant < gap := fun hearly => hlate ⟨instant, hat, hearly⟩
    have hnow := hclock instant hat
    dsimp only
    omega
  · intro message hmem
    rcases List.mem_append.mp hmem with hearlier | hnew
    · obtain ⟨earlier, hpassed, htimes⟩ := h.covered message hearlier
      exact ⟨earlier, List.mem_append_left _ hpassed, htimes⟩
    · rw [List.mem_singleton.mp hnew]
      exact ⟨(a, now), List.mem_append_right _ (List.mem_singleton_self _), Nat.le_refl _,
        Nat.lt_add_of_pos_right hgap⟩

end Throttled

end AltCache.Throttle
