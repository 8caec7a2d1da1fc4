import AltCache.Rotation
import AltCache.Updater

/-!
# Source rotation is fair

The search for the next connected source tries every source once, going round from the active
one, which comes last. It therefore ends at the connected source nearest going round, and
repeating it goes through the connected sources in turn.
-/

namespace AltCache

open Rotation (distance turn)

/-- The active source after a number of rotations; it stays if nothing is connected. -/
def rotated (active : ℕ) (connected : Finset ℕ) (count k : ℕ) : ℕ :=
  (fun active => (nextConnected active connected count).getD active)^[k] active

/-- With nothing connected there is no next source, whatever the number of sources. -/
theorem nextConnected_empty (active count : ℕ) : nextConnected active ∅ count = none := by
  unfold nextConnected
  rw [List.find?_eq_none]
  intro source _
  simp

/-- The remainder is taken only if there are sources. -/
theorem count_ne_zero_of_offset {count offset : ℕ} (h : offset ∈ List.range' 1 count) :
    count ≠ 0 := by
  rw [List.mem_range'_1] at h
  omega

variable {active count : ℕ} {connected : Finset ℕ}

/-- The next connected source is the one nearest going round. -/
theorem nextConnected_eq_turn (hactive : active < count)
    (hconnected : ∀ source ∈ connected, source < count) (hsome : connected.Nonempty) :
    nextConnected active connected count = some (turn connected active) := by
  have hmem := Rotation.turn_mem hsome active
  have hinside := hconnected _ hmem
  obtain ⟨hpos, hround⟩ := Rotation.distance_mem hinside hactive
  unfold nextConnected
  rw [List.find?_eq_some_iff_getElem]
  refine ⟨by simpa using hmem, distance count active (turn connected active) - 1, ?_, ?_, ?_⟩
  · simp only [List.length_map, List.length_range']
    omega
  · have hoffset : 1 + (distance count active (turn connected active) - 1) =
        distance count active (turn connected active) := by
      omega
    simp only [List.getElem_map, List.getElem_range', Nat.one_mul, hoffset]
    exact Rotation.add_distance_mod hinside hactive
  · intro j hj
    simp only [List.getElem_map, List.getElem_range', Nat.one_mul, Bool.not_eq_true',
      decide_eq_false_iff_not]
    -- a connected source found earlier would be nearer
    intro hearlier
    have hnearer := Rotation.distance_turn_le hactive hconnected hearlier
    rw [Rotation.distance_add_mod hactive (by omega) (by omega)] at hnearer
    omega

/-- Rotating takes turns among the connected sources. -/
theorem rotated_eq_turn_iterate (hactive : active < count)
    (hconnected : ∀ source ∈ connected, source < count) (hsome : connected.Nonempty) (k : ℕ) :
    rotated active connected count k = (turn connected)^[k] active ∧
      rotated active connected count k < count := by
  induction k with
  | zero => exact ⟨rfl, hactive⟩
  | succ k ih =>
    obtain ⟨hsame, hinside⟩ := ih
    have hstep : rotated active connected count (k + 1) =
        turn connected (rotated active connected count k) := by
      rw [rotated, Function.iterate_succ_apply']
      change (nextConnected (rotated active connected count k) connected count).getD _ = _
      rw [nextConnected_eq_turn hinside hconnected hsome]
      rfl
    rw [hstep]
    refine ⟨?_, hconnected _ (Rotation.turn_mem hsome _)⟩
    rw [hsame, Function.iterate_succ_apply']

/-- Rotation is fair: every step ends at a connected source and skips none, each block of as
many steps as there are connected sources visits every one exactly once, and a source comes
back only after whole rounds. With nothing connected no source is found and no remainder by
zero is taken. -/
theorem rotation_fair (active count : ℕ) (connected : Finset ℕ) :
    nextConnected active ∅ count = none ∧
    (∀ offset ∈ List.range' 1 count, count ≠ 0) ∧
    (active < count → (∀ source ∈ connected, source < count) → connected.Nonempty →
      (∀ k, nextConnected (rotated active connected count k) connected count =
          some (rotated active connected count (k + 1)) ∧
        rotated active connected count (k + 1) ∈ connected ∧
        ∀ source ∈ connected,
          distance count (rotated active connected count k)
              (rotated active connected count (k + 1)) ≤
            distance count (rotated active connected count k) source) ∧
      (∀ i, ∀ source ∈ connected,
        ∃! k, k < connected.card ∧ rotated active connected count (i + 1 + k) = source) ∧
      (∀ i j, rotated active connected count (i + 1) = rotated active connected count (j + 1) ↔
        i ≡ j [MOD connected.card]) ∧
      (active ∈ connected → ∀ k,
        rotated active connected count k = active ↔ connected.card ∣ k)) := by
  refine ⟨nextConnected_empty active count, fun offset hoffset => count_ne_zero_of_offset hoffset,
    fun hactive hconnected hsome => ?_⟩
  have hturns (k : ℕ) := (rotated_eq_turn_iterate hactive hconnected hsome k).1
  have hinside (k : ℕ) := (rotated_eq_turn_iterate hactive hconnected hsome k).2
  have hstep (k : ℕ) : rotated active connected count (k + 1) =
      turn connected (rotated active connected count k) := by
    rw [hturns, hturns, Function.iterate_succ_apply']
  refine ⟨fun k => ⟨?_, ?_, fun source hsource => ?_⟩, fun i source hsource => ?_, fun i j => ?_,
    fun hmem k => ?_⟩
  · rw [hstep]
    exact nextConnected_eq_turn (hinside k) hconnected hsome
  · rw [hstep]
    exact Rotation.turn_mem hsome _
  · rw [hstep]
    exact Rotation.distance_turn_le (hinside k) hconnected hsource
  · simp only [hturns]
    exact Rotation.existsUnique_turn hsome active i hsource
  · rw [hturns, hturns]
    exact Rotation.turn_iterate_eq_iff hsome active
  · rw [hturns]
    exact Rotation.turn_iterate_eq_self_iff hmem k

/-- Of four sources two are connected, and each is visited once in two steps. -/
theorem rotation_fair_two :
    ∃! k, k < ({0, 3} : Finset ℕ).card ∧ rotated 1 {0, 3} 4 (0 + 1 + k) = 0 :=
  ((rotation_fair 1 4 {0, 3}).2.2 (by decide) (by decide) (by decide)).2.1 0 0 (by decide)

end AltCache
