import Mathlib

/-!
# Going round a finite set of positions

Positions below a bound are arranged in a circle, and some of them are members. From any
position the next member is the one at the smallest distance going round, a member itself
being a whole round away. Members are numbered in ascending order; taking turns adds one to
the number, modulo how many there are. Every member is therefore reached once in each round of
turns, and none is reached again before the round is over.
-/

namespace AltCache.Rotation

variable {members : Finset ℕ} {bound position i j : ℕ}

/-- The steps from one position to another going round, a whole round from a position to
itself. -/
def distance (bound position other : ℕ) : ℕ :=
  if position < other then other - position else other + bound - position

/-- The members in ascending order. -/
noncomputable def member (members : Finset ℕ) (i : ℕ) : ℕ := Nat.nth (· ∈ members) i

/-- The number of members up to a position. -/
def rank (members : Finset ℕ) (position : ℕ) : ℕ := Nat.count (· ∈ members) (position + 1)

/-- The next member after a position, going round. -/
noncomputable def turn (members : Finset ℕ) (position : ℕ) : ℕ :=
  member members (rank members position % members.card)

/-- Going the distance leads to the other position. -/
theorem add_distance_mod {other : ℕ} (hother : other < bound) (hposition : position < bound) :
    (position + distance bound position other) % bound = other := by
  unfold distance
  split
  · next hlt => rw [Nat.add_sub_cancel' hlt.le, Nat.mod_eq_of_lt hother]
  · rw [Nat.add_sub_cancel' (by omega), Nat.add_mod_right, Nat.mod_eq_of_lt hother]

/-- Up to a whole round, the distance gone is the distance reached. -/
theorem distance_add_mod {steps : ℕ} (hposition : position < bound) (hpos : 0 < steps)
    (hsteps : steps ≤ bound) : distance bound position ((position + steps) % bound) = steps := by
  unfold distance
  rcases Nat.lt_or_ge (position + steps) bound with hlt | hge
  · rw [Nat.mod_eq_of_lt hlt, if_pos (by omega)]
    omega
  · have hmod : (position + steps) % bound = position + steps - bound := by
      rw [Nat.mod_eq_sub_mod hge, Nat.mod_eq_of_lt (by omega)]
    rw [hmod, if_neg (by omega)]
    omega

/-- Distances within the circle are between one step and a whole round. -/
theorem distance_mem {other : ℕ} (hother : other < bound) (hposition : position < bound) :
    0 < distance bound position other ∧ distance bound position other ≤ bound := by
  unfold distance
  split <;> omega

/-- The set of members is finite, with as many elements. -/
theorem card_toFinset (hfinite : (Set.ofPred fun source => source ∈ members).Finite) :
    hfinite.toFinset.card = members.card := by
  congr 1
  ext source
  simp

/-- Members are numbered below their number. -/
theorem member_mem (hi : i < members.card) : member members i ∈ members := by
  have hfinite : (Set.ofPred fun source => source ∈ members).Finite := members.finite_toSet
  exact Nat.nth_mem_of_lt_card hfinite (by rwa [card_toFinset])

/-- A member counts as many members up to it as its number says. -/
theorem rank_member (hi : i < members.card) : rank members (member members i) = i + 1 :=
  Nat.count_nth_succ fun hfinite => by rwa [card_toFinset]

/-- Every member has a number. -/
theorem exists_member {source : ℕ} (h : source ∈ members) :
    ∃ i < members.card, member members i = source := by
  have hfinite : (Set.ofPred fun source => source ∈ members).Finite := members.finite_toSet
  obtain ⟨i, hi, hsource⟩ := Nat.exists_lt_card_finite_nth_eq hfinite h
  rw [card_toFinset] at hi
  exact ⟨i, hi, hsource⟩

/-- Different numbers name different members. -/
theorem member_inj (hi : i < members.card) (hj : j < members.card)
    (h : member members i = member members j) : i = j := by
  have hrank := rank_member hi
  rw [h, rank_member hj] at hrank
  omega

/-- Members are numbered in ascending order. -/
theorem member_le_member (hij : i ≤ j) (hj : j < members.card) :
    member members i ≤ member members j := by
  have hfinite : (Set.ofPred fun source => source ∈ members).Finite := members.finite_toSet
  exact Nat.nth_le_nth_of_lt_card hfinite hij (by rwa [card_toFinset])

/-- The members up to a position are those numbered below its rank. -/
theorem member_le_iff (hi : i < members.card) :
    member members i ≤ position ↔ i < rank members position := by
  constructor
  · intro hle
    have hcount : Nat.count (· ∈ members) (member members i) < rank members position :=
      Nat.count_strict_mono (member_mem hi) (Nat.lt_succ_of_le hle)
    have hnumber : Nat.count (· ∈ members) (member members i) = i :=
      Nat.count_nth fun hfinite => by rwa [card_toFinset]
    omega
  · intro hlt
    exact Nat.le_of_lt_succ (Nat.nth_lt_of_lt_count hlt)

/-- No rank exceeds the number of members. -/
theorem rank_le (members : Finset ℕ) (position : ℕ) : rank members position ≤ members.card := by
  have hfinite : (Set.ofPred fun source => source ∈ members).Finite := members.finite_toSet
  exact (Nat.count_le_card hfinite _).trans_eq (card_toFinset hfinite)

/-- A turn ends at a member. -/
theorem turn_mem (hmembers : members.Nonempty) (position : ℕ) : turn members position ∈ members :=
  member_mem (Nat.mod_lt _ hmembers.card_pos)

/-- A turn skips no member: it ends at the member nearest going round. -/
theorem distance_turn_le (hposition : position < bound) (hbound : ∀ source ∈ members, source < bound)
    {source : ℕ} (hsource : source ∈ members) :
    distance bound position (turn members position) ≤ distance bound position source := by
  obtain ⟨i, hi, rfl⟩ := exists_member hsource
  have hrank := rank_le members position
  rcases hrank.lt_or_eq with hlt | heq
  · have hturn : turn members position = member members (rank members position) := by
      rw [turn, Nat.mod_eq_of_lt hlt]
    have habove : position < member members (rank members position) :=
      not_le.mp fun hle => absurd ((member_le_iff hlt).mp hle) (lt_irrefl _)
    have hinside := hbound _ (member_mem hlt)
    rw [hturn, distance, if_pos habove, distance]
    by_cases hbefore : i < rank members position
    · have hbelow := (member_le_iff hi).mpr hbefore
      rw [if_neg (not_lt.mpr hbelow)]
      omega
    · have hordered := member_le_member (not_lt.mp hbefore) hi
      rw [if_pos (habove.trans_le hordered)]
      omega
  · have hturn : turn members position = member members 0 := by
      rw [turn, heq, Nat.mod_self]
    have hfirst : 0 < members.card := by omega
    have hbelow := (member_le_iff hi).mpr (heq ▸ hi)
    have hordered := member_le_member (Nat.zero_le i) hi
    rw [hturn, distance, distance, if_neg (by omega), if_neg (by omega)]
    omega

/-- Each turn adds one to the member's number, modulo their number. -/
theorem turn_iterate (hmembers : members.Nonempty) (position k : ℕ) :
    (turn members)^[k + 1] position =
      member members ((rank members position + k) % members.card) := by
  induction k with
  | zero => rfl
  | succ k ih =>
    rw [Function.iterate_succ_apply', ih, turn, rank_member (Nat.mod_lt _ hmembers.card_pos),
      Nat.mod_add_mod, Nat.add_assoc]

/-- Turns end at the same member exactly when they are whole rounds apart. -/
theorem turn_iterate_eq_iff (hmembers : members.Nonempty) (position : ℕ) :
    (turn members)^[i + 1] position = (turn members)^[j + 1] position ↔
      i ≡ j [MOD members.card] := by
  rw [turn_iterate hmembers, turn_iterate hmembers]
  constructor
  · intro h
    have hnumber := member_inj (Nat.mod_lt _ hmembers.card_pos) (Nat.mod_lt _ hmembers.card_pos) h
    exact Nat.ModEq.add_left_cancel' (rank members position) hnumber
  · intro h
    exact congrArg (member members) (h.add_left (rank members position))

/-- A member is reached again exactly after whole rounds. -/
theorem turn_iterate_eq_self_iff (hposition : position ∈ members) (k : ℕ) :
    (turn members)^[k] position = position ↔ members.card ∣ k := by
  have hmembers : members.Nonempty := ⟨position, hposition⟩
  obtain ⟨last, hlast⟩ := Nat.exists_eq_succ_of_ne_zero hmembers.card_pos.ne'
  have hround : (turn members)^[last + 1] position = position := by
    obtain ⟨j, hj, rfl⟩ := exists_member hposition
    rw [turn_iterate hmembers, rank_member hj, show j + 1 + last = j + members.card by omega,
      Nat.add_mod_right, Nat.mod_eq_of_lt hj]
  cases k with
  | zero => simp
  | succ k =>
    calc (turn members)^[k + 1] position = position
        ↔ (turn members)^[k + 1] position = (turn members)^[last + 1] position := by rw [hround]
      _ ↔ k ≡ last [MOD members.card] := turn_iterate_eq_iff hmembers position
      _ ↔ k + 1 ≡ last + 1 [MOD members.card] :=
          ⟨fun h => h.add_right 1, fun h => h.add_right_cancel' 1⟩
      _ ↔ members.card ∣ k + 1 := by
          have hlast : last + 1 ≡ 0 [MOD members.card] :=
            (Nat.modEq_zero_iff_dvd).mpr (hlast ▸ dvd_rfl)
          rw [← Nat.modEq_zero_iff_dvd]
          exact ⟨fun h => h.trans hlast, fun h => h.trans hlast.symm⟩

/-- Every member is reached exactly once in each round of turns. -/
theorem existsUnique_turn (hmembers : members.Nonempty) (position i : ℕ) {source : ℕ}
    (hsource : source ∈ members) :
    ∃! k, k < members.card ∧ (turn members)^[i + 1 + k] position = source := by
  obtain ⟨j, hj, rfl⟩ := exists_member hsource
  have hpos := hmembers.card_pos
  have hshift (k : ℕ) : (turn members)^[i + 1 + k] position =
      member members ((rank members position + i + k) % members.card) := by
    rw [show i + 1 + k = i + k + 1 by omega, turn_iterate hmembers, Nat.add_assoc]
  generalize hstart : rank members position + i = start at hshift
  have hround : start + (j + (members.card - 1) * start) = j + members.card * start := by
    obtain ⟨rest, hrest⟩ := Nat.exists_eq_succ_of_ne_zero hpos.ne'
    rw [hrest, Nat.succ_sub_one, Nat.succ_mul]
    omega
  -- the turn that brings the number from `start` to `j`
  refine ⟨(j + (members.card - 1) * start) % members.card, ⟨Nat.mod_lt _ hpos, ?_⟩, ?_⟩
  · rw [hshift, Nat.add_mod_mod, hround, Nat.add_mul_mod_self_left, Nat.mod_eq_of_lt hj]
  · rintro k ⟨hk, hreached⟩
    rw [hshift] at hreached
    have hnumber := member_inj (Nat.mod_lt _ hpos) hj hreached
    have hcongr : start + k ≡ start + (j + (members.card - 1) * start) [MOD members.card] := by
      rw [hround]
      change (start + k) % members.card = _
      rw [hnumber, Nat.add_mul_mod_self_left, Nat.mod_eq_of_lt hj]
    have hsame := Nat.ModEq.add_left_cancel' start hcongr
    rwa [Nat.ModEq, Nat.mod_eq_of_lt hk] at hsame

end AltCache.Rotation
