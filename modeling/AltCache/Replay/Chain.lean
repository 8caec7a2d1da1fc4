import AltCache.Replay.Write

/-!
# Histories and the states they pass through

A chain is the finite set of writes of a replicated map; its state at a slot gives every
key the value of its newest write up to that slot. Replaying delivered writes over values
read somewhere between a base slot and a target slot gives the chain state at the target:
a key with a replayed write ends at its newest one, and a key without one was not written
between its read and the target.
-/

namespace AltCache.Replay

variable {κ α β : Type*} [DecidableEq κ]

/-- The writes of a replicated map; no two of one key share a tag. -/
structure Chain (κ β : Type*) where
  writes : List (Write κ β)
  unique : ∀ a ∈ writes, ∀ b ∈ writes, a.key = b.key → a.tag = b.tag → a = b

namespace Chain

/-- The newest write of a key up to a slot. -/
def newestAt (chain : Chain κ β) (s : ℕ) (k : κ) : Option (Write κ β) :=
  newest k (chain.writes.filter (·.slot ≤ s))

/-- What `val` reads for a key at a slot; a deleted or never written key has nothing. -/
def stateAt (val : β → Option α) (chain : Chain κ β) (s : ℕ) (k : κ) : Option α :=
  (chain.newestAt s k).bind fun w => val w.value

variable {val : β → Option α} {chain : Chain κ β} {k : κ} {s : ℕ}

/-- A write no older than any other of its key up to a slot is the newest up to it. -/
theorem newestAt_eq_some {w : Write κ β} (hw : w ∈ chain.writes) (hk : w.key = k)
    (hs : w.slot ≤ s)
    (hmax : ∀ a ∈ chain.writes, a.key = k → a.slot ≤ s → a.tag ≤ w.tag) :
    chain.newestAt s k = some w := by
  have hmem : w ∈ chain.writes.filter (·.slot ≤ s) := List.mem_filter.mpr ⟨hw, by simpa using hs⟩
  cases hnew : chain.newestAt s k with
  | none => exact (newest_eq_none.mp hnew w hmem hk).elim
  | some v =>
    obtain ⟨hv, hvk, hvmax⟩ := newest_eq_some hnew
    obtain ⟨hv, hvs⟩ := List.mem_filter.mp hv
    have htag : v.tag = w.tag :=
      le_antisymm (hmax v hv hvk (by simpa using hvs)) (hvmax w hmem hk)
    rw [chain.unique v hv w hw (hvk.trans hk.symm) htag]

/-- A key keeps its state over slots in which it is not written. -/
theorem stateAt_congr {p : ℕ} (hps : p ≤ s)
    (hquiet : ∀ w ∈ chain.writes, w.key = k → w.slot ≤ s → w.slot ≤ p) :
    chain.stateAt val p k = chain.stateAt val s k := by
  have hsame : ofKey k (chain.writes.filter (·.slot ≤ p)) =
      ofKey k (chain.writes.filter (·.slot ≤ s)) := by
    simp only [ofKey, List.filter_filter]
    apply List.filter_congr
    intro w hw
    by_cases hk : w.key = k
    · have h : w.slot ≤ p ↔ w.slot ≤ s := ⟨fun h => h.trans hps, hquiet w hw hk⟩
      simp [hk, h]
    · simp [hk]
  rw [stateAt, stateAt, newestAt, newestAt, newest, newest, hsame]

/-- Replay converges. A key read at a slot `p` between the base slot `c` and the target `s`
ends at its state at `s` if every later write up to `s` was delivered or superseded by a
delivered one, and the last write of slot `c` was delivered if any of that slot was. -/
theorem replay_eq_stateAt {delivered : List (Write κ β)} {c p : ℕ}
    (hcp : c ≤ p) (hps : p ≤ s) (hfrom : ∀ w ∈ delivered, w ∈ chain.writes)
    (hall : ∀ w ∈ chain.writes, w.key = k → c < w.slot → w.slot ≤ s →
      ∃ v ∈ delivered, v.key = k ∧ v.slot ≤ s ∧ w.tag ≤ v.tag)
    (hbase : ∀ v ∈ delivered, v.key = k → v.slot = c →
      ∀ w ∈ chain.writes, w.key = k → w.slot = c →
        ∃ u ∈ delivered, u.key = k ∧ u.slot ≤ s ∧ w.tag ≤ u.tag) :
    (newest k (delivered.filter fun w => c ≤ w.slot ∧ w.slot ≤ s)).elim (chain.stateAt val p k)
      (fun w => val w.value) = chain.stateAt val s k := by
  have hwindow {v : Write κ β} (hv : v ∈ delivered) (hc : c ≤ v.slot)
      (hs : v.slot ≤ s) : v ∈ delivered.filter fun w => c ≤ w.slot ∧ w.slot ≤ s :=
    List.mem_filter.mpr ⟨hv, by simp [hc, hs]⟩
  cases hnew : newest k (delivered.filter fun w => c ≤ w.slot ∧ w.slot ≤ s) with
  | none =>
    refine stateAt_congr hps fun w hw hwk hws => not_lt.mp fun hlt => ?_
    obtain ⟨v, hv, hvk, hvs, htag⟩ := hall w hw hwk (hcp.trans_lt hlt) hws
    have hcv : c ≤ v.slot := (hcp.trans hlt.le).trans (Write.slot_le_of_tag_le htag)
    exact newest_eq_none.mp hnew v (hwindow hv hcv hvs) hvk
  | some v =>
    obtain ⟨hv, hvk, hmax⟩ := newest_eq_some hnew
    obtain ⟨hv, hvw⟩ := List.mem_filter.mp hv
    obtain ⟨hcv, hvs⟩ := of_decide_eq_true hvw
    have hnewest : chain.newestAt s k = some v := by
      apply newestAt_eq_some (hfrom v hv) hvk hvs
      intro w hw hwk hws
      -- a delivered write at least as new as `w` bounds it by the newest delivered one
      have hbound (h : ∃ u ∈ delivered, u.key = k ∧ u.slot ≤ s ∧ w.tag ≤ u.tag)
          (hcw : c ≤ w.slot) : w.tag ≤ v.tag := by
        obtain ⟨u, hu, huk, hus, htag⟩ := h
        exact htag.trans
          (hmax u (hwindow hu (hcw.trans (Write.slot_le_of_tag_le htag)) hus) huk)
      rcases lt_trichotomy w.slot c with hlt | heq | hgt
      · exact (Write.tag_lt_of_slot_lt (hlt.trans_le hcv)).le
      · rcases hcv.eq_or_lt with hvc | hvc
        · exact hbound (hbase v hv hvk hvc.symm w hw hwk heq) heq.ge
        · exact (Write.tag_lt_of_slot_lt (heq ▸ hvc)).le
      · exact hbound (hall w hw hwk hgt hws) hgt.le
    change val v.value = (chain.newestAt s k).bind fun w => val w.value
    rw [hnewest]
    rfl

end Chain

end AltCache.Replay
