import AltCache.Replay.Journal

/-!
# Release by range against confirmation by slot

Staging is by slot, but a call releases a whole range of slots: a confirmation everything
up to its slot, settling everything up to the confirmed slot. A released write can thus be
of a slot that no call confirmed. The applied writes are all of confirmed slots exactly when
every call finds, in the range it releases, only staged slots that were confirmed themselves.
-/

namespace AltCache.Replay

variable {κ β : Type*}

/-- The slot through which a call releases, if it releases anything. -/
def Call.bound? (confirmed : ℕ) : Call κ β → Option ℕ
  | .queue _ => none
  | .confirm s => if confirmed < s then some s else none
  | .settle => some confirmed

namespace Journal

variable [DecidableEq κ] {j : Journal κ β} {c : Call κ β} {calls : List (Call κ β)}

/-- The applied writes above the floor are of slots confirmed by the calls. -/
def OwnConfirmed (j : Journal κ β) (calls : List (Call κ β)) : Prop :=
  ∀ w ∈ j.applied, j.floor < w.slot → .confirm w.slot ∈ calls

/-- The staged writes above the floor that a call releases are of slots confirmed by the calls. -/
def ReleasesOwn (j : Journal κ β) (calls : List (Call κ β)) (c : Call κ β) : Prop :=
  ∀ bound, c.bound? j.confirmed = some bound →
    ∀ w ∈ j.staged, j.floor < w.slot → w.slot ≤ bound → .confirm w.slot ∈ calls

/-- Advancing applies the staged writes up to the slot. -/
theorem mem_applied_advance {s : ℕ} (h : j.confirmed ≤ s) {w : Write κ β} :
    w ∈ (j.advance s h).applied ↔ w ∈ j.applied ∨ w ∈ j.staged ∧ w.slot ≤ s := by
  change w ∈ j.applied ++ bySlot Write.slot (j.staged.filter (·.slot ≤ s)) ↔ _
  simp

/-- A call applies the staged writes in the range it releases. -/
theorem mem_applied_call {w : Write κ β} :
    w ∈ (j.call c).applied ↔
      w ∈ j.applied ∨ w ∈ j.staged ∧ ∃ bound, c.bound? j.confirmed = some bound ∧
        w.slot ≤ bound := by
  cases c with
  | queue v =>
    have hsame : (j.queue v).applied = j.applied := by
      unfold queue; split <;> rfl
    change w ∈ (j.queue v).applied ↔ _
    simp [hsame, Call.bound?]
  | confirm s =>
    change w ∈ (j.confirm s).applied ↔ _
    unfold confirm
    by_cases hs : j.confirmed < s
    · rw [dif_pos hs, mem_applied_advance]
      simp [Call.bound?, hs]
    · rw [dif_neg hs]
      simp [Call.bound?, hs]
  | settle =>
    change w ∈ (j.advance j.confirmed le_rfl).applied ↔ _
    rw [mem_applied_advance]
    simp [Call.bound?]

/-- No call moves the floor. -/
theorem floor_call (j : Journal κ β) (c : Call κ β) : (j.call c).floor = j.floor :=
  floor_run j [c]

/-- If the applied writes are of confirmed slots, a call keeps them so exactly when it releases
confirmed slots only. -/
theorem ownConfirmed_call_iff (h : j.OwnConfirmed calls) :
    (j.call c).OwnConfirmed (calls ++ [c]) ↔ j.ReleasesOwn (calls ++ [c]) c := by
  unfold OwnConfirmed ReleasesOwn
  rw [floor_call]
  constructor
  · intro happlied bound hbound w hw hfloor hle
    exact happlied w (mem_applied_call.mpr (Or.inr ⟨hw, bound, hbound, hle⟩)) hfloor
  · intro hreleases w hw hfloor
    rcases mem_applied_call.mp hw with hw | ⟨hw, bound, hbound, hle⟩
    · exact List.mem_append_left _ (h w hw hfloor)
    · exact hreleases bound hbound w hw hfloor hle

/-- Throughout a run the applied writes are of confirmed slots exactly when every call releases
confirmed slots only. -/
theorem ownConfirmed_run_iff (slot : ℕ) (calls : List (Call κ β)) :
    (∀ first rest, calls = first ++ rest → ((start slot).run first).OwnConfirmed first) ↔
      ∀ first c rest, calls = first ++ c :: rest →
        ((start slot).run first).ReleasesOwn (first ++ [c]) c := by
  constructor
  · intro hall first c rest heq
    have hnext := hall (first ++ [c]) rest (by simp [heq])
    rw [run_append, run_singleton] at hnext
    exact (ownConfirmed_call_iff (hall first (c :: rest) heq)).mp hnext
  · intro hall first
    induction first using List.reverseRecOn with
    | nil =>
      intro rest _ w hw
      exact (List.not_mem_nil hw).elim
    | append_singleton first c ih =>
      intro rest heq
      have hsplit : calls = first ++ c :: rest := by simpa using heq
      rw [run_append, run_singleton]
      exact (ownConfirmed_call_iff (ih (c :: rest) hsplit)).mpr (hall first c rest hsplit)

end Journal

end AltCache.Replay
