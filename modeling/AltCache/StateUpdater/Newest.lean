import AltCache.StateUpdater.Refinement

/-!
# Staging keeps the newest write

The version filter, the per-slot queues and the release of whole ranges together compute a
maximum: once a slot has been confirmed, every key whose writes up to that slot were all
queued before its later writes holds its newest delivered write up to the slot.
-/

namespace AltCache.StateUpdater

open AltCache.Replay

/-- A confirmation rises exactly when its slot is above every slot confirmed before. -/
theorem confirm_fst_iff {updater : StateUpdater} {store : Store} {s : ℕ} :
    (updater.confirm store s).1 = true ↔ updater.confirmedSlot < s := by
  unfold confirm
  split
  · next h => simp [h]
  · next h => simp [not_le.mp h]

/-- The newest delivered write of a key from the context slot up to a slot, the first of equals. -/
def newestThrough (contextSlot s : ℕ) (calls : List (Call Key (Option Account))) (key : Key) :
    Option (Write Key (Option Account)) :=
  newest key ((delivered calls).filter fun w => contextSlot ≤ w.slot ∧ w.slot ≤ s)

/-- No write of a key above a slot is queued before one of its writes up to the slot. -/
def ArrivesThrough (s : ℕ) (calls : List (Call Key (Option Account))) (key : Key) : Prop :=
  (ofKey key (delivered calls)).Pairwise fun a b => s < a.slot → s < b.slot

/-- Right after a confirmation that rises to `s`, each key whose writes up to `s` were queued
before its later ones holds its newest delivered write between the context slot and `s`, or
else the fetched entry, and nothing up to `s` is pending. -/
theorem newest_on_confirm (url : String) (fetched : FetchedAltState) (store : Store)
    (calls : List (Call Key (Option Account))) (s : ℕ) :
    let state := replay id (fromFetchedAltState url fetched, store) calls
    let confirmed := state.1.confirm state.2 s
    confirmed.1 = true →
      (∀ key : Key, ArrivesThrough s calls key →
        confirmed.2.1.accounts[key]? =
          (newestThrough fetched.contextSlot s calls key).elim fetched.accounts[key]?
            Write.value) ∧
      ∀ slot ∈ confirmed.2.1.pending, s < slot := by
  intro state confirmed hrises
  have hstart := tracks_start id url fetched
  have hbefore := hstart.replay store calls
  have hafter : confirmed.2.1.Tracks id (fetched.accounts[·]?)
      ((Journal.start fetched.contextSlot).run (calls ++ [.confirm s])) := by
    rw [Journal.run_append, Journal.run_singleton]
    exact hbefore.confirm state.2 s
  have hlt : confirmedBy fetched.contextSlot calls < s := by
    have hslot := confirm_fst_iff.mp hrises
    rwa [hbefore.confirmedSlot, Journal.confirmed_run] at hslot
  have hconfirmed : ((Journal.start fetched.contextSlot).run (calls ++ [.confirm s])).confirmed =
      s := by
    rw [Journal.confirmed_run, confirmedBy_append]
    exact max_eq_right hlt.le
  have hswept := Journal.swept_run_confirm (Journal.start fetched.contextSlot) calls hlt
  have hdelivered : delivered (calls ++ [.confirm s]) = delivered calls := by simp
  constructor
  · intro key harrival
    have hlatest := Journal.latest_run (k := key) hswept (by rwa [hconfirmed, hdelivered])
    rw [hconfirmed, hdelivered] at hlatest
    rw [hafter.accounts, Staging.current, hlatest]
    rfl
  · intro slot hslot
    obtain ⟨w, hw, rfl⟩ := hafter.pending.mem_iff.mp hslot
    exact hconfirmed ▸ hswept w hw

/-- A table written twice in the context slot, the newer version first. -/
def lateVersions : List (Call Key (Option Account)) :=
  [.settle, .queue ⟨.filled 1, 10, 2, some (.sample (.filled 1))⟩, .queue ⟨.filled 1, 10, 1, none⟩]

/-- The updater after both versions, started from a state fetched at slot 10. -/
def lateVersionsReplay : StateUpdater × Store :=
  replay id (fromFetchedAltState "rpc" ⟨10, ∅⟩, Store.new) lateVersions

/-- Confirming slot 11 publishes the newer version, late as it is. -/
theorem newest_on_confirm_late :
    (lateVersionsReplay.1.confirm lateVersionsReplay.2 11).2.1.accounts[Key.filled 1]? =
      some (.sample (.filled 1)) := by
  have harrival : ArrivesThrough 11 lateVersions (.filled 1) := by
    unfold ArrivesThrough
    decide +kernel
  have hnewest : newestThrough 10 11 lateVersions (.filled 1) =
      some ⟨.filled 1, 10, 2, some (.sample (.filled 1))⟩ := by
    decide +kernel
  have h := (newest_on_confirm "rpc" ⟨10, ∅⟩ Store.new lateVersions 11 (by decide +kernel)).1
    (.filled 1) harrival
  rw [hnewest] at h
  exact h

end AltCache.StateUpdater
