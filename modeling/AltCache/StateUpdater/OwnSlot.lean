import AltCache.Replay.OwnSlot
import AltCache.StateUpdater.Refinement

/-!
# Whose confirmation publishes a write

A published snapshot shows, for each key, the last write released to it, or the fetched entry
if none was. Every such write is of the context slot or of a slot that was itself confirmed,
in every run whose calls release only slots that were themselves confirmed. A confirmation
does not see to that: it releases everything staged up to its slot, and so publishes the
writes of an earlier slot that was skipped.
-/

namespace AltCache.StateUpdater

open AltCache.Replay

variable {β : Type*}

/-- The snapshot a call hands to the store, if it publishes. -/
def published? (state : StateUpdater × Store) : Call Key β → Option ServerSnapshot
  | .queue _ => none
  | .confirm s =>
    if s ≤ state.1.confirmedSlot ∨ state.1.recovering then none
    else some ⟨s, (state.1.applyPendingThrough s).accounts⟩
  | .settle =>
    some ⟨state.1.confirmedSlot, (state.1.applyPendingThrough state.1.confirmedSlot).accounts⟩

/-- The write that a key's account came from, if it is not the fetched one: the last one that
the calls released for the key. -/
def origin (contextSlot : ℕ) (calls : List (Call Key β)) (key : Key) : Option (Write Key β) :=
  ((Journal.start contextSlot).run calls).latest key

/-- Every write above the context slot that a snapshot published in the run shows is of a slot
whose own confirmation was processed before. -/
def ServesOwnSlots (url : String) (fetched : FetchedAltState) (store : Store)
    (calls : List (Call Key (Option Account))) : Prop :=
  ∀ first call rest snapshot, calls = first ++ call :: rest →
    published? (replay id (fromFetchedAltState url fetched, store) first) call = some snapshot →
    ∀ key : Key,
      (origin fetched.contextSlot (first ++ [call]) key = none ∧
        snapshot.accounts[key]? = fetched.accounts[key]?) ∨
      ∃ w, origin fetched.contextSlot (first ++ [call]) key = some w ∧ w.key = key ∧
        snapshot.accounts[key]? = w.value ∧
        (fetched.contextSlot < w.slot → .confirm w.slot ∈ first ++ [call])

/-- The slots above the context slot that a call releases are confirmed by one of the calls. -/
def ReleasesOwn (updater : StateUpdater) (calls : List (Call Key β)) (call : Call Key β) : Prop :=
  ∀ bound, call.bound? updater.confirmedSlot = some bound →
    ∀ slot ∈ updater.pending, updater.bootstrapSlot < slot → slot ≤ bound → .confirm slot ∈ calls

/-- Draining the queues leaves everything but accounts and queues alone. -/
theorem applyPendingThrough_fields (updater : StateUpdater) (slot : ℕ) :
    (updater.applyPendingThrough slot).activeYellowstoneUrl = updater.activeYellowstoneUrl ∧
      (updater.applyPendingThrough slot).confirmedSlot = updater.confirmedSlot ∧
      (updater.applyPendingThrough slot).recovering = updater.recovering := by
  rw [applyPendingThrough_eq]
  exact ⟨rfl, rfl, rfl⟩

/-- A call publishes exactly the snapshot named, and otherwise leaves the store alone. -/
theorem store_perform (val : β → Option Account) (state : StateUpdater × Store)
    (call : Call Key β) :
    (perform val state call).2 =
      (published? state call).elim state.2 fun snapshot =>
        state.2.publish state.1.activeYellowstoneUrl snapshot.slot snapshot.accounts := by
  cases call with
  | queue w => rfl
  | confirm s =>
    obtain ⟨hurl, -, hrecovering⟩ := applyPendingThrough_fields state.1 s
    change (confirm state.1 state.2 s).2.2 = _
    unfold confirm published?
    by_cases hs : s ≤ state.1.confirmedSlot
    · simp [hs]
    · cases hr : state.1.recovering <;> simp [hs, hr, hurl, hrecovering]
  | settle =>
    obtain ⟨hurl, hslot, -⟩ := applyPendingThrough_fields state.1 state.1.confirmedSlot
    change (finishRecovery state.1 state.2).2 = _
    simp [finishRecovery, published?, hurl, hslot]

/-- A published snapshot holds the accounts the updater is left with. -/
theorem accounts_published (val : β → Option Account) {state : StateUpdater × Store}
    {call : Call Key β} {snapshot : ServerSnapshot} (h : published? state call = some snapshot) :
    (perform val state call).1.accounts = snapshot.accounts := by
  cases call with
  | queue w => cases h
  | confirm s =>
    simp only [published?] at h
    split at h
    · cases h
    · next hs =>
      rw [not_or] at hs
      obtain rfl := Option.some.inj h
      change (confirm state.1 state.2 s).2.1.accounts = _
      rw [confirm, if_neg hs.1]
  | settle =>
    obtain rfl := Option.some.inj h
    rfl

/-- A published snapshot shows for each key the write it came from, or else the fetched entry. -/
theorem getElem?_published {url : String} {fetched : FetchedAltState} {store : Store}
    {first : List (Call Key (Option Account))} {call : Call Key (Option Account)}
    {snapshot : ServerSnapshot}
    (h : published? (replay id (fromFetchedAltState url fetched, store) first) call = some snapshot)
    (key : Key) :
    snapshot.accounts[key]? =
      (origin fetched.contextSlot (first ++ [call]) key).elim fetched.accounts[key]? Write.value := by
  have htracks := (tracks_start id url fetched).replay store (first ++ [call])
  rw [← accounts_published id h]
  have hrun : replay id (fromFetchedAltState url fetched, store) (first ++ [call]) =
      perform id (replay id (fromFetchedAltState url fetched, store) first) call :=
    List.foldl_concat ..
  rw [← hrun]
  exact htracks.accounts key

variable {val : β → Option Account} {base : Key → Option Account} {updater : StateUpdater}
  {j : Journal Key β}

/-- The updater releases only confirmed slots exactly when its journal does. -/
theorem Tracks.releasesOwn_iff (h : updater.Tracks val base j) (calls : List (Call Key β))
    (call : Call Key β) : updater.ReleasesOwn calls call ↔ j.ReleasesOwn calls call := by
  unfold ReleasesOwn Journal.ReleasesOwn
  rw [h.confirmedSlot, h.bootstrapSlot]
  constructor
  · intro hall bound hbound w hw
    exact hall bound hbound w.slot (h.pending.mem_iff.mpr ⟨w, hw, rfl⟩)
  · intro hall bound hbound slot hslot
    obtain ⟨w, hw, rfl⟩ := h.pending.mem_iff.mp hslot
    exact hall bound hbound w hw

/-- A slot with a queue is that of a write queued in the run. -/
theorem queued_of_mem_pending {url : String} {fetched : FetchedAltState} {store : Store}
    {calls : List (Call Key (Option Account))} {slot : ℕ}
    (h : slot ∈ (replay id (fromFetchedAltState url fetched, store) calls).1.pending) :
    ∃ w, .queue w ∈ calls ∧ w.slot = slot := by
  obtain ⟨w, hw, hslot⟩ :=
    ((tracks_start id url fetched).replay store calls).pending.mem_iff.mp h
  have hmem : w ∈ ofKey w.key ((Journal.start fetched.contextSlot).run calls).accepted :=
    mem_ofKey.mpr ⟨List.mem_append_right _ hw, rfl⟩
  rw [Journal.ofKey_accepted_run] at hmem
  exact ⟨w, mem_delivered.mp (mem_of_mem_admitted (mem_ofKey.mp hmem).1).1, hslot⟩

/-- In a run whose calls release only slots that were themselves confirmed, every published
snapshot shows fetched entries, writes of the context slot, and writes of slots whose own
confirmation was processed before the publication. -/
theorem serves_own_slots (url : String) (fetched : FetchedAltState) (store : Store)
    (calls : List (Call Key (Option Account)))
    (hreleases : ∀ first call rest, calls = first ++ call :: rest →
      (replay id (fromFetchedAltState url fetched, store) first).1.ReleasesOwn
        (first ++ [call]) call) :
    ServesOwnSlots url fetched store calls := by
  have htracks (first : List (Call Key (Option Account))) :=
    (tracks_start id url fetched).replay store first
  have hown := (Journal.ownConfirmed_run_iff fetched.contextSlot calls).mpr
    fun first call rest heq => ((htracks first).releasesOwn_iff _ call).mp
      (hreleases first call rest heq)
  intro first call rest snapshot heq hpublished key
  have hshown := getElem?_published hpublished key
  cases horigin : origin fetched.contextSlot (first ++ [call]) key with
  | none =>
    rw [horigin] at hshown
    exact Or.inl ⟨rfl, hshown⟩
  | some w =>
    rw [horigin] at hshown
    obtain ⟨happlied, hkey⟩ := mem_ofKey.mp (List.mem_of_getLast? horigin)
    refine Or.inr ⟨w, rfl, hkey, hshown, fun hslot => ?_⟩
    have hfloor : ((Journal.start fetched.contextSlot).run (first ++ [call])).floor =
        fetched.contextSlot :=
      Journal.floor_run _ _
    exact hown (first ++ [call]) rest (by simp [heq]) w happlied (hfloor.trans_lt hslot)

/-- A state fetched at slot 10 that holds no table. -/
def noTables : FetchedAltState := ⟨10, ∅⟩

/-- A table created in slot 11. -/
def createdInEleven : Write Key (Option Account) := ⟨.filled 1, 11, 1, some (.sample (.filled 1))⟩

/-- With slots 11 and 12 both confirmed, the table is published after its own slot. -/
theorem serves_own_slots_both :
    ServesOwnSlots "rpc" noTables Store.new
      [.settle, .queue createdInEleven, .confirm 11, .confirm 12] := by
  apply serves_own_slots
  intro first call rest heq bound hbound slot hslot _ _
  obtain ⟨w, hw, rfl⟩ := queued_of_mem_pending hslot
  have hw11 : w = createdInEleven := by
    have hmem := heq ▸ List.mem_append_left (call :: rest) hw
    simpa using hmem
  rw [hw11]
  rcases first with _ | ⟨a, _ | ⟨b, _ | ⟨c, _ | ⟨d, first⟩⟩⟩⟩
  · exact (List.not_mem_nil hw).elim
  · obtain ⟨-, rfl, -⟩ : .settle = a ∧ .queue createdInEleven = call ∧ _ := by simpa using heq
    cases hbound
  · obtain ⟨-, -, rfl, -⟩ : .settle = a ∧ .queue createdInEleven = b ∧ .confirm 11 = call ∧ _ := by
      simpa using heq
    exact List.mem_append_right _ List.mem_cons_self
  · obtain ⟨-, -, rfl, -⟩ : .settle = a ∧ .queue createdInEleven = b ∧ .confirm 11 = c ∧ _ := by
      simpa using heq
    simp [createdInEleven]
  · simp at heq

/-- The updater right before slot 12 is confirmed. -/
def skippingEleven : StateUpdater × Store :=
  replay id (fromFetchedAltState "rpc" noTables, Store.new) [.settle, .queue createdInEleven]

/-- Slot 11 is skipped: the confirmation of slot 12 publishes its table. -/
theorem skippedSlot_served :
    ¬ ServesOwnSlots "rpc" noTables Store.new [.settle, .queue createdInEleven, .confirm 12] := by
  intro h
  have hpublished : published? skippingEleven (.confirm 12 : Call Key (Option Account)) =
      some ⟨12, (skippingEleven.1.applyPendingThrough 12).accounts⟩ := by
    rw [published?, if_neg (by decide +kernel)]
  have horigin : origin 10 [.settle, .queue createdInEleven, .confirm 12] (.filled 1) =
      some createdInEleven := by
    decide +kernel
  rcases h [.settle, .queue createdInEleven] (.confirm 12) [] _ rfl hpublished (.filled 1) with
    ⟨hnone, -⟩ | ⟨w, hw, -, -, hown⟩
  · cases horigin.symm.trans hnone
  · obtain rfl := Option.some.inj (horigin.symm.trans hw)
    simpa [createdInEleven] using hown (by decide)

end AltCache.StateUpdater
