import AltCache.StateUpdater
import AltCache.Replay.Journal

/-!
# The state updater refines the replay journal

The updater keeps only each key's last version and per-slot queues of mutations. It tracks
a journal that remembers every write it accepted: the version map is the tag of the last
accepted write, the queues hold the staged writes, and the accounts map is the journal's
current state over the fetched one. Every updater operation is matched by the journal's
operation, including whether a write is accepted.
-/

namespace AltCache

open Std (ExtTreeMap)
open AltCache.Replay

variable {β : Type*}

/-- The mutation staged for a write whose value is read by `val`. -/
def toMutation (val : β → Option Account) (w : Write Key β) : Mutation := ⟨w.key, val w.value⟩

namespace StateUpdater

/-- The updater's state is the journal's, over the base accounts. -/
structure Tracks (val : β → Option Account) (base : Key → Option Account)
    (updater : StateUpdater) (j : Journal Key β) : Prop where
  bootstrapSlot : updater.bootstrapSlot = j.floor
  confirmedSlot : updater.confirmedSlot = j.confirmed
  accounts : ∀ k : Key, updater.accounts[k]? = j.current val base k
  pending : Buckets.Holds Write.slot (toMutation val) updater.pending j.staged
  versions : ∀ k : Key, updater.versions[k]? = (ofKey k j.accepted).getLast?.map Write.tag

variable {val : β → Option Account} {base : Key → Option Account} {updater : StateUpdater}
  {j : Journal Key β}

/-- A freshly fetched state tracks the empty journal. -/
theorem tracks_start (val : β → Option Account) (url : String) (fetched : FetchedAltState) :
    (fromFetchedAltState url fetched).Tracks val (fetched.accounts[·]?)
      (.start fetched.contextSlot) where
  bootstrapSlot := rfl
  confirmedSlot := rfl
  accounts _ := rfl
  pending := Buckets.holds_empty ..
  versions _ := ExtTreeMap.getElem?_empty

/-- The version filter rejects exactly what the journal does not admit. -/
theorem Tracks.queue_fst (h : updater.Tracks val base j) (w : Write Key β) :
    (updater.queue w.key w.slot w.version (val w.value)).1 =
      decide (Admissible j.floor j.accepted w) := by
  have hadm : Admissible j.floor j.accepted w ↔ ¬ (w.slot < updater.bootstrapSlot ∨
      (updater.versions[w.key]?).any
        (fun old => decide (toLex (w.slot, w.version) ≤ old)) = true) := by
    rw [h.bootstrapSlot, h.versions, not_or, not_lt, Admissible]
    apply and_congr_right
    intro _
    cases hlast : (ofKey w.key j.accepted).getLast? with
    | none =>
      have hnil := List.getLast?_eq_none_iff.mp hlast
      refine iff_of_true (fun a ha hak => ?_) (by simp)
      exact (List.not_mem_nil (hnil ▸ mem_ofKey.mpr ⟨ha, hak⟩)).elim
    | some v =>
      obtain ⟨hv, hvk⟩ := mem_ofKey.mp (List.mem_of_getLast? hlast)
      have hmax (a : Write Key β) (ha : a ∈ ofKey w.key j.accepted) : a.tag ≤ v.tag := by
        obtain ⟨init, hinit⟩ := List.getLast?_eq_some_iff.mp hlast
        have hinc := j.increasing w.key
        rw [hinit, List.pairwise_append] at hinc
        rw [hinit] at ha
        rcases List.mem_append.mp ha with ha | ha
        · exact (hinc.2.2 a ha v List.mem_cons_self).le
        · exact (congrArg Write.tag (List.mem_singleton.mp ha)).le
      change (∀ a ∈ j.accepted, a.key = w.key → a.tag < w.tag) ↔
        ¬ decide (w.tag ≤ v.tag) = true
      rw [decide_eq_true_eq, not_le]
      exact ⟨fun hall => hall v hv hvk,
        fun hlt a ha hak => (hmax a (mem_ofKey.mpr ⟨ha, hak⟩)).trans_lt hlt⟩
  unfold queue
  split
  · next hreject => exact (decide_eq_false fun hw => hadm.mp hw hreject).symm
  · next hreject => exact (decide_eq_true (hadm.mpr hreject)).symm

/-- Queueing a write keeps the updater in step with the journal. -/
theorem Tracks.queue (h : updater.Tracks val base j) (w : Write Key β) :
    (updater.queue w.key w.slot w.version (val w.value)).2.Tracks val base (j.queue w) := by
  have hfst := h.queue_fst w
  unfold StateUpdater.queue at hfst ⊢
  split at hfst
  · next hreject =>
    rw [if_pos hreject]
    rw [Journal.queue, dif_neg (of_decide_eq_false hfst.symm)]
    exact h
  · next hreject =>
    rw [if_neg hreject]
    have hadm := of_decide_eq_true hfst.symm
    refine ⟨?_, ?_, fun k => ?_, ?_, fun k => ?_⟩
    · rw [Journal.floor_queue]
      exact h.bootstrapSlot
    · rw [Journal.confirmed_queue]
      exact h.confirmedSlot
    · rw [Journal.queue, dif_pos hadm]
      exact h.accounts k
    · rw [Journal.queue, dif_pos hadm]
      exact h.pending.push w
    · rw [Journal.accepted_queue, if_pos hadm, ofKey_append, ofKey_singleton]
      change (updater.versions.insert w.key w.tag)[k]? = _
      rw [ExtTreeMap.getElem?_insert]
      by_cases hk : w.key = k
      · simp [hk]
      · simp [hk, h.versions k]

/-- Draining the queues up to a slot is the journal's advance to it. -/
theorem Tracks.advance (h : updater.Tracks val base j) {s : ℕ} (hs : j.confirmed ≤ s) :
    { updater.applyPendingThrough s with confirmedSlot := s }.Tracks val base (j.advance s hs) := by
  rw [applyPendingThrough_eq]
  refine ⟨h.bootstrapSlot, rfl, fun k => ?_, h.pending.dropThrough s, fun k => ?_⟩
  · have hreleased : ((updater.pending.through s).filter (·.key = k)) =
        ((ofKey k j.staged).filter (·.slot ≤ s)).map (toMutation val) := by
      rw [h.pending.through_eq, List.filter_map,
        ← Staging.ofKey_release (j.ofKey_staged_pairwise k)]
      rfl
    have hlatest : (j.advance s hs).latest k =
        (((ofKey k j.staged).filter (·.slot ≤ s)).getLast?).or (j.latest k) := by
      change (ofKey k (j.applied ++ bySlot Write.slot (j.staged.filter (·.slot ≤ s)))).getLast? = _
      rw [ofKey_append, Staging.ofKey_release (j.ofKey_staged_pairwise k), List.getLast?_append]
      rfl
    change (List.foldl applyMutation updater.accounts (updater.pending.through s))[k]? = _
    rw [getElem?_foldl_applyMutation, hreleased, h.accounts k, Staging.current, Staging.current,
      hlatest, List.getLast?_map]
    cases ((ofKey k j.staged).filter (·.slot ≤ s)).getLast? <;> rfl
  · rw [Journal.advance, j.ofKey_accepted_advance s hs k]
    exact h.versions k

/-- A confirmation keeps the updater in step with the journal. -/
theorem Tracks.confirm (h : updater.Tracks val base j) (store : Store) (s : ℕ) :
    (updater.confirm store s).2.1.Tracks val base (j.confirm s) := by
  unfold StateUpdater.confirm Journal.confirm
  rw [h.confirmedSlot]
  by_cases hs : s ≤ j.confirmed
  · rw [if_pos hs, dif_neg (not_lt.mpr hs)]
    exact h
  · rw [if_neg hs, dif_pos (not_le.mp hs)]
    exact h.advance (not_le.mp hs).le

/-- Finishing recovery settles the journal. -/
theorem Tracks.finishRecovery (h : updater.Tracks val base j) (store : Store) :
    (updater.finishRecovery store).1.Tracks val base j.settle := by
  have hadvance := h.advance (le_refl j.confirmed)
  have hconfirmed : (updater.applyPendingThrough j.confirmed).confirmedSlot = j.confirmed := by
    rw [applyPendingThrough_eq]
    exact h.confirmedSlot
  unfold StateUpdater.finishRecovery
  rw [h.confirmedSlot]
  exact ⟨hadvance.bootstrapSlot, hconfirmed, hadvance.accounts, hadvance.pending,
    hadvance.versions⟩

/-- Perform one replay call on an updater and its store. -/
def perform (val : β → Option Account) (state : StateUpdater × Store) :
    Call Key β → StateUpdater × Store
  | .queue w => ((state.1.queue w.key w.slot w.version (val w.value)).2, state.2)
  | .confirm s => (state.1.confirm state.2 s).2
  | .settle => state.1.finishRecovery state.2

/-- Perform replay calls in order. -/
def replay (val : β → Option Account) (state : StateUpdater × Store)
    (calls : List (Call Key β)) : StateUpdater × Store :=
  calls.foldl (perform val) state

/-- Reading a delivered value by `val` is delivering what `val` reads. -/
theorem perform_map (val : β → Option Account) (state : StateUpdater × Store)
    (call : Call Key β) : perform id state (call.map val) = perform val state call := by
  cases call <;> rfl

/-- Reading delivered values by `val` is delivering what `val` reads. -/
theorem replay_map (val : β → Option Account) (state : StateUpdater × Store)
    (calls : List (Call Key β)) :
    replay id state (calls.map (.map val)) = replay val state calls := by
  rw [replay, replay, List.foldl_map]
  simp only [perform_map]

/-- Every call is the journal's. -/
theorem Tracks.perform (h : updater.Tracks val base j) (store : Store) (call : Call Key β) :
    (perform val (updater, store) call).1.Tracks val base (j.call call) := by
  cases call with
  | queue w => exact h.queue w
  | confirm s => exact h.confirm store s
  | settle => exact h.finishRecovery store

/-- Every run of calls is the journal's. -/
theorem Tracks.replay (h : updater.Tracks val base j) (store : Store) (calls : List (Call Key β)) :
    (replay val (updater, store) calls).1.Tracks val base (j.run calls) := by
  induction calls using List.reverseRecOn with
  | nil => exact h
  | append_singleton calls call ih =>
    rw [StateUpdater.replay, List.foldl_concat, Journal.run_append, Journal.run_singleton]
    exact ih.perform _ call

/-- An update is in the updater: it is the version recorded for its key, and it is applied if
its slot is confirmed, else the last one staged for its key in its slot. -/
def Holds (updater : StateUpdater) (w : Write Key (Option Account)) : Prop :=
  updater.versions[w.key]? = some w.tag ∧
    if w.slot ≤ updater.confirmedSlot then updater.accounts[w.key]? = w.value
    else ((updater.pending.getD w.slot []).filter (·.key = w.key)).getLast? = some ⟨w.key, w.value⟩

/-- A last element that is selected is the last one selected. -/
theorem getLast?_filter_of_getLast? {γ : Type*} {l : List γ} {p : γ → Bool} {x : γ}
    (h : l.getLast? = some x) (hx : p x = true) : (l.filter p).getLast? = some x := by
  obtain ⟨init, rfl⟩ := List.getLast?_eq_some_iff.mp h
  simp [List.filter_append, hx]

/-- Once nothing confirmed is staged, the updater holds the last accepted update of each key. -/
theorem Tracks.holds {j : Journal Key (Option Account)} (h : updater.Tracks id base j)
    (hswept : j.Swept) {w : Write Key (Option Account)}
    (hlast : (ofKey w.key j.accepted).getLast? = some w) : updater.Holds w := by
  refine ⟨by rw [h.versions, hlast]; rfl, ?_⟩
  rw [h.confirmedSlot]
  split
  · next hconfirmed =>
    rw [h.accounts, Staging.current, Staging.latest, hswept.ofKey_applied,
      getLast?_filter_of_getLast? hlast (by simpa using hconfirmed)]
    rfl
  · next hconfirmed =>
    have hstaged : (ofKey w.key j.staged).getLast? = some w := by
      rw [Staging.accepted, ofKey_append, List.getLast?_append] at hlast
      cases hs : (ofKey w.key j.staged).getLast? with
      | some v => rwa [hs] at hlast
      | none =>
        rw [hs, Option.none_or] at hlast
        exact (hconfirmed (j.applied_le w (mem_ofKey.mp (List.mem_of_getLast? hlast)).1)).elim
    have hqueue : (updater.pending.getD w.slot []).filter (·.key = w.key) =
        ((ofKey w.key j.staged).filter (·.slot = w.slot)).map (toMutation id) := by
      rw [h.pending.queue, List.filter_map, ← ofKey_filter]
      rfl
    rw [hqueue, List.getLast?_map, getLast?_filter_of_getLast? hstaged (by simp)]
    rfl

/-- Once nothing confirmed is staged, the updater holds exactly the last accepted update of
each key. -/
theorem Tracks.holds_iff {j : Journal Key (Option Account)} (h : updater.Tracks id base j)
    (hswept : j.Swept) {w : Write Key (Option Account)} :
    updater.Holds w ↔ (ofKey w.key j.accepted).getLast? = some w := by
  refine ⟨?_, h.holds hswept⟩
  rintro ⟨hversion, hplaced⟩
  rw [h.versions, Option.map_eq_some_iff] at hversion
  obtain ⟨v, hlast, htag⟩ := hversion
  obtain ⟨-, hkey⟩ := mem_ofKey.mp (List.mem_of_getLast? hlast)
  obtain ⟨hslot, hver⟩ := Write.tag_eq_iff.mp htag
  obtain ⟨-, hv⟩ := h.holds hswept (hkey.symm ▸ hlast)
  rw [hkey, hslot] at hv
  have hvalue : v.value = w.value := by
    split at hv
    · next hconfirmed =>
      rw [if_pos hconfirmed] at hplaced
      exact hv.symm.trans hplaced
    · next hconfirmed =>
      rw [if_neg hconfirmed] at hplaced
      exact congrArg Mutation.account (Option.some.inj (hv.symm.trans hplaced))
  rw [hlast, Write.ext hkey hslot hver hvalue]

end StateUpdater

end AltCache
