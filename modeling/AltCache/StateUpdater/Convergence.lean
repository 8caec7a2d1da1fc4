import AltCache.StateUpdater.Refinement
import AltCache.UiAccount

/-!
# Fuzzy snapshots converge

The pages of a full fetch are read one after another, so the fetched state mixes chain
states of several slots, none below the context slot of the first page. Replaying every
later write over it nevertheless ends at the exact chain state, in whatever respect the pages
were read exactly.
-/

namespace AltCache.StateUpdater

open AltCache.Replay

/-- A fetched state whose keys were each read from the chain at the slot of their page. What is
observed of an account may be the account itself, or what a fetch can tell of it. -/
structure FuzzyRead {α : Type*} (observe : Account → α) (chain : Chain Key (Option Account))
    (fetched : FetchedAltState) (page : Key → ℕ) : Prop where
  le_page : ∀ k, fetched.contextSlot ≤ page k
  accounts : ∀ k : Key, (fetched.accounts[k]?).map observe =
    chain.stateAt (Option.map observe) (page k) k

/-- Calls that deliver what replay from slot `c` to slot `s` needs: writes of the chain only,
all of them above `c` up to `s`, of slot `c` none or the last of each key, and no write of a
key above `s` before one of it up to `s`. -/
structure Delivers (chain : Chain Key (Option Account)) (c s : ℕ)
    (calls : List (Call Key (Option Account))) : Prop where
  from_chain : ∀ w ∈ delivered calls, w ∈ chain.writes
  complete : ∀ w ∈ chain.writes, c < w.slot → w.slot ≤ s → w ∈ delivered calls
  boundary : ∀ k, (∀ w ∈ delivered calls, w.key = k → w.slot ≠ c) ∨
    ∃ u ∈ delivered calls, u.key = k ∧ u.slot = c ∧
      ∀ w ∈ chain.writes, w.key = k → w.slot = c → w.tag ≤ u.tag
  arrival : ∀ k, (ofKey k (delivered calls)).Pairwise fun a b => s < a.slot → s < b.slot

variable {α : Type*} {observe : Account → α} {chain : Chain Key (Option Account)}
  {fetched : FetchedAltState} {page : Key → ℕ} {s : ℕ} {calls : List (Call Key (Option Account))}

/-- Once nothing confirmed is staged, the replayed journal is at the chain state. -/
theorem Delivers.current_run (h : Delivers chain fetched.contextSlot s calls)
    (hfetched : FuzzyRead observe chain fetched page) (hpage : ∀ k, page k ≤ s)
    (hswept : ((Journal.start fetched.contextSlot).run calls).Swept)
    (hs : confirmedBy fetched.contextSlot calls = s) (k : Key) :
    (((Journal.start fetched.contextSlot).run calls).current id (fetched.accounts[·]?) k).map
        observe = chain.stateAt (Option.map observe) s k := by
  have hcs : fetched.contextSlot ≤ s := (hfetched.le_page k).trans (hpage k)
  rw [Staging.map_current]
  refine Journal.current_run_eq_stateAt hswept hs (h.arrival k) (hfetched.accounts k)
    (hfetched.le_page k) (hpage k) h.from_chain ?_ ?_
  · exact fun w hw hk hc hws => ⟨w, h.complete w hw hc hws, hk, hws, le_rfl⟩
  · intro v hv hvk hvc w hw hwk hwc
    obtain ⟨u, hu, huk, huc, hmax⟩ := (h.boundary k).resolve_left fun hnone => hnone v hv hvk hvc
    exact ⟨u, hu, huk, huc.trans_le hcs, hmax w hw hwk hwc⟩

/-- Delivering a call that brings no write delivers the same writes. -/
theorem Delivers.concat (h : Delivers chain fetched.contextSlot s calls)
    (call : Call Key (Option Account)) (hcall : call.write? = none) :
    Delivers chain fetched.contextSlot s (calls ++ [call]) := by
  have hsame : delivered (calls ++ [call]) = delivered calls := by
    simp [delivered, hcall]
  obtain ⟨hfrom, hall, hboundary, harrival⟩ := h
  exact ⟨hsame ▸ hfrom, hsame ▸ hall, hsame ▸ hboundary, hsame ▸ harrival⟩

/-- Replay over a fuzzy snapshot converges to the exact chain state: right after the
confirmation of `s` takes effect, and right after recovery finishes with `s` confirmed, the
accounts are the chain state at `s`. -/
theorem replay_converges (hfetched : FuzzyRead observe chain fetched page) (hpage : ∀ k, page k ≤ s)
    (hcalls : Delivers chain fetched.contextSlot s calls) (url : String) (store : Store) :
    let state := replay id (fromFetchedAltState url fetched, store) calls
    ((state.1.confirm state.2 s).1 = true →
      ∀ k : Key, ((state.1.confirm state.2 s).2.1.accounts[k]?).map observe =
        chain.stateAt (Option.map observe) s k) ∧
    (state.1.confirmedSlot = s →
      ∀ k : Key, ((state.1.finishRecovery state.2).1.accounts[k]?).map observe =
        chain.stateAt (Option.map observe) s k) := by
  intro state
  have hrun (call : Call Key (Option Account)) (k : Key) :
      (perform id state call).1.accounts[k]? =
        ((Journal.start fetched.contextSlot).run (calls ++ [call])).current id
          (fetched.accounts[·]?) k := by
    rw [show perform id state call = replay id (fromFetchedAltState url fetched, store)
      (calls ++ [call]) from (List.foldl_concat ..).symm]
    exact ((tracks_start id url fetched).replay store (calls ++ [call])).accounts k
  have hslot : state.1.confirmedSlot = confirmedBy fetched.contextSlot calls :=
    ((tracks_start id url fetched).replay store calls).confirmedSlot.trans
      (Journal.confirmed_run _ calls)
  constructor
  · intro hconfirm k
    have hlt : confirmedBy fetched.contextSlot calls < s := by
      rw [← hslot]
      unfold confirm at hconfirm
      split at hconfirm
      · simp at hconfirm
      · next hnot => exact not_le.mp hnot
    refine (congrArg (Option.map observe) (hrun (.confirm s) k)).trans
      ((hcalls.concat (.confirm s) rfl).current_run hfetched hpage
        (Journal.swept_run_confirm _ calls hlt) ?_ k)
    rw [confirmedBy_append]
    exact max_eq_right hlt.le
  · intro hs k
    refine (congrArg (Option.map observe) (hrun .settle k)).trans
      ((hcalls.concat .settle rfl).current_run hfetched hpage
        (Journal.swept_run_settle _ calls) ?_ k)
    rw [confirmedBy_append]
    exact hslot.symm.trans hs

/-- A table created at slot 5 and closed at slot 7. -/
def closedTable : Chain Key (Option Account) where
  writes :=
    [⟨.filled 1, 5, 1, some (.sample (.filled 1))⟩, ⟨.filled 1, 7, 2, none⟩]
  unique := by decide +kernel

/-- The table as a fetch that began at slot 4 read it at slot 6. -/
def closedTableFetch : FetchedAltState where
  contextSlot := 4
  accounts := (∅ : Accounts).insert (.filled 1) (Account.sample (.filled 1)).received

/-- The fetched table is the chain's at slot 6, without the version of its last write. -/
theorem closedTableFetch_fuzzyRead :
    FuzzyRead Account.received closedTable closedTableFetch fun _ => 6 where
  le_page _ := by decide
  accounts k := by
    by_cases hk : Key.filled 1 = k
    · subst hk
      decide +kernel
    · simp [closedTableFetch, closedTable, Chain.stateAt, Chain.newestAt, newest, ofKey, hk]

/-- The updater after the fetch and both writes. -/
def closedTableReplay : StateUpdater × Store :=
  replay id (fromFetchedAltState "rpc" closedTableFetch, Store.new)
    (closedTable.writes.map .queue)

/-- Replay forgets the table once its closure is confirmed. -/
theorem replay_converges_closedTable :
    ((closedTableReplay.1.confirm closedTableReplay.2 7).2.1.accounts[Key.filled 1]?).map
        Account.received = closedTable.stateAt (Option.map Account.received) 7 (.filled 1) := by
  have hslots : ∀ w ∈ closedTable.writes, w.slot ≠ 4 ∧ w.slot ≤ 7 := by decide +kernel
  refine (replay_converges closedTableFetch_fuzzyRead (fun _ => by decide) ?_ "rpc" Store.new).1
    (by decide +kernel) (.filled 1)
  refine ⟨fun w hw => hw, fun w hw _ _ => hw, fun k => Or.inl fun w hw _ => (hslots w hw).1,
    fun k => List.pairwise_of_forall_mem_list fun a ha _ _ hlt => ?_⟩
  exact absurd hlt (not_lt.mpr (hslots a (mem_ofKey.mp ha).1).2)

end AltCache.StateUpdater
