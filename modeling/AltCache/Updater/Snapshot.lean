import AltCache.Replay.Ledger
import AltCache.StateUpdater.Convergence
import AltCache.Updater.Publication
import AltCache.Updater.Recovery

/-!
# Is the recovered snapshot one of the chain?

A recovery publishes at the larger of the fetch's context slot and the last buffered
confirmation. The content can still be ahead of that slot, where a page was read later, or
behind it, where the buffer stops between two writes of the context slot. And a store that
already stands at that slot keeps the snapshot it has.
-/

namespace AltCache

open AltCache.Replay
open AltCache.StateUpdater (FuzzyRead)

variable {α : Type*} {observe : Account → α}

/-- The buffered updates that a recovery applies. -/
def replayedUpdates (fetched : FetchedAltState) (buffered : List StateEvent) :
    List (Write Key (Option Account)) :=
  (delivered (calls buffered)).filter fun w =>
    fetched.contextSlot ≤ w.slot ∧ w.slot ≤ replayedSlot fetched buffered

/-- A key without a replayed update was read at its state of the published slot. -/
def PagesInStep (observe : Account → α) (chain : Chain Key (Option Account)) (page : Key → ℕ)
    (fetched : FetchedAltState) (buffered : List StateEvent) : Prop :=
  ∀ k, (∀ w ∈ replayedUpdates fetched buffered, w.key ≠ k) →
    chain.stateAt (Option.map observe) (page k) k =
      chain.stateAt (Option.map observe) (replayedSlot fetched buffered) k

/-- Where nothing above the context slot was confirmed, the buffered updates of a key in that
slot end with the key's state there. -/
def SlotFinished (observe : Account → α) (chain : Chain Key (Option Account))
    (fetched : FetchedAltState) (buffered : List StateEvent) : Prop :=
  replayedSlot fetched buffered = fetched.contextSlot → ∀ k,
    ∀ w ∈ newest k (replayedUpdates fetched buffered),
      w.value.map observe = chain.stateAt (Option.map observe) fetched.contextSlot k

/-- Once a slot above the context slot is confirmed in the buffer, a key's last replayed
update gives its state at the confirmed slot. -/
theorem newest_replayed_eq_stateAt {ledger : Ledger Key (Option Account)}
    {fetched : FetchedAltState} {a : ℕ} (ha : a ≤ fetched.contextSlot) {buffered : List StateEvent}
    {rest : List (Call Key (Option Account))}
    (hinitial : ledger.streamFrom a = calls buffered ++ rest)
    (hslot : fetched.contextSlot < replayedSlot fetched buffered) {k : Key}
    {w : Write Key (Option Account)} (hw : newest k (replayedUpdates fetched buffered) = some w) :
    w.value.map observe =
      ledger.chain.stateAt (Option.map observe) (replayedSlot fetched buffered) k := by
  have hconfirm : .confirm (replayedSlot fetched buffered) ∈ calls buffered :=
    (confirmedBy_eq_or_mem _ _).resolve_left hslot.ne'
  have hreceived {v : Write Key (Option Account)} (hv : v ∈ ledger.writes)
      (hc : fetched.contextSlot ≤ v.slot) (hs : v.slot ≤ replayedSlot fetched buffered) :
      v ∈ delivered (calls buffered) := by
    have hstreamed := Ledger.queue_mem_streamFrom.mpr ⟨hv, ha.trans hc⟩
    rw [hinitial, List.mem_append] at hstreamed
    refine mem_delivered.mpr (hstreamed.resolve_right fun hrest => ?_)
    have := Ledger.lt_of_confirm_mem hinitial hconfirm hrest
    omega
  have hexact : (newest k (replayedUpdates fetched buffered)).elim
      (ledger.chain.stateAt (Option.map observe) fetched.contextSlot k)
        (fun w => w.value.map observe) =
      ledger.chain.stateAt (Option.map observe) (replayedSlot fetched buffered) k := by
    refine Chain.replay_eq_stateAt le_rfl hslot.le (fun v hv => ?_)
      (fun v hv hk hc hs => ⟨v, hreceived hv hc.le hs, hk, hs, le_rfl⟩)
      (fun _ _ _ _ v hv hk hc => ⟨v, hreceived hv hc.ge (hc.trans_le hslot.le), hk,
        hc.trans_le hslot.le, le_rfl⟩)
    refine (Ledger.queue_mem_streamFrom.mp (?_ : .queue v ∈ ledger.streamFrom a)).1
    rw [hinitial]
    exact List.mem_append_left _ (mem_delivered.mp hv)
  rw [← hexact, hw]
  rfl

/-- What a recovery replays a fuzzy fetch and a gapless buffer to is the chain state of the
slot it publishes at exactly when no page ran ahead of it and the buffer does not stop inside
the context slot. -/
theorem recovered_exact_iff {ledger : Ledger Key (Option Account)} {fetched : FetchedAltState}
    {page : Key → ℕ} (hfetched : FuzzyRead observe ledger.chain fetched page) {a : ℕ}
    (ha : a ≤ fetched.contextSlot) {buffered : List StateEvent}
    {rest : List (Call Key (Option Account))}
    (hinitial : ledger.streamFrom a = calls buffered ++ rest) (url : String) (store : Store) :
    (∀ k : Key, ((recoverAltState url fetched buffered store).1.accounts[k]?).map observe =
        ledger.chain.stateAt (Option.map observe) (replayedSlot fetched buffered) k) ↔
      PagesInStep observe ledger.chain page fetched buffered ∧
        SlotFinished observe ledger.chain fetched buffered := by
  have hstream : ledger.streamFrom a = [] ++ (calls buffered ++ rest) := hinitial
  have haccount (k : Key) :
      ((recoverAltState url fetched buffered store).1.accounts[k]?).map observe =
        (newest k (replayedUpdates fetched buffered)).elim
          (ledger.chain.stateAt (Option.map observe) (page k) k) fun w => w.value.map observe := by
    rw [getElem?_recoverAltState, replayedAccount_eq_newest, ← hfetched.accounts k]
    · change (Option.elim (newest k (replayedUpdates fetched buffered)) _ Write.value).map _ = _
      cases newest k (replayedUpdates fetched buffered) with
      | none => rfl
      | some w => rfl
    · exact ((Ledger.pairwise_delivered hstream).filter _).imp fun h hlt => hlt.trans_le h.1
  constructor
  · intro hexact
    refine ⟨fun k hnone => ?_, fun hs k w hw => ?_⟩
    · rw [← hexact k, haccount k, newest_eq_none.mpr hnone]
      rfl
    · rw [← hs, ← hexact k, haccount k, Option.mem_def.mp hw]
      rfl
  · rintro ⟨hpages, hfinished⟩ k
    rw [haccount k]
    cases hnew : newest k (replayedUpdates fetched buffered) with
    | none => exact hpages k (newest_eq_none.mp hnew)
    | some w =>
      rcases (le_confirmedBy fetched.contextSlot (calls buffered)).eq_or_lt with hs | hs
      · have hs : replayedSlot fetched buffered = fetched.contextSlot := hs.symm
        exact (hfinished hs k w hnew).trans (by rw [hs])
      · exact newest_replayed_eq_stateAt ha hinitial hs hnew

/-- What is read after a recovery from a fuzzy fetch and a gapless buffer is the chain state of
the published slot exactly when no page ran ahead of it and the buffer does not stop inside the
context slot; or, where the store stood at that slot already, when its old snapshot is that
state. -/
theorem published_snapshot_exact_iff {ledger : Ledger Key (Option Account)}
    {fetched : FetchedAltState} {page : Key → ℕ}
    (hfetched : FuzzyRead observe ledger.chain fetched page) {a : ℕ}
    (ha : a ≤ fetched.contextSlot) {buffered : List StateEvent}
    {rest : List (Call Key (Option Account))}
    (hinitial : ledger.streamFrom a = calls buffered ++ rest) (url : String) (store : Store) :
    ∃ snapshot, (recoverAltState url fetched buffered store).2.readSnapshot = .ok snapshot ∧
      snapshot.slot = replayedSlot fetched buffered ∧
      ((∀ k : Key, (snapshot.accounts[k]?).map observe =
          ledger.chain.stateAt (Option.map observe) snapshot.slot k) ↔
        (¬ store.Keeps (replayedSlot fetched buffered) ∧
          PagesInStep observe ledger.chain page fetched buffered ∧
          SlotFinished observe ledger.chain fetched buffered) ∨
        (store.Keeps (replayedSlot fetched buffered) ∧
          ∀ k : Key, (store.current.accounts[k]?).map observe =
            ledger.chain.stateAt (Option.map observe) store.current.slot k)) := by
  have hrecovered := recovered_exact_iff hfetched ha hinitial url store
  rw [recoverAltState_store, confirmedSlot_recoverAltState]
  by_cases hkeeps : store.Keeps (replayedSlot fetched buffered)
  · refine ⟨_, Store.readSnapshot_publish_eq .., rfl, ?_⟩
    simp only [Store.published, hkeeps, hkeeps.1, not_true_eq_false, false_and, true_and, false_or,
      if_true]
  · refine ⟨_, Store.readSnapshot_publish_eq .., rfl, ?_⟩
    simp only [Store.published, hkeeps, not_false_eq_true, true_and, false_and, or_false, if_false]
    exact hrecovered

/-- An empty slot 5, and a table created in slot 6. -/
def lateTable : Ledger Key (Option Account) :=
  .pair (.empty 5) (.single ⟨.filled 1, 6, 1, some (.sample (.filled 1))⟩) (by decide)

/-- A fetch whose first page was read at slot 5 and whose page with the table at slot 6. -/
def lateTableFetch : FetchedAltState where
  contextSlot := 5
  accounts := (∅ : Accounts).insert (.filled 1) (Account.sample (.filled 1)).received

/-- The fetch reads the table as of slot 6. -/
theorem lateTableFetch_fuzzyRead :
    FuzzyRead Account.received lateTable.chain lateTableFetch fun _ => 6 where
  le_page _ := by decide
  accounts k := by
    by_cases hk : Key.filled 1 = k
    · subst hk
      decide +kernel
    · simp [lateTableFetch, lateTable, Ledger.chain, Chain.stateAt, Chain.newestAt,
        newest, ofKey, hk]

/-- A buffer that goes on to the end of slot 6. -/
def bufferedToSix : List StateEvent :=
  [.confirmedSlot 5, .account (.filled 1) 6 1 (some (.sample (.filled 1))), .confirmedSlot 6]

/-- With it the fetch is served exactly, as slot 6. -/
theorem lateTable_exact_at_six :
    ∃ snapshot,
      (recoverAltState "rpc" lateTableFetch bufferedToSix Store.new).2.readSnapshot =
        .ok snapshot ∧
      snapshot.slot = 6 ∧
      ∀ k : Key, (snapshot.accounts[k]?).map Account.received =
        lateTable.chain.stateAt (Option.map Account.received) snapshot.slot k := by
  have hinitial : lateTable.streamFrom 5 = calls bufferedToSix ++ [] := rfl
  obtain ⟨snapshot, hread, hslot, hiff⟩ :=
    published_snapshot_exact_iff lateTableFetch_fuzzyRead le_rfl hinitial "rpc" Store.new
  refine ⟨snapshot, hread, hslot,
    hiff.mpr (Or.inl ⟨fun hkeeps => ?_, fun k _ => rfl, fun hstop => ?_⟩)⟩
  · exact absurd hkeeps.1 (by decide)
  · exact absurd hstop (by decide)

/-- The snapshot served as slot 5 contains the table of slot 6. -/
theorem lateTable_published_ahead :
    FuzzyRead Account.received lateTable.chain lateTableFetch (fun _ => 6) ∧
      calls [.confirmedSlot 5] <+: lateTable.streamFrom 5 ∧
      ∃ snapshot,
        (recoverAltState "rpc" lateTableFetch [.confirmedSlot 5] Store.new).2.readSnapshot =
          .ok snapshot ∧
        snapshot.slot = 5 ∧
        ¬ ∀ k : Key, (snapshot.accounts[k]?).map Account.received =
          lateTable.chain.stateAt (Option.map Account.received) snapshot.slot k := by
  refine ⟨lateTableFetch_fuzzyRead, ⟨_, rfl⟩, _, rfl, rfl, fun hexact => ?_⟩
  exact absurd (hexact (.filled 1)) (by decide +kernel)

end AltCache
