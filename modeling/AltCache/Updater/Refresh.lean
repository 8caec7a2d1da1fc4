import AltCache.Updater.Recovery
import AltCache.Updater.Steps

/-!
# What survives a background refresh

A refresh replaces the live updater by a freshly fetched one into which only the events
buffered since the refresh began are replayed. An update the live updater accepted above
the fetched context slot therefore survives exactly if it arrived after the refresh began.
-/

namespace AltCache

open AltCache.Replay

/-- The update an event brings, if the updater accepts it. -/
def StateEvent.accepted (updater : StateUpdater) :
    StateEvent → List (Write Key (Option Account))
  | .account key slot writeVersion value =>
    if (updater.queue key slot writeVersion value).1 then [⟨key, slot, writeVersion, value⟩] else []
  | .confirmedSlot _ => []

/-- The updates an updater accepts while it applies events, in order. -/
def acceptedUpdates : List StateEvent → StateUpdater → Store → List (Write Key (Option Account))
  | [], _, _ => []
  | event :: events, updater, store =>
    event.accepted updater ++
      acceptedUpdates events (applyStateEvent event updater store).1
        (applyStateEvent event updater store).2

/-- The updater accepts what the journal admits. -/
theorem ofKey_acceptedUpdates {base : Key → Option Account} {updater : StateUpdater}
    {j : Journal Key (Option Account)} (h : updater.Tracks id base j) (events : List StateEvent)
    (store : Store) (k : Key) :
    ofKey k (j.run (calls events)).accepted =
      ofKey k j.accepted ++ ofKey k (acceptedUpdates events updater store) := by
  induction events generalizing updater j store with
  | nil => simp [acceptedUpdates]
  | cons event events ih =>
    have hstep := h.perform store event.call
    rw [← applyStateEvent_eq_perform] at hstep
    have hcall : ofKey k (j.call event.call).accepted =
        ofKey k j.accepted ++ ofKey k (event.accepted updater) := by
      cases event with
      | account key slot version value =>
        have hfst := h.queue_fst ⟨key, slot, version, value⟩
        change (updater.queue key slot version value).1 = _ at hfst
        change ofKey k (j.queue ⟨key, slot, version, value⟩).accepted = _
        rw [Journal.accepted_queue, StateEvent.accepted, hfst]
        split <;> simp_all
      | confirmedSlot slot =>
        change ofKey k (j.confirm slot).accepted = _
        rw [Journal.ofKey_accepted_confirm, StateEvent.accepted, ofKey_nil, List.append_nil]
    rw [calls, List.map_cons, Journal.run_cons, ← calls, ih hstep, hcall, acceptedUpdates,
      ofKey_append, List.append_assoc]

/-- A buffer with room for all events holds them all. -/
theorem bufferRefreshEvent_foldl (events : List StateEvent) (capacity minimum : ℕ)
    (hfits : events.length ≤ capacity) :
    events.foldl (fun refresh event => bufferRefreshEvent refresh event capacity)
      (some (.start minimum)) = some ⟨minimum, events⟩ := by
  induction events using List.reverseRecOn with
  | nil => rfl
  | append_singleton events event ih =>
    rw [List.length_append, List.length_singleton] at hfits
    rw [List.foldl_concat, ih (by omega)]
    simp [bufferRefreshEvent, RefreshInProgress.buffer, Nat.lt_of_succ_le hfits, Except.toOption]

/-- How a live updater came about until a refresh completes: what it recovered from, and the
events it applied before and after the refresh began. -/
structure RefreshHistory where
  url : String
  store : Store
  bootstrap : FetchedAltState
  replayed : List StateEvent
  before : List StateEvent
  during : List StateEvent

namespace RefreshHistory

/-- The live updater when it was installed. -/
def recovered (history : RefreshHistory) : StateUpdater × Store :=
  recoverAltState history.url history.bootstrap history.replayed history.store

/-- The live updater when the refresh began. -/
def begun (history : RefreshHistory) : StateUpdater × Store :=
  applyStateEvents history.before history.recovered.1 history.recovered.2

/-- The live updater when the refresh completed. -/
def live (history : RefreshHistory) : StateUpdater × Store :=
  applyStateEvents history.during history.begun.1 history.begun.2

/-- Everything the live updater accepted. -/
def accepted (history : RefreshHistory) : List (Write Key (Option Account)) :=
  acceptedUpdates history.replayed (.fromFetchedAltState history.url history.bootstrap)
      history.store ++
    acceptedUpdates (history.before ++ history.during) history.recovered.1 history.recovered.2

/-- The refresh when it completed. -/
def refresh (history : RefreshHistory) (capacity : ℕ) : Option RefreshInProgress :=
  history.during.foldl (fun refresh event => bufferRefreshEvent refresh event capacity)
    (some (.start history.begun.1.confirmedSlot))

/-- The updater after the refreshed state was installed. -/
def replacement (history : RefreshHistory) (capacity : ℕ) (fetched : FetchedAltState) :
    StateUpdater :=
  (installRefreshedAltState (.ok fetched) (history.refresh capacity) history.live.1
    history.live.2 history.url).1

/-- All events the live updater applied. -/
def events (history : RefreshHistory) : List StateEvent :=
  history.replayed ++ (history.before ++ history.during)

/-- The accepted updates of a key are those admitted from the events. -/
theorem ofKey_accepted (history : RefreshHistory) (k : Key) :
    ofKey k history.accepted =
      ofKey k (admitted history.bootstrap.contextSlot (delivered (calls history.events))) := by
  have hfresh := StateUpdater.tracks_start id history.url history.bootstrap
  have hrecovered := recoverAltState_tracks history.url history.bootstrap history.replayed
    history.store
  have hreplayed := ofKey_acceptedUpdates hfresh history.replayed history.store k
  have hlive := ofKey_acceptedUpdates hrecovered (history.before ++ history.during)
    history.recovered.2 k
  simp only [← Journal.run_append, Journal.ofKey_accepted_run, delivered_append, delivered_settle,
    List.append_nil] at hreplayed hlive
  rw [events, calls_append, delivered_append, hlive, hreplayed, accepted, ofKey_append]
  rfl

/-- An update applied while the refresh ran is matched by an accepted one at least as new. -/
theorem exists_accepted_ge (history : RefreshHistory) {u : Write Key (Option Account)}
    (hu : u ∈ delivered (calls history.during)) (hslot : history.bootstrap.contextSlot ≤ u.slot) :
    ∃ v ∈ history.accepted, v.key = u.key ∧ u.tag ≤ v.tag := by
  have hevents : u ∈ delivered (calls history.events) := by
    simp only [events, calls_append, delivered_append]
    exact List.mem_append_right _ (List.mem_append_right _ hu)
  obtain ⟨v, hv, hkey, htag⟩ := exists_admitted_ge hevents hslot
  have hmem := mem_ofKey.mpr ⟨hv, hkey⟩
  rw [← ofKey_accepted] at hmem
  exact ⟨v, (mem_ofKey.mp hmem).1, hkey, htag⟩

/-- The live updater never falls behind the slot it was fetched at. -/
theorem bootstrap_le_begun (history : RefreshHistory) :
    history.bootstrap.contextSlot ≤ history.begun.1.confirmedSlot := by
  have hbegun := (recoverAltState_tracks history.url history.bootstrap history.replayed
    history.store).replay history.recovered.2 (calls history.before)
  rw [begun, applyStateEvents_eq_replay]
  refine le_trans ?_ hbegun.confirmedSlot.ge
  rw [← Journal.run_append, Journal.confirmed_run]
  exact le_confirmedBy _ _

/-- A replacement holds the newest update the live updater accepted above the fetched context
slot exactly when the first update with its key and tag that arrived after the refresh began
is that one. -/
theorem replacement_holds_iff (history : RefreshHistory) {capacity : ℕ}
    (hfits : history.during.length ≤ capacity) {fetched : FetchedAltState}
    (hslot : history.begun.1.confirmedSlot ≤ fetched.contextSlot)
    {w : Write Key (Option Account)}
    (hnewest : newest w.key (history.accepted.filter (fetched.contextSlot < ·.slot)) = some w) :
    (history.replacement capacity fetched).Holds w ↔
      (delivered (calls history.during)).find? (fun v => v.key = w.key ∧ v.tag = w.tag) =
        some w := by
  have hrefresh : history.refresh capacity = some ⟨history.begun.1.confirmedSlot, history.during⟩ :=
    bufferRefreshEvent_foldl _ _ _ hfits
  have htracks := recoverAltState_tracks history.url fetched history.during history.live.2
  have hlast : (history.replacement capacity fetched).Holds w ↔
      (ofKey w.key (admitted fetched.contextSlot (delivered (calls history.during)))).getLast? =
        some w := by
    have hholds := htracks.holds_iff (Journal.swept_run_settle _ _) (w := w)
    rw [Journal.ofKey_accepted_run, delivered_append, delivered_settle, List.append_nil] at hholds
    simpa only [replacement, hrefresh, installRefreshedAltState] using hholds
  rw [hlast]
  constructor
  · intro h
    exact find?_of_mem_admitted (mem_ofKey.mp (List.mem_of_getLast? h)).1
  · intro hfound
    have hw := List.mem_of_find?_eq_some hfound
    obtain ⟨hwaccepted, -, hwmax⟩ := newest_eq_some hnewest
    have hwslot := of_decide_eq_true (List.mem_filter.mp hwaccepted).2
    have hwmem : w ∈ (delivered (calls history.during)).filter (fetched.contextSlot ≤ ·.slot) :=
      List.mem_filter.mpr ⟨hw, by simpa using hwslot.le⟩
    cases hnew : newest w.key
        ((delivered (calls history.during)).filter (fetched.contextSlot ≤ ·.slot)) with
    | none => exact (newest_eq_none.mp hnew w hwmem rfl).elim
    | some u =>
      obtain ⟨hu, hukey, humax⟩ := newest_eq_some hnew
      obtain ⟨hu, huslot⟩ := List.mem_filter.mp hu
      have hdominated : u.tag ≤ w.tag := by
        rcases (of_decide_eq_true huslot).eq_or_lt with hboundary | habove
        · exact (Write.tag_lt_of_slot_lt (hboundary ▸ hwslot)).le
        · obtain ⟨v, hv, hvkey, htag⟩ := history.exists_accepted_ge hu
            (history.bootstrap_le_begun.trans (hslot.trans habove.le))
          have hvslot := habove.trans_le (Write.slot_le_of_tag_le htag)
          exact htag.trans (hwmax v (List.mem_filter.mpr ⟨hv, by simpa using hvslot⟩)
            (hvkey.trans hukey))
      rw [← getLast?_ofKey_admitted] at hnew
      have hfirst := find?_of_mem_admitted (mem_ofKey.mp (List.mem_of_getLast? hnew)).1
      rw [hukey, le_antisymm hdominated (humax w hwmem rfl), hfound] at hfirst
      rw [hnew, hfirst]

/-- A table created in slot 7 before a refresh begins, confirmed while it runs. -/
def lostUpdate : RefreshHistory where
  url := "rpc"
  store := .new
  bootstrap := ⟨5, ∅⟩
  replayed := []
  before := [.account (.filled 1) 7 1 (some (.sample (.filled 1)))]
  during := [.confirmedSlot 7]

/-- A refresh fetched at slot 6 drops the table although slot 7 is confirmed. -/
theorem lostUpdate_not_held :
    lostUpdate.begun.1.confirmedSlot ≤ 6 ∧
      newest (Key.filled 1) (lostUpdate.accepted.filter (6 < ·.slot)) =
        some ⟨.filled 1, 7, 1, some (.sample (.filled 1))⟩ ∧
      (lostUpdate.replacement 8 ⟨6, ∅⟩).confirmedSlot = 7 ∧
      (lostUpdate.replacement 8 ⟨6, ∅⟩).accounts[Key.filled 1]? = none ∧
      ¬ (lostUpdate.replacement 8 ⟨6, ∅⟩).Holds
        ⟨.filled 1, 7, 1, some (.sample (.filled 1))⟩ :=
  ⟨by decide +kernel, by decide +kernel, by decide +kernel, by decide +kernel,
    fun h => absurd h.1 (by decide +kernel)⟩

/-- The same update arriving after the refresh began. -/
def keptUpdate : RefreshHistory :=
  { lostUpdate with before := [], during := lostUpdate.before ++ lostUpdate.during }

/-- A refresh keeps the table that arrived after it began. -/
theorem keptUpdate_held :
    (keptUpdate.replacement 8 ⟨6, ∅⟩).Holds ⟨.filled 1, 7, 1, some (.sample (.filled 1))⟩ :=
  (keptUpdate.replacement_holds_iff (by decide) (by decide +kernel) (by decide +kernel)).mpr
    (by decide +kernel)

end RefreshHistory

/-- The updater after an event does not depend on the store. -/
theorem applyStateEvent_fst (event : StateEvent) (updater : StateUpdater) (store store' : Store) :
    (applyStateEvent event updater store).1 = (applyStateEvent event updater store').1 := by
  cases event with
  | account key slot version account => rfl
  | confirmedSlot slot =>
    unfold applyStateEvent StateUpdater.confirm
    dsimp only
    split <;> rfl

namespace UpdaterService

/-- The served updater has such a history, which a running refresh has followed. -/
def Descends (service : UpdaterService) : Prop :=
  ∀ url live refresh, service.phase = .serving url live refresh →
    ∃ history : RefreshHistory, history.url = url ∧ history.live.1 = live ∧
      ∀ running, refresh = some running →
        running = ⟨history.begun.1.confirmedSlot, history.during⟩

/-- A wake-up extends the history of the served updater or starts a new one. -/
theorem descends_step {deserialize : Deserialize} {service : UpdaterService}
    (h : service.Descends) (input : Input) : (service.step deserialize input).Descends := by
  intro url live refresh hphase
  have hserved := served_step hphase
  generalize (service.step deserialize input).store = store at hserved
  cases hserved with
  | idle hserving => exact h _ _ _ hserving
  | @due _ running hserving =>
    obtain ⟨history, hurl, hlive, hrunning⟩ := h _ _ _ hserving
    cases running with
    | some running => exact ⟨history, hurl, hlive, hrunning⟩
    | none =>
      refine ⟨{ history with before := history.before ++ history.during, during := [] }, hurl,
        ?_, ?_⟩
      · rw [← hlive]
        simp [RefreshHistory.live, RefreshHistory.begun, RefreshHistory.recovered,
          applyStateEvents, List.foldl_append]
      · rintro running ⟨⟩
        rw [← hlive]
        simp [RefreshHistory.live, RefreshHistory.begun, RefreshHistory.recovered,
          applyStateEvents, List.foldl_append, RefreshInProgress.start]
  | failed hserving =>
    obtain ⟨history, hurl, hlive, -⟩ := h _ _ _ hserving
    exact ⟨history, hurl, hlive, fun _ h => by cases h⟩
  | installed hserving =>
    exact ⟨⟨url, service.store, _, _, [], []⟩, rfl, rfl, fun _ h => by cases h⟩
  | recovered hbootstrapping =>
    exact ⟨⟨url, service.store, _, _, [], []⟩, rfl, rfl, fun _ h => by cases h⟩
  | @applied event stateEvent _ running hserving =>
    obtain ⟨history, hurl, hlive, hrunning⟩ := h _ _ _ hserving
    refine ⟨{ history with during := history.during ++ [stateEvent] }, hurl, ?_, ?_⟩
    · rw [← hlive, applyStateEvent_fst stateEvent _ service.store history.live.2]
      simp only [RefreshHistory.live, applyStateEvents, List.foldl_concat]
      rfl
    · intro running' hrunning'
      obtain ⟨active, hactive, hbuffered⟩ := Option.bind_eq_some_iff.mp hrunning'
      rw [hrunning active hactive, RefreshInProgress.buffer] at hbuffered
      split at hbuffered
      · exact (Option.some.inj hbuffered).symm
      · cases hbuffered

/-- In every run the served updater has such a history. -/
theorem descends_run (deserialize : Deserialize) (capacity : ℕ) (urls : List String)
    (store : Store) (inputs : List Input) :
    ((start capacity urls store).run deserialize inputs).Descends := by
  induction inputs using List.reverseRecOn with
  | nil => exact fun url updater refresh h => (restart_not_serving _ h).elim
  | append_singleton inputs input ih =>
    rw [run, List.foldl_concat]
    exact descends_step ih input

end UpdaterService

end AltCache
