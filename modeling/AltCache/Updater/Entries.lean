import AltCache.Api.Grpc
import AltCache.AltStateFetcher
import AltCache.Store.Runs
import AltCache.Updater.Steps

/-!
# What may be served

Two paths feed the accounts map: pages of an RPC and updates of a source. Both let only open
tables of the program with decodable data through, each under its own key. Staging, replay,
refreshes and retention move such entries around, so every snapshot that is ever served or
retained consists of them, and the streamed keys are the keys of the accounts themselves.
-/

namespace AltCache

open Std (ExtTreeMap)
open AltCache.Replay (Buckets)

section Entries

variable {deserialize : Deserialize}

/-- A value that is, if any, a well-formed table under a key. -/
def WellFormedValue (deserialize : Deserialize) (key : Key) (value : Option Account) : Prop :=
  ∀ account, value = some account → account.WellFormed deserialize key

/-- An event that puts only a well-formed table under its key. -/
def StateEvent.WellFormed (deserialize : Deserialize) : StateEvent → Prop
  | .account key _ _ value => WellFormedValue deserialize key value
  | .confirmedSlot _ => True

/-- Everything an updater holds or has staged is well-formed. -/
structure StateUpdater.WellFormed (deserialize : Deserialize) (updater : StateUpdater) :
    Prop where
  accounts : WellFormedAccounts deserialize updater.accounts
  pending : ∀ (slot : ℕ), ∀ mutation ∈ updater.pending.getD slot [],
    WellFormedValue deserialize mutation.key mutation.account

/-- Everything a store serves or retains is well-formed. -/
structure Store.WellFormed (deserialize : Deserialize) (store : Store) : Prop where
  current : WellFormedAccounts deserialize store.current.accounts
  retained : ∀ (slot : ℕ) entry, store.retained[slot]? = some entry →
    WellFormedAccounts deserialize entry.snapshot.accounts

/-- An update that is accepted puts only a well-formed table under its key. -/
theorem wellFormed_of_decode {update : SubscribeUpdateAccount} {event : StateEvent}
    (h : decodeAccountUpdate deserialize update = .ok event) : event.WellFormed deserialize := by
  unfold decodeAccountUpdate at h
  split at h
  · cases h
  · next body hbody =>
    split at h
    · cases h
    · next key hkey =>
      split at h
      · cases h
      · next owner howner =>
        obtain rfl := Except.ok.inj h
        intro account haccount
        split at haccount
        · cases haccount
        · next hopen =>
          unfold Account.fromYellowstone at haccount
          split at haccount
          · cases haccount
          · next hprogram =>
            split at haccount
            · cases haccount
            · split at haccount
              · cases haccount
              · next addresses hdecoded =>
                obtain rfl := Option.some.inj haccount
                exact ⟨Key.ofBytes?_eq_some.mp hkey, not_not.mp hprogram,
                  Nat.pos_of_ne_zero (not_or.mp hopen).1,
                  Option.isSome_iff_exists.mpr ⟨addresses, hdecoded⟩⟩

/-- A mutation of well-formed accounts by a well-formed value. -/
theorem WellFormedAccounts.applyMutation {accounts : Accounts} {mutation : Mutation}
    (h : WellFormedAccounts deserialize accounts)
    (hmutation : WellFormedValue deserialize mutation.key mutation.account) :
    WellFormedAccounts deserialize (applyMutation accounts mutation) := by
  intro k account haccount
  rw [StateUpdater.getElem?_applyMutation] at haccount
  split at haccount
  · next hkey => exact hkey ▸ hmutation account haccount
  · exact h k account haccount

/-- Mutations in order. -/
theorem WellFormedAccounts.foldl_applyMutation {accounts : Accounts} {mutations : List Mutation}
    (h : WellFormedAccounts deserialize accounts)
    (hmutations : ∀ mutation ∈ mutations,
      WellFormedValue deserialize mutation.key mutation.account) :
    WellFormedAccounts deserialize (mutations.foldl AltCache.applyMutation accounts) := by
  induction mutations generalizing accounts with
  | nil => exact h
  | cons mutation mutations ih =>
    exact ih (h.applyMutation (hmutations mutation List.mem_cons_self)) fun other hother =>
      hmutations other (List.mem_cons_of_mem _ hother)

/-- What is queued after a drain was queued before. -/
theorem mem_getD_dropThrough {buckets : Buckets Mutation} {bound slot : ℕ} {mutation : Mutation}
    (h : mutation ∈ (buckets.dropThrough bound).getD slot []) :
    mutation ∈ buckets.getD slot [] := by
  rw [Buckets.getD_eq, Buckets.getElem?_dropThrough] at h
  rw [Buckets.getD_eq]
  split at h
  · cases h
  · exact h

/-- What is queued after a push was queued before or is the pushed entry. -/
theorem mem_getD_push {buckets : Buckets Mutation} {slot other : ℕ} {pushed mutation : Mutation}
    (h : mutation ∈ (buckets.push slot pushed).getD other []) :
    mutation ∈ buckets.getD other [] ∨ mutation = pushed := by
  rw [Buckets.getD_eq, Buckets.push, ExtTreeMap.getElem?_insert] at h
  by_cases hslot : slot = other
  · subst hslot
    rw [if_pos Std.ReflCmp.compare_self, Option.getD_some] at h
    exact (List.mem_append.mp h).imp_right List.mem_singleton.mp
  · rw [if_neg (by simpa using hslot), ← Buckets.getD_eq] at h
    exact Or.inl h

/-- A published snapshot is well-formed. -/
theorem Store.WellFormed.publish {store : Store} (h : store.WellFormed deserialize)
    {accounts : Accounts} (haccounts : WellFormedAccounts deserialize accounts) (url : String)
    (slot : ℕ) : (store.publish url slot accounts).WellFormed deserialize := by
  refine ⟨?_, h.retained⟩
  unfold Store.publish
  dsimp only
  split
  · exact haccounts
  · exact h.current

/-- A page request retains only what was served or retained. -/
theorem Store.WellFormed.snapshotPage {store : Store} (h : store.WellFormed deserialize)
    (now : ℕ) (snapshotSlot : Option ℕ) (after : Option Key) (limit : ℕ) :
    (store.snapshotPage now snapshotSlot after limit).2.WellFormed deserialize := by
  refine ⟨?_, fun slot entry hentry => ?_⟩
  · rw [(snapshotPage_frame now store snapshotSlot after limit).1]
    exact h.current
  · rcases retained_snapshotPage hentry with ⟨old, hold, hsame⟩ | ⟨-, hserved⟩ |
      ⟨key, old, hold, hsame, -⟩
    · exact hsame ▸ h.retained slot old hold
    · exact hserved.symm ▸ h.current
    · exact hsame ▸ h.retained key old hold

namespace StateUpdater

variable {updater : StateUpdater} {store : Store}

/-- Draining the queues applies well-formed mutations. -/
theorem WellFormed.applyPendingThrough (h : updater.WellFormed deserialize) (slot : ℕ) :
    (updater.applyPendingThrough slot).WellFormed deserialize := by
  rw [applyPendingThrough_eq]
  refine ⟨h.accounts.foldl_applyMutation fun mutation hmutation => ?_,
    fun other mutation hmutation => h.pending other mutation (mem_getD_dropThrough hmutation)⟩
  obtain ⟨staged, -, hstaged⟩ := List.mem_flatMap.mp hmutation
  exact h.pending staged mutation hstaged

/-- A staged write is well-formed. -/
theorem WellFormed.queue (h : updater.WellFormed deserialize) {key : Key} {value : Option Account}
    (hvalue : WellFormedValue deserialize key value) (slot version : ℕ) :
    (updater.queue key slot version value).2.WellFormed deserialize := by
  unfold StateUpdater.queue
  split
  · exact h
  · refine ⟨h.accounts, fun other mutation hmutation => ?_⟩
    rcases mem_getD_push hmutation with hold | rfl
    · exact h.pending other mutation hold
    · exact hvalue

/-- A confirmation publishes well-formed accounts only. -/
theorem WellFormed.confirm (h : updater.WellFormed deserialize)
    (hstore : store.WellFormed deserialize) (slot : ℕ) :
    (updater.confirm store slot).2.1.WellFormed deserialize ∧
      (updater.confirm store slot).2.2.WellFormed deserialize := by
  have hdrained := h.applyPendingThrough slot
  unfold StateUpdater.confirm
  split
  · exact ⟨h, hstore⟩
  · dsimp only
    split
    · exact ⟨⟨hdrained.accounts, hdrained.pending⟩, hstore⟩
    · exact ⟨⟨hdrained.accounts, hdrained.pending⟩, hstore.publish hdrained.accounts ..⟩

/-- So does the end of a recovery. -/
theorem WellFormed.finishRecovery (h : updater.WellFormed deserialize)
    (hstore : store.WellFormed deserialize) :
    (updater.finishRecovery store).1.WellFormed deserialize ∧
      (updater.finishRecovery store).2.WellFormed deserialize := by
  have hdrained := h.applyPendingThrough updater.confirmedSlot
  exact ⟨⟨hdrained.accounts, hdrained.pending⟩, hstore.publish hdrained.accounts ..⟩

/-- Applying a well-formed event. -/
theorem WellFormed.applyStateEvent (h : updater.WellFormed deserialize)
    (hstore : store.WellFormed deserialize) {event : StateEvent}
    (hevent : event.WellFormed deserialize) :
    (applyStateEvent event updater store).1.WellFormed deserialize ∧
      (applyStateEvent event updater store).2.WellFormed deserialize := by
  cases event with
  | account key slot version value => exact ⟨h.queue hevent slot version, hstore⟩
  | confirmedSlot slot => exact h.confirm hstore slot

/-- Applying well-formed events in order. -/
theorem WellFormed.applyStateEvents (h : updater.WellFormed deserialize)
    (hstore : store.WellFormed deserialize) {events : List StateEvent}
    (hevents : ∀ event ∈ events, event.WellFormed deserialize) :
    (applyStateEvents events updater store).1.WellFormed deserialize ∧
      (applyStateEvents events updater store).2.WellFormed deserialize := by
  induction events generalizing updater store with
  | nil => exact ⟨h, hstore⟩
  | cons event events ih =>
    obtain ⟨hupdater, hafter⟩ := h.applyStateEvent hstore (hevents event List.mem_cons_self)
    exact ih hupdater hafter fun other hother => hevents other (List.mem_cons_of_mem _ hother)

end StateUpdater

/-- Replaying well-formed events into a well-formed state. -/
theorem wellFormed_recoverAltState {store : Store} {fetched : FetchedAltState}
    {buffered : List StateEvent} (hfetched : WellFormedAccounts deserialize fetched.accounts)
    (hstore : store.WellFormed deserialize)
    (hbuffered : ∀ event ∈ buffered, event.WellFormed deserialize) (url : String) :
    (recoverAltState url fetched buffered store).1.WellFormed deserialize ∧
      (recoverAltState url fetched buffered store).2.WellFormed deserialize := by
  have hstart : (StateUpdater.fromFetchedAltState url fetched).WellFormed deserialize :=
    ⟨hfetched, fun slot mutation hmutation => by
      simp [StateUpdater.fromFetchedAltState] at hmutation⟩
  obtain ⟨hupdater, hafter⟩ := hstart.applyStateEvents hstore hbuffered
  exact hupdater.finishRecovery hafter

end Entries

namespace UpdaterService

variable {deserialize : Deserialize} {service : UpdaterService}

/-- Everything the service serves, retains, holds, has staged or has buffered is well-formed. -/
structure WellFormed (deserialize : Deserialize) (service : UpdaterService) : Prop where
  store : service.store.WellFormed deserialize
  buffered : ∀ url buffered, service.phase = .bootstrapping url buffered →
    ∀ event ∈ buffered, event.WellFormed deserialize
  updater : ∀ url updater refresh, service.phase = .serving url updater refresh →
    updater.WellFormed deserialize
  refresh : ∀ url updater running, service.phase = .serving url updater (some running) →
    ∀ event ∈ running.bufferedEvents, event.WellFormed deserialize

/-- A service that holds no state is well-formed with its store. -/
theorem wellFormed_of_idle (h : service.store.WellFormed deserialize)
    (hbootstrapping : ∀ url buffered, service.phase = .bootstrapping url buffered → buffered = [])
    (hserving : ∀ url updater refresh, service.phase ≠ .serving url updater refresh) :
    service.WellFormed deserialize where
  store := h
  buffered url buffered hphase event hevent := by
    rw [hbootstrapping url buffered hphase] at hevent
    cases hevent
  updater url updater refresh hphase := (hserving _ _ _ hphase).elim
  refresh url updater running hphase := (hserving _ _ _ hphase).elim

/-- Waiting for the active source leaves no state. -/
theorem wellFormed_awaitActive (h : service.store.WellFormed deserialize) :
    service.awaitActive.WellFormed deserialize := by
  refine wellFormed_of_idle ?_ (fun url buffered hphase => ?_) fun _ _ _ =>
    awaitActive_not_serving service
  · unfold awaitActive beginBootstrap stop
    split
    · split <;> exact h
    · exact h
  · unfold awaitActive beginBootstrap stop at hphase
    split at hphase
    · split at hphase
      · exact (Phase.bootstrapping.inj hphase).2.symm
      · cases hphase
    · cases hphase

/-- Nor does the head of the service loop. -/
theorem wellFormed_restart (h : service.store.WellFormed deserialize) :
    service.restart.WellFormed deserialize := by
  have hinvalidated : service.store.invalidate.WellFormed deserialize := ⟨h.current, h.retained⟩
  apply wellFormed_awaitActive
  dsimp only
  split
  · exact hinvalidated
  · unfold selectNextYellowstone
    split <;> exact hinvalidated

/-- Nor does a failover. -/
theorem wellFormed_failover (h : service.store.WellFormed deserialize) :
    service.selectNextYellowstone.restart.WellFormed deserialize := by
  apply wellFormed_restart
  unfold selectNextYellowstone
  split <;> exact h

/-- Nor does the end of the service. -/
theorem wellFormed_stop (h : service.store.WellFormed deserialize) (result : Except String Unit) :
    (service.stop result).WellFormed deserialize :=
  wellFormed_of_idle h (fun _ _ hphase => by cases hphase) fun _ _ _ hphase => by cases hphase

/-- Nor does a shutdown. -/
theorem wellFormed_shutdown (h : service.store.WellFormed deserialize) :
    service.shutdown.WellFormed deserialize :=
  wellFormed_of_idle ⟨h.current, h.retained⟩ (fun _ _ hphase => by cases hphase)
    fun _ _ _ hphase => by cases hphase

/-- A recovered state is served. -/
theorem wellFormed_serving {store : Store} {updater : StateUpdater}
    (h : updater.WellFormed deserialize ∧ store.WellFormed deserialize) (url : String) :
    WellFormed deserialize { service with store, phase := .serving url updater none } where
  store := h.2
  buffered url' buffered hphase := by cases hphase
  updater url' updater' refresh hphase := by
    obtain ⟨-, rfl, -⟩ := Phase.serving.inj hphase
    exact h.1
  refresh url' updater' running hphase := by
    obtain ⟨-, -, hrefresh⟩ := Phase.serving.inj hphase
    cases hrefresh

/-- An update of the sources alone. -/
theorem WellFormed.connect (h : service.WellFormed deserialize) (connected : Finset ℕ) :
    WellFormed deserialize { service with connectedSources := connected } :=
  ⟨h.store, h.buffered, h.updater, h.refresh⟩

/-- A decoded event of the active source is well-formed. -/
theorem Decodes.wellFormed {input : Input} {event : StateEvent}
    (h : Decodes deserialize service input event) : event.WellFormed deserialize := by
  cases h with
  | account hdecode => exact wellFormed_of_decode hdecode
  | confirmedSlot slot => trivial

/-- An event that arrives during a bootstrap is buffered. -/
theorem WellFormed.buffer (h : service.WellFormed deserialize) {url : String}
    {buffered : List StateEvent} (hphase : service.phase = .bootstrapping url buffered)
    {event : StateEvent} (hevent : event.WellFormed deserialize) :
    WellFormed deserialize { service with phase := .bootstrapping url (buffered ++ [event]) } := by
  refine ⟨h.store, fun url' buffered' hbuffered other hother => ?_,
    fun _ _ _ hserving => (by cases hserving), fun _ _ _ hserving => (by cases hserving)⟩
  obtain ⟨-, rfl⟩ := Phase.bootstrapping.inj hbuffered
  rcases List.mem_append.mp hother with hold | hnew
  · exact h.buffered url buffered hphase other hold
  · exact List.mem_singleton.mp hnew ▸ hevent

/-- An event of the active source is applied and buffered for a running refresh. -/
theorem WellFormed.serveEvent (h : service.WellFormed deserialize) {url : String}
    {updater : StateUpdater} {refresh : Option RefreshInProgress}
    (hphase : service.phase = .serving url updater refresh) {event : StateEvent}
    (hevent : event.WellFormed deserialize) :
    (service.serveEvent url updater refresh event).WellFormed deserialize := by
  obtain ⟨hupdater, hstore⟩ := (h.updater _ _ _ hphase).applyStateEvent h.store hevent
  refine ⟨hstore, fun _ _ hbootstrapping => (by cases hbootstrapping),
    fun url' updater' refresh' hserving => ?_,
    fun url' updater' running hserving other hother => ?_⟩
  · obtain ⟨-, rfl, -⟩ := Phase.serving.inj hserving
    exact hupdater
  · obtain ⟨-, -, hrefresh⟩ := Phase.serving.inj hserving
    obtain ⟨active, rfl, hbuffered⟩ := Option.bind_eq_some_iff.mp hrefresh
    rw [RefreshInProgress.buffer] at hbuffered
    split at hbuffered
    · obtain rfl := Option.some.inj hbuffered
      rcases List.mem_append.mp hother with hold | hnew
      · exact h.refresh _ _ _ hphase other hold
      · exact List.mem_singleton.mp hnew ▸ hevent
    · cases hbuffered

/-- A state that the fetcher returns against some replies of an RPC. -/
def Fetched (codecs : Codecs) (deserialize : Deserialize) (fetched : FetchedAltState) : Prop :=
  ∃ minimumContextSlot replies, AltStateFetcher.fetchFullAltState codecs deserialize
    minimumContextSlot .new replies = some (.ok fetched)

/-- Fetched states that arrive were fetched. -/
def Input.Possible (codecs : Codecs) (deserialize : Deserialize) : Input → Prop
  | .fetchFinished (.ok fetched) => Fetched codecs deserialize fetched
  | .refreshFinished (.ok fetched) => Fetched codecs deserialize fetched
  | _ => True

/-- A fetched state is well-formed. -/
theorem wellFormed_of_fetched {codecs : Codecs} {fetched : FetchedAltState}
    (h : Fetched codecs deserialize fetched) :
    WellFormedAccounts deserialize fetched.accounts := by
  obtain ⟨minimumContextSlot, replies, hfetched⟩ := h
  exact (AltStateFetcher.fetchFullAltState_ok hfetched).2

/-- A refresh that starts has buffered nothing. -/
theorem WellFormed.due (h : service.WellFormed deserialize) {url : String}
    {updater : StateUpdater} {refresh : Option RefreshInProgress}
    (hphase : service.phase = .serving url updater refresh) :
    WellFormed deserialize { service with
      phase := .serving url updater (some (refresh.getD (.start updater.confirmedSlot))) } := by
  refine ⟨h.store, fun _ _ hbootstrapping => (by cases hbootstrapping),
    fun url' updater' refresh' hserving => ?_, fun url' updater' running hserving => ?_⟩
  · obtain ⟨-, rfl, -⟩ := Phase.serving.inj hserving
    exact h.updater _ _ _ hphase
  · obtain ⟨-, -, hrefresh⟩ := Phase.serving.inj hserving
    obtain rfl := Option.some.inj hrefresh
    cases refresh with
    | none => exact fun event hevent => (by cases hevent)
    | some running => exact h.refresh _ _ _ hphase

/-- A wake-up keeps everything well-formed. -/
theorem WellFormed.step {codecs : Codecs} {input : Input} (h : service.WellFormed deserialize)
    (hinput : Input.Possible codecs deserialize input) :
    (service.step deserialize input).WellFormed deserialize := by
  have hwoken := woken_step deserialize service input
  generalize service.step deserialize input = next at hwoken ⊢
  cases hwoken with
  | passed => exact h
  | stopped => exact h
  | shutdown => exact wellFormed_shutdown h.store
  | channelClosed => exact wellFormed_stop h.store _
  | overflowed => exact wellFormed_stop h.store _
  | awaitConnected => exact wellFormed_awaitActive h.store
  | awaitDisconnected => exact wellFormed_awaitActive h.store
  | connected => exact h.connect _
  | disconnected => exact h.connect _
  | lost => exact wellFormed_failover h.store
  | broken => exact wellFormed_failover h.store
  | fetchFailed => exact wellFormed_restart h.store
  | buffered hphase hdecodes => exact h.buffer hphase hdecodes.wellFormed
  | recovered hphase =>
    exact wellFormed_serving (wellFormed_recoverAltState (wellFormed_of_fetched hinput) h.store
      (h.buffered _ _ hphase) _) _
  | due hphase => exact h.due hphase
  | @finished url updater refresh result hphase =>
    have hkept : WellFormed deserialize { service with phase := .serving url updater none } :=
      wellFormed_serving ⟨h.updater _ _ _ hphase, h.store⟩ url
    cases refresh with
    | none => exact hkept
    | some completed =>
      cases result with
      | error error => exact hkept
      | ok fetched =>
        exact wellFormed_serving (wellFormed_recoverAltState (wellFormed_of_fetched hinput)
          h.store (h.refresh _ _ _ hphase) url) url
  | applied hphase hdecodes => exact h.serveEvent hphase hdecodes.wellFormed

/-- What can happen to the service and its store: a wake-up, or a client's page request. -/
inductive Action where
  | wake (input : Input)
  | request (now : ℕ) (snapshotSlot : Option ℕ) (after : Option Key) (limit : ℕ)

/-- The service after an action. -/
def act (deserialize : Deserialize) (service : UpdaterService) : Action → UpdaterService
  | .wake input => service.step deserialize input
  | .request now snapshotSlot after limit =>
    { service with store := (service.store.snapshotPage now snapshotSlot after limit).2 }

/-- Every fetched state among the actions was fetched. -/
def AllPossible (codecs : Codecs) (deserialize : Deserialize) (actions : List Action) : Prop :=
  ∀ input, .wake input ∈ actions → Input.Possible codecs deserialize input

/-- A page request keeps everything well-formed. -/
theorem WellFormed.request (h : service.WellFormed deserialize) (now : ℕ)
    (snapshotSlot : Option ℕ) (after : Option Key) (limit : ℕ) :
    (service.act deserialize (.request now snapshotSlot after limit)).WellFormed deserialize :=
  ⟨h.store.snapshotPage now snapshotSlot after limit, h.buffered, h.updater, h.refresh⟩

/-- In every run everything is well-formed. -/
theorem wellFormed_run {codecs : Codecs} {actions : List Action}
    (h : AllPossible codecs deserialize actions) (capacity : ℕ) (urls : List String) :
    (actions.foldl (act deserialize) (start capacity urls .new)).WellFormed deserialize := by
  induction actions using List.reverseRecOn with
  | nil =>
    exact wellFormed_restart ⟨fun k account haccount => by simp [Store.new] at haccount,
      fun slot entry hentry => by simp [Store.new] at hentry⟩
  | append_singleton actions action ih =>
    rw [List.foldl_concat]
    have hbefore := ih fun input hinput => h input (List.mem_append_left _ hinput)
    cases action with
    | wake input =>
      exact hbefore.step (h input (List.mem_append_right _ (List.mem_singleton_self _)))
    | request now snapshotSlot after limit => exact hbefore.request now snapshotSlot after limit

/-- The keys of well-formed accounts are streamed as the accounts' own keys. -/
theorem streamed_keys {accounts : Accounts} (h : WellFormedAccounts deserialize accounts)
    (encodedLen : SnapshotChunk → ℕ) (slot : ℕ) :
    ((snapshotChunks encodedLen ⟨slot, accounts⟩).flatMap SnapshotChunk.accounts).map
        AltAccount.pubkey = accounts.toList.map fun entry => entry.2.value.pubkey := by
  rw [snapshotChunks, flatMap_sendChunks, List.nil_append, List.map_map]
  apply List.map_congr_left
  intro entry hentry
  exact (h entry.1 entry.2 (ExtTreeMap.mem_toList_iff_getElem?_eq_some.mp hentry)).pubkey.symm

/-- Every entry that is ever served or retained is a well-formed table filed under its own key,
and the stream names each account as the account names itself. -/
theorem served_entries_wellFormed {codecs : Codecs} {actions : List Action}
    (h : AllPossible codecs deserialize actions) (capacity : ℕ) (urls : List String) :
    let store := (actions.foldl (act deserialize) (start capacity urls .new)).store
    ∀ snapshot, (snapshot = store.current ∨
        ∃ (slot : ℕ) (entry : RetainedSnapshot), store.retained[slot]? = some entry ∧
          snapshot = entry.snapshot) →
      WellFormedAccounts deserialize snapshot.accounts ∧
        ∀ encodedLen, ((snapshotChunks encodedLen ⟨snapshot.slot, snapshot.accounts⟩).flatMap
          SnapshotChunk.accounts).map AltAccount.pubkey =
            snapshot.accounts.toList.map fun entry => entry.2.value.pubkey := by
  intro store snapshot hsnapshot
  have hstore : store.WellFormed deserialize := (wellFormed_run h capacity urls).store
  have haccounts : WellFormedAccounts deserialize snapshot.accounts := by
    rcases hsnapshot with rfl | ⟨slot, entry, hentry, rfl⟩
    · exact hstore.current
    · exact hstore.retained slot entry hentry
  exact ⟨haccounts, fun encodedLen => streamed_keys haccounts encodedLen snapshot.slot⟩

/-- A source sends a table and confirms its slot, and a client takes a page. -/
def oneTable : List Action :=
  [.wake (.yellowstone (.connected 0)), .wake (.fetchFinished (.ok ⟨5, ∅⟩)),
    .wake (.yellowstone (.account 0 (.sample (.filled 1) 6 1 1))),
    .wake (.yellowstone (.confirmedSlot 0 6)), .request 0 none none 1]

/-- The service after that. -/
def oneTableServed : UpdaterService :=
  oneTable.foldl (act fun _ => some []) (start 4 ["source"] .new)

/-- The fetched state was fetched: one page without accounts. -/
theorem oneTable_possible : AllPossible .plain (fun _ => some []) oneTable := by
  have hfetched : Fetched .plain (fun _ => some []) ⟨5, ∅⟩ :=
    ⟨none, [.ok ⟨5, [], none⟩], rfl⟩
  intro input hinput
  simp only [oneTable, List.mem_cons, Action.wake.injEq, reduceCtorEq, List.not_mem_nil,
    or_false] at hinput
  rcases hinput with rfl | rfl | rfl | rfl
  · trivial
  · exact hfetched
  · trivial
  · trivial

/-- The table is served, well-formed under its key. -/
theorem oneTable_wellFormed :
    oneTableServed.store.current.accounts.size = 1 ∧
      WellFormedAccounts (fun _ => some []) oneTableServed.store.current.accounts :=
  ⟨by decide +kernel,
    (served_entries_wellFormed oneTable_possible 4 ["source"] _ (Or.inl rfl)).1⟩

end UpdaterService

end AltCache
