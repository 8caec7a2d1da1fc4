import AltCache.Store.Runs
import AltCache.Updater.Handoff

/-!
# What readers get of the ledger

The store changes by being invalidated, by publishing the accounts of the serving updater, and
by page requests. A publication of a slot that is already served leaves the served snapshot in
place; both are the ledger's state of that slot if either is. So a store whose updaters are
exact serves, and retains for paging, states of the ledger only.
-/

namespace AltCache

open Std (ExtTreeMap)
open AltCache.Replay

section Store

variable {ledger : Ledger Key (Option Account)} {store : Store}

/-- A snapshot holds the ledger's accounts of its slot. -/
def ServerSnapshot.Exact (ledger : Ledger Key (Option Account)) (snapshot : ServerSnapshot) :
    Prop :=
  Shows ledger snapshot.slot (snapshot.accounts[·]?)

/-- What the store serves and retains is exact; before its first publication it serves nothing. -/
structure Store.Exact (ledger : Ledger Key (Option Account)) (store : Store) : Prop where
  current : store.current.Exact ledger ∨ store.current.slot = 0 ∧ store.ready = false
  retained : ∀ (slot : ℕ) entry, store.retained[slot]? = some entry → entry.snapshot.Exact ledger

/-- A new store is exact. -/
theorem Store.exact_new : Store.new.Exact ledger :=
  ⟨Or.inr ⟨rfl, rfl⟩, fun slot entry h => by simp [Store.new] at h⟩

/-- An invalidated store stays exact. -/
theorem Store.Exact.invalidate (h : store.Exact ledger) : store.invalidate.Exact ledger :=
  ⟨h.current.imp_right fun ⟨hslot, _⟩ => ⟨hslot, rfl⟩, h.retained⟩

/-- Publishing an exact state keeps the store exact, whether or not it takes effect. -/
theorem Store.Exact.publish (h : store.Exact ledger) (url : String) {slot : ℕ} {accounts : Accounts}
    (haccounts : Shows ledger slot (accounts[·]?)) :
    (store.publish url slot accounts).Exact ledger := by
  refine ⟨Or.inl ?_, h.retained⟩
  unfold Store.publish
  dsimp only
  split
  · exact haccounts
  · next hkept =>
    obtain ⟨-, hslot⟩ := not_or.mp hkept
    exact h.current.resolve_right fun ⟨hzero, _⟩ => hslot hzero

/-- A ready store serves an exact snapshot. -/
theorem Store.Exact.of_ready (h : store.Exact ledger) (hready : store.ready = true) :
    store.current.Exact ledger :=
  h.current.resolve_right fun ⟨_, hnot⟩ => by simp [hready] at hnot

/-- What is read is exact. -/
theorem Store.Exact.readSnapshot (h : store.Exact ledger) {snapshot : ReadSnapshot}
    (hread : store.readSnapshot = .ok snapshot) :
    Shows ledger snapshot.slot (snapshot.accounts[·]?) := by
  unfold Store.readSnapshot at hread
  split at hread
  · next hready =>
    obtain rfl := Except.ok.inj hread
    exact h.of_ready hready
  · cases hread

/-- A page is cut from an exact snapshot. -/
theorem Store.Exact.page (h : store.Exact ledger) {now limit : ℕ} {snapshotSlot : Option ℕ}
    {after : Option Key} {page : SnapshotPage}
    (hpage : (store.snapshotPage now snapshotSlot after limit).1 = .ok page) :
    ∃ snapshot : ServerSnapshot, snapshot.Exact ledger ∧
      page = ⟨snapshot.slot, (Store.cutPage snapshot.accounts after limit).1.map Prod.snd,
        (Store.cutPage snapshot.accounts after limit).2⟩ := by
  have hready : store.ready = true := by
    by_contra hnot
    unfold Store.snapshotPage at hpage
    rw [if_pos hnot] at hpage
    split at hpage <;> cases hpage
  obtain ⟨snapshot, hsource, rfl, -⟩ := Store.snapshotPage_ok hpage
  refine ⟨snapshot, ?_, rfl⟩
  cases snapshotSlot with
  | none =>
    obtain rfl := Except.ok.inj hsource
    exact h.of_ready hready
  | some slot =>
    obtain ⟨entry, hentry, rfl⟩ := Store.pageSource_some hsource
    exact h.retained slot entry hentry

/-- A page request keeps the store exact. -/
theorem Store.Exact.snapshotPage (h : store.Exact ledger) (now : ℕ) (snapshotSlot : Option ℕ)
    (after : Option Key) (limit : ℕ) :
    (store.snapshotPage now snapshotSlot after limit).2.Exact ledger := by
  obtain ⟨hcurrent, hready⟩ := Store.snapshotPage_frame now store snapshotSlot after limit
  refine ⟨?_, fun slot entry hentry => ?_⟩
  · rw [hcurrent, hready]
    exact h.current
  · by_cases hserves : store.ready = true
    · rcases Store.retained_snapshotPage hentry with ⟨old, hold, hsame⟩ | ⟨-, hserved⟩ |
        ⟨key, old, hold, hsame, -⟩
      · exact hsame ▸ h.retained slot old hold
      · exact hserved.symm ▸ h.of_ready hserves
      · exact hsame ▸ h.retained key old hold
    · have hsame : (store.snapshotPage now snapshotSlot after limit).2 = store := by
        unfold Store.snapshotPage
        rw [if_pos hserves]
        split <;> rfl
      exact h.retained slot entry (hsame ▸ hentry)

end Store

namespace UpdaterService

variable {deserialize : Deserialize} {service next : UpdaterService} {input : Input}

/-- Waiting for the active source leaves the store alone. -/
theorem store_awaitActive (service : UpdaterService) :
    service.awaitActive.store = service.store := by
  unfold awaitActive beginBootstrap stop
  split
  · split <;> rfl
  · rfl

/-- Rotating leaves the store alone. -/
theorem store_selectNextYellowstone (service : UpdaterService) :
    service.selectNextYellowstone.store = service.store := by
  unfold selectNextYellowstone
  split <;> rfl

/-- A restart invalidates the store. -/
theorem store_restart (service : UpdaterService) :
    service.restart.store = service.store.invalidate := by
  unfold restart
  rw [store_awaitActive]
  split
  · rfl
  · exact store_selectNextYellowstone _

/-- What a wake-up does to the store. -/
inductive Stored (service next : UpdaterService) : Prop where
  | kept (h : next.store = service.store)
  | invalidated (h : next.store = service.store.invalidate)
  /-- The serving updater publishes its accounts. -/
  | published {url publisher updater refresh} (hphase : next.phase = .serving url updater refresh)
      (h : next.store = service.store.publish publisher updater.confirmedSlot updater.accounts)

/-- Applying an event publishes the updater's accounts, or nothing. -/
theorem store_applyStateEvent (event : StateEvent) (updater : StateUpdater) (store : Store) :
    (applyStateEvent event updater store).2 = store ∨
      ∃ publisher, (applyStateEvent event updater store).2 = store.publish publisher
        (applyStateEvent event updater store).1.confirmedSlot
        (applyStateEvent event updater store).1.accounts := by
  cases event with
  | account key slot version account => exact Or.inl rfl
  | confirmedSlot slot =>
    unfold applyStateEvent StateUpdater.confirm
    dsimp only
    split
    · exact Or.inl rfl
    · dsimp only
      split
      · exact Or.inl rfl
      · exact Or.inr ⟨_, rfl⟩

/-- Every wake-up does one of these things to the store. -/
theorem stored_step (deserialize : Deserialize) (service : UpdaterService) (input : Input) :
    Stored service (service.step deserialize input) := by
  have hrestart (other : UpdaterService) (hstore : other.store = service.store) :
      Stored service other.restart := .invalidated (by rw [store_restart, hstore])
  have hwoken := woken_step deserialize service input
  generalize service.step deserialize input = next at hwoken ⊢
  cases hwoken with
  | passed => exact .kept rfl
  | stopped => exact .kept rfl
  | shutdown => exact .invalidated rfl
  | channelClosed => exact .kept rfl
  | overflowed => exact .kept rfl
  | awaitConnected => exact .kept (store_awaitActive _)
  | awaitDisconnected => exact .kept (store_awaitActive _)
  | connected => exact .kept rfl
  | disconnected => exact .kept rfl
  | lost => exact hrestart _ (store_selectNextYellowstone _)
  | broken => exact hrestart _ (store_selectNextYellowstone _)
  | fetchFailed => exact hrestart _ rfl
  | buffered => exact .kept rfl
  | recovered => exact .published rfl (recoverAltState_store ..)
  | due => exact .kept rfl
  | @finished url updater refresh result hphase =>
    cases refresh with
    | none => exact .kept rfl
    | some completed =>
      cases result with
      | error error => exact .kept rfl
      | ok fetched => exact .published rfl (recoverAltState_store ..)
  | @applied _ url updater refresh event hphase hinput =>
    rcases store_applyStateEvent event updater service.store with hsame | ⟨publisher, hstore⟩
    · exact .kept hsame
    · exact .published rfl hstore

/-- A wake-up after which the updater does not serve leaves the served snapshot alone. -/
theorem Stored.current (h : Stored service next)
    (hphase : ∀ url updater refresh, next.phase ≠ .serving url updater refresh) :
    next.store.current = service.store.current := by
  cases h with
  | kept hstore => rw [hstore]
  | invalidated hstore => rw [hstore, Store.current_invalidate]
  | published hserving => exact (hphase _ _ _ hserving).elim

/-- A wake-up keeps the store exact if the updater that serves afterwards is. -/
theorem Stored.exact {ledger : Ledger Key (Option Account)} {streams : Streams}
    (hstored : Stored service next) (h : service.store.Exact ledger)
    (hnext : InStep ledger next streams) : next.store.Exact ledger := by
  cases hstored with
  | kept hstore => rwa [hstore]
  | invalidated hstore =>
    rw [hstore]
    exact h.invalidate
  | published hphase hstore =>
    rw [InStep, hphase] at hnext
    obtain ⟨-, ⟨a, lost, boot, live, rest, -, hfollowing⟩, -⟩ := hnext
    rw [hstore]
    exact h.publish _ hfollowing.exact

end UpdaterService

end AltCache
