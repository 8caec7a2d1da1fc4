import AltCache.UiAccount
import AltCache.Updater.Recovery
import AltCache.Updater.Steps

/-!
# What a publication makes readable

A publication is exact when a reader that captures the snapshot right after it gets the
updater's confirmed slot and accounts. Confirmations of a live updater are always exact,
because the served slot is then below the confirmed one. Finishing a recovery is exact
unless the store already holds another accounts map under the slot the recovery ends at.
-/

namespace AltCache

open Std (ExtTreeMap)

/-- A reader gets exactly the updater's confirmed slot and accounts. -/
def Store.Serves (store : Store) (updater : StateUpdater) : Prop :=
  store.readSnapshot = .ok ⟨updater.confirmedSlot, updater.accounts⟩

/-- Publishing a snapshot takes effect: the store has no other snapshot under its slot. -/
def Store.Accepts (store : Store) (slot : ℕ) (account : Key → Option Account) : Prop :=
  store.current.slot ≠ slot ∨ store.current.slot = 0 ∨
    ∀ k : Key, store.current.accounts[k]? = account k

/-- A published snapshot is what readers get exactly when the store accepts it. -/
theorem Store.readSnapshot_publish (store : Store) (url : String) (slot : ℕ)
    (accounts : Accounts) :
    (store.publish url slot accounts).readSnapshot = .ok ⟨slot, accounts⟩ ↔
      store.Accepts slot (accounts[·]?) := by
  unfold readSnapshot Accepts publish
  by_cases hslot : store.current.slot ≠ slot ∨ store.current.slot = 0
  · rw [if_pos rfl, if_pos hslot]
    exact iff_of_true rfl (hslot.elim Or.inl fun h => Or.inr (Or.inl h))
  · rw [if_pos rfl, if_neg hslot]
    obtain ⟨hsame, hzero⟩ := not_or.mp hslot
    have hsame := not_not.mp hsame
    have hext : store.current.accounts = accounts ↔
        ∀ k : Key, store.current.accounts[k]? = accounts[k]? :=
      ⟨fun h k => h ▸ rfl, ExtTreeMap.ext_getElem?⟩
    simp [hsame, hsame ▸ hzero, hext]

/-- The store stands at a slot already, so that a publication under it changes nothing. -/
def Store.Keeps (store : Store) (slot : ℕ) : Prop :=
  store.current.slot = slot ∧ slot ≠ 0

instance (store : Store) (slot : ℕ) : Decidable (store.Keeps slot) :=
  inferInstanceAs (Decidable (_ ∧ _))

/-- What readers get after a publication: what was published, or else the old accounts. -/
def Store.published (store : Store) (slot : ℕ) (accounts : Accounts) : ReadSnapshot :=
  ⟨slot, if store.Keeps slot then store.current.accounts else accounts⟩

/-- They do. -/
theorem Store.readSnapshot_publish_eq (store : Store) (url : String) (slot : ℕ)
    (accounts : Accounts) :
    (store.publish url slot accounts).readSnapshot = .ok (store.published slot accounts) := by
  unfold published
  split
  · next hkeeps =>
    obtain ⟨rfl, hzero⟩ := hkeeps
    simp [readSnapshot, publish, hzero]
  · next hreplaces =>
    refine (readSnapshot_publish ..).mpr ?_
    by_cases hslot : store.current.slot = slot
    · exact Or.inr (Or.inl (hslot.trans (not_not.mp fun hzero => hreplaces ⟨hslot, hzero⟩)))
    · exact Or.inl hslot

/-- It depends on what the store holds alone. -/
theorem Store.published_congr {store other : Store} (h : store.current = other.current)
    (slot : ℕ) (accounts : Accounts) :
    store.published slot accounts = other.published slot accounts := by
  have hkeeps : store.Keeps slot ↔ other.Keeps slot := by rw [Keeps, Keeps, h]
  exact congrArg (ReadSnapshot.mk slot) (if_congr hkeeps (congrArg ServerSnapshot.accounts h) rfl)

/-- A recovered state is served. -/
theorem ready_recoverAltState (url : String) (fetched : FetchedAltState)
    (buffered : List StateEvent) (store : Store) :
    (recoverAltState url fetched buffered store).2.ready = true := by
  rw [recoverAltState_store]
  rfl

/-- A recovery that has nothing to replay publishes what was fetched. -/
theorem recoverAltState_nil (url : String) (fetched : FetchedAltState) (store : Store) :
    (recoverAltState url fetched [] store).2 =
      store.publish url fetched.contextSlot fetched.accounts := rfl

/-- A recovery is served exactly when the store accepts what was replayed. -/
theorem recoverAltState_serves_iff (url : String) (fetched : FetchedAltState)
    (buffered : List StateEvent) (store : Store) :
    (recoverAltState url fetched buffered store).2.Serves
        (recoverAltState url fetched buffered store).1 ↔
      store.Accepts (replayedSlot fetched buffered) (replayedAccount fetched buffered) := by
  rw [recoverAltState_store, Store.Serves, Store.readSnapshot_publish,
    confirmedSlot_recoverAltState, funext (getElem?_recoverAltState url fetched buffered store)]

namespace StateUpdater

/-- Draining the queues leaves the confirmed slot alone. -/
@[simp] theorem confirmedSlot_applyPendingThrough (updater : StateUpdater) (slot : ℕ) :
    (updater.applyPendingThrough slot).confirmedSlot = updater.confirmedSlot := by
  rw [applyPendingThrough_eq]

/-- Draining the queues does not end recovery. -/
@[simp] theorem recovering_applyPendingThrough (updater : StateUpdater) (slot : ℕ) :
    (updater.applyPendingThrough slot).recovering = updater.recovering := by
  rw [applyPendingThrough_eq]

/-- A confirmation of a live updater is exact if the served slot is below it. -/
theorem confirm_serves {updater : StateUpdater} {store : Store} {slot : ℕ}
    (hlive : updater.recovering = false) (hserved : store.current.slot = updater.confirmedSlot)
    (hslot : updater.confirmedSlot < slot) :
    (updater.confirm store slot).2.2.Serves (updater.confirm store slot).2.1 := by
  unfold confirm
  rw [if_neg (not_le.mpr hslot)]
  simp only [recovering_applyPendingThrough, hlive, Bool.false_eq_true, if_false]
  refine (Store.readSnapshot_publish ..).mpr (Or.inl ?_)
  omega

end StateUpdater

/-- The store serves the slot of a live updater that is out of recovery. -/
structure Live (updater : StateUpdater) (store : Store) : Prop where
  recovering : updater.recovering = false
  ready : store.ready = true
  slot : store.current.slot = updater.confirmedSlot

/-- Finishing recovery makes the updater live. -/
theorem live_finishRecovery (updater : StateUpdater) (store : Store) :
    Live (updater.finishRecovery store).1 (updater.finishRecovery store).2 where
  recovering := rfl
  ready := rfl
  slot := Store.slot_publish ..

/-- A recovered state is live. -/
theorem live_recoverAltState (url : String) (fetched : FetchedAltState)
    (buffered : List StateEvent) (store : Store) :
    Live (recoverAltState url fetched buffered store).1
      (recoverAltState url fetched buffered store).2 :=
  live_finishRecovery ..

/-- Applying an event keeps the updater live. -/
theorem Live.applyStateEvent {updater : StateUpdater} {store : Store} (h : Live updater store)
    (event : StateEvent) :
    Live (applyStateEvent event updater store).1 (applyStateEvent event updater store).2 := by
  cases event with
  | account key slot version account =>
    unfold AltCache.applyStateEvent StateUpdater.queue
    dsimp only
    split
    · exact h
    · exact ⟨h.recovering, h.ready, h.slot⟩
  | confirmedSlot slot =>
    unfold AltCache.applyStateEvent StateUpdater.confirm
    dsimp only
    split
    · exact h
    · simp only [StateUpdater.recovering_applyPendingThrough, h.recovering, Bool.false_eq_true,
        if_false]
      exact ⟨h.recovering.symm ▸ by simp [h.recovering], rfl, Store.slot_publish ..⟩

namespace UpdaterService

/-- While the service serves, its updater is live. -/
def ServesLive (service : UpdaterService) : Prop :=
  ∀ url updater refresh, service.phase = .serving url updater refresh →
    Live updater service.store

/-- A wake-up keeps the served updater live. -/
theorem servesLive_step {deserialize : Deserialize} {service : UpdaterService}
    (h : service.ServesLive) (input : Input) : (service.step deserialize input).ServesLive := by
  intro url updater refresh hphase
  have hserved := served_step hphase
  generalize (service.step deserialize input).store = store at hserved ⊢
  cases hserved with
  | idle hserving => exact h _ _ _ hserving
  | due hserving => exact h _ _ _ hserving
  | failed hserving => exact h _ _ _ hserving
  | installed => exact live_recoverAltState ..
  | recovered => exact live_recoverAltState ..
  | applied event stateEvent hserving => exact (h _ _ _ hserving).applyStateEvent stateEvent

/-- In every run the served updater is live. -/
theorem servesLive_run (deserialize : Deserialize) (capacity : ℕ) (urls : List String)
    (store : Store) (inputs : List Input) :
    ((start capacity urls store).run deserialize inputs).ServesLive := by
  induction inputs using List.reverseRecOn with
  | nil => exact fun url updater refresh h => (restart_not_serving _ h).elim
  | append_singleton inputs input ih =>
    rw [run, List.foldl_concat]
    exact servesLive_step ih input

/-- The service serves its updater's state exactly. -/
def ServesExactly (service : UpdaterService) : Prop :=
  ∃ url updater refresh, service.phase = .serving url updater refresh ∧
    service.store.Serves updater

/-- In every run, a bootstrap or an installed refresh is served exactly if and only if the
store accepts what was replayed, and every confirmation that takes effect is. -/
theorem publication_exact_iff (deserialize : Deserialize) (capacity : ℕ) (urls : List String)
    (store : Store) (inputs : List Input) :
    let service := (start capacity urls store).run deserialize inputs
    (∀ url buffered fetched, service.phase = .bootstrapping url buffered →
      ((service.step deserialize (.fetchFinished (.ok fetched))).ServesExactly ↔
        service.store.Accepts (replayedSlot fetched buffered)
          (replayedAccount fetched buffered))) ∧
    (∀ url live completed fetched, service.phase = .serving url live (some completed) →
      ((service.step deserialize (.refreshFinished (.ok fetched))).ServesExactly ↔
        service.store.Accepts (replayedSlot fetched completed.bufferedEvents)
          (replayedAccount fetched completed.bufferedEvents))) ∧
    (∀ url live refresh slot, service.phase = .serving url live refresh →
      (live.confirm service.store slot).1 = true →
      (service.step deserialize
        (.yellowstone (.confirmedSlot service.activeSource slot))).ServesExactly) := by
  intro service
  refine ⟨fun url buffered fetched hphase => ?_, fun url live completed fetched hphase => ?_,
    fun url live refresh slot hphase hconfirm => ?_⟩
  · rw [← recoverAltState_serves_iff url]
    simp only [step, hphase, bootstrapStep, ServesExactly, Phase.serving.injEq]
    constructor
    · rintro ⟨_, _, _, ⟨_, h, _⟩, hserves⟩
      exact h ▸ hserves
    · intro h
      exact ⟨_, _, _, ⟨rfl, rfl, rfl⟩, h⟩
  · rw [← recoverAltState_serves_iff url]
    simp only [step, hphase, serveStep, installRefreshedAltState, ServesExactly,
      Phase.serving.injEq]
    constructor
    · rintro ⟨_, _, _, ⟨_, h, _⟩, hserves⟩
      exact h ▸ hserves
    · intro h
      exact ⟨_, _, _, ⟨rfl, rfl, rfl⟩, h⟩
  · obtain ⟨hlive, -, hslot⟩ := servesLive_run deserialize capacity urls store inputs _ _ _ hphase
    have hrises : live.confirmedSlot < slot := by
      unfold StateUpdater.confirm at hconfirm
      split at hconfirm
      · simp at hconfirm
      · next hnot => exact not_le.mp hnot
    simp only [step, hphase, serveStep, serveEvent, if_pos, applyStateEvent]
    exact ⟨_, _, _, rfl, StateUpdater.confirm_serves hlive hslot hrises⟩

/-- A refresh that ends at the slot already served, with a table the served state lacks. -/
def sameSlotRefresh : UpdaterService :=
  (start 1 ["rpc"] Store.new).run acceptAll
    [.yellowstone (.connected 0), .fetchFinished (.ok ⟨10, ∅⟩), .refreshDue,
      .refreshFinished (.ok ⟨10, (∅ : Accounts).insert (.filled 1)
        (Account.sample (.filled 1)).received⟩)]

/-- Its installed state never reaches a reader. -/
theorem sameSlotRefresh_not_exact : ¬ sameSlotRefresh.ServesExactly := by
  rintro ⟨url, updater, refresh, hphase, hserves⟩
  cases hphase
  have htable := congrArg (fun read => (read.toOption.bind (·.accounts[Key.filled 1]?))) hserves
  exact absurd htable (by decide +kernel)

end UpdaterService

end AltCache
