import AltCache.AltStateFetcher
import AltCache.Updater.Publication

/-!
# A refresh never moves the served slot backwards

A background refresh must reach the slot that is confirmed when it starts, and what the live
updater receives while it runs is buffered for it. So the live updater is always where the
minimum slot and the buffered confirmations lead, and a fetched state at or above the minimum
leads at least as far. Stale confirmations and pages of different slots do not matter.
-/

namespace AltCache

open AltCache.Replay

/-- A later start is never overtaken by the same calls. -/
theorem confirmedBy_mono {κ β : Type*} {c d : ℕ} (h : c ≤ d) (calls : List (Call κ β)) :
    confirmedBy c calls ≤ confirmedBy d calls := by
  induction calls generalizing c d with
  | nil => exact h
  | cons call calls ih =>
    rw [confirmedBy_cons, confirmedBy_cons]
    apply ih
    cases call with
    | queue w => exact h
    | confirm s => exact max_le_max h le_rfl
    | settle => exact h

/-- An event moves the confirmed slot as its call does. -/
theorem confirmedSlot_applyStateEvent (event : StateEvent) (updater : StateUpdater)
    (store : Store) :
    (applyStateEvent event updater store).1.confirmedSlot =
      confirmedBy updater.confirmedSlot (calls [event]) := by
  cases event with
  | account key slot version account => exact StateUpdater.confirmedSlot_queue ..
  | confirmedSlot slot =>
    change (updater.confirm store slot).2.1.confirmedSlot = max updater.confirmedSlot slot
    unfold StateUpdater.confirm
    split
    · next hstale => exact (max_eq_left hstale).symm
    · next hraised => exact (max_eq_right (not_le.mp hraised).le).symm

namespace UpdaterService

variable {deserialize : Deserialize} {service : UpdaterService} {url : String}

/-- While a refresh runs, the live updater is where the refresh's minimum slot and the buffered
events lead. -/
def Abreast (service : UpdaterService) : Prop :=
  ∀ url live running, service.phase = .serving url live (some running) →
    live.confirmedSlot = confirmedBy running.minimumContextSlot (calls running.bufferedEvents)

/-- A wake-up keeps the live updater and the refresh abreast. -/
theorem Abreast.step (h : service.Abreast) (input : Input) :
    (service.step deserialize input).Abreast := by
  intro url live running hphase
  have hserved := served_step hphase
  generalize hrefresh : some running = refresh at hserved
  generalize (service.step deserialize input).store = store at hserved
  cases hserved with
  | idle hserving => exact h _ _ _ (hrefresh ▸ hserving)
  | @due _ earlier hserving =>
    obtain rfl := Option.some.inj hrefresh
    cases earlier with
    | none => rfl
    | some earlier => exact h _ _ _ hserving
  | failed hserving => cases hrefresh
  | installed hserving => cases hrefresh
  | recovered hbootstrapping => cases hrefresh
  | @applied event stateEvent before earlier hserving =>
    obtain ⟨active, hactive, hbuffered⟩ := Option.bind_eq_some_iff.mp hrefresh.symm
    subst hactive
    rw [RefreshInProgress.buffer] at hbuffered
    split at hbuffered
    · obtain rfl := Option.some.inj hbuffered
      rw [confirmedSlot_applyStateEvent, calls_append, confirmedBy_append, h _ _ _ hserving]
    · cases hbuffered

/-- A run keeps them abreast. -/
theorem Abreast.run (h : service.Abreast) (inputs : List Input) :
    (service.run deserialize inputs).Abreast := by
  induction inputs using List.reverseRecOn with
  | nil => exact h
  | append_singleton inputs input ih =>
    rw [UpdaterService.run, List.foldl_concat]
    exact ih.step input

/-- A run keeps the served updater live. -/
theorem ServesLive.run (h : service.ServesLive) (inputs : List Input) :
    (service.run deserialize inputs).ServesLive := by
  induction inputs using List.reverseRecOn with
  | nil => exact h
  | append_singleton inputs input ih =>
    rw [UpdaterService.run, List.foldl_concat]
    exact servesLive_step ih input

/-- A background refresh never moves the served slot backwards. Whatever happens between its
start and its completion, when a fetch with its minimum slot succeeds against an RPC, the
installed updater is at least at the slot of the live one, and so is the store. -/
theorem refresh_never_lowers_slot (service : UpdaterService) (inputs : List Input)
    {url' : String} {updater live : StateUpdater} {running : RefreshInProgress}
    (hserving : service.phase = .serving url updater none) (hlive : Live updater service.store)
    (hrefreshing : (service.run deserialize inputs).phase = .serving url' live (some running))
    {codecs : Codecs} {replies : List (Except String AltStateFetcher.ContextResponse)}
    {fetched : FetchedAltState}
    (hfetched : AltStateFetcher.fetchFullAltState codecs deserialize
      (some running.minimumContextSlot) .new replies = some (.ok fetched)) :
    let reached := service.run deserialize inputs
    let after := reached.step deserialize (.refreshFinished (.ok fetched))
    ∃ replacement, after.phase = .serving url' replacement none ∧
      live.confirmedSlot ≤ replacement.confirmedSlot ∧
      reached.store.current.slot ≤ after.store.current.slot := by
  intro reached after
  have hidle : service.Abreast := by
    intro other before running hphase
    cases hserving.symm.trans hphase
  have hlives : service.ServesLive := by
    intro other before refresh hphase
    obtain ⟨rfl, rfl, rfl⟩ := Phase.serving.inj (hserving.symm.trans hphase)
    exact hlive
  have habreast := hidle.run inputs _ _ _ hrefreshing
  have hreached : Live live reached.store := hlives.run inputs _ _ _ hrefreshing
  have hminimum : running.minimumContextSlot ≤ fetched.contextSlot :=
    (AltStateFetcher.fetchFullAltState_ok hfetched).1
  have hslot : live.confirmedSlot ≤
      (recoverAltState url' fetched running.bufferedEvents reached.store).1.confirmedSlot := by
    rw [habreast, confirmedSlot_recoverAltState]
    exact confirmedBy_mono hminimum _
  have hafter : after = { reached with
      store := (recoverAltState url' fetched running.bufferedEvents reached.store).2
      phase := .serving url'
        (recoverAltState url' fetched running.bufferedEvents reached.store).1 none } := by
    simp only [after, step, reached, hrefreshing, serveStep, installRefreshedAltState]
  refine ⟨_, by rw [hafter], hslot, ?_⟩
  rw [hafter, hreached.slot]
  exact hslot.trans (live_recoverAltState url' fetched running.bufferedEvents reached.store).slot.ge

/-- A service that has bootstrapped at slot 5. -/
def servingAtFive : UpdaterService :=
  (start 4 ["source"] .new).run (fun _ => none)
    [.yellowstone (.connected 0), .fetchFinished (.ok ⟨5, ∅⟩)]

/-- A refresh starts there and slot 7 is confirmed while it runs. -/
def refreshingAtSeven : List Input := [.refreshDue, .yellowstone (.confirmedSlot 0 7)]

/-- The fetch, which sees slots 5 and 6, is installed without lowering the slot. -/
theorem refreshingAtSeven_installed :
    7 ≤ ((servingAtFive.run (fun _ => none) refreshingAtSeven).step (fun _ => none)
      (.refreshFinished (.ok ⟨5, ∅⟩))).store.current.slot := by
  have hlive := servesLive_run (fun _ => none) 4 ["source"] .new
    [.yellowstone (.connected 0), .fetchFinished (.ok ⟨5, ∅⟩)] "source" _ none rfl
  have hfetched : AltStateFetcher.fetchFullAltState .plain (fun _ => none) (some 5) .new
      [.ok ⟨5, [], some "second"⟩, .ok ⟨6, [], none⟩] = some (.ok ⟨5, ∅⟩) := rfl
  obtain ⟨-, -, -, hstore⟩ :=
    refresh_never_lowers_slot servingAtFive refreshingAtSeven rfl hlive rfl hfetched
  exact hstore

end UpdaterService

end AltCache
