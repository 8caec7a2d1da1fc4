import AltCache.Updater.Publication

/-!
# Readiness follows the active source

The store becomes ready by a publication and unready at the head of the service loop. A
wake-up renews the service when it leads back there, or when it ends the wait for an active
source; any other wake-up continues the bootstrap or the serving period it finds. The active
source changes in renewing wake-ups only, so a ready store is fed by a source that has been
connected since the bootstrap began.
-/

namespace AltCache.UpdaterService

/-- No wake-up of a run renews. -/
def Unbroken (deserialize : Deserialize) (service : UpdaterService) : List Input → Prop
  | [] => True
  | input :: inputs =>
    ¬ service.Renews deserialize input ∧
      (service.step deserialize input).Unbroken deserialize inputs

/-- What an input says about the connection of a source. -/
def connectivity? (source : ℕ) : Input → Option Bool
  | .yellowstone (.connected other) => if other = source then some true else none
  | .yellowstone (.disconnected other) => if other = source then some false else none
  | _ => none

/-- The last connectivity event of a source is a connection. -/
def LastConnected (source : ℕ) (inputs : List Input) : Prop :=
  (inputs.filterMap (connectivity? source)).getLast? = some true

instance (source : ℕ) (inputs : List Input) : Decidable (LastConnected source inputs) :=
  inferInstanceAs (Decidable (_ = _))

/-- Some wake-up of a run renewed the service and began the bootstrap of a source, none has
renewed it since, and the source has not been disconnected since. -/
def SinceBootstrap (deserialize : Deserialize) (service : UpdaterService) (inputs : List Input)
    (url : String) (source : ℕ) : Prop :=
  ∃ first input since, inputs = first ++ input :: since ∧
    (service.run deserialize first).Renews deserialize input ∧
    ((service.run deserialize first).step deserialize input).phase = .bootstrapping url [] ∧
    ((service.run deserialize first).step deserialize input).activeSource = source ∧
    ((service.run deserialize first).step deserialize input).Unbroken deserialize since ∧
    .yellowstone (.disconnected source) ∉ since

section Steps

variable {deserialize : Deserialize} {service next : UpdaterService} {input : Input}
  {inputs : List Input} {url : String} {source : ℕ}

/-- A run that ends with a wake-up is unbroken if neither part renews. -/
theorem unbroken_concat (h : service.Unbroken deserialize inputs)
    (hinput : ¬ (service.run deserialize inputs).Renews deserialize input) :
    service.Unbroken deserialize (inputs ++ [input]) := by
  induction inputs generalizing service with
  | nil => exact ⟨hinput, trivial⟩
  | cons earlier inputs ih => exact ⟨h.1, ih h.2 hinput⟩

/-- A bootstrap lasts until a wake-up renews the service. -/
theorem SinceBootstrap.concat (h : SinceBootstrap deserialize service inputs url source)
    (hinput : ¬ (service.run deserialize inputs).Renews deserialize input)
    (hother : input ≠ .yellowstone (.disconnected source)) :
    SinceBootstrap deserialize service (inputs ++ [input]) url source := by
  obtain ⟨first, began, since, rfl, hrenews, hphase, hactive, hunbroken, hconnected⟩ := h
  refine ⟨first, began, since ++ [input], by simp, hrenews, hphase, hactive,
    unbroken_concat hunbroken ?_, ?_⟩
  · have hrun : ((service.run deserialize first).step deserialize began).run deserialize since =
        service.run deserialize (first ++ began :: since) := by
      simp [run]
    rwa [hrun]
  · simp [hconnected, hother.symm]

/-- What an input does to the set of connected sources. -/
def connect (connected : Finset ℕ) : Input → Finset ℕ
  | .yellowstone (.connected source) => insert source connected
  | .yellowstone (.disconnected source) => connected.erase source
  | _ => connected

/-- Membership follows the connectivity event. -/
theorem mem_connect (connected : Finset ℕ) (input : Input) (source : ℕ) :
    source ∈ connect connected input ↔
      (connectivity? source input).getD (decide (source ∈ connected)) = true := by
  cases input with
  | yellowstone event =>
    cases event with
    | connected other =>
      by_cases hsame : other = source
      · simp [connect, connectivity?, hsame]
      · simp [connect, connectivity?, hsame, Ne.symm hsame]
    | disconnected other =>
      by_cases hsame : other = source
      · simp [connect, connectivity?, hsame]
      · simp [connect, connectivity?, hsame, Ne.symm hsame]
    | account other update => simp [connect, connectivity?]
    | confirmedSlot other slot => simp [connect, connectivity?]
  | shutdown => simp [connect, connectivity?]
  | channelClosed => simp [connect, connectivity?]
  | fetchFinished result => simp [connect, connectivity?]
  | refreshDue => simp [connect, connectivity?]
  | refreshFinished result => simp [connect, connectivity?]

/-- The last connectivity event after one more input. -/
theorem lastConnected_concat (source : ℕ) (inputs : List Input) (input : Input) :
    LastConnected source (inputs ++ [input]) ↔
      (connectivity? source input).getD (decide (LastConnected source inputs)) = true := by
  have hlast : (inputs ++ [input]).filterMap (connectivity? source) =
      inputs.filterMap (connectivity? source) ++ (connectivity? source input).toList := by
    rw [List.filterMap_append, List.filterMap_cons]
    cases connectivity? source input <;> rfl
  apply (iff_of_eq (congrArg (·.getLast? = some true) hlast)).trans
  cases hinput : connectivity? source input with
  | none =>
    rw [Option.toList_none, List.append_nil, Option.getD_none]
    exact decide_eq_true_iff.symm
  | some connected =>
    rw [Option.toList_some, List.getLast?_concat, Option.getD_some, Option.some.injEq]

/-- What a wake-up changes of the sources: the connectivity event is recorded, and the active
source stays one of the configured ones. -/
structure Sources (service : UpdaterService) (input : Input) (next : UpdaterService) : Prop where
  connectedSources : next.connectedSources = connect service.connectedSources input
  yellowstoneUrls : next.yellowstoneUrls = service.yellowstoneUrls
  activeSource : service.activeSource < service.yellowstoneUrls.length →
    (∀ source, input = .yellowstone (.connected source) →
      source < service.yellowstoneUrls.length) →
    next.activeSource < service.yellowstoneUrls.length

/-- The next connected source is one of those counted. -/
theorem nextConnected_lt {active count : ℕ} {connected : Finset ℕ}
    (h : nextConnected active connected count = some source) : source < count := by
  obtain ⟨offset, hoffset, rfl⟩ := List.mem_map.mp (List.mem_of_find?_eq_some h)
  have hcount : 0 < count := by
    rcases Nat.eq_zero_or_pos count with rfl | hcount
    · simp at hoffset
    · exact hcount
  exact Nat.mod_lt _ hcount

/-- Waiting for the active source changes no source. -/
theorem Sources.awaitActive (h : Sources service input next) :
    Sources service input next.awaitActive := by
  unfold UpdaterService.awaitActive beginBootstrap stop
  split
  · split <;> exact ⟨h.connectedSources, h.yellowstoneUrls, h.activeSource⟩
  · exact ⟨h.connectedSources, h.yellowstoneUrls, h.activeSource⟩

/-- Rotating selects a configured source. -/
theorem Sources.selectNextYellowstone (h : Sources service input next) :
    Sources service input next.selectNextYellowstone := by
  unfold UpdaterService.selectNextYellowstone
  split
  · next source hnext =>
    exact ⟨h.connectedSources, h.yellowstoneUrls, fun _ _ =>
      h.yellowstoneUrls ▸ nextConnected_lt hnext⟩
  · exact h

/-- So does the head of the service loop. -/
theorem Sources.restart (h : Sources service input next) :
    Sources service input next.restart := by
  have hinvalidated : Sources service input { next with store := next.store.invalidate } :=
    ⟨h.connectedSources, h.yellowstoneUrls, h.activeSource⟩
  unfold UpdaterService.restart
  apply Sources.awaitActive
  split
  · exact hinvalidated
  · exact hinvalidated.selectNextYellowstone

/-- An input that is no connectivity event changes no connection. -/
theorem connect_of_quiet (connected : Finset ℕ)
    (h : ∀ source, input ≠ .yellowstone (.connected source) ∧
      input ≠ .yellowstone (.disconnected source)) : connect connected input = connected := by
  unfold connect
  split
  · next source => exact ((h source).1 rfl).elim
  · next source => exact ((h source).2 rfl).elim
  · rfl

/-- Every wake-up of a service that has not stopped records its connectivity event. -/
theorem sources_step (deserialize : Deserialize) (input : Input)
    (h : ∀ result, service.phase ≠ .stopped result) :
    Sources service input (service.step deserialize input) := by
  have hsame (other : UpdaterService) (hinput : connect service.connectedSources input =
      service.connectedSources) (hconnected : other.connectedSources = service.connectedSources)
      (hurls : other.yellowstoneUrls = service.yellowstoneUrls)
      (hactive : other.activeSource = service.activeSource) : Sources service input other :=
    ⟨hconnected.trans hinput.symm, hurls, fun hlt _ => hactive ▸ hlt⟩
  have hwoken := woken_step deserialize service input
  generalize service.step deserialize input = next at hwoken ⊢
  cases hwoken with
  | passed hinput => exact hsame _ (connect_of_quiet _ hinput) rfl rfl rfl
  | stopped hphase => exact (h _ hphase).elim
  | shutdown => exact hsame _ rfl rfl rfl rfl
  | channelClosed => exact hsame _ rfl rfl rfl rfl
  | overflowed hphase hevent =>
    exact hsame _ (connect_of_quiet _ (by simpa using hevent)) rfl rfl rfl
  | @awaitConnected source => exact Sources.awaitActive ⟨rfl, rfl, fun _ hlt => hlt source rfl⟩
  | awaitDisconnected => exact Sources.awaitActive ⟨rfl, rfl, fun hlt _ => hlt⟩
  | connected => exact ⟨rfl, rfl, fun hlt _ => hlt⟩
  | disconnected => exact ⟨rfl, rfl, fun hlt _ => hlt⟩
  | lost =>
    have herased : Sources service (.yellowstone (.disconnected service.activeSource))
        { service with
          connectedSources := service.connectedSources.erase service.activeSource } :=
      ⟨rfl, rfl, fun hlt _ => hlt⟩
    exact herased.selectNextYellowstone.restart
  | broken => exact (hsame service rfl rfl rfl rfl).selectNextYellowstone.restart
  | fetchFailed => exact (hsame service rfl rfl rfl rfl).restart
  | buffered hphase hinput => cases hinput <;> exact hsame _ rfl rfl rfl rfl
  | recovered => exact hsame _ rfl rfl rfl rfl
  | due => exact hsame _ rfl rfl rfl rfl
  | finished => exact hsame _ rfl rfl rfl rfl
  | applied hphase hinput => cases hinput <;> exact hsame _ rfl rfl rfl rfl

/-- The service as the head of its loop leaves it: unready, and either waiting or at the very
beginning of a bootstrap from a connected source. -/
structure Fresh (service : UpdaterService) : Prop where
  notServing : ∀ url updater refresh, service.phase ≠ .serving url updater refresh
  notReady : (∀ result, service.phase ≠ .stopped result) → service.store.ready = false
  bootstrapping : ∀ url buffered, service.phase = .bootstrapping url buffered → buffered = [] ∧
    service.activeSource ∈ service.connectedSources ∧
      service.yellowstoneUrls[service.activeSource]? = some url

/-- A stopped service is trivially so. -/
theorem fresh_of_stopped {result : Except String Unit} (h : service.phase = .stopped result) :
    Fresh service where
  notServing url updater refresh hphase := by simp [h] at hphase
  notReady hrunning := (hrunning result h).elim
  bootstrapping url buffered hphase := by simp [h] at hphase

/-- An unready service that waits for its active source begins afresh. -/
theorem fresh_awaitActive (h : service.store.ready = false) : Fresh service.awaitActive := by
  unfold awaitActive beginBootstrap
  split
  · next hactive =>
    split
    · next url hurl =>
      refine ⟨fun _ _ _ hphase => by simp at hphase, fun _ => h, fun url' buffered hphase => ?_⟩
      cases hphase
      exact ⟨rfl, hactive, hurl⟩
    · exact fresh_of_stopped rfl
  · exact ⟨fun _ _ _ hphase => by simp at hphase, fun _ => h, fun _ _ hphase => by simp at hphase⟩

/-- The head of the service loop begins afresh. -/
theorem fresh_restart (service : UpdaterService) : Fresh service.restart := by
  apply fresh_awaitActive
  dsimp only
  split
  · rfl
  · unfold selectNextYellowstone
    split <;> rfl

/-- Waiting for an active source is always renewed. -/
theorem renews_of_waiting (h : service.phase = .waiting) (input : Input) :
    service.Renews deserialize input := by
  rw [Renews, h]
  trivial

/-- A busy service is renewed by a failure of its active source. -/
theorem Busy.renews (h : service.Busy) (hfails : service.FailsActive deserialize input) :
    service.Renews deserialize input := by
  unfold Renews
  rcases h with ⟨url, buffered, hphase⟩ | ⟨url, updater, refresh, hphase⟩
  · rw [hphase]
    exact Or.inl hfails
  · rw [hphase]
    exact hfails

/-- Other than that, it is renewed by a failed fetch only. -/
theorem Busy.not_renews (h : service.Busy) (hfails : ¬ service.FailsActive deserialize input)
    (hfetch : ∀ error, input ≠ .fetchFinished (.error error)) :
    ¬ service.Renews deserialize input := by
  unfold Renews
  rcases h with ⟨url, buffered, hphase⟩ | ⟨url, updater, refresh, hphase⟩
  · rw [hphase]
    exact not_or.mpr ⟨hfails, fun ⟨error, hinput⟩ => hfetch error hinput⟩
  · rw [hphase]
    exact hfails

/-- A decoded event of the active source does not renew. -/
theorem Decodes.not_renews {event : StateEvent} (h : Decodes deserialize service input event)
    (hbusy : service.Busy) : ¬ service.Renews deserialize input := by
  cases h with
  | account hdecode =>
    exact hbusy.not_renews (by simp [FailsActive, hdecode, Except.toOption]) (by simp)
  | confirmedSlot slot => exact hbusy.not_renews id (by simp)

/-- A wake-up that renews leads back to the head of the service loop. -/
theorem fresh_step (h : service.Renews deserialize input)
    (hwaiting : service.phase = .waiting → service.store.ready = false) :
    Fresh (service.step deserialize input) := by
  have hwoken := woken_step deserialize service input
  generalize service.step deserialize input = next at hwoken ⊢
  cases hwoken with
  | passed hinput hquiet =>
    have hphase := hquiet.resolve_right (not_not.mpr h)
    exact ⟨fun _ _ _ hserving => by simp [hphase] at hserving, fun _ => hwaiting hphase,
      fun _ _ hbootstrapping => by simp [hphase] at hbootstrapping⟩
  | stopped hphase => simp [Renews, hphase] at h
  | shutdown => exact fresh_of_stopped rfl
  | channelClosed => exact fresh_of_stopped rfl
  | overflowed => exact fresh_of_stopped rfl
  | awaitConnected hphase => exact fresh_awaitActive (hwaiting hphase)
  | awaitDisconnected hphase => exact fresh_awaitActive (hwaiting hphase)
  | connected hbusy => exact absurd h (hbusy.not_renews id (by simp))
  | disconnected hbusy hother => exact absurd h (hbusy.not_renews hother (by simp))
  | lost => exact fresh_restart _
  | broken => exact fresh_restart _
  | fetchFailed => exact fresh_restart _
  | buffered hphase hinput => exact (hinput.not_renews (Or.inl ⟨_, _, hphase⟩) h).elim
  | recovered hphase => simp [Renews, FailsActive, hphase] at h
  | due hphase => simp [Renews, FailsActive, hphase] at h
  | finished hphase => simp [Renews, FailsActive, hphase] at h
  | applied hphase hinput => exact (hinput.not_renews (Or.inr ⟨_, _, _, hphase⟩) h).elim

/-- What continues after a wake-up that does not renew: the active source has not failed and
stays active, and a bootstrap goes on with the store unchanged. -/
structure Continues (service : UpdaterService) (input : Input) (next : UpdaterService) : Prop where
  input : input ≠ .yellowstone (.disconnected service.activeSource)
  activeSource : next.activeSource = service.activeSource
  notWaiting : next.phase ≠ .waiting
  bootstrapping : ∀ url buffered, next.phase = .bootstrapping url buffered →
    next.store = service.store ∧ ∃ old, service.phase = .bootstrapping url old

/-- It continues if it stops the service. -/
theorem continues_of_stopped {result : Except String Unit}
    (hinput : input ≠ .yellowstone (.disconnected service.activeSource))
    (hactive : next.activeSource = service.activeSource) (h : next.phase = .stopped result) :
    Continues service input next :=
  ⟨hinput, hactive, by simp [h], fun _ _ hphase => by simp [h] at hphase⟩

/-- It continues if it goes on with a bootstrap and leaves the store alone. -/
theorem continues_of_bootstrapping {old buffered : List StateEvent}
    (hinput : input ≠ .yellowstone (.disconnected service.activeSource))
    (hactive : next.activeSource = service.activeSource) (hstore : next.store = service.store)
    (hold : service.phase = .bootstrapping url old) (h : next.phase = .bootstrapping url buffered) :
    Continues service input next := by
  refine ⟨hinput, hactive, by simp [h], fun url' buffered' hphase => ⟨hstore, old, ?_⟩⟩
  rw [hold, (Phase.bootstrapping.inj (h.symm.trans hphase)).1]

/-- It continues if the service serves. -/
theorem continues_of_serving {updater : StateUpdater} {refresh : Option RefreshInProgress}
    (hinput : input ≠ .yellowstone (.disconnected service.activeSource))
    (hactive : next.activeSource = service.activeSource)
    (h : next.phase = .serving url updater refresh) : Continues service input next :=
  ⟨hinput, hactive, by simp [h], fun _ _ hphase => by simp [h] at hphase⟩

/-- It continues if it changes neither the phase nor the store. -/
theorem continues_of_same (h : ¬ service.Renews deserialize input)
    (hinput : input ≠ .yellowstone (.disconnected service.activeSource))
    (hactive : next.activeSource = service.activeSource) (hstore : next.store = service.store)
    (hphase : next.phase = service.phase) : Continues service input next where
  input := hinput
  activeSource := hactive
  notWaiting hwaiting := h (renews_of_waiting (hphase.symm.trans hwaiting) input)
  bootstrapping _ buffered hbootstrapping :=
    ⟨hstore, buffered, hphase.symm.trans hbootstrapping⟩

/-- Any other wake-up continues. -/
theorem continues_step (h : ¬ service.Renews deserialize input)
    (hrunning : ∀ result, service.phase ≠ .stopped result) :
    Continues service input (service.step deserialize input) := by
  have hwoken := woken_step deserialize service input
  generalize service.step deserialize input = next at hwoken ⊢
  cases hwoken with
  | passed hinput => exact continues_of_same h (hinput _).2 rfl rfl rfl
  | stopped hphase => exact (hrunning _ hphase).elim
  | shutdown => exact continues_of_stopped (by simp) rfl rfl
  | channelClosed => exact continues_of_stopped (by simp) rfl rfl
  | overflowed hphase hevent => exact continues_of_stopped (by simpa using (hevent _).2) rfl rfl
  | awaitConnected hphase => exact (h (renews_of_waiting hphase _)).elim
  | awaitDisconnected hphase => exact (h (renews_of_waiting hphase _)).elim
  | connected => exact continues_of_same h (by simp) rfl rfl rfl
  | disconnected hbusy hother => exact continues_of_same h (by simpa using hother) rfl rfl rfl
  | lost hbusy => exact (h (hbusy.renews rfl)).elim
  | broken hbusy hdecode => exact (h (hbusy.renews ⟨rfl, by rw [hdecode]; rfl⟩)).elim
  | fetchFailed hphase => exact (h (by simp [Renews, hphase])).elim
  | buffered hphase hinput =>
    exact continues_of_bootstrapping (by cases hinput <;> simp) rfl rfl hphase rfl
  | recovered => exact continues_of_serving (by simp) rfl rfl
  | due => exact continues_of_serving (by simp) rfl rfl
  | finished => exact continues_of_serving (by simp) rfl rfl
  | applied hphase hinput => exact continues_of_serving (by cases hinput <;> simp) rfl rfl

/-- A connected source stays connected unless it is disconnected. -/
theorem mem_connect_of_mem {connected : Finset ℕ} (h : source ∈ connected)
    (hinput : input ≠ .yellowstone (.disconnected source)) : source ∈ connect connected input := by
  cases input with
  | yellowstone event =>
    cases event with
    | connected other => exact Finset.mem_insert_of_mem h
    | disconnected other =>
      exact Finset.mem_erase.mpr ⟨fun hsame => hinput (by rw [hsame]), h⟩
    | account other update => exact h
    | confirmedSlot other slot => exact h
  | shutdown => exact h
  | channelClosed => exact h
  | fetchFinished result => exact h
  | refreshDue => exact h
  | refreshFinished result => exact h

end Steps

section Urls

variable {deserialize : Deserialize} {service : UpdaterService}

/-- Applying an event keeps the URL the updater publishes under, and publishes under it. -/
theorem activeYellowstoneUrl_applyStateEvent {updater : StateUpdater} {store : Store}
    (h : store.activeYellowstoneUrl = some updater.activeYellowstoneUrl) (event : StateEvent) :
    (applyStateEvent event updater store).1.activeYellowstoneUrl = updater.activeYellowstoneUrl ∧
      (applyStateEvent event updater store).2.activeYellowstoneUrl =
        some updater.activeYellowstoneUrl := by
  cases event with
  | account key slot version account =>
    unfold applyStateEvent StateUpdater.queue
    dsimp only
    split <;> exact ⟨rfl, h⟩
  | confirmedSlot slot =>
    unfold applyStateEvent StateUpdater.confirm
    dsimp only
    split
    · exact ⟨rfl, h⟩
    · rw [StateUpdater.applyPendingThrough_eq]
      dsimp only
      split
      · exact ⟨rfl, h⟩
      · exact ⟨rfl, rfl⟩

/-- A recovered state is published under its URL. -/
theorem activeYellowstoneUrl_recoverAltState (url : String) (fetched : FetchedAltState)
    (buffered : List StateEvent) (store : Store) :
    (recoverAltState url fetched buffered store).1.activeYellowstoneUrl = url ∧
      (recoverAltState url fetched buffered store).2.activeYellowstoneUrl = some url := by
  have hfresh : (StateUpdater.fromFetchedAltState url fetched).recovering = true := rfl
  obtain ⟨-, hurl, -⟩ := applyStateEvents_recovering hfresh buffered store
  refine ⟨?_, by rw [recoverAltState_store]; rfl⟩
  simp only [recoverAltState, StateUpdater.finishRecovery, StateUpdater.applyPendingThrough_eq]
  exact hurl

/-- While the service serves, its updater and its store name the source it bootstrapped from. -/
def NamesSource (service : UpdaterService) : Prop :=
  ∀ url updater refresh, service.phase = .serving url updater refresh →
    updater.activeYellowstoneUrl = url ∧ service.store.activeYellowstoneUrl = some url

/-- A wake-up keeps that name. -/
theorem namesSource_step (h : service.NamesSource) (input : Input) :
    (service.step deserialize input).NamesSource := by
  intro url updater refresh hphase
  have hserved := served_step hphase
  generalize (service.step deserialize input).store = store at hserved ⊢
  cases hserved with
  | idle hserving => exact h _ _ _ hserving
  | due hserving => exact h _ _ _ hserving
  | failed hserving => exact h _ _ _ hserving
  | installed => exact activeYellowstoneUrl_recoverAltState ..
  | recovered => exact activeYellowstoneUrl_recoverAltState ..
  | applied event stateEvent hserving =>
    obtain ⟨rfl, hstore⟩ := h _ _ _ hserving
    exact activeYellowstoneUrl_applyStateEvent hstore stateEvent

/-- In every run the store that is served names the source it was bootstrapped from. -/
theorem namesSource_run (deserialize : Deserialize) (capacity : ℕ) (urls : List String)
    (store : Store) (inputs : List Input) :
    ((start capacity urls store).run deserialize inputs).NamesSource := by
  induction inputs using List.reverseRecOn with
  | nil => exact fun url updater refresh h => (restart_not_serving _ h).elim
  | append_singleton inputs input ih =>
    rw [run, List.foldl_concat]
    exact namesSource_step ih input

end Urls

/-- The service is fed by its active source, which is connected, configured under the URL, and
has been followed since the bootstrap. -/
structure Fed (deserialize : Deserialize) (service : UpdaterService) (inputs : List Input)
    (next : UpdaterService) (url : String) : Prop where
  connected : next.activeSource ∈ next.connectedSources
  configured : next.yellowstoneUrls[next.activeSource]? = some url
  since : SinceBootstrap deserialize service inputs url next.activeSource

/-- What holds at a wait point after some inputs: the sources are known, and a service that is
not waiting is fed by its active one. -/
structure KnowsSources (deserialize : Deserialize) (service : UpdaterService)
    (inputs : List Input) (next : UpdaterService) : Prop where
  connectedSources : ∀ source, source ∈ next.connectedSources ↔ LastConnected source inputs
  yellowstoneUrls : next.yellowstoneUrls = service.yellowstoneUrls
  activeSource : next.activeSource < service.yellowstoneUrls.length
  waiting : next.phase = .waiting → next.store.ready = false
  bootstrapping : ∀ url buffered, next.phase = .bootstrapping url buffered →
    next.store.ready = false ∧ Fed deserialize service inputs next url
  serving : ∀ url updater refresh, next.phase = .serving url updater refresh →
    Fed deserialize service inputs next url

section Runs

variable {deserialize : Deserialize} {service : UpdaterService} {input : Input}
  {inputs : List Input} {url : String}

/-- A wake-up that does not renew leaves the service fed by the same source. -/
theorem Fed.step (h : Fed deserialize service inputs (service.run deserialize inputs) url)
    (hinput : ¬ (service.run deserialize inputs).Renews deserialize input)
    (hrunning : ∀ result, (service.run deserialize inputs).phase ≠ .stopped result) :
    Fed deserialize service (inputs ++ [input])
      ((service.run deserialize inputs).step deserialize input) url := by
  have hsources := sources_step deserialize input hrunning
  have hcontinues := continues_step hinput hrunning
  refine ⟨?_, ?_, ?_⟩
  · rw [hcontinues.activeSource, hsources.connectedSources]
    exact mem_connect_of_mem h.connected hcontinues.input
  · rw [hcontinues.activeSource, hsources.yellowstoneUrls]
    exact h.configured
  · rw [hcontinues.activeSource]
    exact h.since.concat hinput hcontinues.input

/-- A wake-up keeps the knowledge of the sources, as long as the service does not stop. -/
theorem KnowsSources.step
    (h : KnowsSources deserialize service inputs (service.run deserialize inputs))
    (hconnected : ∀ source, input = .yellowstone (.connected source) →
      source < service.yellowstoneUrls.length)
    (hrunning : ∀ result, (service.run deserialize inputs).phase ≠ .stopped result)
    (hstill : ∀ result, ((service.run deserialize inputs).step deserialize input).phase ≠
      .stopped result) :
    KnowsSources deserialize service (inputs ++ [input])
      ((service.run deserialize inputs).step deserialize input) := by
  have hsources := sources_step deserialize input hrunning
  have hconnectedSources (source : ℕ) :
      source ∈ ((service.run deserialize inputs).step deserialize input).connectedSources ↔
        LastConnected source (inputs ++ [input]) := by
    rw [hsources.connectedSources, mem_connect, lastConnected_concat]
    simp only [h.connectedSources source]
  have hactive := hsources.activeSource (h.yellowstoneUrls ▸ h.activeSource)
    (h.yellowstoneUrls ▸ hconnected)
  rw [h.yellowstoneUrls] at hactive
  have hurls := hsources.yellowstoneUrls.trans h.yellowstoneUrls
  by_cases hrenews : (service.run deserialize inputs).Renews deserialize input
  · have hfresh := fresh_step hrenews h.waiting
    refine ⟨hconnectedSources, hurls, hactive, fun _ => hfresh.notReady hstill,
      fun url buffered hphase => ⟨hfresh.notReady hstill, ?_⟩,
      fun url updater refresh hphase => (hfresh.notServing _ _ _ hphase).elim⟩
    obtain ⟨rfl, hmem, hconfigured⟩ := hfresh.bootstrapping url buffered hphase
    exact ⟨hmem, hconfigured, inputs, input, [], rfl, hrenews, hphase, rfl, trivial,
      List.not_mem_nil⟩
  · have hcontinues := continues_step hrenews hrunning
    refine ⟨hconnectedSources, hurls, hactive, fun hphase => (hcontinues.notWaiting hphase).elim,
      fun url buffered hphase => ?_, fun url updater refresh hphase => ?_⟩
    · obtain ⟨hstore, old, hold⟩ := hcontinues.bootstrapping url buffered hphase
      obtain ⟨hready, hfed⟩ := h.bootstrapping url old hold
      exact ⟨by rw [hstore]; exact hready, hfed.step hrenews hrunning⟩
    · have hbefore : Fed deserialize service inputs (service.run deserialize inputs) url := by
        have hserved := served_step hphase
        generalize ((service.run deserialize inputs).step deserialize input).store = store
          at hserved
        cases hserved with
        | idle hserving => exact h.serving _ _ _ hserving
        | due hserving => exact h.serving _ _ _ hserving
        | failed hserving => exact h.serving _ _ _ hserving
        | installed hserving => exact h.serving _ _ _ hserving
        | recovered hbootstrapping => exact (h.bootstrapping _ _ hbootstrapping).2
        | applied event stateEvent hserving => exact h.serving _ _ _ hserving
      exact hbefore.step hrenews hrunning

/-- A stopped service stays as it is. -/
theorem step_of_stopped {result : Except String Unit} (h : service.phase = .stopped result) :
    service.step deserialize input = service := by
  unfold step
  rw [h]

/-- Before its first wake-up the service waits, with no source connected. -/
theorem start_eq (capacity : ℕ) (urls : List String) (store : Store) :
    start capacity urls store =
      { streamCapacity := capacity
        yellowstoneUrls := urls
        store := store.invalidate
        connectedSources := ∅
        activeSource := 0
        phase := .waiting } := by
  have hnone : nextConnected 0 ∅ urls.length = none :=
    List.find?_eq_none.mpr fun source _ => by simp
  simp [start, restart, selectNextYellowstone, awaitActive, hnone]

/-- At every wait point the sources are known. -/
theorem knowsSources_run (deserialize : Deserialize) (capacity : ℕ) {urls : List String}
    (store : Store) (hurls : urls ≠ [])
    (hconnected : ∀ source, .yellowstone (.connected source) ∈ inputs → source < urls.length)
    (hrunning : ∀ result,
      ((start capacity urls store).run deserialize inputs).phase ≠ .stopped result) :
    KnowsSources deserialize (start capacity urls store) inputs
      ((start capacity urls store).run deserialize inputs) := by
  induction inputs using List.reverseRecOn with
  | nil =>
    have hstart : (start capacity urls store).run deserialize [] = start capacity urls store := rfl
    rw [hstart, start_eq]
    exact
      { connectedSources := fun source => by simp [LastConnected]
        yellowstoneUrls := rfl
        activeSource := List.length_pos_iff.mpr hurls
        waiting := fun _ => rfl
        bootstrapping := fun _ _ hphase => by cases hphase
        serving := fun _ _ _ hphase => by cases hphase }
  | append_singleton inputs input ih =>
    have hconcat : (start capacity urls store).run deserialize (inputs ++ [input]) =
        ((start capacity urls store).run deserialize inputs).step deserialize input :=
      List.foldl_concat ..
    rw [hconcat] at hrunning ⊢
    have hbefore : ∀ result,
        ((start capacity urls store).run deserialize inputs).phase ≠ .stopped result :=
      fun result hphase => hrunning result ((step_of_stopped hphase).symm ▸ hphase)
    have hurls' : (start capacity urls store).yellowstoneUrls = urls := by rw [start_eq]
    refine (ih (fun source hmem => hconnected source (List.mem_append_left _ hmem)) hbefore).step
      (fun source hinput => ?_) hbefore hrunning
    rw [hurls']
    exact hconnected source (List.mem_append_right _ (List.mem_singleton.mpr hinput.symm))

/-- Readiness is tied to a live active source. At every wait point, the connected sources are
those whose last connectivity event is a connection, and the active one is configured. If the
store is ready, the service serves the updater's slot under the URL of the active source, which
is connected and has not been disconnected since the bootstrap. Sources are numbered by their
position in the configuration, which names at least one. -/
theorem ready_active_source (deserialize : Deserialize) (capacity : ℕ) {urls : List String}
    (store : Store) (hurls : urls ≠ [])
    (hconnected : ∀ source, .yellowstone (.connected source) ∈ inputs → source < urls.length)
    (hrunning : ∀ result,
      ((start capacity urls store).run deserialize inputs).phase ≠ .stopped result) :
    let service := (start capacity urls store).run deserialize inputs
    (∀ source, source ∈ service.connectedSources ↔ LastConnected source inputs) ∧
    service.yellowstoneUrls = urls ∧ service.activeSource < urls.length ∧
    (service.store.ready = true → ∃ url updater refresh,
      service.phase = .serving url updater refresh ∧
      service.activeSource ∈ service.connectedSources ∧
      SinceBootstrap deserialize (start capacity urls store) inputs url service.activeSource ∧
      urls[service.activeSource]? = some url ∧
      service.store.activeYellowstoneUrl = some url ∧
      service.store.current.slot = updater.confirmedSlot) := by
  intro service
  have hknows : KnowsSources deserialize (start capacity urls store) inputs service :=
    knowsSources_run deserialize capacity store hurls hconnected hrunning
  have hstart : (start capacity urls store).yellowstoneUrls = urls := by rw [start_eq]
  have hurls' := hknows.yellowstoneUrls.trans hstart
  refine ⟨hknows.connectedSources, hurls', hstart ▸ hknows.activeSource, fun hready => ?_⟩
  cases hphase : service.phase with
  | waiting => simp [hknows.waiting hphase] at hready
  | bootstrapping url buffered => simp [(hknows.bootstrapping _ _ hphase).1] at hready
  | stopped result => exact (hrunning result hphase).elim
  | serving url updater refresh =>
    have hfed := hknows.serving _ _ _ hphase
    have hlive := servesLive_run deserialize capacity urls store inputs _ _ _ hphase
    have hnames := namesSource_run deserialize capacity urls store inputs _ _ _ hphase
    exact ⟨url, updater, refresh, rfl, hfed.connected, hfed.since, hurls' ▸ hfed.configured,
      hnames.2, hlive.slot⟩

/-- The first of two sources connects, fails and is replaced by the second. -/
def replacedSource : List Input :=
  [.yellowstone (.connected 0), .fetchFinished (.ok ⟨5, ∅⟩), .yellowstone (.connected 1),
    .yellowstone (.disconnected 0), .fetchFinished (.ok ⟨6, ∅⟩)]

/-- Then the store is ready, fed by the second. -/
theorem replacedSource_ready :
    ((start 4 ["first", "second"] .new).run (fun _ => none) replacedSource).store.ready = true ∧
      SinceBootstrap (fun _ => none) (start 4 ["first", "second"] .new) replacedSource
        "second" 1 := by
  have hconnected : ∀ source, .yellowstone (.connected source) ∈ replacedSource →
      source < ["first", "second"].length := by
    intro source hmem
    simp only [replacedSource, List.mem_cons, Input.yellowstone.injEq, Event.connected.injEq,
      reduceCtorEq, List.not_mem_nil, or_false, false_or] at hmem
    rcases hmem with rfl | rfl <;> decide
  obtain ⟨-, -, -, hready⟩ := ready_active_source (fun _ => none) 4 .new
    (List.cons_ne_nil "first" ["second"]) hconnected fun result hphase => by cases hphase
  obtain ⟨url, updater, refresh, hphase, -, hsince, hurl, -⟩ := hready rfl
  obtain rfl : "second" = url := Option.some.inj hurl
  exact ⟨rfl, hsince⟩

end Runs

end AltCache.UpdaterService
