import AltCache.Updater

/-!
# What one wake-up can do

Each wake-up passes over its input, records a connection, restarts the service, ends it, or
goes on with the bootstrap or the serving period it finds. The service enters the serving
phase only by recovering a fetched state, and while serving its updater changes only by an
event of the active source or by installing a refresh. The inversion lemmas state this once;
invariants of the service follow from them.
-/

namespace AltCache.UpdaterService

/-- An event of the active source that can be decoded. -/
inductive Decodes (deserialize : Deserialize) (service : UpdaterService) :
    Input → StateEvent → Prop where
  | account {update event} (h : decodeAccountUpdate deserialize update = .ok event) :
      Decodes deserialize service (.yellowstone (.account service.activeSource update)) event
  | confirmedSlot (slot : ℕ) :
      Decodes deserialize service (.yellowstone (.confirmedSlot service.activeSource slot))
        (.confirmedSlot slot)

/-- The input fails the active source: a disconnection, or an update that cannot be decoded. -/
def FailsActive (deserialize : Deserialize) (service : UpdaterService) : Input → Prop
  | .yellowstone (.disconnected source) => source = service.activeSource
  | .yellowstone (.account source update) =>
    source = service.activeSource ∧ (decodeAccountUpdate deserialize update).toOption = none
  | _ => False

/-- The wake-up gives up what the service is doing: whatever is bootstrapped afterwards is
bootstrapped anew. -/
def Renews (deserialize : Deserialize) (service : UpdaterService) (input : Input) : Prop :=
  match service.phase with
  | .waiting => True
  | .bootstrapping .. =>
    service.FailsActive deserialize input ∨ ∃ error, input = .fetchFinished (.error error)
  | .serving .. => service.FailsActive deserialize input
  | .stopped _ => False

/-- The service bootstraps or serves. -/
def Busy (service : UpdaterService) : Prop :=
  (∃ url buffered, service.phase = .bootstrapping url buffered) ∨
    ∃ url updater refresh, service.phase = .serving url updater refresh

/-- What one wake-up can do, with the service afterwards. -/
inductive Woken (deserialize : Deserialize) (service : UpdaterService) :
    Input → UpdaterService → Prop where
  /-- The input is passed over. -/
  | passed {input} (hinput : ∀ source, input ≠ .yellowstone (.connected source) ∧
        input ≠ .yellowstone (.disconnected source))
      (h : service.phase = .waiting ∨ ¬ service.Renews deserialize input) :
      Woken deserialize service input service
  /-- The service has ended. -/
  | stopped {input result} (h : service.phase = .stopped result) :
      Woken deserialize service input service
  | shutdown : Woken deserialize service .shutdown service.shutdown
  | channelClosed : Woken deserialize service .channelClosed
      (service.stop (.error "all Yellowstone sources stopped"))
  /-- The buffer of the bootstrap is full. -/
  | overflowed {event url buffered} (h : service.phase = .bootstrapping url buffered)
      (hevent : ∀ source, event ≠ .connected source ∧ event ≠ .disconnected source) :
      Woken deserialize service (.yellowstone event)
        (service.stop (.error "bootstrap update buffer full"))
  /-- A source connects while the service waits, and becomes the active one. -/
  | awaitConnected {source} (h : service.phase = .waiting) :
      Woken deserialize service (.yellowstone (.connected source))
        { service with
          connectedSources := insert source service.connectedSources
          activeSource := source }.awaitActive
  | awaitDisconnected {source} (h : service.phase = .waiting) :
      Woken deserialize service (.yellowstone (.disconnected source))
        { service with connectedSources := service.connectedSources.erase source }.awaitActive
  | connected {source} (h : service.Busy) :
      Woken deserialize service (.yellowstone (.connected source))
        { service with connectedSources := insert source service.connectedSources }
  | disconnected {source} (h : service.Busy) (hother : source ≠ service.activeSource) :
      Woken deserialize service (.yellowstone (.disconnected source))
        { service with connectedSources := service.connectedSources.erase source }
  /-- The active source disconnects. -/
  | lost (h : service.Busy) :
      Woken deserialize service (.yellowstone (.disconnected service.activeSource))
        { service with
          connectedSources := service.connectedSources.erase
            service.activeSource }.selectNextYellowstone.restart
  /-- The active source sends an update that cannot be decoded. -/
  | broken {update error} (h : service.Busy)
      (hdecode : decodeAccountUpdate deserialize update = .error error) :
      Woken deserialize service (.yellowstone (.account service.activeSource update))
        service.selectNextYellowstone.restart
  | fetchFailed {url buffered error} (h : service.phase = .bootstrapping url buffered) :
      Woken deserialize service (.fetchFinished (.error error)) service.restart
  | buffered {input url buffered event} (h : service.phase = .bootstrapping url buffered)
      (hinput : Decodes deserialize service input event) :
      Woken deserialize service input
        { service with phase := .bootstrapping url (buffered ++ [event]) }
  | recovered {url buffered fetched} (h : service.phase = .bootstrapping url buffered) :
      Woken deserialize service (.fetchFinished (.ok fetched))
        { service with
          store := (recoverAltState url fetched buffered service.store).2
          phase := .serving url (recoverAltState url fetched buffered service.store).1 none }
  | due {url updater refresh} (h : service.phase = .serving url updater refresh) :
      Woken deserialize service .refreshDue
        { service with
          phase := .serving url updater
            (some (refresh.getD (.start updater.confirmedSlot))) }
  | finished {url updater refresh result} (h : service.phase = .serving url updater refresh) :
      Woken deserialize service (.refreshFinished result)
        { service with
          store := (installRefreshedAltState result refresh updater service.store url).2
          phase := .serving url
            (installRefreshedAltState result refresh updater service.store url).1 none }
  | applied {input url updater refresh event} (h : service.phase = .serving url updater refresh)
      (hinput : Decodes deserialize service input event) :
      Woken deserialize service input (service.serveEvent url updater refresh event)

variable {deserialize : Deserialize} {service : UpdaterService} {input : Input} {url : String}
  {updater : StateUpdater} {refresh : Option RefreshInProgress}

/-- Every wake-up while the service waits is one of those. -/
theorem woken_waitStep (deserialize : Deserialize) (hphase : service.phase = .waiting)
    (input : Input) : Woken deserialize service input (service.waitStep input) := by
  cases input with
  | yellowstone event =>
    cases event with
    | connected source => exact .awaitConnected hphase
    | disconnected source => exact .awaitDisconnected hphase
    | account source update => exact .passed (by simp) (Or.inl hphase)
    | confirmedSlot source slot => exact .passed (by simp) (Or.inl hphase)
  | shutdown => exact .shutdown
  | channelClosed => exact .channelClosed
  | fetchFinished result => exact .passed (by simp) (Or.inl hphase)
  | refreshDue => exact .passed (by simp) (Or.inl hphase)
  | refreshFinished result => exact .passed (by simp) (Or.inl hphase)

/-- So is every wake-up of a bootstrap. -/
theorem woken_bootstrapStep (deserialize : Deserialize) {buffered : List StateEvent}
    (hphase : service.phase = .bootstrapping url buffered) (input : Input) :
    Woken deserialize service input (service.bootstrapStep deserialize url buffered input) := by
  have hbusy : service.Busy := Or.inl ⟨url, buffered, hphase⟩
  cases input with
  | yellowstone event =>
    cases event with
    | connected source => exact .connected hbusy
    | disconnected source =>
      simp only [bootstrapStep]
      split
      · next hactive =>
        subst hactive
        exact .lost hbusy
      · next hother => exact .disconnected hbusy hother
    | account source update =>
      simp only [bootstrapStep]
      split
      · next hactive =>
        subst hactive
        unfold bufferBootstrapEvent
        split
        · exact .overflowed hphase (by simp)
        · split
          · next event hdecode => exact .buffered hphase (.account hdecode)
          · next error hdecode => exact .broken hbusy hdecode
      · next hother =>
        exact .passed (by simp) (Or.inr (by simp [Renews, FailsActive, hphase, hother]))
    | confirmedSlot source slot =>
      simp only [bootstrapStep]
      split
      · next hactive =>
        subst hactive
        unfold bufferBootstrapEvent
        split
        · exact .overflowed hphase (by simp)
        · exact .buffered hphase (.confirmedSlot slot)
      · exact .passed (by simp) (Or.inr (by simp [Renews, FailsActive, hphase]))
  | shutdown => exact .shutdown
  | channelClosed => exact .channelClosed
  | fetchFinished result =>
    cases result with
    | error error => exact .fetchFailed hphase
    | ok fetched => exact .recovered hphase
  | refreshDue => exact .passed (by simp) (Or.inr (by simp [Renews, FailsActive, hphase]))
  | refreshFinished result =>
    exact .passed (by simp) (Or.inr (by simp [Renews, FailsActive, hphase]))

/-- So is every wake-up of a serving period. -/
theorem woken_serveStep (deserialize : Deserialize)
    (hphase : service.phase = .serving url updater refresh) (input : Input) :
    Woken deserialize service input (service.serveStep deserialize url updater refresh input) := by
  have hbusy : service.Busy := Or.inr ⟨url, updater, refresh, hphase⟩
  cases input with
  | yellowstone event =>
    cases event with
    | connected source => exact .connected hbusy
    | disconnected source =>
      simp only [serveStep]
      split
      · next hactive =>
        subst hactive
        exact .lost hbusy
      · next hother => exact .disconnected hbusy hother
    | account source update =>
      simp only [serveStep]
      split
      · next hactive =>
        subst hactive
        split
        · next event hdecode => exact .applied hphase (.account hdecode)
        · next error hdecode => exact .broken hbusy hdecode
      · next hother =>
        exact .passed (by simp) (Or.inr (by simp [Renews, FailsActive, hphase, hother]))
    | confirmedSlot source slot =>
      simp only [serveStep]
      split
      · next hactive =>
        subst hactive
        exact .applied hphase (.confirmedSlot slot)
      · exact .passed (by simp) (Or.inr (by simp [Renews, FailsActive, hphase]))
  | shutdown => exact .shutdown
  | channelClosed => exact .channelClosed
  | fetchFinished result =>
    exact .passed (by simp) (Or.inr (by simp [Renews, FailsActive, hphase]))
  | refreshDue => exact .due hphase
  | refreshFinished result => exact .finished hphase

/-- Every wake-up is one of those. -/
theorem woken_step (deserialize : Deserialize) (service : UpdaterService) (input : Input) :
    Woken deserialize service input (service.step deserialize input) := by
  unfold step
  cases hphase : service.phase with
  | waiting => exact woken_waitStep deserialize hphase input
  | bootstrapping url buffered => exact woken_bootstrapStep deserialize hphase input
  | serving url updater refresh => exact woken_serveStep deserialize hphase input
  | stopped result => exact .stopped hphase

/-- Waiting for the active source never starts serving. -/
theorem awaitActive_not_serving (service : UpdaterService) :
    service.awaitActive.phase ≠ .serving url updater refresh := by
  unfold awaitActive beginBootstrap stop
  split
  · split <;> simp
  · simp

/-- Restarting never starts serving. -/
theorem restart_not_serving (service : UpdaterService) :
    service.restart.phase ≠ .serving url updater refresh :=
  awaitActive_not_serving _

/-- How a wake-up can leave the service serving: the input, the updater, the running refresh
and the store afterwards. -/
inductive Served (service : UpdaterService) (url : String) :
    Input → StateUpdater → Option RefreshInProgress → Store → Prop where
  /-- Nothing the updater depends on happened. -/
  | idle {wake live running} (h : service.phase = .serving url live running) :
      Served service url wake live running service.store
  /-- A refresh is due; one that is already running goes on. -/
  | due {live running} (h : service.phase = .serving url live running) :
      Served service url .refreshDue live (some (running.getD (.start live.confirmedSlot)))
        service.store
  /-- A refresh ended without a state to install. -/
  | failed {result live running} (h : service.phase = .serving url live running) :
      Served service url (.refreshFinished result) live none service.store
  /-- A refreshed state is installed. -/
  | installed {fetched live completed} (h : service.phase = .serving url live (some completed)) :
      Served service url (.refreshFinished (.ok fetched))
        (recoverAltState url fetched completed.bufferedEvents service.store).1 none
        (recoverAltState url fetched completed.bufferedEvents service.store).2
  /-- A bootstrap completes. -/
  | recovered {fetched buffered} (h : service.phase = .bootstrapping url buffered) :
      Served service url (.fetchFinished (.ok fetched))
        (recoverAltState url fetched buffered service.store).1 none
        (recoverAltState url fetched buffered service.store).2
  /-- An event of the active source is applied, and buffered for a running refresh. -/
  | applied (event : Event) (stateEvent : StateEvent) {live running}
      (h : service.phase = .serving url live running) :
      Served service url (.yellowstone event) (applyStateEvent stateEvent live service.store).1
        (bufferRefreshEvent running stateEvent service.streamCapacity)
        (applyStateEvent stateEvent live service.store).2

/-- Every wake-up that leaves the service serving is one of those. -/
theorem served_step (h : (service.step deserialize input).phase = .serving url updater refresh) :
    Served service url input updater refresh
      (service.step deserialize input).store := by
  have hwoken := woken_step deserialize service input
  generalize service.step deserialize input = next at h hwoken ⊢
  cases hwoken with
  | passed => exact .idle h
  | stopped => exact .idle h
  | shutdown => cases h
  | channelClosed => cases h
  | overflowed => cases h
  | awaitConnected => exact (awaitActive_not_serving _ h).elim
  | awaitDisconnected => exact (awaitActive_not_serving _ h).elim
  | connected => exact .idle h
  | disconnected => exact .idle h
  | lost => exact (restart_not_serving _ h).elim
  | broken => exact (restart_not_serving _ h).elim
  | fetchFailed => exact (restart_not_serving _ h).elim
  | buffered => cases h
  | recovered hphase =>
    cases h
    exact .recovered hphase
  | due hphase =>
    cases h
    exact .due hphase
  | @finished _ _ running result hphase =>
    cases h
    cases running with
    | none => exact .failed hphase
    | some completed =>
      cases result with
      | error error => exact .failed hphase
      | ok fetched => exact .installed hphase
  | @applied _ _ _ _ event hphase hinput =>
    cases h
    cases hinput with
    | account => exact .applied _ event hphase
    | confirmedSlot slot => exact .applied _ (.confirmedSlot slot) hphase

end AltCache.UpdaterService
