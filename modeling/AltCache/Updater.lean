import AltCache.StateUpdater

/-!
# The updater service

The service owns the updater. It waits until its active source is connected, fetches a full
state while buffering that source's events, replays the buffer, and then serves: it applies
the active source's events, fails over when the source fails, and now and then fetches a
replacement in the background. Each wait point of the service is a phase of the state
machine; whatever it can wake up on is an input. Fetches and timers are inputs, so every
interleaving is a list of inputs.
-/

namespace AltCache

/-- A message of a source thread. -/
inductive Event where
  | connected (source : ℕ)
  | disconnected (source : ℕ)
  | account (source : ℕ) (update : SubscribeUpdateAccount)
  | confirmedSlot (source slot : ℕ)
  deriving DecidableEq

/-- A decoded event of the active source. -/
inductive StateEvent where
  | account (key : Key) (slot writeVersion : ℕ) (account : Option Account)
  | confirmedSlot (slot : ℕ)
  deriving DecidableEq

/-- The next connected source in cyclic order after the active one, which comes last. -/
def nextConnected (active : ℕ) (connected : Finset ℕ) (count : ℕ) : Option ℕ :=
  ((List.range' 1 count).map fun offset => (active + offset) % count).find? (· ∈ connected)

/-- Decode an account update. A closed, foreign or undecodable account becomes a removal. -/
def decodeAccountUpdate (deserialize : Deserialize) (update : SubscribeUpdateAccount) :
    Except String StateEvent :=
  match update.account with
  | none => .error "account body missing"
  | some account =>
    match Key.ofBytes? account.pubkey with
    | none => .error "invalid account key"
    | some key =>
      match Key.ofBytes? account.owner with
      | none => .error "invalid owner key"
      | some owner =>
        let value :=
          if account.lamports = 0 ∨ owner ≠ programId then none
          else (Account.fromYellowstone deserialize account).toOption
        .ok (.account key update.slot account.writeVersion value)

/-- Apply one decoded event to an updater. -/
def applyStateEvent (event : StateEvent) (updater : StateUpdater) (store : Store) :
    StateUpdater × Store :=
  match event with
  | .account key slot writeVersion account =>
    ((updater.queue key slot writeVersion account).2, store)
  | .confirmedSlot slot => (updater.confirm store slot).2

/-- Apply buffered events in order. -/
def applyStateEvents (events : List StateEvent) (updater : StateUpdater) (store : Store) :
    StateUpdater × Store :=
  events.foldl (fun state event => applyStateEvent event state.1 state.2) (updater, store)

/-- A background fetch, the slot it must reach, and the events buffered since it started. -/
structure RefreshInProgress where
  minimumContextSlot : ℕ
  bufferedEvents : List StateEvent

/-- Start a background fetch. -/
def RefreshInProgress.start (minimumContextSlot : ℕ) : RefreshInProgress :=
  ⟨minimumContextSlot, []⟩

/-- Buffer an event if there is room. -/
def RefreshInProgress.buffer (refresh : RefreshInProgress) (event : StateEvent) (capacity : ℕ) :
    Except String RefreshInProgress :=
  if refresh.bufferedEvents.length < capacity then
    .ok { refresh with bufferedEvents := refresh.bufferedEvents ++ [event] }
  else .error "background refresh update buffer full"

/-- Buffer an event for a background fetch, if one is running; a full buffer aborts it. -/
def bufferRefreshEvent (refresh : Option RefreshInProgress) (event : StateEvent) (capacity : ℕ) :
    Option RefreshInProgress :=
  refresh.bind fun active => (active.buffer event capacity).toOption

/-- Replay buffered events into a fetched state and publish the result. -/
def recoverAltState (url : String) (fetched : FetchedAltState) (buffered : List StateEvent)
    (store : Store) : StateUpdater × Store :=
  let (updater, store) :=
    applyStateEvents buffered (.fromFetchedAltState url fetched) store
  updater.finishRecovery store

/-- Replace the live updater by a completed background fetch. -/
def installRefreshedAltState (result : Except String FetchedAltState)
    (refresh : Option RefreshInProgress) (updater : StateUpdater) (store : Store) (url : String) :
    StateUpdater × Store :=
  match refresh with
  | none => (updater, store)
  | some completed =>
    match result with
    | .error _ => (updater, store)
    | .ok fetched => recoverAltState url fetched completed.bufferedEvents store

/-- The wait points of the service, with the local state of each. -/
inductive Phase where
  | waiting
  | bootstrapping (url : String) (buffered : List StateEvent)
  | serving (url : String) (updater : StateUpdater) (refresh : Option RefreshInProgress)
  | stopped (result : Except String Unit)

/-- The service with the store it publishes to. -/
structure UpdaterService where
  streamCapacity : ℕ
  yellowstoneUrls : List String
  store : Store
  connectedSources : Finset ℕ
  activeSource : ℕ
  phase : Phase

/-- Whatever a wait point can wake up on. -/
inductive Input where
  | shutdown
  | channelClosed
  | fetchFinished (result : Except String FetchedAltState)
  | refreshDue
  | refreshFinished (result : Except String FetchedAltState)
  | yellowstone (event : Event)

namespace UpdaterService

/-- Rotate to the next connected source, if any. -/
def selectNextYellowstone (service : UpdaterService) : UpdaterService :=
  match nextConnected service.activeSource service.connectedSources
      service.yellowstoneUrls.length with
  | some source => { service with activeSource := source }
  | none => service

/-- Stop with a result. -/
def stop (service : UpdaterService) (result : Except String Unit) : UpdaterService :=
  { service with phase := .stopped result }

/-- Leave the serve loop on shutdown: the store stops serving. -/
def shutdown (service : UpdaterService) : UpdaterService :=
  { service with store := service.store.invalidate }.stop (.ok ())

/-- Begin fetching a full state from scratch. Indexing the URLs out of bounds would panic. -/
def beginBootstrap (service : UpdaterService) : UpdaterService :=
  match service.yellowstoneUrls[service.activeSource]? with
  | some url => { service with phase := .bootstrapping url [] }
  | none => service.stop (.error "index out of bounds")

/-- Wait until the active source is connected. -/
def awaitActive (service : UpdaterService) : UpdaterService :=
  if service.activeSource ∈ service.connectedSources then service.beginBootstrap
  else { service with phase := .waiting }

/-- The head of the service loop: become unready and wait for an active source. -/
def restart (service : UpdaterService) : UpdaterService :=
  let service := { service with store := service.store.invalidate }
  let service :=
    if service.activeSource ∈ service.connectedSources then service
    else service.selectNextYellowstone
  service.awaitActive

/-- The service as `run` finds it before its first wait point. -/
def start (streamCapacity : ℕ) (yellowstoneUrls : List String) (store : Store) : UpdaterService :=
  restart
    { streamCapacity, yellowstoneUrls, store
      connectedSources := ∅
      activeSource := 0
      phase := .waiting }

/-- `wait_for_active_yellowstone`: only connectivity events matter. -/
def waitStep (service : UpdaterService) : Input → UpdaterService
  | .shutdown => service.shutdown
  | .channelClosed => service.stop (.error "all Yellowstone sources stopped")
  | .yellowstone (.connected source) =>
    { service with
      connectedSources := insert source service.connectedSources
      activeSource := source }.awaitActive
  | .yellowstone (.disconnected source) =>
    { service with connectedSources := service.connectedSources.erase source }.awaitActive
  | .yellowstone (.account ..) | .yellowstone (.confirmedSlot ..) => service
  | .fetchFinished _ | .refreshDue | .refreshFinished _ => service

/-- Buffer an event during a bootstrap; a full buffer ends the service. -/
def bufferBootstrapEvent (service : UpdaterService) (url : String) (buffered : List StateEvent)
    (event : Except String StateEvent) : UpdaterService :=
  if service.streamCapacity ≤ buffered.length then
    service.stop (.error "bootstrap update buffer full")
  else
    match event with
    | .ok event => { service with phase := .bootstrapping url (buffered ++ [event]) }
    | .error _ => service.selectNextYellowstone.restart

/-- `bootstrap_alt_state`: buffer the active source's events until the fetch returns. -/
def bootstrapStep (deserialize : Deserialize) (service : UpdaterService) (url : String)
    (buffered : List StateEvent) : Input → UpdaterService
  | .shutdown => service.shutdown
  | .channelClosed => service.stop (.error "all Yellowstone sources stopped")
  | .fetchFinished (.error _) => service.restart
  | .fetchFinished (.ok fetched) =>
    let (updater, store) := recoverAltState url fetched buffered service.store
    { service with store, phase := .serving url updater none }
  | .yellowstone (.connected source) =>
    { service with connectedSources := insert source service.connectedSources }
  | .yellowstone (.disconnected failed) =>
    let service := { service with connectedSources := service.connectedSources.erase failed }
    if failed = service.activeSource then service.selectNextYellowstone.restart else service
  | .yellowstone (.account source update) =>
    if source = service.activeSource then
      service.bufferBootstrapEvent url buffered (decodeAccountUpdate deserialize update)
    else service
  | .yellowstone (.confirmedSlot source slot) =>
    if source = service.activeSource then
      service.bufferBootstrapEvent url buffered (.ok (.confirmedSlot slot))
    else service
  | .refreshDue | .refreshFinished _ => service

/-- Apply an event of the active source to the live updater and to a running refresh. -/
def serveEvent (service : UpdaterService) (url : String) (updater : StateUpdater)
    (refresh : Option RefreshInProgress) (event : StateEvent) : UpdaterService :=
  let (updater, store) := applyStateEvent event updater service.store
  { service with
    store
    phase := .serving url updater (bufferRefreshEvent refresh event service.streamCapacity) }

/-- `serve_alt_state`: follow the active source and refresh in the background. -/
def serveStep (deserialize : Deserialize) (service : UpdaterService) (url : String)
    (updater : StateUpdater) (refresh : Option RefreshInProgress) : Input → UpdaterService
  | .shutdown => service.shutdown
  | .channelClosed => service.stop (.error "all Yellowstone sources stopped")
  | .refreshDue =>
    let refresh := refresh.getD (.start updater.confirmedSlot)
    { service with phase := .serving url updater (some refresh) }
  | .refreshFinished result =>
    let (updater, store) := installRefreshedAltState result refresh updater service.store url
    { service with store, phase := .serving url updater none }
  | .yellowstone (.connected source) =>
    { service with connectedSources := insert source service.connectedSources }
  | .yellowstone (.disconnected failed) =>
    let service := { service with connectedSources := service.connectedSources.erase failed }
    if failed = service.activeSource then service.selectNextYellowstone.restart else service
  | .yellowstone (.account source update) =>
    if source = service.activeSource then
      match decodeAccountUpdate deserialize update with
      | .ok event => service.serveEvent url updater refresh event
      | .error _ => service.selectNextYellowstone.restart
    else service
  | .yellowstone (.confirmedSlot source slot) =>
    if source = service.activeSource then
      service.serveEvent url updater refresh (.confirmedSlot slot)
    else service
  | .fetchFinished _ => service

/-- Wake up once. -/
def step (deserialize : Deserialize) (service : UpdaterService) (input : Input) :
    UpdaterService :=
  match service.phase with
  | .waiting => service.waitStep input
  | .bootstrapping url buffered => service.bootstrapStep deserialize url buffered input
  | .serving url updater refresh => service.serveStep deserialize url updater refresh input
  | .stopped _ => service

/-- Wake up on a list of inputs. -/
def run (deserialize : Deserialize) (service : UpdaterService) (inputs : List Input) :
    UpdaterService :=
  inputs.foldl (step deserialize) service

end UpdaterService

end AltCache
