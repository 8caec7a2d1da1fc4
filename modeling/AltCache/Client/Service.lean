import AltCache.Client.Download

/-!
# The client service

`connect` checks the configuration, establishes a first session and leaves a task running
that follows it; when the session fails, the task becomes unready and establishes another
one. Each wait point of the client is a state, and whatever it can wake up on is an input:
stream messages, snapshot chunks, failures and timers arrive in any order, so every
interleaving is a list of inputs. A followed session changes the map that readers see, and
they may look at any moment of it: `glimpses` tells what they find while an input is handled.
-/

namespace AltCache

/-- One Yellowstone endpoint and its optional authentication token. -/
structure YellowstoneGrpcConfig where
  url : String
  token : Option String

/-- The snapshot servers and the Yellowstone sources of a client. -/
structure AltConfig where
  snapshotGrpc : List String
  yellowstoneGrpc : List YellowstoneGrpcConfig

/-- Every URL is nonempty and differs from those before it. -/
def freshUrls (seen : List String) : List String → Bool
  | [] => true
  | url :: urls => url ≠ "" && url ∉ seen && freshUrls (url :: seen) urls

/-- The checks that `connect` begins with. -/
def AltConfig.check (config : AltConfig) : Except String Unit :=
  if config.snapshotGrpc = [] then .error "at least one snapshot gRPC URL is required"
  else if config.yellowstoneGrpc.length = 0 then
    .error "at least one Yellowstone source is required"
  else if ¬ freshUrls [] config.snapshotGrpc then
    .error "snapshot gRPC URLs must be non-empty and unique"
  else if ¬ freshUrls [] (config.yellowstoneGrpc.map YellowstoneGrpcConfig.url) then
    .error "Yellowstone source URLs must be non-empty and unique"
  else .ok ()

/-- Whatever a wait point of the client can wake up on. -/
inductive ClientInput where
  /-- The source accepted the subscription. -/
  | subscribed
  /-- The source cannot be reached, its stream ended, failed or went silent, or a ping could
  not be answered. -/
  | sourceFailed (error : String)
  | update (update : UpdateOneof)
  | chunk (chunk : SnapshotChunk)
  | snapshotEnded
  /-- The snapshot server cannot be reached, or its stream failed. -/
  | snapshotFailed (error : String)
  | elapsed
  /-- The last handle of the cache is dropped. -/
  | dropped

/-- Where an attempt on one source waits. -/
inductive Attempt where
  | connecting
  | bootstrapping (buffered : List BufferedEvent) (url : ℕ) (download : SnapshotDownload)

/-- A call of `establish_session`: it attempts the sources in cyclic order from a first one. -/
structure EstablishCall where
  startSource : ℕ
  offset : ℕ
  attempt : Attempt

/-- What a call of `establish_session` has come to. -/
inductive Establish where
  | going (call : EstablishCall)
  | established (session : Session)
  | failed (error : String)
  | panicked

namespace EstablishCall

/-- Attempt the source at an offset from the first, if there are so many. -/
def attemptAt (config : AltConfig) (startSource offset : ℕ) (lastError : String) : Establish :=
  if offset < config.yellowstoneGrpc.length then .going ⟨startSource, offset, .connecting⟩
  else .failed lastError

/-- Begin `establish_session`. -/
def start (config : AltConfig) (startSource : ℕ) : Establish :=
  attemptAt config startSource 0 "all Yellowstone sources failed"

/-- The source being attempted. -/
def sourceIndex (config : AltConfig) (call : EstablishCall) : ℕ :=
  (call.startSource + call.offset) % config.yellowstoneGrpc.length

/-- The attempt failed; go on with the next source. -/
def attemptFailed (config : AltConfig) (call : EstablishCall) (error : String) : Establish :=
  attemptAt config call.startSource (call.offset + 1) error

/-- `fetch_snapshot_from_any`: request the snapshot from one URL, if there are so many. -/
def fetchFrom (config : AltConfig) (call : EstablishCall) (buffered : List BufferedEvent)
    (url : ℕ) (lastError : String) : Establish :=
  if url < config.snapshotGrpc.length then
    .going { call with attempt := .bootstrapping buffered url .new }
  else call.attemptFailed config lastError

/-- The snapshot is complete; replay what was buffered meanwhile. -/
def finishBootstrap (deserialize : Deserialize) (config : AltConfig) (call : EstablishCall)
    (buffered : List BufferedEvent) (snapshot : CompletedSnapshot) : Establish :=
  match replayBuffered deserialize (call.sourceIndex config) (snapshot.slot, snapshot.tables)
      buffered with
  | .error error => call.attemptFailed config error
  | .ok session => .established session

/-- Wait for the subscription. -/
def connectStep (config : AltConfig) (call : EstablishCall) : ClientInput → Establish
  | .subscribed => call.fetchFrom config [] 0 "all snapshot gRPC URLs failed"
  | .sourceFailed error => call.attemptFailed config error
  | _ => .going call

/-- Buffer the source's events while a snapshot is downloaded. -/
def bootstrapStep (deserialize : Deserialize) (allocates : ℕ → Bool) (config : AltConfig)
    (call : EstablishCall) (buffered : List BufferedEvent) (url : ℕ)
    (download : SnapshotDownload) : ClientInput → Establish
  | .update update =>
    match bufferUpdate buffered update with
    | .error error => call.attemptFailed config error
    | .ok buffered => .going { call with attempt := .bootstrapping buffered url download }
  | .sourceFailed error => call.attemptFailed config error
  | .chunk chunk =>
    if download.pushPanics allocates chunk then .panicked
    else
      match download.push deserialize chunk with
      | .error error => call.fetchFrom config buffered (url + 1) error
      | .ok download => .going { call with attempt := .bootstrapping buffered url download }
  | .snapshotEnded =>
    match download.finish with
    | .error error => call.fetchFrom config buffered (url + 1) error
    | .ok snapshot => call.finishBootstrap deserialize config buffered snapshot
  | .snapshotFailed error => call.fetchFrom config buffered (url + 1) error
  | _ => .going call

/-- Wake up once. -/
def step (deserialize : Deserialize) (allocates : ℕ → Bool) (config : AltConfig)
    (call : EstablishCall) (input : ClientInput) : Establish :=
  match call.attempt with
  | .connecting => call.connectStep config input
  | .bootstrapping buffered url download =>
    call.bootstrapStep deserialize allocates config buffered url download input

end EstablishCall

/-- What readers share with the background task, as it stands at one moment. The map of tables is
the one of the session that the task follows, or of the last one it followed. -/
structure Inner where
  tables : Tables
  ready : Bool
  confirmedSlot : ℕ

/-- Make an established session the one that readers see. -/
def Inner.serving (session : Session) : Inner where
  tables := session.tables
  ready := true
  confirmedSlot := session.confirmedSlot

/-- Look a table up, unless the cache is not ready. -/
def Inner.get (inner : Inner) (key : Address) : Except String (Option AddressLookupTableAccount) :=
  if inner.ready then .ok inner.tables[key]? else .error "ALT cache is not ready"

/-- Where the background task waits, unless a panic has ended it. -/
inductive ClientTask where
  | following (session : Session)
  | delaying (nextSource : ℕ)
  | recovering (call : EstablishCall)
  | panicked

/-- A client: before `connect` returns, after it returned a cache or an error or panicked, and
after the cache was dropped. -/
inductive Client where
  | connecting (call : EstablishCall)
  | running (inner : Inner) (task : ClientTask)
  | refused (error : String)
  | panicked
  | dropped

namespace Client

/-- What `connect` has come to with its first `establish_session`. -/
def ofFirst : Establish → Client
  | .going call => .connecting call
  | .established session => .running (.serving session) (.following session)
  | .failed error => .refused error
  | .panicked => .panicked

/-- What the task has come to with a later `establish_session`. -/
def ofLater (inner : Inner) (nextSource : ℕ) : Establish → Client
  | .going call => .running inner (.recovering call)
  | .established session => .running (.serving session) (.following session)
  | .failed _ => .running inner (.delaying nextSource)
  | .panicked => .running inner .panicked

/-- `connect`: refuse a bad configuration, or establish a session from the first source on. -/
def connect (config : AltConfig) : Client :=
  match config.check with
  | .error error => .refused error
  | .ok () => ofFirst (EstablishCall.start config 0)

/-- The followed session has failed: become unready, and recover from the next source on after
a delay. -/
def disconnected (config : AltConfig) (inner : Inner) (session : Session) : Client :=
  .running { inner with ready := false }
    (.delaying ((session.sourceIndex + 1) % config.yellowstoneGrpc.length))

/-- Follow the session by one message. What readers find meanwhile is told by `glimpses`. -/
def followStep (deserialize : Deserialize) (config : AltConfig) (inner : Inner)
    (session : Session) : ClientInput → Client
  | .update update =>
    match follow deserialize session inner.confirmedSlot [update] with
    | (.error _, session, confirmedSlot) =>
      disconnected config { inner with tables := session.tables, confirmedSlot } session
    | (.ok (), session, confirmedSlot) =>
      .running { inner with tables := session.tables, confirmedSlot } (.following session)
  | .sourceFailed _ => disconnected config inner session
  | _ => .running inner (.following session)

/-- `run`: wake the background task up once. -/
def taskStep (deserialize : Deserialize) (allocates : ℕ → Bool) (config : AltConfig)
    (inner : Inner) (input : ClientInput) : ClientTask → Client
  | .following session => followStep deserialize config inner session input
  | .delaying nextSource =>
    match input with
    | .elapsed => ofLater inner nextSource (EstablishCall.start config nextSource)
    | _ => .running inner (.delaying nextSource)
  | .recovering call =>
    ofLater inner call.startSource (call.step deserialize allocates config input)
  | .panicked => .running inner .panicked

/-- Wake up once. -/
def step (deserialize : Deserialize) (allocates : ℕ → Bool) (config : AltConfig)
    (client : Client) (input : ClientInput) : Client :=
  match client with
  | .connecting call => ofFirst (call.step deserialize allocates config input)
  | .running inner task =>
    match input with
    | .dropped => .dropped
    | input => taskStep deserialize allocates config inner input task
  | .refused error => .refused error
  | .panicked => .panicked
  | .dropped => .dropped

/-- What readers share, once `connect` has returned a cache. -/
def inner? : Client → Option Inner
  | .running inner _ => some inner
  | _ => none

/-- What readers find while the background task handles an input, before it is done: a
confirmation changes the shared map update by update and raises the shared slot after that, and
a recovered session's map and slot are stored before the cache is ready again. -/
def passing (deserialize : Deserialize) (allocates : ℕ → Bool) (config : AltConfig)
    (inner : Inner) (input : ClientInput) : ClientTask → List Inner
  | .following session =>
    match input with
    | .update (.slot slot status) =>
      if status = slotConfirmed ∧ session.confirmedSlot < slot then
        (session.slotGlimpses deserialize (session.pending.slotsThrough slot)).map
          fun tables => { inner with tables }
      else []
    | _ => []
  | .recovering call =>
    match call.step deserialize allocates config input with
    | .established session =>
      [{ inner with tables := session.tables },
        { inner with tables := session.tables, confirmedSlot := session.confirmedSlot }]
    | _ => []
  | _ => []

/-- What readers find, one after another, while a client handles an input; the last is what they
find afterwards. -/
def glimpses (deserialize : Deserialize) (allocates : ℕ → Bool) (config : AltConfig)
    (client : Client) (input : ClientInput) : List Inner :=
  (match client with
    | .running inner task => passing deserialize allocates config inner input task
    | _ => []) ++ (client.step deserialize allocates config input).inner?.toList

/-- Wake up on a list of inputs. -/
def run (deserialize : Deserialize) (allocates : ℕ → Bool) (config : AltConfig)
    (client : Client) (inputs : List ClientInput) : Client :=
  inputs.foldl (step deserialize allocates config) client

/-- A client that shares something with readers is running. -/
theorem running_of_inner? {α : Type} {client : Client} {f : Inner → α} {a : α}
    (h : client.inner?.map f = some a) :
    ∃ inner task, client = .running inner task ∧ f inner = a := by
  cases client with
  | running inner task => exact ⟨inner, task, rfl, Option.some.inj h⟩
  | connecting call => cases h
  | refused error => cases h
  | panicked => cases h
  | dropped => cases h

/-- The last input of a run. -/
theorem run_concat (deserialize : Deserialize) (allocates : ℕ → Bool) (config : AltConfig)
    (client : Client) (inputs : List ClientInput) (input : ClientInput) :
    client.run deserialize allocates config (inputs ++ [input]) =
      (client.run deserialize allocates config inputs).step deserialize allocates config input :=
  List.foldl_concat ..

end Client

end AltCache
