import AltCache.Alerts
import AltCache.Config
import AltCache.Process.Progress

/-!
# Starting a server

`main` checks the configuration, sets up logging, the alerts and the channel, and creates a thread
for the updater, one for each source and one for each API service. The threads of the updater and
of the sources resolve their URLs again; after the check none of them fails, and what runs is the
process that `Process.start` describes, beside two API services that bind their addresses and
bring the process down when they end.
-/

namespace AltCache

/-- What a server asks of its host when it is started, with the answers. -/
structure Host where
  env : Environment
  /-- `logging::init` sets up what is configured. -/
  logging : Except String Unit
  /-- A thread of a name is created. -/
  thread : String → Except String Unit
  /-- The runtime of the thread is built. -/
  runtime : String → Except String Unit
  /-- An HTTP client is built. -/
  client : Except String Unit
  /-- The handlers of SIGINT and SIGTERM are registered. -/
  signals : Except String Unit

/-- How `main` ends before it waits for a signal. -/
inductive Exit where
  | failed (error : String)
  | panicked (message : String)

/-- `main` returns an error that it meets. -/
def Exit.returned {α : Type} (result : Except String α) : Except Exit α :=
  result.mapError .failed

/-- The most permits that a semaphore of the runtime holds. -/
def maxPermits : ℕ := 2 ^ 61 - 1

/-- `mpsc::channel`: a capacity out of range panics. -/
def channel (capacity : ℕ) : Except Exit Unit :=
  if capacity = 0 then .error (.panicked "mpsc bounded channel requires buffer > 0")
  else if maxPermits < capacity then
    .error (.panicked ("a semaphore may not have more than MAX_PERMITS permits (" ++
      toString maxPermits ++ ")"))
  else .ok ()

/-- `UpdaterService::new`: a service that resolves its URLs again. -/
def UpdaterService.new (host : Host) (config : Config) (store : Store) :
    Except String UpdaterService := do
  let _ ← config.bootstrapRpc.resolveUrl host.env
  let yellowstoneUrls ← config.sourceUrls host.env
  host.client
  return .start config.streamCapacity yellowstoneUrls store

/-- `yellowstone::run` until it connects: the thread of a source resolves its URL again. -/
def SourceThread.new (env : Environment) (grpc : GrpcSource) : Except String SourceThread :=
  match grpc.resolveUrl env with
  | .ok _ => .ok .connecting
  | .error error => .error ("gRPC source URL was validated: " ++ error)

/-- Where the thread of an API service waits. -/
inductive ApiThread where
  | binding
  | serving
  | ended (result : Except String Unit)

/-- Whatever the thread of an API service can wake up on. -/
inductive ApiInput where
  | bound
  /-- The address cannot be bound, or the server fails. -/
  | failed (error : String)
  | stopped
  | cancelled

namespace ApiThread

/-- `serve_json`: wake up the thread of the JSON-RPC service. Binding is not cancelled. -/
def serveJson (stop : Bool) : ApiThread → ApiInput → ApiThread
  | .binding, .bound => .serving
  | .binding, .failed error => .ended (.error error)
  | .serving, .stopped => .ended (.error "JSON-RPC server stopped")
  | .serving, .cancelled => if stop then .ended (.ok ()) else .serving
  | thread, _ => thread

/-- `serve_grpc`: wake up the thread of the snapshot service. -/
def serveGrpc (stop : Bool) : ApiThread → ApiInput → ApiThread
  | .ended result, _ => .ended result
  | .binding, .bound => .serving
  | _, .failed error => .ended (.error error)
  | .serving, .stopped => .ended (.error "snapshot gRPC server stopped")
  | thread, .cancelled => if stop then .ended (.ok ()) else thread
  | thread, _ => thread

/-- The panic that the service ends with. -/
def panic (name : String) (stop : Bool) : ApiThread → Option String
  | .ended result => spawnService name stop result
  | _ => none

end ApiThread

/-- Whatever the threads of a server can wake up on. -/
inductive ThreadInput where
  | process (input : ProcessInput)
  | jsonRpc (input : ApiInput)
  | snapshotGrpc (input : ApiInput)

/-- The inputs of the updater, the sources and the store among those of a server. -/
def ThreadInput.process? : ThreadInput → Option ProcessInput
  | .process input => some input
  | _ => none

/-- A server whose threads run: the process of its updater and sources, the API services, and the
alerts. -/
structure Server where
  alerts : Option Alerts
  process : Process
  jsonRpc : ApiThread
  snapshotGrpc : ApiThread

namespace Server

/-- Wake up once. -/
def step (deserialize : Deserialize) (server : Server) : ThreadInput → Server
  | .process input => { server with process := server.process.step deserialize input }
  | .jsonRpc input =>
    { server with jsonRpc := server.jsonRpc.serveJson server.process.stop input }
  | .snapshotGrpc input =>
    { server with snapshotGrpc := server.snapshotGrpc.serveGrpc server.process.stop input }

/-- Wake up on a list of inputs. -/
def run (deserialize : Deserialize) (server : Server) (inputs : List ThreadInput) : Server :=
  inputs.foldl (step deserialize) server

/-- The panic that has brought the server down, if any. -/
def panic (server : Server) : Option String :=
  (server.process.panic.or (server.jsonRpc.panic "alt-json-rpc" server.process.stop)).or
    (server.snapshotGrpc.panic "alt-snapshot-grpc" server.process.stop)

end Server

/-- What `main` has spawned: each thread, or the panic it begins with. -/
structure Services where
  alerts : Option Alerts
  updater : Except String UpdaterService
  sources : List (Except String SourceThread)
  jsonRpc : Except String ApiThread
  snapshotGrpc : Except String ApiThread

/-- The name of the thread of a source. -/
def sourceName (index : ℕ) : String := "alt-yellowstone-" ++ toString index

/-- The names of the threads of the services, in the order in which they are spawned. -/
def Config.serviceNames (config : Config) : List String :=
  "alt-state-updater" :: (List.range config.grpcSources.length).map sourceName ++
    ["alt-json-rpc", "alt-snapshot-grpc"]

/-- A service fails with an error before it waits. -/
def serviceFailed {α : Type} (name : String) (result : Except String α) : Except String α :=
  result.mapError fun error => name ++ " failed: " ++ error

namespace Services

/-- Spawn the services, over an empty store. -/
def start (host : Host) (config : Config) (alerts : Option Alerts) : Services where
  alerts
  updater := serviceFailed "alt-state-updater" do
    host.runtime "alt-state-updater"
    UpdaterService.new host config .new
  sources := config.grpcSources.mapIdx fun index grpc => do
    serviceFailed (sourceName index) (host.runtime (sourceName index))
    SourceThread.new host.env grpc
  jsonRpc := serviceFailed "alt-json-rpc" do
    host.runtime "alt-json-rpc"
    return .binding
  snapshotGrpc := serviceFailed "alt-snapshot-grpc" do
    host.runtime "alt-snapshot-grpc"
    return .binding

/-- The server that the services make up, unless one of them fails before it waits. -/
def server (services : Services) : Except String Server := do
  let service ← services.updater
  let threads ← services.sources.mapM id
  let jsonRpc ← services.jsonRpc
  let snapshotGrpc ← services.snapshotGrpc
  return {
    alerts := services.alerts
    process := {
      service
      threads := fun source => threads.getD source .ended
      channel := []
      stop := false }
    jsonRpc
    snapshotGrpc }

end Services

/-- Check a configuration and start its server. -/
def main (host : Host) (config : Config) : Except Exit Services := do
  Exit.returned (config.validate host.env)
  Exit.returned host.logging
  let slack ← Exit.returned
    (Config.resolveWebhook host.env "Slack webhook URL" config.alerts.slack)
  let discord ← Exit.returned
    (Config.resolveWebhook host.env "Discord webhook URL" config.alerts.discord)
  let alerts ← Exit.returned (initAlerts none slack discord)
  Exit.returned (if alerts.join.isSome then host.thread "alt-alerts" else .ok ())
  channel config.streamCapacity
  config.serviceNames.forM fun name => Exit.returned (host.thread name)
  Exit.returned host.signals
  return .start host config alerts.join

/-- The names of all threads of a server: those of the services, after that of the alerts if a
webhook is configured. -/
def Config.threadNames (config : Config) : List String :=
  (if config.alerts.slack.isSome || config.alerts.discord.isSome then ["alt-alerts"] else []) ++
    config.serviceNames

/-- A configuration and a host with which a server can be started. -/
structure Startable (host : Host) (config : Config) : Prop where
  valid : ∃ urls, config.Valid host.env urls
  logging : host.logging = .ok ()
  streamCapacity : config.streamCapacity ≤ maxPermits
  threads : ∀ name ∈ config.threadNames, host.thread name = .ok ()
  signals : host.signals = .ok ()

/-- A host that builds the runtimes and HTTP clients of a server. -/
structure Host.Provides (host : Host) (config : Config) : Prop where
  runtimes : ∀ name ∈ config.threadNames, host.runtime name = .ok ()
  client : host.client = .ok ()

section Startup

variable {host : Host} {config : Config} {urls : List String} {services : Services}

/-- What `main` computes has succeeded with the same result. -/
@[simp] theorem Exit.returned_eq_ok {α : Type} {result : Except String α} {value : α} :
    Exit.returned result = .ok value ↔ result = .ok value := by
  cases result <;> simp [Exit.returned, Except.mapError]

/-- A channel is made if its capacity is in range. -/
@[simp] theorem channel_eq_ok {capacity : ℕ} {made : Unit} :
    channel capacity = .ok made ↔ 0 < capacity ∧ capacity ≤ maxPermits := by
  unfold channel
  split
  · next hzero => simp [hzero]
  · next hpositive =>
    split
    · next hlarge => simp [hlarge]
    · next hroom => simp [Nat.pos_of_ne_zero hpositive, not_lt.mp hroom]

/-- A list of actions succeeds if each does. -/
theorem forM_eq_ok {α : Type} {names : List α} {action : α → Except Exit Unit} {done : Unit} :
    names.forM action = .ok done ↔ ∀ name ∈ names, action name = .ok () := by
  induction names with
  | nil => simp [List.forM_nil, pure, Except.pure]
  | cons name names ih =>
    change (do action name; names.forM action) = _ ↔ _
    rw [Config.bind_eq_ok, List.forall_mem_cons]
    exact ⟨fun ⟨_, hname, hnames⟩ => ⟨hname, ih.mp hnames⟩,
      fun ⟨hname, hnames⟩ => ⟨(), hname, ih.mpr hnames⟩⟩

/-- A webhook is resolved if there is one. -/
theorem isSome_resolveWebhook {env : Environment} {name : String} {webhook : Option WebhookConfig}
    {url : Option String} (h : Config.resolveWebhook env name webhook = .ok url) :
    url.isSome = webhook.isSome := by
  cases webhook with
  | none =>
    obtain rfl := Except.ok.inj h
    rfl
  | some webhook =>
    obtain ⟨value, -, hvalue⟩ := Config.bind_eq_ok.mp h
    obtain rfl := Except.ok.inj hvalue
    rfl

/-- There are alerts exactly if a webhook is given. -/
theorem isSome_initAlerts {slack discord : Option String} {alerts : Option (Option Alerts)}
    (h : initAlerts none slack discord = .ok alerts) :
    alerts.join.isSome = (slack.isSome || discord.isSome) := by
  obtain rfl := Except.ok.inj h
  cases slack <;> cases discord <;> rfl

/-- A server is started exactly under a valid configuration whose channel can be made, on a host
that sets up logging and creates the threads. -/
theorem exists_main_iff :
    (∃ services, main host config = .ok services) ↔ Startable host config := by
  unfold main
  simp only [Config.bind_eq_ok, Exit.returned_eq_ok, channel_eq_ok, forM_eq_ok]
  constructor
  · rintro ⟨services, _, hvalidate, _, hlogging, slack, hslack, discord, hdiscord, alerts,
      halerts, _, hthread, _, ⟨-, hcapacity⟩, _, hthreads, _, hsignals, -⟩
    refine ⟨Config.validate_eq_ok.mp hvalidate, hlogging, hcapacity, fun name hname => ?_, hsignals⟩
    rcases List.mem_append.mp hname with hname | hname
    · rw [isSome_initAlerts halerts, isSome_resolveWebhook hslack,
        isSome_resolveWebhook hdiscord] at hthread
      split at hname
      · next hwebhook =>
        rw [if_pos hwebhook] at hthread
        rwa [List.mem_singleton.mp hname]
      · cases hname
    · exact hthreads name hname
  · rintro ⟨⟨urls, h⟩, hlogging, hcapacity, hthreads, hsignals⟩
    obtain ⟨slack, hslack⟩ := h.slack
    obtain ⟨discord, hdiscord⟩ := h.discord
    have hvalidate : config.validate host.env = .ok () := Config.validate_eq_ok.mpr ⟨urls, h⟩
    refine ⟨_, (), hvalidate, (), hlogging, slack, hslack, discord, hdiscord, _, rfl, (), ?_, (),
      ⟨h.streamCapacity, hcapacity⟩, (),
      fun name hname => hthreads name (List.mem_append_right _ hname), (), hsignals, rfl⟩
    rw [isSome_initAlerts rfl, isSome_resolveWebhook hslack, isSome_resolveWebhook hdiscord]
    split
    · next hwebhook =>
      refine hthreads _ (List.mem_append_left _ ?_)
      rw [if_pos hwebhook]
      exact List.mem_singleton_self _
    · rfl

/-- What has been started are the services of a configuration. -/
theorem start_of_main (hservices : main host config = .ok services) :
    Startable host config ∧ ∃ alerts, services = .start host config alerts := by
  have hstartable := exists_main_iff.mp ⟨services, hservices⟩
  unfold main at hservices
  simp only [Config.bind_eq_ok, Exit.returned_eq_ok, channel_eq_ok, forM_eq_ok] at hservices
  obtain ⟨-, -, -, -, slack, -, discord, -, alerts, -, -, -, -, -, -, -, -, -, hstart⟩ := hservices
  exact ⟨hstartable, alerts.join, (Except.ok.inj hstart).symm⟩

/-- The updater of a valid configuration starts with its URLs. -/
theorem UpdaterService.new_of_valid (h : config.Valid host.env urls)
    (hclient : host.client = .ok ()) (store : Store) :
    UpdaterService.new host config store = .ok (.start config.streamCapacity urls store) := by
  obtain ⟨rpc, hrpc⟩ := h.bootstrapRpc
  have hurls : config.sourceUrls host.env = .ok urls := Config.sourceUrls_eq_ok.mpr h.resolved
  unfold UpdaterService.new
  rewrite [hrpc, hurls, hclient]
  rfl

/-- A source that is resolved has a thread that goes on to connect. -/
theorem SourceThread.new_of_resolved {env : Environment} {grpcSources : List GrpcSource}
    (h : List.Forall₂ (fun grpc url => grpc.resolveUrl env = .ok url) grpcSources urls)
    {grpc : GrpcSource} (hgrpc : grpc ∈ grpcSources) :
    SourceThread.new env grpc = .ok .connecting := by
  induction h with
  | nil => cases hgrpc
  | cons hurl _ ih =>
    rcases List.mem_cons.mp hgrpc with rfl | hgrpc
    · rw [SourceThread.new, hurl]
    · exact ih hgrpc

/-- The threads of a process that was just started, as a table. -/
theorem getD_connecting (count source : ℕ) :
    (List.replicate count SourceThread.connecting).getD source .ended =
      if source < count then .connecting else .ended := by
  rw [List.getD_eq_getElem?_getD, List.getElem?_replicate]
  split <;> rfl

/-- Threads that all start do so as one. -/
theorem mapM_replicate_ok (thread : SourceThread) (count : ℕ) :
    (List.replicate count (Except.ok thread : Except String SourceThread)).mapM id =
      .ok (List.replicate count thread) := by
  induction count with
  | zero => rfl
  | succ count ih =>
    rewrite [List.replicate_succ, List.mapM_cons, ih]
    rfl

/-- The threads of the sources of a valid configuration go on to connect. -/
theorem Services.sources_start (h : config.Valid host.env urls) (hprovides : host.Provides config)
    (alerts : Option Alerts) :
    (Services.start host config alerts).sources = List.replicate urls.length (.ok .connecting) := by
  refine List.eq_replicate_iff.mpr ⟨?_, fun thread hthread => ?_⟩
  · exact List.length_mapIdx.trans h.resolved.length_eq
  · obtain ⟨index, hindex, rfl⟩ := List.mem_mapIdx.mp hthread
    have hname : sourceName index ∈ config.threadNames := by
      refine List.mem_append_right _ (List.mem_append_left _ (List.mem_cons_of_mem _ ?_))
      exact List.mem_map_of_mem (List.mem_range.mpr hindex)
    rewrite [hprovides.runtimes _ hname, SourceThread.new_of_resolved h.resolved
      (List.getElem_mem hindex)]
    rfl

/-- The services of a valid configuration make up the process over its URLs. -/
theorem Services.server_start (h : config.Valid host.env urls) (hprovides : host.Provides config)
    (alerts : Option Alerts) :
    (Services.start host config alerts).server =
      .ok {
        alerts
        process := .start config.streamCapacity urls
        jsonRpc := .binding
        snapshotGrpc := .binding } := by
  have hname {name : String} (hname : name ∈ config.serviceNames) : host.runtime name = .ok () :=
    hprovides.runtimes name (List.mem_append_right _ hname)
  have hupdater : (Services.start host config alerts).updater =
      .ok (.start config.streamCapacity urls .new) := by
    unfold Services.start
    dsimp only
    rewrite [hname (by simp [Config.serviceNames]),
      UpdaterService.new_of_valid h hprovides.client]
    rfl
  have hjson : (Services.start host config alerts).jsonRpc = .ok .binding := by
    unfold Services.start
    dsimp only
    rewrite [hname (by simp [Config.serviceNames])]
    rfl
  have hgrpc : (Services.start host config alerts).snapshotGrpc = .ok .binding := by
    unfold Services.start
    dsimp only
    rewrite [hname (by simp [Config.serviceNames])]
    rfl
  have hserver : (Services.start host config alerts).server =
      .ok {
        alerts
        process := {
          service := .start config.streamCapacity urls .new
          threads := fun source =>
            (List.replicate urls.length SourceThread.connecting).getD source .ended
          channel := []
          stop := false }
        jsonRpc := .binding
        snapshotGrpc := .binding } := by
    unfold Services.server
    rewrite [hupdater, Services.sources_start h hprovides, mapM_replicate_ok, hjson, hgrpc]
    rfl
  rw [hserver, Process.start]
  simp only [getD_connecting]

end Startup

/-- Without a signal to the server none reaches its process. -/
theorem ThreadInput.signal_notMem_process? {inputs : List ThreadInput}
    (h : .process .signal ∉ inputs) : .signal ∉ inputs.filterMap ThreadInput.process? := by
  intro hmem
  obtain ⟨input, hinput, hsame⟩ := List.mem_filterMap.mp hmem
  cases input with
  | process input =>
    obtain rfl := Option.some.inj hsame
    exact h hinput
  | jsonRpc input => cases hsame
  | snapshotGrpc input => cases hsame

namespace Server

variable {deserialize : Deserialize} {server : Server}

/-- The last input of a run. -/
theorem run_concat (deserialize : Deserialize) (server : Server) (inputs : List ThreadInput)
    (input : ThreadInput) : server.run deserialize (inputs ++ [input]) =
      (server.run deserialize inputs).step deserialize input :=
  List.foldl_concat ..

/-- The updater and the sources run on beside the API services. -/
theorem process_run (deserialize : Deserialize) (server : Server) (inputs : List ThreadInput) :
    (server.run deserialize inputs).process =
      server.process.run deserialize (inputs.filterMap ThreadInput.process?) := by
  induction inputs using List.reverseRecOn with
  | nil => rfl
  | append_singleton inputs input ih =>
    rw [run_concat, List.filterMap_append]
    have hapi : (server.run deserialize inputs).process = server.process.run deserialize
        (inputs.filterMap ThreadInput.process? ++ []) := by
      rw [List.append_nil]
      exact ih
    cases input with
    | process input =>
      change (server.run deserialize inputs).process.step deserialize input =
        server.process.run deserialize (inputs.filterMap ThreadInput.process? ++ [input])
      rw [Process.run_concat, ih]
    | jsonRpc input => exact hapi
    | snapshotGrpc input => exact hapi

/-- Shutdown has not begun, and no API service has ended as it does at shutdown. -/
structure Intact (server : Server) : Prop where
  stop : server.process.stop = false
  jsonRpc : server.jsonRpc ≠ .ended (.ok ())
  snapshotGrpc : server.snapshotGrpc ≠ .ended (.ok ())

/-- Every wake-up but a signal leaves the server intact. -/
theorem Intact.step (h : server.Intact) {input : ThreadInput} (hinput : input ≠ .process .signal) :
    (server.step deserialize input).Intact := by
  obtain ⟨hstop, hjson, hgrpc⟩ := h
  cases input with
  | process input =>
    have hsignal : input ≠ .signal := fun hsame => hinput (congrArg _ hsame)
    exact ⟨(Process.stop_step hsignal).trans hstop, hjson, hgrpc⟩
  | jsonRpc input =>
    refine ⟨hstop, ?_, hgrpc⟩
    simp only [Server.step, hstop]
    cases hthread : server.jsonRpc with
    | ended result => simpa [ApiThread.serveJson, hthread] using hjson
    | binding => cases input <;> simp [ApiThread.serveJson]
    | serving => cases input <;> simp [ApiThread.serveJson]
  | snapshotGrpc input =>
    refine ⟨hstop, hjson, ?_⟩
    simp only [Server.step, hstop]
    cases hthread : server.snapshotGrpc with
    | ended result => simpa [ApiThread.serveGrpc, hthread] using hgrpc
    | binding => cases input <;> simp [ApiThread.serveGrpc]
    | serving => cases input <;> simp [ApiThread.serveGrpc]

/-- A run without a signal leaves the server intact. -/
theorem Intact.run (h : server.Intact) {inputs : List ThreadInput}
    (hsignal : .process .signal ∉ inputs) : (server.run deserialize inputs).Intact := by
  induction inputs using List.reverseRecOn with
  | nil => exact h
  | append_singleton inputs input ih =>
    rw [run_concat]
    exact (ih fun hmem => hsignal (List.mem_append_left _ hmem)).step
      fun hsame => hsignal (by simp [hsame])

end Server

/-- Before shutdown an API service panics with the error that it ended with, if it has ended. -/
theorem ApiThread.panic_eq (name : String) {thread : ApiThread} (h : thread ≠ .ended (.ok ())) :
    thread.panic name false = none ∨
      ∃ error, thread = .ended (.error error) ∧
        thread.panic name false = some (name ++ " failed: " ++ error) := by
  cases thread with
  | binding => exact Or.inl rfl
  | serving => exact Or.inl rfl
  | ended result =>
    cases result with
    | ok done => exact (h rfl).elim
    | error error => exact Or.inr ⟨error, rfl, rfl⟩

/-- `main` starts a server exactly under a valid configuration whose channel can be made, on a
host that sets up logging and creates the threads. If the host also provides their runtimes, no
thread fails at its start, and the process over the URLs of the sources runs beside the API
services. As long as no signal arrives, no API service fails, and the bootstrap buffer does not
overflow, it can always come to serve what is fetched. -/
theorem server_starts (host : Host) (config : Config) :
    ((∃ services, main host config = .ok services) ↔ Startable host config) ∧
      ∀ services, main host config = .ok services → host.Provides config →
        ∃ urls server, config.Valid host.env urls ∧ services.server = .ok server ∧
          server.process = .start config.streamCapacity urls ∧
          server.jsonRpc = .binding ∧ server.snapshotGrpc = .binding ∧
          ∀ (deserialize : Deserialize) (inputs : List ThreadInput) (next : Server),
            .process .signal ∉ inputs → next = server.run deserialize inputs →
            (next.panic = none ∧ ∀ fetched : FetchedAltState,
              (∀ url updater refresh, next.process.service.phase = .serving url updater refresh →
                updater.confirmedSlot ≤ fetched.contextSlot) →
              next.process.ServesWithin deserialize fetched
                (next.process.service.store.published fetched.contextSlot fetched.accounts)
                (next.process.channel.length + 11)) ∨
            next.panic = some "alt-state-updater failed: bootstrap update buffer full" ∨
            (∃ error, next.jsonRpc = .ended (.error error) ∧
              next.panic = some ("alt-json-rpc failed: " ++ error)) ∨
            ∃ error, next.snapshotGrpc = .ended (.error error) ∧
              next.panic = some ("alt-snapshot-grpc failed: " ++ error) := by
  refine ⟨exists_main_iff, fun services hservices hprovides => ?_⟩
  obtain ⟨⟨⟨urls, h⟩, -, -, -, -⟩, alerts, rfl⟩ := start_of_main hservices
  refine ⟨urls, _, h, Services.server_start h hprovides alerts, rfl, rfl, rfl, ?_⟩
  rintro deserialize inputs next hsignal hnext
  have hsources : 0 < urls.length := by
    rw [← h.resolved.length_eq]
    exact List.length_pos_iff.mpr h.sources
  have hintact : next.Intact := by
    rw [hnext]
    exact Server.Intact.run ⟨rfl, by simp, by simp⟩ hsignal
  have hprocess : next.process = (Process.start config.streamCapacity urls).run deserialize
      (inputs.filterMap ThreadInput.process?) := by
    rw [hnext, Server.process_run]
  have hquiet := ThreadInput.signal_notMem_process? hsignal
  unfold Server.panic
  rw [hintact.stop]
  rcases Process.live_run deserialize config.streamCapacity hsources _ hquiet hprocess with
    ⟨hlive, hrunning⟩ | ⟨hstop, hphase, -⟩
  · rw [hlive.panic hrunning, Option.none_or]
    rcases ApiThread.panic_eq "alt-json-rpc" hintact.jsonRpc with hjson | ⟨error, hended, hjson⟩
    · rw [hjson, Option.none_or]
      rcases ApiThread.panic_eq "alt-snapshot-grpc" hintact.snapshotGrpc with
        hgrpc | ⟨error, hended, hgrpc⟩
      · have hroom := Process.room_of_running h.streamCapacity hprocess hrunning
        exact Or.inl ⟨hgrpc, fun fetched hslot => hlive.serves hrunning hroom hslot⟩
      · exact Or.inr (Or.inr (Or.inr ⟨error, hended, hgrpc⟩))
    · exact Or.inr (Or.inr (Or.inl ⟨error, hended, by rw [hjson]; rfl⟩))
  · rw [Process.panic_of_full hstop hphase, Option.some_or, Option.some_or]
    exact Or.inr (Or.inl rfl)

/-- One source, whose token is in the environment, and alerts. -/
def smallServer : Config where
  httpAddr := .v4 0 8080
  snapshotGrpcAddr := .v4 0 8081
  bootstrapRpc := ⟨some "rpc", none⟩
  grpcSources := [⟨some "a", none, none, some "TOKEN"⟩]
  yellowstoneIdleTimeoutSecs := 15
  fullRefreshIntervalSecs := 3600
  streamCapacity := 4096
  maxSnapshotPageSize := 100000
  maxDays := 30
  alerts := ⟨some ⟨some "hook", none⟩, none⟩

/-- A host on which nothing fails and the token is set. -/
def smallHost : Host where
  env := fun name => if name = "TOKEN" then some "secret" else none
  logging := .ok ()
  thread _ := .ok ()
  runtime _ := .ok ()
  client := .ok ()
  signals := .ok ()

/-- It is valid. -/
theorem smallServer_valid : smallServer.Valid smallHost.env ["a"] where
  addresses := by decide
  sources := by simp [smallServer]
  streamCapacity := by decide
  maxSnapshotPageSize := by decide
  yellowstoneIdleTimeoutSecs := by decide
  fullRefreshIntervalSecs := by decide
  maxDays := by decide
  bootstrapRpc := ⟨"rpc", rfl⟩
  resolved := .cons rfl .nil
  distinct := by simp
  tokens := fun grpc hgrpc => ⟨some "secret", by rw [List.mem_singleton.mp hgrpc]; rfl⟩
  slack := ⟨some "hook", rfl⟩
  discord := ⟨none, rfl⟩

/-- The server is started, its JSON-RPC service binds its address, the source connects and the
updater begins a bootstrap, and the snapshot service finds its address taken. -/
def takenAddress : List ThreadInput :=
  [.jsonRpc .bound, .process (.source 0 .subscribed), .process (.source 0 .sendable),
    .process .receive, .snapshotGrpc (.failed "Address already in use")]

/-- Until then the server has not panicked, and can come to serve a table fetched at slot 7. -/
theorem smallServer_starts :
    ∃ services server, main smallHost smallServer = .ok services ∧ services.server = .ok server ∧
      (server.run acceptAll (takenAddress.take 4)).process.ServesWithin acceptAll
        Process.tableAtSeven ⟨7, Process.tableAtSeven.accounts⟩ 11 ∧
      ∃ error, (server.run acceptAll takenAddress).panic =
        some ("alt-snapshot-grpc failed: " ++ error) := by
  have hstartable : Startable smallHost smallServer :=
    ⟨⟨_, smallServer_valid⟩, rfl, by decide, fun _ _ => rfl, rfl⟩
  have hprovides : smallHost.Provides smallServer := ⟨fun _ _ => rfl, rfl⟩
  obtain ⟨hmain, hstarts⟩ := server_starts smallHost smallServer
  obtain ⟨services, hservices⟩ := hmain.mpr hstartable
  obtain ⟨urls, ⟨alerts, process, jsonRpc, snapshotGrpc⟩, hvalid, hserver, hprocess, hjson, hgrpc,
    hruns⟩ := hstarts services hservices hprovides
  obtain rfl : urls = ["a"] := by
    have hresolved := hvalid.resolved
    cases hresolved with
    | cons hurl hrest =>
      cases hrest
      rw [← Except.ok.inj (hurl.symm.trans rfl)]
  obtain rfl : process = _ := hprocess
  obtain rfl : jsonRpc = _ := hjson
  obtain rfl : snapshotGrpc = _ := hgrpc
  refine ⟨services, _, hservices, hserver, ?_, ?_⟩
  · rcases hruns acceptAll (takenAddress.take 4) _ (by simp [takenAddress]) rfl with
      ⟨-, hserves⟩ | hpanic | ⟨error, -, hpanic⟩ | ⟨error, -, hpanic⟩
    · exact hserves Process.tableAtSeven fun url updater refresh hphase => by cases hphase
    · cases hpanic
    · cases hpanic
    · cases hpanic
  · rcases hruns acceptAll takenAddress _ (by simp [takenAddress]) rfl with
      ⟨hpanic, -⟩ | hpanic | ⟨error, hended, -⟩ | ⟨error, -, hpanic⟩
    · cases hpanic
    · have hsame : "alt-snapshot-grpc failed: Address already in use" =
          "alt-state-updater failed: bootstrap update buffer full" := Option.some.inj hpanic
      exact absurd hsame (by decide)
    · cases hended
    · exact ⟨error, hpanic⟩

end AltCache
