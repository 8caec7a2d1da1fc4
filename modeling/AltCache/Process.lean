import AltCache.Client
import AltCache.Updater

/-!
# The server process

Every Yellowstone source has a thread, the updater has one, and requests are answered by
others. The source threads share a bounded channel to the updater; a thread that finds no room
waits. Each wait point of a thread is a state, and every thread wakes up on inputs of its own,
so every interleaving of the process is a list of inputs. A thread that ends before shutdown
brings the process down.
-/

namespace AltCache

namespace Event

/-- The source that an event is about. -/
def source : Event → ℕ
  | .connected source => source
  | .disconnected source => source
  | .account source _ => source
  | .confirmedSlot source _ => source

end Event

/-- The event that a message of a source is passed on as, if it is. -/
def UpdateOneof.passedOn (source : ℕ) : UpdateOneof → Option Event
  | .ping => none
  | .account update => some (.account source update)
  | .slot s status => if status = slotConfirmed then some (.confirmedSlot source s) else none
  | .other => none

/-- Where the thread of a source waits. -/
inductive SourceThread where
  /-- The connection and the subscription are being made. -/
  | connecting
  /-- The next message of the stream. -/
  | streaming
  /-- Room for an event of the session. -/
  | sending (event : Event)
  /-- The session has failed: room for the disconnection. -/
  | failed
  | delaying
  | ended
  deriving DecidableEq

/-- Whatever the thread of a source can wake up on. -/
inductive SourceInput where
  | subscribed
  | message (update : UpdateOneof)
  /-- The source cannot be reached, its stream ended, failed or went silent, or a ping could
  not be answered. -/
  | sessionFailed
  /-- The channel has room, or nobody receives from it any more. -/
  | sendable
  | elapsed
  | cancelled

/-- Whatever a thread of the process can wake up on. -/
inductive ProcessInput where
  /-- SIGINT or SIGTERM. -/
  | signal
  | source (source : ℕ) (input : SourceInput)
  /-- The updater receives from the channel: an event, or that all senders are gone. -/
  | receive
  /-- The updater sees the cancellation. -/
  | shutdown
  | fetchFinished (result : Except String FetchedAltState)
  | refreshDue
  | refreshFinished (result : Except String FetchedAltState)
  /-- A page of a snapshot is requested. -/
  | snapshotPage (now : ℕ) (snapshotSlot : Option ℕ) (after : Option Key) (limit : ℕ)

/-- The process: the updater with the store, the threads of the sources, the channel between
them, and whether shutdown has begun. -/
structure Process where
  service : UpdaterService
  threads : ℕ → SourceThread
  channel : List Event
  stop : Bool

/-- The panic that a service ends with before shutdown. -/
def spawnService (name : String) (stop : Bool) (result : Except String Unit) : Option String :=
  if stop then none
  else
    match result with
    | .ok () => some (name ++ " exited unexpectedly")
    | .error error => some (name ++ " failed: " ++ error)

namespace Process

/-- `main`: the process with an empty store and a thread for each source. -/
def start (streamCapacity : ℕ) (yellowstoneUrls : List String) : Process where
  service := .start streamCapacity yellowstoneUrls .new
  threads source := if source < yellowstoneUrls.length then .connecting else .ended
  channel := []
  stop := false

/-- The updater has returned, and its end of the channel is gone. -/
def receiverDropped (process : Process) : Bool :=
  match process.service.phase with
  | .stopped _ => true
  | _ => false

/-- All threads of sources have returned, and their ends of the channel are gone. -/
def sendersDropped (process : Process) : Bool :=
  (List.range process.service.yellowstoneUrls.length).all fun source =>
    process.threads source = .ended

/-- Let the thread of a source go on to its next wait point. -/
def setThread (process : Process) (source : ℕ) (thread : SourceThread) : Process :=
  { process with threads := Function.update process.threads source thread }

/-- Send an event if the channel has room, and go on. -/
def send (process : Process) (source : ℕ) (event : Event) (next : SourceThread) : Process :=
  if process.channel.length < process.service.streamCapacity then
    { process with channel := process.channel ++ [event] }.setThread source next
  else process

/-- `yellowstone::run`: wake up the thread of a source. -/
def sourceStep (process : Process) (source : ℕ) (input : SourceInput) : Process :=
  match process.threads source, input with
  | .connecting, .subscribed => process.setThread source (.sending (.connected source))
  | .connecting, .sessionFailed => process.setThread source .failed
  | .streaming, .sessionFailed => process.setThread source .failed
  | .streaming, .message update =>
    match update.passedOn source with
    | some event => process.setThread source (.sending event)
    | none => process
  | .sending event, .sendable =>
    if process.receiverDropped then process.setThread source .failed
    else process.send source event .streaming
  | .failed, .sendable =>
    if process.receiverDropped then process.setThread source .ended
    else process.send source (.disconnected source) .delaying
  | .delaying, .elapsed => process.setThread source .connecting
  | .failed, .cancelled => process
  | _, .cancelled => if process.stop then process.setThread source .ended else process
  | _, _ => process

/-- Wake up the updater. -/
def wake (deserialize : Deserialize) (process : Process) (input : Input) : Process :=
  { process with service := process.service.step deserialize input }

/-- `events.recv`: take the first event, or learn that there will be none. -/
def receive (deserialize : Deserialize) (process : Process) : Process :=
  if process.receiverDropped then process
  else
    match process.channel with
    | event :: channel =>
      { process with channel }.wake deserialize (.yellowstone event)
    | [] => if process.sendersDropped then process.wake deserialize .channelClosed else process

/-- Answer a page request. -/
def page (process : Process) (now : ℕ) (snapshotSlot : Option ℕ) (after : Option Key)
    (limit : ℕ) : Process :=
  { process with
    service := { process.service with
      store := (process.service.store.snapshotPage now snapshotSlot after limit).2 } }

/-- Wake up once. -/
def step (deserialize : Deserialize) (process : Process) : ProcessInput → Process
  | .signal => { process with stop := true }
  | .source source input => process.sourceStep source input
  | .receive => process.receive deserialize
  | .shutdown => if process.stop then process.wake deserialize .shutdown else process
  | .fetchFinished result => process.wake deserialize (.fetchFinished result)
  | .refreshDue => process.wake deserialize .refreshDue
  | .refreshFinished result => process.wake deserialize (.refreshFinished result)
  | .snapshotPage now snapshotSlot after limit => process.page now snapshotSlot after limit

/-- Wake up on a list of inputs. -/
def run (deserialize : Deserialize) (process : Process) (inputs : List ProcessInput) : Process :=
  inputs.foldl (step deserialize) process

/-- The panic that has brought the process down, if any: the updater's or that of a source. -/
def panic (process : Process) : Option String :=
  match process.service.phase with
  | .stopped result => spawnService "alt-state-updater" process.stop result
  | _ =>
    ((List.range process.service.yellowstoneUrls.length).find? fun source =>
      process.threads source = .ended).bind fun source =>
        spawnService ("alt-yellowstone-" ++ toString source) process.stop (.ok ())

@[simp] theorem threads_setThread_self (process : Process) (source : ℕ) (thread : SourceThread) :
    (process.setThread source thread).threads source = thread := Function.update_self ..

@[simp] theorem threads_setThread_of_ne (process : Process) {source other : ℕ}
    (thread : SourceThread) (h : other ≠ source) :
    (process.setThread source thread).threads other = process.threads other :=
  Function.update_of_ne h ..

end Process

end AltCache
