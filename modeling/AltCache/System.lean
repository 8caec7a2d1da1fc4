import AltCache.Client.Exactness
import AltCache.Process.Exactness
import AltCache.Replay.Mapped

/-!
# From the chain to the client's readers

Any number of server processes and a client follow one ledger, each over sources of its own.
The client downloads its snapshots from whatever the server it asks serves at that moment. If
every state that a server fetches and every snapshot that the client downloads is handed over
to the stream it is replayed with, every answer of the client is the ledger's.
-/

namespace AltCache

open AltCache.Replay

/-- Server processes by the URL that the client asks them at, and a client. -/
structure System where
  servers : ℕ → Process
  client : Client

/-- What the outside holds for each of them. -/
structure SystemWorld where
  servers : ℕ → ProcessWorld
  client : ClientWorld

/-- The accounts that a server makes of a ledger of updates. -/
def storedLedger (ledger : Ledger Key SubscribeUpdateAccount) (deserialize : Deserialize) :
    Ledger Key (Option Account) :=
  ledger.mapValue (accountOf deserialize)

/-- The states of a system and the outside, where every fetch and every download is handed over.
A server or the client wakes up at a time. -/
inductive SystemReaches (ledger : Ledger Key SubscribeUpdateAccount) (deserialize : Deserialize)
    (allocates : ℕ → Bool) (encodedLen : SnapshotChunk → ℕ) (streamCapacity : ℕ → ℕ)
    (yellowstoneUrls : ℕ → List String) (config : AltConfig) : System → SystemWorld → Prop where
  | start : SystemReaches ledger deserialize allocates encodedLen streamCapacity yellowstoneUrls
      config
      ⟨fun url => .start (streamCapacity url) (yellowstoneUrls url), .connect config⟩
      ⟨fun _ => ⟨fun _ => none, [], fun _ => none⟩, ⟨none, []⟩⟩
  | server {system world} (url : ℕ) {input world'}
      (h : SystemReaches ledger deserialize allocates encodedLen streamCapacity yellowstoneUrls
        config system world)
      (hfeed : ProcessFeeds (storedLedger ledger deserialize) deserialize (system.servers url)
        (world.servers url) input world')
      (hhandover : ProcessHandsOver (storedLedger ledger deserialize) (system.servers url)
        (world.servers url) input) :
      SystemReaches ledger deserialize allocates encodedLen streamCapacity yellowstoneUrls config
        { system with
          servers :=
            Function.update system.servers url ((system.servers url).step deserialize input) }
        { world with servers := Function.update world.servers url world' }
  | client {system world input world'}
      (h : SystemReaches ledger deserialize allocates encodedLen streamCapacity yellowstoneUrls
        config system world)
      (hfeed : ClientFeeds ledger
        (fun url snapshot => (system.servers url).service.store.readSnapshot = .ok snapshot)
        encodedLen system.client world.client input world')
      (hhandover : ClientHandsOver ledger system.client world.client input) :
      SystemReaches ledger deserialize allocates encodedLen streamCapacity yellowstoneUrls config
        { system with client := system.client.step deserialize allocates config input }
        { world with client := world' }

section System

variable {ledger : Ledger Key SubscribeUpdateAccount} {deserialize : Deserialize}
  {allocates : ℕ → Bool} {encodedLen : SnapshotChunk → ℕ} {streamCapacity : ℕ → ℕ}
  {yellowstoneUrls : ℕ → List String} {config : AltConfig} {system : System} {world : SystemWorld}

/-- Servers may be assumed to serve more. -/
theorem ClientFeeds.mono {serves serves' : ℕ → ReadSnapshot → Prop} {client : Client}
    {before after : ClientWorld} {input : ClientInput}
    (h : ClientFeeds ledger serves encodedLen client before input after)
    (himp : ∀ url snapshot, serves url snapshot → serves' url snapshot) :
    ClientFeeds ledger serves' encodedLen client before input after := by
  cases h with
  | subscribed x hcall hattempt => exact .subscribed x hcall hattempt
  | event hstream hevent hcall => exact .event hstream hevent hcall
  | otherMessage hevent => exact .otherMessage hevent
  | sourceFailed error => exact .sourceFailed error
  | firstChunk hcall hattempt hserved hchunks =>
    exact .firstChunk hcall hattempt (himp _ _ hserved) hchunks
  | nextChunk hcall hattempt hbegun hsending => exact .nextChunk hcall hattempt hbegun hsending
  | snapshotEnded => exact .snapshotEnded
  | snapshotFailed error => exact .snapshotFailed error
  | elapsed => exact .elapsed
  | dropped => exact .dropped

/-- A snapshot of the stored accounts is exact for the ledger of updates. -/
theorem ReadSnapshot.exact_of_stored {snapshot : ReadSnapshot}
    (h : Shows (storedLedger ledger deserialize) snapshot.slot (snapshot.accounts[·]?)) :
    snapshot.Exact ledger deserialize :=
  fun k => (h k).trans (Ledger.stateAt_mapValue ..)

/-- A run of the system is a run of each server, and a run of the client whose servers serve
exact snapshots. -/
theorem SystemReaches.parts
    (h : SystemReaches ledger deserialize allocates encodedLen streamCapacity yellowstoneUrls
      config system world) :
    (∀ url, ProcessReaches (storedLedger ledger deserialize) deserialize (streamCapacity url)
      (yellowstoneUrls url) (system.servers url) (world.servers url)) ∧
    ClientReaches ledger deserialize allocates (ExactServers ledger deserialize) encodedLen config
      system.client world.client := by
  induction h with
  | start => exact ⟨fun url => .start, .start⟩
  | @server system world url input world' _ hfeed hhandover ih =>
    refine ⟨fun other => ?_, ih.2⟩
    by_cases hsame : other = url
    · subst hsame
      simp only [Function.update_self]
      exact (ih.1 other).step hfeed hhandover
    · simp only [Function.update_of_ne hsame]
      exact ih.1 other
  | @client system world input world' _ hfeed hhandover ih =>
    refine ⟨ih.1, ih.2.step (hfeed.mono fun url snapshot hserved => ?_) hhandover⟩
    exact ReadSnapshot.exact_of_stored ((ih.1 url).good.2.1.readSnapshot hserved)

/-- Whenever the client waits, whatever a reader of it gets is the ledger's table at the confirmed
slot that readers see, for every interleaving of servers and client and whatever fails, if every
fetch and every download was handed over. So it is while the client handles an input, except that
a confirmation lets readers see its writes before the slot rises. -/
theorem system_answers_exact (hfaithful : Faithful ledger)
    (h : SystemReaches ledger deserialize allocates encodedLen streamCapacity yellowstoneUrls
      config system world) {inner : Inner} {task : ClientTask}
    (hrunning : system.client = .running inner task) :
    inner.Exact ledger deserialize ∧
    ∀ input world',
      ClientFeeds ledger
        (fun url snapshot => (system.servers url).service.store.readSnapshot = .ok snapshot)
        encodedLen system.client world.client input world' →
      ClientHandsOver ledger system.client world.client input →
      ∀ glimpse ∈ system.client.glimpses deserialize allocates config input,
        glimpse.Exact ledger deserialize ∨ glimpse.Confirming ledger deserialize input := by
  obtain ⟨hservers, hclient⟩ := h.parts
  refine ⟨?_, fun input world' hfeed hhandover glimpse hglimpse => ?_⟩
  · obtain ⟨hstep, inputs, hrun⟩ := hclient.inStep hfaithful
    rw [hrunning] at hstep hrun
    exact hstep.exact hrun.symm
  · refine hclient.glimpsed hfaithful hrunning (hfeed.mono fun url snapshot hserved => ?_)
      hhandover hglimpse
    exact ReadSnapshot.exact_of_stored ((hservers url).good.2.1.readSnapshot hserved)

/-- The servers may begin with a run of one of them, -/
theorem SystemReaches.ofServer {url : ℕ} {process : Process} {processWorld : ProcessWorld}
    (h : ProcessReaches (storedLedger ledger deserialize) deserialize (streamCapacity url)
      (yellowstoneUrls url) process processWorld) :
    SystemReaches ledger deserialize allocates encodedLen streamCapacity yellowstoneUrls config
      ⟨Function.update (fun url => .start (streamCapacity url) (yellowstoneUrls url)) url process,
        .connect config⟩
      ⟨Function.update (fun _ => ⟨fun _ => none, [], fun _ => none⟩) url processWorld,
        ⟨none, []⟩⟩ := by
  induction h with
  | start =>
    rw [Function.update_eq_self, Function.update_eq_self_iff.mpr rfl]
    exact .start
  | @step process world input world' _ hfeed hhandover ih =>
    have hserver {servers : ℕ → Process} {worlds : ℕ → ProcessWorld}
        (hreaches : SystemReaches ledger deserialize allocates encodedLen streamCapacity
          yellowstoneUrls config ⟨servers, .connect config⟩ ⟨worlds, ⟨none, []⟩⟩)
        (hprocess : servers url = process) (hworld : worlds url = world) :
        SystemReaches ledger deserialize allocates encodedLen streamCapacity yellowstoneUrls config
          ⟨Function.update servers url ((servers url).step deserialize input), .connect config⟩
          ⟨Function.update worlds url world', ⟨none, []⟩⟩ := by
      subst hprocess
      subst hworld
      exact hreaches.server url hfeed hhandover
    have hnext := hserver ih (Function.update_self ..) (Function.update_self ..)
    simp only [Function.update_self, Function.update_idem] at hnext
    exact hnext

/-- and the client may then run beside what they serve. -/
theorem SystemReaches.ofClient {servers : ℕ → Process} {worlds : ℕ → ProcessWorld}
    {client : Client} {clientWorld : ClientWorld}
    (h : SystemReaches ledger deserialize allocates encodedLen streamCapacity yellowstoneUrls config
      ⟨servers, .connect config⟩ ⟨worlds, ⟨none, []⟩⟩)
    (hclient : ClientReaches ledger deserialize allocates
      (fun url snapshot => (servers url).service.store.readSnapshot = .ok snapshot) encodedLen
      config client clientWorld) :
    SystemReaches ledger deserialize allocates encodedLen streamCapacity yellowstoneUrls config
      ⟨servers, client⟩ ⟨worlds, clientWorld⟩ := by
  induction hclient with
  | start => exact h
  | step _ hfeed hhandover ih => exact ih.client hfeed hhandover

end System

/-- Server 0 has fetched the table of slot 5, and the client has downloaded what it serves and
received the confirmation of slot 6. -/
def systemAtSix : System where
  servers := Function.update (fun _ => .start 8 ["rpc"]) 0 servedAtFive
  client := clientAtSix

/-- The system gets there. -/
theorem reaches_systemAtSix :
    SystemReaches createdAtFive acceptAll roomy (fun _ => targetChunkBytes) (fun _ => 8)
      (fun _ => ["rpc"]) smallConfig systemAtSix
      ⟨Function.update (fun _ => ⟨fun _ => none, [], fun _ => none⟩) 0
        ⟨connectedAtFive, [], connectedAtFive⟩, ⟨some (5, []), []⟩⟩ := by
  have hserver := reaches_servedAtFive
  change ProcessReaches (storedLedger createdAtFive acceptAll) _ _ _ _ _ at hserver
  refine SystemReaches.ofClient (.ofServer hserver) (reaches_clientAtSix ?_)
  rw [Function.update_self]
  rfl

/-- The table that the client finds is the ledger's. -/
theorem systemAtSix_answer :
    ∃ inner task, systemAtSix.client = .running inner task ∧
      some ⟨.filled 1, []⟩ =
        createdAtFive.chain.stateAt (tableOf acceptAll) inner.confirmedSlot (.filled 1) := by
  have hget : clientAtSix.inner?.map (Inner.get · (.filled 1)) =
      some (.ok (some ⟨.filled 1, []⟩)) := by decide +kernel
  obtain ⟨inner, task, hrunning, hfound⟩ := Client.running_of_inner? hget
  exact ⟨inner, task, hrunning,
    (system_answers_exact faithful_createdAtFive reaches_systemAtSix hrunning).1 _ _ hfound⟩

end AltCache
