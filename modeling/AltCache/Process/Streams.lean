import AltCache.Api.Stream
import AltCache.System

/-!
# Snapshots streamed while the process runs

Any number of snapshot streams are open beside the updater. Each sends the snapshot that the
store served when it was requested, whatever is published, invalidated or refreshed meanwhile.
So what a client receives is a beginning of that snapshot's chunks, and its download completes
exactly if it has received them all.
-/

namespace AltCache

open AltCache.Replay

/-- A process with the snapshot streams requested from it, in the order of the requests. -/
structure SnapshotServer where
  process : Process
  streams : List SnapshotStream

/-- Whatever the process or one of its streams can wake up on. -/
inductive ServerInput where
  | process (input : ProcessInput)
  | streamSnapshot
  | stream (request : ℕ) (input : StreamInput)

namespace SnapshotServer

/-- Wake up once. A request is refused while the store is not ready. -/
def step (deserialize : Deserialize) (encodedLen : SnapshotChunk → ℕ) (server : SnapshotServer) :
    ServerInput → SnapshotServer
  | .process input => { server with process := server.process.step deserialize input }
  | .streamSnapshot =>
    match server.process.service.store.readSnapshot with
    | .ok snapshot => { server with streams := server.streams ++ [.spawn encodedLen snapshot] }
    | .error _ => server
  | .stream request input =>
    { server with streams := server.streams.modify request (·.step encodedLen input) }

/-- Wake up on a list of inputs. -/
def run (deserialize : Deserialize) (encodedLen : SnapshotChunk → ℕ) (server : SnapshotServer)
    (inputs : List ServerInput) : SnapshotServer :=
  inputs.foldl (step deserialize encodedLen) server

/-- The chunk that the client of a stream gets from a wake-up, if any. -/
def output (server : SnapshotServer) (request : ℕ) : ServerInput → Option SnapshotChunk
  | .stream other input =>
    if other = request then server.streams[request]?.bind (·.output input) else none
  | _ => none

/-- The chunks that the client of a stream gets in a run. -/
def received (deserialize : Deserialize) (encodedLen : SnapshotChunk → ℕ) (request : ℕ) :
    SnapshotServer → List ServerInput → List SnapshotChunk
  | _, [] => []
  | server, input :: inputs =>
    (server.output request input).toList ++
      received deserialize encodedLen request (server.step deserialize encodedLen input) inputs

variable {deserialize : Deserialize} {encodedLen : SnapshotChunk → ℕ} {server : SnapshotServer}
  {request : ℕ} {stream : SnapshotStream} {chunks got : List SnapshotChunk}
  {snapshot : ReadSnapshot}

/-- Whatever wakes up, a stream goes on sending its own chunks. -/
theorem sends_step (deserialize : Deserialize) (hstream : server.streams[request]? = some stream)
    (hsends : stream.Sends encodedLen chunks got) (input : ServerInput) :
    ∃ next, (server.step deserialize encodedLen input).streams[request]? = some next ∧
      next.Sends encodedLen chunks (got ++ (server.output request input).toList) := by
  cases input with
  | process input =>
    refine ⟨stream, hstream, ?_⟩
    simpa [output] using hsends
  | streamSnapshot =>
    refine ⟨stream, ?_, by simpa [output] using hsends⟩
    cases hread : server.process.service.store.readSnapshot with
    | ok snapshot =>
      obtain ⟨hlength, -⟩ := List.getElem?_eq_some_iff.mp hstream
      simp only [step, hread]
      rwa [List.getElem?_append_left hlength]
    | error error => simpa only [step, hread] using hstream
  | stream other input =>
    simp only [step, output, List.getElem?_modify, hstream]
    by_cases hsame : other = request
    · rw [if_pos hsame]
      refine ⟨_, rfl, ?_⟩
      simp only [hsame, if_true]
      exact hsends.step input
    · rw [if_neg hsame]
      refine ⟨_, rfl, ?_⟩
      simpa [hsame] using hsends

/-- In a run a stream goes on sending its own chunks. -/
theorem sends_run (inputs : List ServerInput) (hstream : server.streams[request]? = some stream)
    (hsends : stream.Sends encodedLen chunks got) :
    ∃ next, (server.run deserialize encodedLen inputs).streams[request]? = some next ∧
      next.Sends encodedLen chunks
        (got ++ server.received deserialize encodedLen request inputs) := by
  induction inputs generalizing server stream got with
  | nil => exact ⟨stream, hstream, by simpa [received] using hsends⟩
  | cons input inputs ih =>
    obtain ⟨next, hnext, hsends'⟩ := sends_step deserialize hstream hsends input
    rw [received, ← List.append_assoc]
    exact ih hnext hsends'

/-- A stream requested while the store serves sends what the store serves at that moment. -/
theorem sends_requested (deserialize : Deserialize)
    (hread : server.process.service.store.readSnapshot = .ok snapshot) (inputs : List ServerInput) :
    ∃ stream, (server.run deserialize encodedLen (.streamSnapshot :: inputs)).streams[
        server.streams.length]? = some stream ∧
      stream.Sends encodedLen (snapshotChunks encodedLen snapshot)
        (server.received deserialize encodedLen server.streams.length
          (.streamSnapshot :: inputs)) := by
  have hspawned : (server.step deserialize encodedLen .streamSnapshot).streams[
      server.streams.length]? = some (.spawn encodedLen snapshot) := by
    simp only [step, hread]
    exact List.getElem?_concat_length
  exact sends_run inputs hspawned (SnapshotStream.sends_spawn encodedLen snapshot)

end SnapshotServer

section Delivery

variable {deserialize : Deserialize} {encodedLen : SnapshotChunk → ℕ} {server : SnapshotServer}
  {snapshot : ReadSnapshot} {received : List SnapshotChunk} {inputs : List ServerInput}

/-- Whatever wakes up beside it, the client of a stream receives the chunks of the snapshot that
was served at its request, in order. At most two wait for it, its stream ends exactly when it
has received them all, and until it hangs up the stream can be read to the end. -/
theorem stream_delivers (hread : server.process.service.store.readSnapshot = .ok snapshot)
    (hreceived : received = server.received deserialize encodedLen server.streams.length
      (.streamSnapshot :: inputs)) :
    ∃ stream, (server.run deserialize encodedLen (.streamSnapshot :: inputs)).streams[
        server.streams.length]? = some stream ∧
      stream.channel.length ≤ chunkChannelCapacity ∧
      received <+: snapshotChunks encodedLen snapshot ∧
      (stream.receiverDropped = false →
        (stream.poll = .ended ↔ received = snapshotChunks encodedLen snapshot) ∧
        ∃ later : List StreamInput, .hungUp ∉ later ∧ received.length * 2 + later.length ≤
            (snapshotChunks encodedLen snapshot).length * 2 ∧
          (stream.run encodedLen later).poll = .ended) := by
  obtain ⟨stream, hstream, hsends⟩ := SnapshotServer.sends_requested deserialize hread inputs
  rw [← hreceived] at hsends
  refine ⟨stream, hstream, hsends.room, hsends.inOrder, fun hopen => ⟨hsends.ended_iff hopen, ?_⟩⟩
  obtain ⟨later, hlength, hreads, hended⟩ := SnapshotStream.ends_within hsends hopen
  refine ⟨later, hreads, ?_, hended⟩
  have hwhole := congrArg List.length (hsends.whole hopen)
  rw [List.length_append, List.length_append] at hwhole
  omega

/-- Whatever wakes up beside it, a download from the process completes exactly if its client has
received every chunk, and has the ledger's tables at the slot that was served at its request. -/
theorem download_exact {ledger : Ledger Key SubscribeUpdateAccount} {streamCapacity : ℕ}
    {yellowstoneUrls : List String} {world : ProcessWorld} (hfaithful : Faithful ledger)
    (hreaches : ProcessReaches (storedLedger ledger deserialize) deserialize streamCapacity
      yellowstoneUrls server.process world)
    (hread : server.process.service.store.readSnapshot = .ok snapshot)
    (hreceived : received = server.received deserialize encodedLen server.streams.length
      (.streamSnapshot :: inputs)) :
    ((∃ completed, fetchSnapshot deserialize received = .ok completed) ↔
      received = snapshotChunks encodedLen snapshot) ∧
    ∀ completed, fetchSnapshot deserialize received = .ok completed →
      completed.slot = snapshot.slot ∧ ∀ k : Address,
        completed.tables[k]? = ledger.chain.stateAt (tableOf deserialize) snapshot.slot k := by
  have hexact : snapshot.Exact ledger deserialize :=
    ReadSnapshot.exact_of_stored (hreaches.good.2.1.readSnapshot hread)
  obtain ⟨stream, -, hsends⟩ := SnapshotServer.sends_requested deserialize hread inputs
  rw [← hreceived] at hsends
  obtain ⟨download, hdownload, hiff, hcompleted⟩ :=
    download_iff hsends.inOrder.subset hexact.decodable
  have hfetch : fetchSnapshot deserialize received = download.finish := by
    rw [fetchSnapshot, hdownload]
    rfl
  rw [hfetch, hiff]
  refine ⟨⟨fun hall => ?_, fun hsame => ?_⟩, fun completed hfinish => ?_⟩
  · by_contra hne
    exact not_subset_of_truncated hsends.inOrder hne hall.2
  · subst hsame
    exact ⟨snapshotChunks_ne_nil _ _, List.Subset.refl _⟩
  · obtain ⟨hslot, hagrees⟩ := hcompleted completed hfinish
    exact ⟨hslot, hexact.tables hfaithful hagrees⟩

end Delivery

/-- The process that serves slot 5, without a stream. -/
def servingAtFive : SnapshotServer := ⟨servedAtFive, []⟩

/-- A client reads a stream while the process loses its source. -/
def downloading : List ServerInput :=
  [.streamSnapshot, .stream 0 .sendable, .process (.source 0 .sessionFailed),
    .process (.source 0 .sendable), .process .receive, .stream 0 .polled]

/-- What it receives. -/
def downloadedAtFive : List SnapshotChunk := [⟨5, 1, [⟨List.replicate 32 1, []⟩]⟩]

theorem received_downloading :
    downloadedAtFive = servingAtFive.received acceptAll (fun _ => targetChunkBytes) 0
      downloading := by
  decide +kernel

/-- Its stream has ended, though the store has become unready. -/
theorem downloading_ended :
    (servingAtFive.run acceptAll (fun _ => targetChunkBytes)
      downloading).process.service.store.ready = false ∧
    ∃ stream, (servingAtFive.run acceptAll (fun _ => targetChunkBytes)
      downloading).streams[0]? = some stream ∧ stream.poll = .ended := by
  have hread : servingAtFive.process.service.store.readSnapshot = .ok readAtFive := rfl
  have hchunks : downloadedAtFive = snapshotChunks (fun _ => targetChunkBytes) readAtFive := by
    decide +kernel
  have hhears : (servingAtFive.run acceptAll (fun _ => targetChunkBytes)
      downloading).streams[0]?.map (·.receiverDropped) = some false := by
    decide +kernel
  obtain ⟨stream, hstream, -, -, hopen⟩ := stream_delivers hread received_downloading
  change (servingAtFive.run _ _ downloading).streams[0]? = some stream at hstream
  rw [hstream] at hhears
  exact ⟨by decide +kernel, stream, hstream, (hopen (Option.some.inj hhears)).1.mpr hchunks⟩

/-- It has the ledger's table of slot 5. -/
theorem downloading_exact :
    ∃ completed, fetchSnapshot acceptAll downloadedAtFive = .ok completed ∧
      ∀ k : Address, completed.tables[k]? =
        createdAtFive.chain.stateAt (tableOf acceptAll) 5 k := by
  have hread : servingAtFive.process.service.store.readSnapshot = .ok readAtFive := rfl
  have hchunks : downloadedAtFive = snapshotChunks (fun _ => targetChunkBytes) readAtFive := by
    decide +kernel
  have hserver := reaches_servedAtFive
  change ProcessReaches (storedLedger createdAtFive acceptAll) _ _ _ _ _ at hserver
  obtain ⟨hiff, hexact⟩ :=
    download_exact faithful_createdAtFive hserver hread received_downloading
  obtain ⟨completed, hcompleted⟩ := hiff.mpr hchunks
  exact ⟨completed, hcompleted, (hexact completed hcompleted).2⟩

end AltCache
