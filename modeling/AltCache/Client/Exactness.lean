import AltCache.Client.Handoff
import AltCache.Client.Readers
import AltCache.UiAccount

/-!
# Exact answers through every failure

Sources deliver the ledger from the slot they were subscribed at, snapshot servers answer with
exact snapshots of slots of their own choosing, and both fail at any point. Whenever a snapshot
is handed over to the stream it was downloaded beside, the session it begins is exact from
then on. So every answer that readers get, after any number of failures and recoveries, is the
ledger's table at the confirmed slot they see.
-/

namespace AltCache

open Std (ExtTreeMap)
open AltCache.Replay

/-- Every write of a ledger is the one its update makes. -/
def Faithful (ledger : Ledger Key SubscribeUpdateAccount) : Prop :=
  ∀ w ∈ ledger.writes, w.value.write? = some w

/-- A session over an exact snapshot of slot `b` has received a stretch of the stream of a source
subscribed at slot `x`, and `rest` is still to come. -/
structure Session.Replays (ledger : Ledger Key SubscribeUpdateAccount) (deserialize : Deserialize)
    (x b : ℕ) (buffered live : List BufferedEvent)
    (rest : List (Call Key SubscribeUpdateAccount)) (session : Session) : Prop where
  stream : ledger.streamFrom (x + 1) = eventCalls buffered ++ eventCalls live ++ rest
  tracks : session.Tracks deserialize (ledger.chain.stateAt (tableOf deserialize) b)
    ((Staging.start b).run (sessionCalls buffered live))
  swept : ((Staging.start b).run (sessionCalls buffered live)).Swept
  bridged : Bridged ledger b x
  whole : Ledger.Whole b (eventCalls buffered ++ eventCalls live) rest

namespace Session.Replays

variable {ledger : Ledger Key SubscribeUpdateAccount} {deserialize : Deserialize} {x b : ℕ}
  {buffered live : List BufferedEvent} {rest : List (Call Key SubscribeUpdateAccount)}
  {session session' : Session}

/-- A session established over an exact snapshot that is handed over. -/
theorem start {sourceIndex : ℕ} {tables : Tables}
    (hbuffered : ∀ event ∈ buffered, event.call?.isSome)
    (hreplay : replayBuffered deserialize sourceIndex (b, tables) buffered = .ok session)
    (hexact : ∀ k : Address, tables[k]? = ledger.chain.stateAt (tableOf deserialize) b k)
    (hstream : ledger.streamFrom (x + 1) = eventCalls buffered ++ rest)
    (hbridged : Bridged ledger b x) (hwhole : Ledger.Whole b (eventCalls buffered) rest) :
    session.Replays ledger deserialize x b buffered [] rest := by
  have htracks := Session.tracks_replayBuffered hbuffered hreplay
  rw [funext hexact] at htracks
  have hswept : ((Staging.start b).run (sessionCalls buffered [])).Swept := by
    change ((Staging.start b).run (eventCalls buffered ++ [.settle])).Swept
    rw [Staging.run_append]
    exact Staging.swept_settle _
  refine ⟨?_, htracks, hswept, hbridged, ?_⟩
  · rwa [eventCalls_nil, List.append_nil]
  · rwa [eventCalls_nil, List.append_nil]

/-- The confirmed slot is the highest one received, or the snapshot's. -/
theorem confirmedSlot_eq (h : session.Replays ledger deserialize x b buffered live rest) :
    session.confirmedSlot = confirmedBy b (eventCalls buffered ++ eventCalls live) := by
  rw [h.tracks.confirmedSlot, Staging.confirmed_run, sessionCalls, confirmedBy_append,
    confirmedBy_settle_cons, confirmedBy_append]
  rfl

/-- Handling the next event of the stream without error. -/
theorem handle {event : BufferedEvent} {call : Call Key SubscribeUpdateAccount} {risen : Bool}
    (h : session.Replays ledger deserialize x b buffered live (call :: rest))
    (hcall : event.call? = some call)
    (hok : session.handle deserialize false event = (.ok risen, session')) :
    session'.Replays ledger deserialize x b buffered (live ++ [event]) rest := by
  have hcalls : eventCalls (live ++ [event]) = eventCalls live ++ [call] := by
    rw [eventCalls_append, eventCalls_cons hcall, eventCalls_nil]
  have hlife : sessionCalls buffered (live ++ [event]) = sessionCalls buffered live ++ [call] := by
    rw [sessionCalls, hcalls, sessionCalls, List.append_assoc, List.cons_append]
  have habove := h.tracks.above_of_handle hcall hok
  refine ⟨?_, ?_, ?_, h.bridged, ?_⟩
  · rw [h.stream, hcalls]
    simp
  · rw [hlife, Staging.run_append, Staging.run_singleton]
    exact h.tracks.handle hcall hok
  · rw [hlife, Staging.run_append, Staging.run_singleton]
    exact h.swept.call habove
  · -- a write that was just received lies above the confirmed slot, so not in slot `b`
    intro v hv hvb w hw hkey
    rw [hcalls, ← List.append_assoc, delivered_append] at hv
    rcases List.mem_append.mp hv with hv | hv
    · refine h.whole v hv hvb w ?_ hkey
      rw [delivered_cons call rest]
      exact List.mem_append_right _ hw
    · have hfloor : ((Staging.start b).run (sessionCalls buffered live) :
          Staging Key SubscribeUpdateAccount).floor = b := Staging.floor_run _ _
      have hlt := habove v hv (by rw [hfloor, hvb])
      rw [← h.tracks.confirmedSlot, h.confirmedSlot_eq] at hlt
      have hle := le_confirmedBy b (eventCalls buffered ++ eventCalls live)
      omega

/-- The tables are the ledger's state at the confirmed slot. -/
theorem exact (h : session.Replays ledger deserialize x b buffered live rest) (k : Address) :
    session.tables[k]? =
      ledger.chain.stateAt (tableOf deserialize) session.confirmedSlot k := by
  have hstretch : ledger.streamFrom (x + 1) =
      [] ++ ((eventCalls buffered ++ eventCalls live) ++ rest) := h.stream
  have hdelivered : delivered (sessionCalls buffered live) =
      delivered (eventCalls buffered ++ eventCalls live) := by
    rw [delivered_sessionCalls, eventCalls_append]
  have hjournal : ((Journal.start b).run (sessionCalls buffered live)).toStaging =
      (Staging.start b).run (sessionCalls buffered live) := by
    refine Journal.toStaging_run (fun _ _ a ha => absurd ha List.not_mem_nil) ?_
    rw [hdelivered]
    exact (Ledger.pairwise_delivered hstretch).imp And.right
  have hswept := h.swept
  rw [← hjournal] at hswept
  rw [h.tracks.tables, ← hjournal, h.confirmedSlot_eq]
  refine Ledger.handover_exact hstretch ?_ h.whole hdelivered ?_ hswept rfl
  · rw [← h.stream]
    exact h.bridged.covered
  · rw [sessionCalls, confirmedBy_append, confirmedBy_settle_cons, confirmedBy_append]

/-- Once some of the updates that a confirmation releases are applied, every table is the one
confirmed before or the one that one of their writes makes. -/
theorem confirming {slot : ℕ} {applied : List SubscribeUpdateAccount} {tables : Tables}
    (h : session.Replays ledger deserialize x b buffered live rest)
    (hfirst : applied <+: session.pending.through slot)
    (happlied : applied.foldlM (applyUpdate deserialize) session.tables = .ok tables)
    (k : Address) :
    tables[k]? = ledger.chain.stateAt (tableOf deserialize) session.confirmedSlot k ∨
      ∃ w ∈ ledger.writes, w.key = k ∧ session.confirmedSlot < w.slot ∧ w.slot ≤ slot ∧
        tables[k]? = tableOf deserialize w.value := by
  rw [h.tracks.through_pending] at hfirst
  obtain ⟨writes, hwrites, rfl⟩ := List.prefix_map_iff.mp hfirst
  have hstaged {w : Write Key SubscribeUpdateAccount} (hw : w ∈ writes) :
      w ∈ ((Staging.start b).run (sessionCalls buffered live)).staged ∧ w.slot ≤ slot := by
    simpa using hwrites.subset hw
  have hvalue (w : Write Key SubscribeUpdateAccount) (hw : w ∈ writes) :
      w.value.write? = some w := h.tracks.staged w (hstaged hw).1
  have hqueue := applyQueue_ok_iff.mpr happlied
  have hdecodes (w : Write Key SubscribeUpdateAccount) (hw : w ∈ writes) :
      ¬ Undecodable deserialize w.value := by
    intro hundecodable
    have hfails := applyQueue_undecodable hvalue ⟨w, hw, hundecodable⟩ session.tables
    rw [hqueue] at hfails
    cases hfails
  obtain ⟨tables', hqueue', htables⟩ := applyQueue_of_writes hvalue hdecodes session.tables
  obtain rfl := (Prod.mk.inj (hqueue.symm.trans hqueue')).2
  rw [htables]
  cases hlast : (ofKey k writes).getLast? with
  | none => exact Or.inl (h.exact k)
  | some w =>
    obtain ⟨hw, hkey⟩ := mem_ofKey.mp (List.mem_of_getLast? hlast)
    obtain ⟨hwaiting, hslot⟩ := hstaged hw
    have hdelivered : w ∈ delivered (sessionCalls buffered live) :=
      ((Staging.mem_accepted_run.mp (List.mem_append_right _ hwaiting)).resolve_left
        List.not_mem_nil).1
    rw [delivered_sessionCalls, eventCalls_append, mem_delivered] at hdelivered
    have hstreamed : .queue w ∈ ledger.streamFrom (x + 1) := by
      rw [h.stream]
      exact List.mem_append_left _ hdelivered
    have hrises := h.swept w hwaiting
    rw [← h.tracks.confirmedSlot] at hrises
    exact Or.inr ⟨w, (Ledger.queue_mem_streamFrom.mp hstreamed).1, hkey, hrises, hslot, rfl⟩

end Session.Replays

/-- A served snapshot holds the ledger's accounts of its slot, whether they were fetched or
delivered. -/
def ReadSnapshot.Exact (ledger : Ledger Key SubscribeUpdateAccount) (deserialize : Deserialize)
    (snapshot : ReadSnapshot) : Prop :=
  ∀ k : Key, (snapshot.accounts[k]?).map Account.received =
    ledger.chain.stateAt (fun update => (accountOf deserialize update).map Account.received)
      snapshot.slot k

section Download

variable {ledger : Ledger Key SubscribeUpdateAccount} {deserialize : Deserialize}
  {snapshot : ReadSnapshot}

/-- An account received over RPC has the same data, -/
@[simp] theorem data_received (account : Account) :
    account.received.value.data = account.value.data := rfl

/-- so it is decoded to the same table. -/
theorem map_received (account : Option Account) (key : Key) :
    ((account.map Account.received).map fun account =>
        (deserialize account.value.data).map (AddressLookupTableAccount.mk key)) =
      account.map fun account =>
        (deserialize account.value.data).map (AddressLookupTableAccount.mk key) :=
  Option.map_map ..

/-- An account that the server stores can be decoded. -/
theorem isSome_deserialize_of_accountOf {update : SubscribeUpdateAccount} {account : Account}
    (h : accountOf deserialize update = some account) :
    (deserialize account.value.data).isSome := by
  obtain ⟨body, -, h⟩ := Option.bind_eq_some_iff.mp h
  split at h
  · cases h
  · unfold Account.fromYellowstone at h
    split_ifs at h
    · cases h
    · cases h
    · cases hdata : deserialize body.data with
      | none =>
        rw [hdata] at h
        cases h
      | some addresses =>
        rw [hdata] at h
        cases h
        rw [hdata]
        rfl

/-- Every table of an exact snapshot can be decoded. -/
theorem ReadSnapshot.Exact.decodable (h : snapshot.Exact ledger deserialize) :
    Decodable deserialize snapshot.accounts := by
  intro entry hentry
  have hserved := h entry.1
  rw [ExtTreeMap.mem_toList_iff_getElem?_eq_some.mp hentry] at hserved
  obtain ⟨w, -, hw⟩ := Option.bind_eq_some_iff.mp hserved.symm
  obtain ⟨account, haccount, hsame⟩ := Option.map_eq_some_iff.mp hw
  rw [← data_received entry.2, ← hsame, data_received]
  exact isSome_deserialize_of_accountOf haccount

/-- Tables that agree with an exact snapshot are the ledger's tables of its slot. -/
theorem ReadSnapshot.Exact.tables (h : snapshot.Exact ledger deserialize)
    (hfaithful : Faithful ledger) {tables : Tables}
    (hagrees : Agrees deserialize snapshot.accounts tables) (k : Address) :
    tables[k]? = ledger.chain.stateAt (tableOf deserialize) snapshot.slot k := by
  have hagree := hagrees k
  rw [← map_received, h] at hagree
  unfold Chain.stateAt at hagree ⊢
  cases hnewest : ledger.chain.newestAt snapshot.slot k with
  | none =>
    rw [hnewest] at hagree
    exact Option.map_eq_none_iff.mp hagree
  | some w =>
    rw [hnewest] at hagree
    obtain ⟨hmem, hkey, -⟩ := newest_eq_some hnewest
    subst hkey
    have hw := hfaithful w (List.mem_filter.mp hmem).1
    rw [Option.bind_some, map_received] at hagree
    exact Option.map_injective (Option.some_injective _)
      (hagree.trans (tableOf_eq_accountOf hw).symm)

end Download

/-- What the outside holds for a client: the slot its source was subscribed at with what the
source has still to deliver, and the chunks that the answering snapshot server has still to
send. -/
structure ClientWorld where
  stream : Option (ℕ × List (Call Key SubscribeUpdateAccount))
  sending : List SnapshotChunk

/-- The call of `establish_session` that is going on. -/
def Client.call? : Client → Option EstablishCall
  | .connecting call => some call
  | .running _ (.recovering call) => some call
  | _ => none

/-- The inputs the outside can produce. A subscription delivers the ledger from a slot on, a
snapshot request is answered with the chunks of a snapshot that the server serves, and either
may end at any point. -/
inductive ClientFeeds (ledger : Ledger Key SubscribeUpdateAccount)
    (serves : ℕ → ReadSnapshot → Prop) (encodedLen : SnapshotChunk → ℕ) (client : Client) :
    ClientWorld → ClientInput → ClientWorld → Prop where
  | subscribed {world call} (x : ℕ) (hcall : client.call? = some call)
      (hattempt : call.attempt = .connecting) :
      ClientFeeds ledger serves encodedLen client world .subscribed
        { world with stream := some (x, ledger.streamFrom (x + 1)) }
  | event {world x call rest update event} (hstream : world.stream = some (x, call :: rest))
      (hevent : update.event? = some event) (hcall : event.call? = some call) :
      ClientFeeds ledger serves encodedLen client world (.update update)
        { world with stream := some (x, rest) }
  | otherMessage {world update} (hevent : update.event? = none) :
      ClientFeeds ledger serves encodedLen client world (.update update) world
  | sourceFailed {world} (error : String) :
      ClientFeeds ledger serves encodedLen client world (.sourceFailed error)
        { world with stream := none }
  /-- The first chunk of a download: the server has read a snapshot. -/
  | firstChunk {world call buffered url chunk rest} {snapshot : ReadSnapshot}
      (hcall : client.call? = some call)
      (hattempt : call.attempt = .bootstrapping buffered url .new)
      (hserved : serves url snapshot)
      (hchunks : snapshotChunks encodedLen snapshot = chunk :: rest) :
      ClientFeeds ledger serves encodedLen client world (.chunk chunk)
        { world with sending := rest }
  | nextChunk {world call buffered url download chunk rest} (hcall : client.call? = some call)
      (hattempt : call.attempt = .bootstrapping buffered url download) (hbegun : download ≠ .new)
      (hsending : world.sending = chunk :: rest) :
      ClientFeeds ledger serves encodedLen client world (.chunk chunk)
        { world with sending := rest }
  | snapshotEnded {world} :
      ClientFeeds ledger serves encodedLen client world .snapshotEnded world
  | snapshotFailed {world} (error : String) :
      ClientFeeds ledger serves encodedLen client world (.snapshotFailed error) world
  | elapsed {world} : ClientFeeds ledger serves encodedLen client world .elapsed world
  | dropped {world} : ClientFeeds ledger serves encodedLen client world .dropped world

/-- The snapshot that an input completes is handed over to the stream: the stream bridges the gap
between their slots, and what was buffered does not stop inside the snapshot's slot. -/
def ClientHandsOver (ledger : Ledger Key SubscribeUpdateAccount) (client : Client)
    (world : ClientWorld) (input : ClientInput) : Prop :=
  ∀ call buffered url download snapshot x rest, input = .snapshotEnded →
    client.call? = some call → call.attempt = .bootstrapping buffered url download →
    download.finish = .ok snapshot → world.stream = some (x, rest) →
    Bridged ledger snapshot.slot x ∧ Ledger.Whole snapshot.slot (eventCalls buffered) rest

/-- The states of the client and the outside, where every completed snapshot is handed over. -/
inductive ClientReaches (ledger : Ledger Key SubscribeUpdateAccount) (deserialize : Deserialize)
    (allocates : ℕ → Bool) (serves : ℕ → ReadSnapshot → Prop) (encodedLen : SnapshotChunk → ℕ)
    (config : AltConfig) : Client → ClientWorld → Prop where
  | start : ClientReaches ledger deserialize allocates serves encodedLen config (.connect config)
      ⟨none, []⟩
  | step {client world input world'}
      (h : ClientReaches ledger deserialize allocates serves encodedLen config client world)
      (hfeed : ClientFeeds ledger serves encodedLen client world input world')
      (hhandover : ClientHandsOver ledger client world input) :
      ClientReaches ledger deserialize allocates serves encodedLen config
        (client.step deserialize allocates config input) world'

/-- Every server serves exact snapshots. -/
def ExactServers (ledger : Ledger Key SubscribeUpdateAccount) (deserialize : Deserialize)
    (_url : ℕ) (snapshot : ReadSnapshot) : Prop := snapshot.Exact ledger deserialize

section Reaches

variable {ledger : Ledger Key SubscribeUpdateAccount} {deserialize : Deserialize}
  {allocates : ℕ → Bool} {encodedLen : SnapshotChunk → ℕ} {config : AltConfig} {client : Client}
  {world : ClientWorld} {buffered : List BufferedEvent} {download : SnapshotDownload}

/-- A download has the chunks that the server has sent of an exact snapshot. -/
def Downloads (ledger : Ledger Key SubscribeUpdateAccount) (deserialize : Deserialize)
    (encodedLen : SnapshotChunk → ℕ) (sending : List SnapshotChunk)
    (download : SnapshotDownload) : Prop :=
  download = .new ∨ ∃ snapshot received, snapshot.Exact ledger deserialize ∧
    snapshotChunks encodedLen snapshot = received ++ sending ∧
    SnapshotDownload.new.pushAll deserialize received = .ok download

/-- A completed download of an exact snapshot is exact. -/
theorem Downloads.finish {sending : List SnapshotChunk}
    (h : Downloads ledger deserialize encodedLen sending download) (hfaithful : Faithful ledger)
    {completed : CompletedSnapshot} (hfinish : download.finish = .ok completed) (k : Address) :
    completed.tables[k]? = ledger.chain.stateAt (tableOf deserialize) completed.slot k := by
  rcases h with rfl | ⟨snapshot, received, hexact, hchunks, hdownload⟩
  · cases hfinish
  · have hreceived : received ⊆ snapshotChunks encodedLen snapshot := by
      rw [hchunks]
      exact List.subset_append_left _ _
    obtain ⟨download', hdownload', -, hcompleted⟩ := download_iff hreceived hexact.decodable
    obtain rfl := Except.ok.inj (hdownload.symm.trans hdownload')
    obtain ⟨hslot, hagrees⟩ := hcompleted completed hfinish
    rw [hslot]
    exact hexact.tables hfaithful hagrees k

/-- An attempt has buffered the stretch of its source's stream that was delivered, and downloads
an exact snapshot. -/
def Attempts (ledger : Ledger Key SubscribeUpdateAccount) (deserialize : Deserialize)
    (encodedLen : SnapshotChunk → ℕ) (world : ClientWorld) (buffered : List BufferedEvent)
    (download : SnapshotDownload) : Prop :=
  (∃ x rest, world.stream = some (x, rest) ∧
    ledger.streamFrom (x + 1) = eventCalls buffered ++ rest ∧
    ∀ event ∈ buffered, event.call?.isSome) ∧
  Downloads ledger deserialize encodedLen world.sending download

/-- A call of `establish_session` is in step with the outside: so is its attempt, and a session
it establishes follows its source's stream. -/
def Establish.InStep (ledger : Ledger Key SubscribeUpdateAccount) (deserialize : Deserialize)
    (encodedLen : SnapshotChunk → ℕ) (world : ClientWorld) : Establish → Prop
  | .going call => ∀ buffered url download, call.attempt = .bootstrapping buffered url download →
      Attempts ledger deserialize encodedLen world buffered download
  | .established session => ∃ x b buffered live rest, world.stream = some (x, rest) ∧
      session.Replays ledger deserialize x b buffered live rest
  | .failed _ => True
  | .panicked => True

/-- A client is in step with the outside: so is the call it waits for, and the session it
follows has received a stretch of its source's stream. -/
def Client.InStep (ledger : Ledger Key SubscribeUpdateAccount) (deserialize : Deserialize)
    (encodedLen : SnapshotChunk → ℕ) (world : ClientWorld) : Client → Prop
  | .connecting call => (Establish.going call).InStep ledger deserialize encodedLen world
  | .running _ (.following session) =>
      (Establish.established session).InStep ledger deserialize encodedLen world
  | .running _ (.recovering call) =>
      (Establish.going call).InStep ledger deserialize encodedLen world
  | _ => True

/-- The next event of the stream is buffered. -/
theorem Attempts.event {call : Call Key SubscribeUpdateAccount} {x : ℕ}
    {rest : List (Call Key SubscribeUpdateAccount)} {event : BufferedEvent}
    (h : Attempts ledger deserialize encodedLen world buffered download)
    (hstream : world.stream = some (x, call :: rest)) (hcall : event.call? = some call) :
    Attempts ledger deserialize encodedLen { world with stream := some (x, rest) }
      (buffered ++ [event]) download := by
  obtain ⟨⟨x', rest', hheld, hledger, hevents⟩, hdownload⟩ := h
  obtain ⟨rfl, rfl⟩ := Prod.mk.inj (Option.some.inj (hheld.symm.trans hstream))
  refine ⟨⟨x', rest, rfl, ?_, ?_⟩, hdownload⟩
  · rw [hledger, eventCalls_append, eventCalls_cons hcall]
    simp
  · intro other hother
    rcases List.mem_append.mp hother with hother | hother
    · exact hevents other hother
    · rw [List.mem_singleton.mp hother, hcall]
      rfl

/-- The next chunk of the answering server is taken. -/
theorem Downloads.push {sending : List SnapshotChunk} {chunk : SnapshotChunk}
    {download' : SnapshotDownload} (hbegun : download ≠ .new)
    (h : Downloads ledger deserialize encodedLen (chunk :: sending) download)
    (hok : download.push deserialize chunk = .ok download') :
    Downloads ledger deserialize encodedLen sending download' := by
  rcases h with hnew | ⟨snapshot, received, hexact, hchunks, hdownload⟩
  · exact absurd hnew hbegun
  · refine Or.inr ⟨snapshot, received ++ [chunk], hexact, by simp [hchunks], ?_⟩
    unfold SnapshotDownload.pushAll at hdownload ⊢
    rw [List.foldlM_append, hdownload]
    change (List.foldlM _ download [chunk] : Except String _) = _
    rw [List.foldlM_cons, hok]
    rfl

/-- A server that answers sends the first chunk of an exact snapshot. -/
theorem Downloads.first {snapshot : ReadSnapshot} {chunk : SnapshotChunk}
    {rest : List SnapshotChunk} (hexact : snapshot.Exact ledger deserialize)
    (hchunks : snapshotChunks encodedLen snapshot = chunk :: rest)
    (hok : SnapshotDownload.new.push deserialize chunk = .ok download) :
    Downloads ledger deserialize encodedLen rest download := by
  refine Or.inr ⟨snapshot, [chunk], hexact, hchunks, ?_⟩
  unfold SnapshotDownload.pushAll
  rw [List.foldlM_cons, hok]
  rfl

/-- A message of the source, if it has an event, is the next of its stream. -/
theorem Attempts.update {update : UpdateOneof} {buffered' : List BufferedEvent}
    {world' : ClientWorld} (h : Attempts ledger deserialize encodedLen world buffered download)
    (hfeed : ClientFeeds ledger (ExactServers ledger deserialize) encodedLen client world
      (.update update) world')
    (hok : bufferUpdate buffered update = .ok buffered') :
    Attempts ledger deserialize encodedLen world' buffered' download := by
  unfold bufferUpdate at hok
  cases hfeed with
  | @event x call rest _ event hstream hevent hcall =>
    rw [hevent] at hok
    dsimp only at hok
    split at hok
    · cases hok
      exact h.event hstream hcall
    · cases hok
  | otherMessage hevent =>
    rw [hevent] at hok
    cases hok
    exact h

/-- A chunk is the first that a server sends, or the next of the server that answers. -/
theorem Attempts.chunk {call : EstablishCall} {url : ℕ} {chunk : SnapshotChunk}
    {download' : SnapshotDownload} {world' : ClientWorld} (hcall : client.call? = some call)
    (hattempt : call.attempt = .bootstrapping buffered url download)
    (h : Attempts ledger deserialize encodedLen world buffered download)
    (hfeed : ClientFeeds ledger (ExactServers ledger deserialize) encodedLen client world
      (.chunk chunk) world')
    (hok : download.push deserialize chunk = .ok download') :
    Attempts ledger deserialize encodedLen world' buffered download' := by
  obtain ⟨hstream, hdownload⟩ := h
  cases hfeed with
  | firstChunk hcall' hattempt' hexact hchunks =>
    obtain rfl := Option.some.inj (hcall.symm.trans hcall')
    cases hattempt.symm.trans hattempt'
    exact ⟨hstream, .first hexact hchunks hok⟩
  | nextChunk hcall' hattempt' hbegun hsending =>
    obtain rfl := Option.some.inj (hcall.symm.trans hcall')
    cases hattempt.symm.trans hattempt'
    rw [hsending] at hdownload
    exact ⟨hstream, hdownload.push hbegun hok⟩

/-- A wake-up of `establish_session` keeps it in step. -/
theorem EstablishCall.inStep_step (allocates : ℕ → Bool) (config : AltConfig) {call : EstablishCall}
    {input : ClientInput} {world' : ClientWorld} (hcall : client.call? = some call)
    (hfaithful : Faithful ledger)
    (h : (Establish.going call).InStep ledger deserialize encodedLen world)
    (hfeed : ClientFeeds ledger (ExactServers ledger deserialize) encodedLen client world input
      world')
    (hhandover : ClientHandsOver ledger client world input) :
    (call.step deserialize allocates config input).InStep ledger deserialize encodedLen world' := by
  have htried := tried_step deserialize allocates config call input
  generalize call.step deserialize allocates config input = outcome at htried
  cases htried with
  | passed hpassed =>
    intro buffered url download hattempt
    rcases hpassed with hconnecting | hidle
    · rw [hconnecting] at hattempt
      cases hattempt
    · cases hfeed with
      | subscribed x hcall' hconnecting =>
        obtain rfl := Option.some.inj (hcall.symm.trans hcall')
        rw [hconnecting] at hattempt
        cases hattempt
      | elapsed => exact h _ _ _ hattempt
      | dropped => exact h _ _ _ hattempt
      | _ => exact hidle.elim
  | failed error =>
    rcases call.attemptFailed_cases config error with ⟨-, heq⟩ | ⟨-, heq⟩
    · rw [heq]
      exact fun _ _ _ hattempt => by cases hattempt
    · rw [heq]
      trivial
  | subscribed =>
    intro buffered url download hattempt
    cases hattempt
    cases hfeed with
    | subscribed x => exact ⟨⟨x, _, rfl, rfl, fun _ hevent => by cases hevent⟩, Or.inl rfl⟩
  | @buffered update buffered buffered' url download hattempt hok =>
    intro buffered'' url' download' heq
    cases heq
    exact (h _ _ _ hattempt).update hfeed hok
  | @received chunk buffered url download download' hattempt hok =>
    intro buffered'' url' download'' heq
    cases heq
    exact Attempts.chunk hcall hattempt (h _ _ _ hattempt) hfeed hok
  | panicked => trivial
  | nextUrl hattempt hinput =>
    intro buffered'' url' download'' heq
    cases heq
    obtain ⟨hstream, -⟩ := h _ _ _ hattempt
    cases hfeed with
    | firstChunk => exact ⟨hstream, Or.inl rfl⟩
    | nextChunk => exact ⟨hstream, Or.inl rfl⟩
    | snapshotEnded => exact ⟨hstream, Or.inl rfl⟩
    | snapshotFailed => exact ⟨hstream, Or.inl rfl⟩
    | _ => exact hinput.elim
  | @established buffered url download snapshot session hattempt hfinish hok =>
    obtain ⟨⟨x, rest, hstream, hledger, hevents⟩, hdownload⟩ := h _ _ _ hattempt
    cases hfeed with
    | snapshotEnded =>
      obtain ⟨hbridged, hwhole⟩ := hhandover call buffered url download snapshot x rest rfl hcall
        hattempt hfinish hstream
      exact ⟨x, snapshot.slot, buffered, [], rest, hstream, Session.Replays.start hevents hok
        (hdownload.finish hfaithful hfinish) hledger hbridged hwhole⟩

/-- A followed session stays in step with its stream until it is lost. -/
theorem Client.inStep_followStep (config : AltConfig) {inner : Inner} {session : Session}
    {input : ClientInput} {world' : ClientWorld}
    (h : (Establish.established session).InStep ledger deserialize encodedLen world)
    (hfeed : ClientFeeds ledger (ExactServers ledger deserialize) encodedLen
      (.running inner (.following session)) world input world') :
    (followStep deserialize config inner session input).InStep ledger deserialize encodedLen
      world' := by
  cases hfeed with
  | subscribed x hcall => cases hcall
  | firstChunk hcall => cases hcall
  | nextChunk hcall => cases hcall
  | sourceFailed error => trivial
  | otherMessage hevent =>
    simp only [followStep, follow_passed hevent]
    exact h
  | @event x call rest update event hstream hevent hcall =>
    obtain ⟨x', b, buffered, live, rest', hheld, hreplays⟩ := h
    obtain ⟨rfl, rfl⟩ := Prod.mk.inj (Option.some.inj (hheld.symm.trans hstream))
    simp only [followStep, follow_event hevent]
    rcases hhandle : session.handle deserialize false event with ⟨error | _ | _, after⟩
    · trivial
    · exact ⟨x', b, buffered, live ++ [event], rest, rfl, hreplays.handle hcall hhandle⟩
    · exact ⟨x', b, buffered, live ++ [event], rest, rfl, hreplays.handle hcall hhandle⟩
  | snapshotEnded => exact h
  | snapshotFailed error => exact h
  | elapsed => exact h
  | dropped => exact h

/-- So is a client that waits for its first call, -/
theorem Establish.InStep.ofFirst {outcome : Establish}
    (h : outcome.InStep ledger deserialize encodedLen world) :
    (Client.ofFirst outcome).InStep ledger deserialize encodedLen world := by
  cases outcome with
  | failed error => trivial
  | panicked => trivial
  | _ => exact h

/-- and one that waits for a later call. -/
theorem Establish.InStep.ofLater {outcome : Establish}
    (h : outcome.InStep ledger deserialize encodedLen world) (inner : Inner) (nextSource : ℕ) :
    (Client.ofLater inner nextSource outcome).InStep ledger deserialize encodedLen world := by
  cases outcome with
  | failed error => trivial
  | panicked => trivial
  | _ => exact h

/-- A call that begins is in step. -/
theorem EstablishCall.inStep_start (config : AltConfig) (startSource : ℕ) :
    (start config startSource).InStep ledger deserialize encodedLen world := by
  unfold start attemptAt
  split
  · exact fun _ _ _ hattempt => by cases hattempt
  · trivial

/-- A wake-up keeps a client in step if the snapshot it completes is handed over. -/
theorem Client.InStep.step {input : ClientInput} {world' : ClientWorld}
    (hfaithful : Faithful ledger)
    (h : client.InStep ledger deserialize encodedLen world)
    (hfeed : ClientFeeds ledger (ExactServers ledger deserialize) encodedLen client world input
      world')
    (hhandover : ClientHandsOver ledger client world input) :
    (client.step deserialize allocates config input).InStep ledger deserialize encodedLen
      world' := by
  cases client with
  | connecting call =>
    exact (EstablishCall.inStep_step allocates config rfl hfaithful h hfeed hhandover).ofFirst
  | refused error => trivial
  | panicked => trivial
  | dropped => trivial
  | running inner task =>
    cases task with
    | panicked => cases input <;> trivial
    | following session =>
      have hnext := Client.inStep_followStep config h hfeed
      cases input with
      | dropped => trivial
      | _ => exact hnext
    | delaying nextSource =>
      cases input with
      | dropped => trivial
      | elapsed => exact (EstablishCall.inStep_start config nextSource).ofLater inner nextSource
      | _ => trivial
    | recovering call =>
      have hnext := (EstablishCall.inStep_step allocates config rfl hfaithful h hfeed
        hhandover).ofLater inner call.startSource
      cases input with
      | dropped => trivial
      | _ => exact hnext

/-- In every run whose snapshots are handed over, the client is in step with the outside. -/
theorem ClientReaches.inStep (hfaithful : Faithful ledger)
    (h : ClientReaches ledger deserialize allocates (ExactServers ledger deserialize) encodedLen
      config client world) :
    client.InStep ledger deserialize encodedLen world ∧
      ∃ inputs, client = (Client.connect config).run deserialize allocates config inputs := by
  induction h with
  | start =>
    refine ⟨?_, [], rfl⟩
    unfold Client.connect
    split
    · trivial
    · exact (EstablishCall.inStep_start config 0).ofFirst
  | @step client world input world' _ hfeed hhandover ih =>
    obtain ⟨hstep, inputs, rfl⟩ := ih
    exact ⟨hstep.step hfaithful hfeed hhandover, inputs ++ [input], (Client.run_concat ..).symm⟩

/-- Every answer that readers get is the ledger's table at the confirmed slot they see. -/
def Inner.Exact (ledger : Ledger Key SubscribeUpdateAccount) (deserialize : Deserialize)
    (inner : Inner) : Prop :=
  ∀ key answer, inner.get key = .ok answer →
    answer = ledger.chain.stateAt (tableOf deserialize) inner.confirmedSlot key

/-- A slot is being confirmed: every answer is the ledger's table at the confirmed slot that
readers see, or what a later write up to the new slot has made of the table. -/
def Inner.Confirming (ledger : Ledger Key SubscribeUpdateAccount) (deserialize : Deserialize)
    (input : ClientInput) (inner : Inner) : Prop :=
  ∃ slot, input = .update (.slot slot slotConfirmed) ∧
    ∀ key answer, inner.get key = .ok answer →
      answer = ledger.chain.stateAt (tableOf deserialize) inner.confirmedSlot key ∨
      ∃ w ∈ ledger.writes, w.key = key ∧ inner.confirmedSlot < w.slot ∧ w.slot ≤ slot ∧
        answer = tableOf deserialize w.value

/-- A client in step answers with the ledger's tables at the slot that readers see. -/
theorem Client.InStep.exact {inner : Inner} {task : ClientTask} {inputs : List ClientInput}
    (h : (Client.running inner task).InStep ledger deserialize encodedLen world)
    (hrun : (Client.connect config).run deserialize allocates config inputs =
      .running inner task) : inner.Exact ledger deserialize := by
  intro key answer hget
  have hlived := lived_run deserialize allocates config inputs
  rw [hrun] at hlived
  have hready : inner.ready = true := by
    unfold Inner.get at hget
    split at hget
    · next hready => exact hready
    · cases hget
  have hunready (hnot : inner.ready = false) : False := by
    rw [hnot] at hready
    cases hready
  cases task with
  | following session =>
    obtain ⟨rfl, -⟩ := hlived
    obtain ⟨x, b, buffered, live, rest, -, hreplays⟩ := h
    exact (Except.ok.inj hget).symm.trans (hreplays.exact key)
  | delaying nextSource => exact (hunready hlived).elim
  | recovering call => exact (hunready hlived.1).elim
  | panicked => exact (hunready hlived.1).elim

/-- Whatever a reader finds while an input is handled is exact, or a slot is being confirmed. -/
theorem ClientReaches.glimpsed (hfaithful : Faithful ledger)
    (h : ClientReaches ledger deserialize allocates (ExactServers ledger deserialize) encodedLen
      config client world) {inner : Inner} {task : ClientTask}
    (hrunning : client = .running inner task) {input : ClientInput} {world' : ClientWorld}
    (hfeed : ClientFeeds ledger (ExactServers ledger deserialize) encodedLen client world input
      world')
    (hhandover : ClientHandsOver ledger client world input) {glimpse : Inner}
    (hglimpse : glimpse ∈ client.glimpses deserialize allocates config input) :
    glimpse.Exact ledger deserialize ∨ glimpse.Confirming ledger deserialize input := by
  have hnext := (h.step hfeed hhandover).inStep hfaithful
  obtain ⟨hstep, inputs, hrun⟩ := h.inStep hfaithful
  subst hrunning
  have hlived := lived_run deserialize allocates config inputs
  rw [← hrun] at hlived
  cases Client.glimpsed hglimpse with
  | @afterwards after task' hafter =>
    rw [hafter] at hnext
    obtain ⟨hinstep, inputs', hrun'⟩ := hnext
    exact Or.inl (hinstep.exact hrun'.symm)
  | @confirming session slot applied tables htask hinput hslot hfirst happlied =>
    subst htask
    obtain ⟨rfl, -⟩ := hlived
    obtain ⟨x, b, buffered, live, rest, -, hreplays⟩ := hstep
    refine Or.inr ⟨slot, hinput, fun key answer hget => ?_⟩
    obtain rfl := Except.ok.inj hget
    exact hreplays.confirming hfirst happlied key
  | @restoring call tables confirmedSlot htask =>
    subst htask
    have hready : inner.ready = false := hlived.1
    refine Or.inl fun key answer hget => ?_
    simp [Inner.get, hready] at hget

/-- Whenever the client waits, every answer that a reader gets is the ledger's table at the
confirmed slot that readers see, in every run whose snapshots are handed over and however often
sources and servers fail. So it is while an input is handled, except that a confirmation lets
readers see its writes before the slot rises. -/
theorem client_answers_exact (hfaithful : Faithful ledger)
    (h : ClientReaches ledger deserialize allocates (ExactServers ledger deserialize) encodedLen
      config client world) {inner : Inner} {task : ClientTask}
    (hrunning : client = .running inner task) :
    inner.Exact ledger deserialize ∧
    ∀ input world',
      ClientFeeds ledger (ExactServers ledger deserialize) encodedLen client world input world' →
      ClientHandsOver ledger client world input →
      ∀ glimpse ∈ client.glimpses deserialize allocates config input,
        glimpse.Exact ledger deserialize ∨ glimpse.Confirming ledger deserialize input := by
  refine ⟨?_, fun input world' hfeed hhandover glimpse hglimpse =>
    h.glimpsed hfaithful hrunning hfeed hhandover hglimpse⟩
  obtain ⟨hstep, inputs, hrun⟩ := h.inStep hfaithful
  rw [hrunning] at hstep hrun
  exact hstep.exact hrun.symm

end Reaches

/-- The update that creates the table of slot 5 makes the ledger's write. -/
theorem faithful_createdAtFive : Faithful createdAtFive := by
  intro w hw
  obtain rfl : w = ⟨.filled 1, 5, 1, .sample (.filled 1) 5 1 1⟩ := by
    simpa [createdAtFive] using hw
  exact SubscribeUpdateAccount.write?_sample ..

/-- What a snapshot server that has reached slot 5 has read. -/
def readAtFive : ReadSnapshot where
  slot := 5
  accounts := (∅ : Accounts).insert (.filled 1) (Account.sample (.filled 1)).received

/-- It is exact. -/
theorem readAtFive_exact : readAtFive.Exact createdAtFive acceptAll := by
  intro k
  by_cases hk : Key.filled 1 = k
  · subst hk
    decide +kernel
  · simp [readAtFive, createdAtFive, Ledger.chain, Chain.stateAt, Chain.newestAt, newest, ofKey, hk]

/-- It is sent as one chunk. -/
theorem snapshotChunks_readAtFive :
    snapshotChunks (fun _ => targetChunkBytes) readAtFive =
      [⟨5, 1, [⟨List.replicate 32 1, []⟩]⟩] := by decide +kernel

/-- A client that subscribes at slot 5, downloads that snapshot and receives the confirmation
of slot 6. -/
def clientAtSix : Client :=
  (Client.connect smallConfig).run acceptAll roomy smallConfig
    [.subscribed, .chunk ⟨5, 1, [⟨List.replicate 32 1, []⟩]⟩, .snapshotEnded,
      .update (.slot 6 slotConfirmed)]

/-- It gets there with its snapshot handed over. -/
theorem reaches_clientAtSix {serves : ℕ → ReadSnapshot → Prop} (hserved : serves 0 readAtFive) :
    ClientReaches createdAtFive acceptAll roomy serves (fun _ => targetChunkBytes) smallConfig
      clientAtSix ⟨some (5, []), []⟩ := by
  have hother {client : Client} {world : ClientWorld} {input : ClientInput}
      (hinput : input ≠ .snapshotEnded) : ClientHandsOver createdAtFive client world input :=
    fun _ _ _ _ _ _ _ heq => absurd heq hinput
  have hslots : ∀ w ∈ createdAtFive.writes, ¬ 5 < w.slot := by decide +kernel
  have hconfirm : (UpdateOneof.slot 6 slotConfirmed).event? = some (.confirmedSlot 6) := rfl
  have hcall : (BufferedEvent.confirmedSlot 6).call? = some (.confirm 6) := rfl
  refine .step (.step (.step (.step .start (.subscribed 5 rfl rfl) (hother (by simp)))
    (.firstChunk rfl rfl hserved snapshotChunks_readAtFive) (hother (by simp)))
    .snapshotEnded ?_) (.event rfl hconfirm hcall) (hother (by simp))
  intro call buffered url download snapshot x rest _ hcall hattempt hfinish hstream
  cases hcall
  cases hattempt
  cases hfinish
  cases hstream
  exact ⟨fun w hw hlt => absurd hlt (hslots w hw), fun v hv => absurd hv List.not_mem_nil⟩

/-- The table it finds is the ledger's. -/
theorem createdAtFive_answer :
    ∃ inner task, clientAtSix = .running inner task ∧
      some ⟨.filled 1, []⟩ =
        createdAtFive.chain.stateAt (tableOf acceptAll) inner.confirmedSlot (.filled 1) := by
  have hget : clientAtSix.inner?.map (Inner.get · (.filled 1)) =
      some (.ok (some ⟨.filled 1, []⟩)) := by decide +kernel
  obtain ⟨inner, task, hrunning, hfound⟩ := Client.running_of_inner? hget
  exact ⟨inner, task, hrunning,
    (client_answers_exact faithful_createdAtFive (reaches_clientAtSix readAtFive_exact)
      hrunning).1 _ _ hfound⟩

end AltCache
