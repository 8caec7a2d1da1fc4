import AltCache.Replay.Ledger
import AltCache.UiAccount
import AltCache.Updater.Recovery
import AltCache.Updater.Steps

/-!
# From snapshot to live stream

Every source delivers the ledger from the slot it connected at, interleaved with the other
sources, with fetches and with timers. A fetch hands its state over to the active source's
stream when no later write was lost before the buffer began and the buffer does not stop
inside the fetched slot. If every completing fetch hands over, the served accounts are the
ledger's state at the confirmed slot in every reachable state. A fetch does not tell the version
and the transaction of an account's last write, so accounts are compared without them.
-/

namespace AltCache

open Std (ExtTreeMap)
open AltCache.Replay

/-- The accounts found are the ledger's at a slot, as far as a fetch can tell. -/
def Shows (ledger : Ledger Key (Option Account)) (slot : ℕ) (find : Key → Option Account) : Prop :=
  ∀ k : Key, (find k).map Account.received =
    ledger.chain.stateAt (Option.map Account.received) slot k

/-- What each connected source has still to deliver. -/
abbrev Streams := ℕ → Option (List (Call Key (Option Account)))

/-- The inputs the world can produce: connections deliver the ledger in order, possibly with
undecodable messages, and fetches return exact states of slots of their own choosing. -/
inductive Feeds (ledger : Ledger Key (Option Account)) (deserialize : Deserialize) :
    Streams → Input → Streams → Prop where
  | connected {streams source} (x : ℕ) (h : streams source = none) :
      Feeds ledger deserialize streams (.yellowstone (.connected source))
        (Function.update streams source (some (ledger.streamFrom (x + 1))))
  | disconnected {streams} (source : ℕ) :
      Feeds ledger deserialize streams (.yellowstone (.disconnected source))
        (Function.update streams source none)
  | account {streams source update w rest} (h : streams source = some (.queue w :: rest))
      (hdecode : decodeAccountUpdate deserialize update =
        .ok (.account w.key w.slot w.version w.value)) :
      Feeds ledger deserialize streams (.yellowstone (.account source update))
        (Function.update streams source (some rest))
  | garbled {streams source update w rest error} (h : streams source = some (.queue w :: rest))
      (hdecode : decodeAccountUpdate deserialize update = .error error) :
      Feeds ledger deserialize streams (.yellowstone (.account source update))
        (Function.update streams source (some rest))
  | undecodable {streams source update error}
      (hdecode : decodeAccountUpdate deserialize update = .error error) :
      Feeds ledger deserialize streams (.yellowstone (.account source update)) streams
  | confirmedSlot {streams source slot rest} (h : streams source = some (.confirm slot :: rest)) :
      Feeds ledger deserialize streams (.yellowstone (.confirmedSlot source slot))
        (Function.update streams source (some rest))
  | fetched {streams fetched}
      (hexact : Shows ledger fetched.contextSlot (fetched.accounts[·]?)) :
      Feeds ledger deserialize streams (.fetchFinished (.ok fetched)) streams
  | fetchFailed {streams error} :
      Feeds ledger deserialize streams (.fetchFinished (.error error)) streams
  | refreshed {streams fetched}
      (hexact : Shows ledger fetched.contextSlot (fetched.accounts[·]?)) :
      Feeds ledger deserialize streams (.refreshFinished (.ok fetched)) streams
  | refreshFailed {streams error} :
      Feeds ledger deserialize streams (.refreshFinished (.error error)) streams
  | refreshDue {streams} : Feeds ledger deserialize streams .refreshDue streams
  | shutdown {streams} : Feeds ledger deserialize streams .shutdown streams
  | channelClosed {streams} : Feeds ledger deserialize streams .channelClosed streams

/-- The states of the service and the streams, where every input satisfies a condition on the
state it arrives in. -/
inductive Reaches (ledger : Ledger Key (Option Account)) (deserialize : Deserialize)
    (admits : UpdaterService → Streams → Input → Prop) : UpdaterService → Streams → Prop where
  | start (capacity : ℕ) (urls : List String) (store : Store) :
      Reaches ledger deserialize admits (.start capacity urls store) fun _ => none
  | step {service streams input streams'} (h : Reaches ledger deserialize admits service streams)
      (hfeed : Feeds ledger deserialize streams input streams')
      (hadmits : admits service streams input) :
      Reaches ledger deserialize admits (service.step deserialize input) streams'

/-- A fetched state is handed over to the stream of the active source. -/
def Handover (ledger : Ledger Key (Option Account)) (fetched : FetchedAltState)
    (buffered : List StateEvent) (stream : Option (List (Call Key (Option Account)))) : Prop :=
  ∀ rest, stream = some rest → ledger.Covered fetched.contextSlot (calls buffered ++ rest) ∧
    Ledger.Whole fetched.contextSlot (calls buffered) rest

/-- Whatever fetch an input completes, its state is handed over. -/
def HandsOver (ledger : Ledger Key (Option Account)) (service : UpdaterService)
    (streams : Streams) : Input → Prop
  | .fetchFinished (.ok fetched) => ∀ url buffered, service.phase = .bootstrapping url buffered →
      Handover ledger fetched buffered (streams service.activeSource)
  | .refreshFinished (.ok fetched) => ∀ url live completed,
      service.phase = .serving url live (some completed) →
      Handover ledger fetched completed.bufferedEvents (streams service.activeSource)
  | _ => True

/-- A live updater that follows a stream: what it received since its base state was fetched is
a stretch of the stream before `rest`, nothing above the base slot was lost, and its accounts
are the ledger's state at its confirmed slot. -/
structure Following (ledger : Ledger Key (Option Account)) (updater : StateUpdater)
    (a : ℕ) (lost boot live rest : List (Call Key (Option Account))) : Prop where
  stream : ledger.streamFrom a = lost ++ ((boot ++ live) ++ rest)
  tracks : ∃ base, Shows ledger updater.bootstrapSlot base ∧
    updater.Tracks id base ((Journal.start updater.bootstrapSlot).run (boot ++ .settle :: live))
  covered : ledger.Covered updater.bootstrapSlot ((boot ++ live) ++ rest)
  exact : Shows ledger updater.confirmedSlot (updater.accounts[·]?)

section Following

variable {ledger : Ledger Key (Option Account)} {updater : StateUpdater} {a : ℕ}
  {lost boot live rest : List (Call Key (Option Account))}

/-- The confirmed slot is the largest one received, or the base slot. -/
theorem Following.confirmedSlot_eq (h : Following ledger updater a lost boot live rest) :
    updater.confirmedSlot = confirmedBy updater.bootstrapSlot (boot ++ live) := by
  obtain ⟨base, -, htracks⟩ := h.tracks
  rw [htracks.confirmedSlot, Journal.confirmed_run, confirmedBy_append, confirmedBy_append]
  rfl

/-- The next confirmation on the stream is above everything confirmed so far, unless that is
the base slot. -/
theorem Following.lt_or_eq {s : ℕ}
    (h : Following ledger updater a lost boot live (.confirm s :: rest)) :
    updater.confirmedSlot < s ∨ updater.confirmedSlot = updater.bootstrapSlot := by
  rw [h.confirmedSlot_eq]
  apply (confirmedBy_eq_or_mem updater.bootstrapSlot (boot ++ live)).symm.imp_left
  intro hmem
  have hpairwise := ledger.pairwise_streamFrom a
  rw [h.stream] at hpairwise
  exact (List.pairwise_append.mp (List.pairwise_append.mp hpairwise).2.1).2.2 _ hmem _
    List.mem_cons_self

/-- An updater that tracks a swept journal of what was handed over holds the ledger's state at
the slot confirmed by it. -/
theorem shows_of_tracks {base : Key → Option Account} {c : ℕ}
    {seen calls : List (Call Key (Option Account))} (hbase : Shows ledger c base)
    (htracks : updater.Tracks id base ((Journal.start c).run calls))
    (hstream : ledger.streamFrom a = lost ++ (seen ++ rest))
    (hcovered : ledger.Covered c (seen ++ rest)) (hwhole : Ledger.Whole c seen rest)
    (hcalls : delivered calls = delivered seen)
    (hconfirmed : confirmedBy c calls = confirmedBy c seen)
    (hswept : ((Journal.start c).run calls).Swept) :
    Shows ledger (confirmedBy c seen) (updater.accounts[·]?) := by
  intro k
  change (updater.accounts[k]?).map Account.received = _
  rw [htracks.accounts, Staging.map_current]
  exact Ledger.handover_exact hstream hcovered hwhole hcalls hconfirmed hswept (hbase k)

/-- A recovered state that was handed over follows the stream. -/
theorem following_recoverAltState {fetched : FetchedAltState} {buffered : List StateEvent}
    (hexact : Shows ledger fetched.contextSlot (fetched.accounts[·]?))
    (hstream : ledger.streamFrom a = lost ++ (calls buffered ++ rest))
    (hcovered : ledger.Covered fetched.contextSlot (calls buffered ++ rest))
    (hwhole : Ledger.Whole fetched.contextSlot (calls buffered) rest) (url : String)
    (store : Store) :
    Following ledger (recoverAltState url fetched buffered store).1 a lost (calls buffered) []
      rest := by
  have htracks := recoverAltState_tracks url fetched buffered store
  have hshows := shows_of_tracks hexact htracks hstream hcovered hwhole
    (by rw [delivered_append, delivered_settle, List.append_nil])
    (by rw [confirmedBy_append]; rfl) (Journal.swept_run_settle _ _)
  refine ⟨?_, ⟨(fetched.accounts[·]?), ?_, ?_⟩, ?_, ?_⟩
  · rwa [List.append_nil]
  · rwa [bootstrapSlot_recoverAltState]
  · rwa [bootstrapSlot_recoverAltState]
  · rwa [bootstrapSlot_recoverAltState, List.append_nil]
  · rwa [confirmedSlot_recoverAltState]

/-- Receiving the next call of the stream keeps the updater following it. -/
theorem Following.receive {event : StateEvent}
    (h : Following ledger updater a lost boot live (event.call :: rest)) (store : Store) :
    Following ledger (applyStateEvent event updater store).1 a lost boot (live ++ [event.call])
      rest := by
  have hstream : ledger.streamFrom a = lost ++ ((boot ++ (live ++ [event.call])) ++ rest) := by
    rw [h.stream]
    simp
  obtain ⟨base, hbase, htracks⟩ := h.tracks
  replace htracks := htracks.perform store event.call
  rw [← applyStateEvent_eq_perform, ← Journal.run_singleton, ← Journal.run_append,
    List.append_assoc, List.cons_append] at htracks
  have hcovered : ledger.Covered updater.bootstrapSlot
      ((boot ++ (live ++ [event.call])) ++ rest) := by
    simpa using h.covered
  have hbootstrap : (applyStateEvent event updater store).1.bootstrapSlot =
      updater.bootstrapSlot := by
    rw [htracks.bootstrapSlot, Journal.floor_run]
    rfl
  refine ⟨hstream, ⟨base, hbootstrap.symm ▸ hbase, hbootstrap.symm ▸ htracks⟩,
    hbootstrap.symm ▸ hcovered, ?_⟩
  cases event with
  | account key slot version account =>
    simp only [applyStateEvent, StateUpdater.accounts_queue, StateUpdater.confirmedSlot_queue]
    exact h.exact
  | confirmedSlot s =>
    by_cases hs : s ≤ updater.confirmedSlot
    · have hsame : (applyStateEvent (.confirmedSlot s) updater store).1 = updater := by
        simp [applyStateEvent, StateUpdater.confirm, hs]
      rw [hsame]
      exact h.exact
    · have hlt := not_le.mp hs
      rw [h.confirmedSlot_eq] at hlt
      have hconfirmed : confirmedBy updater.bootstrapSlot (boot ++ (live ++ [.confirm s])) = s := by
        rw [← List.append_assoc, confirmedBy_append]
        exact max_eq_right hlt.le
      have hwhole := Ledger.whole_of_lt hstream
        (hconfirmed.symm ▸ (le_confirmedBy _ (boot ++ live)).trans_lt hlt)
      have hafter : (applyStateEvent (.confirmedSlot s) updater store).1.confirmedSlot = s := by
        simp [applyStateEvent, StateUpdater.confirm, hs]
      have hswept : ((Journal.start updater.bootstrapSlot).run
          (boot ++ .settle :: (live ++ [.confirm s]))).Swept := by
        rw [← List.cons_append, ← List.append_assoc]
        apply Journal.swept_run_confirm _ _
        rwa [confirmedBy_append, confirmedBy_settle_cons, ← confirmedBy_append]
      have hcalls : delivered (boot ++ .settle :: (live ++ [.confirm s])) =
          delivered (boot ++ (live ++ [.confirm s])) := by
        rw [delivered_append, delivered_settle_cons, ← delivered_append]
      have hslots : confirmedBy updater.bootstrapSlot (boot ++ .settle :: (live ++ [.confirm s])) =
          confirmedBy updater.bootstrapSlot (boot ++ (live ++ [.confirm s])) := by
        rw [confirmedBy_append, confirmedBy_settle_cons, ← confirmedBy_append]
      have hshows : Shows ledger
          (confirmedBy updater.bootstrapSlot (boot ++ (live ++ [.confirm s]))) _ :=
        shows_of_tracks hbase htracks hstream hcovered hwhole hcalls hslots hswept
      rw [hafter]
      rwa [hconfirmed] at hshows

/-- After a confirmation of a slot at or above the base slot, that slot is the confirmed one. -/
theorem Following.confirmedSlot_confirm {s : ℕ}
    (h : Following ledger updater a lost boot live (.confirm s :: rest))
    (hs : updater.bootstrapSlot ≤ s) (store : Store) :
    (applyStateEvent (.confirmedSlot s) updater store).1.confirmedSlot = s := by
  unfold applyStateEvent StateUpdater.confirm
  dsimp only
  split
  · next hle => exact hle.antisymm' (h.lt_or_eq.elim (fun hlt => absurd hle (not_le.mpr hlt))
      fun heq => heq.trans_le hs)
  · rfl

end Following

/-- Every connected source still has a stretch of the ledger's stream to deliver. -/
def Feeding (ledger : Ledger Key (Option Account)) (streams : Streams) (connected : Finset ℕ) :
    Prop :=
  ∀ source ∈ connected, ∃ a lost rest, streams source = some rest ∧
    ledger.streamFrom a = lost ++ rest

/-- Buffered events are the stretch of a source's stream before what it has to deliver. -/
def Buffers (ledger : Ledger Key (Option Account))
    (stream : Option (List (Call Key (Option Account)))) (buffered : List StateEvent) : Prop :=
  ∃ a lost rest, stream = some rest ∧ ledger.streamFrom a = lost ++ (calls buffered ++ rest)

/-- A served updater follows the stream of its source, and so does a running refresh. -/
def Follows (ledger : Ledger Key (Option Account))
    (stream : Option (List (Call Key (Option Account)))) (updater : StateUpdater)
    (refresh : Option RefreshInProgress) : Prop :=
  (∃ a lost boot live rest, stream = some rest ∧
    Following ledger updater a lost boot live rest) ∧
  ∀ running, refresh = some running → Buffers ledger stream running.bufferedEvents

/-- The service and the streams agree on what was delivered. -/
def InStep (ledger : Ledger Key (Option Account)) (service : UpdaterService) (streams : Streams) :
    Prop :=
  match service.phase with
  | .waiting => Feeding ledger streams service.connectedSources
  | .bootstrapping _ buffered => Feeding ledger streams service.connectedSources ∧
      Buffers ledger (streams service.activeSource) buffered
  | .serving _ updater refresh => Feeding ledger streams service.connectedSources ∧
      Follows ledger (streams service.activeSource) updater refresh
  | .stopped _ => True

section InStep

variable {ledger : Ledger Key (Option Account)} {service : UpdaterService} {streams : Streams}

/-- An empty buffer can be started at any point of a stream. -/
theorem Feeding.buffers_nil {connected : Finset ℕ} (h : Feeding ledger streams connected)
    {source : ℕ} (hsource : source ∈ connected) : Buffers ledger (streams source) [] := by
  obtain ⟨a, lost, rest, hrest, hstream⟩ := h source hsource
  exact ⟨a, lost, rest, hrest, hstream⟩

/-- Waiting for the active source keeps in step. -/
theorem inStep_awaitActive (h : Feeding ledger streams service.connectedSources) :
    InStep ledger service.awaitActive streams := by
  unfold UpdaterService.awaitActive UpdaterService.beginBootstrap
  split
  · next hactive =>
    split
    · exact ⟨h, h.buffers_nil hactive⟩
    · trivial
  · exact h

/-- Rotating the active source keeps the connected sources. -/
@[simp] theorem connectedSources_selectNextYellowstone (service : UpdaterService) :
    service.selectNextYellowstone.connectedSources = service.connectedSources := by
  unfold UpdaterService.selectNextYellowstone
  split <;> rfl

/-- Restarting keeps in step. -/
theorem inStep_restart (h : Feeding ledger streams service.connectedSources) :
    InStep ledger service.restart streams := by
  unfold UpdaterService.restart
  apply inStep_awaitActive
  dsimp only
  split
  · exact h
  · simpa using h

variable {connected : Finset ℕ} {source : ℕ} {deserialize : Deserialize} {input : Input}
  {streams' : Streams}

/-- A new connection delivers the ledger from its slot on. -/
theorem Feeding.connect (h : Feeding ledger streams connected) (a : ℕ) :
    Feeding ledger (Function.update streams source (some (ledger.streamFrom a)))
      (insert source connected) := by
  intro other hother
  by_cases hsame : other = source
  · exact ⟨a, [], ledger.streamFrom a, by rw [hsame, Function.update_self], rfl⟩
  · rw [Function.update_of_ne hsame]
    exact h other ((Finset.mem_insert.mp hother).resolve_left hsame)

/-- A closed connection leaves the others alone. -/
theorem Feeding.disconnect (h : Feeding ledger streams connected) :
    Feeding ledger (Function.update streams source none) (connected.erase source) := by
  intro other hother
  obtain ⟨hne, hother⟩ := Finset.mem_erase.mp hother
  rw [Function.update_of_ne hne]
  exact h other hother

/-- A delivery moves one call on. -/
theorem Feeding.receive (h : Feeding ledger streams connected)
    {call : Call Key (Option Account)} {rest : List (Call Key (Option Account))}
    (hcall : streams source = some (call :: rest)) :
    Feeding ledger (Function.update streams source (some rest)) connected := by
  intro other hother
  by_cases hsame : other = source
  · subst hsame
    obtain ⟨a, lost, rest', hrest', hstream⟩ := h other hother
    obtain rfl := Option.some.inj (hrest'.symm.trans hcall)
    exact ⟨a, lost ++ [call], rest, Function.update_self .., by simpa using hstream⟩
  · rw [Function.update_of_ne hsame]
    exact h other hother

/-- A buffered delivery extends the buffer. -/
theorem Buffers.receive {buffered : List StateEvent} {event : StateEvent}
    {rest : List (Call Key (Option Account))}
    (h : Buffers ledger (some (event.call :: rest)) buffered) :
    Buffers ledger (some rest) (buffered ++ [event]) := by
  obtain ⟨a, lost, rest', hrest', hstream⟩ := h
  obtain rfl := Option.some.inj hrest'
  exact ⟨a, lost, rest, rfl, by simpa using hstream⟩

/-- What concerns the stream and the connection of another source keeps in step. -/
theorem InStep.other (h : InStep ledger service streams) (hne : source ≠ service.activeSource)
    {stream : Option (List (Call Key (Option Account)))}
    (hfeeding : Feeding ledger (Function.update streams source stream) connected) :
    InStep ledger { service with connectedSources := connected }
      (Function.update streams source stream) := by
  unfold InStep at h ⊢
  dsimp only
  rw [Function.update_of_ne hne.symm]
  cases hphase : service.phase with
  | waiting => exact hfeeding
  | bootstrapping url buffered =>
    rw [hphase] at h
    exact ⟨hfeeding, h.2⟩
  | serving url updater refresh =>
    rw [hphase] at h
    exact ⟨hfeeding, h.2⟩
  | stopped result => trivial

/-- A wake-up while waiting keeps in step. -/
theorem inStep_waitStep (hphase : service.phase = .waiting)
    (hfeed : Feeds ledger deserialize streams input streams')
    (h : Feeding ledger streams service.connectedSources) :
    InStep ledger (service.waitStep input) streams' := by
  have hsame {streams' : Streams} (h : Feeding ledger streams' service.connectedSources) :
      InStep ledger service streams' := by
    unfold InStep
    rwa [hphase]
  cases hfeed with
  | connected x => exact inStep_awaitActive (h.connect (x + 1))
  | disconnected source => exact inStep_awaitActive h.disconnect
  | account hcall => exact hsame (h.receive hcall)
  | garbled hcall => exact hsame (h.receive hcall)
  | undecodable => exact hsame h
  | confirmedSlot hcall => exact hsame (h.receive hcall)
  | fetched => exact hsame h
  | fetchFailed => exact hsame h
  | refreshed => exact hsame h
  | refreshFailed => exact hsame h
  | refreshDue => exact hsame h
  | shutdown => trivial
  | channelClosed => trivial

/-- An event buffered during a bootstrap keeps in step. -/
theorem inStep_bufferBootstrapEvent {url : String} {buffered : List StateEvent}
    {event : Except String StateEvent} (h : Feeding ledger streams service.connectedSources)
    (hbuffer : ∀ stateEvent, event = .ok stateEvent →
      Buffers ledger (streams service.activeSource) (buffered ++ [stateEvent])) :
    InStep ledger (service.bufferBootstrapEvent url buffered event) streams := by
  unfold UpdaterService.bufferBootstrapEvent
  split
  · trivial
  · cases event with
    | ok stateEvent => exact ⟨h, hbuffer stateEvent rfl⟩
    | error error => exact inStep_restart (by simpa using h)

/-- A fetched state that is handed over follows the stream it was handed over to. -/
theorem follows_recoverAltState {stream : Option (List (Call Key (Option Account)))}
    {fetched : FetchedAltState} {buffered : List StateEvent}
    (hexact : Shows ledger fetched.contextSlot (fetched.accounts[·]?))
    (hbuffers : Buffers ledger stream buffered)
    (hhandover : Handover ledger fetched buffered stream) (url : String) (store : Store) :
    Follows ledger stream (recoverAltState url fetched buffered store).1 none := by
  obtain ⟨a, lost, rest, hrest, hstream⟩ := hbuffers
  obtain ⟨hcovered, hwhole⟩ := hhandover rest hrest
  exact ⟨⟨a, lost, _, _, rest, hrest,
    following_recoverAltState hexact hstream hcovered hwhole url store⟩,
    fun _ hnone => by cases hnone⟩

/-- An event that the active source delivers during a bootstrap is buffered in step. -/
theorem inStep_deliverBuffered (event : StateEvent) {source : ℕ} {url : String}
    {buffered : List StateEvent} {rest : List (Call Key (Option Account))}
    (hactive : source = service.activeSource)
    (hcall : streams source = some (event.call :: rest))
    (h : Feeding ledger streams service.connectedSources)
    (hbuffers : Buffers ledger (streams service.activeSource) buffered) :
    InStep ledger (service.bufferBootstrapEvent url buffered (.ok event))
      (Function.update streams source (some rest)) := by
  apply inStep_bufferBootstrapEvent (h.receive hcall)
  intro stateEvent hevent
  obtain rfl := Except.ok.inj hevent
  rw [← hactive, Function.update_self]
  rw [← hactive, hcall] at hbuffers
  exact hbuffers.receive

/-- A wake-up during a bootstrap keeps in step if a completed fetch is handed over. -/
theorem inStep_bootstrapStep {url : String} {buffered : List StateEvent}
    (hphase : service.phase = .bootstrapping url buffered)
    (hfeed : Feeds ledger deserialize streams input streams')
    (hadmits : HandsOver ledger service streams input)
    (h : Feeding ledger streams service.connectedSources)
    (hbuffers : Buffers ledger (streams service.activeSource) buffered) :
    InStep ledger (service.bootstrapStep deserialize url buffered input) streams' := by
  have hstep : InStep ledger service streams := by
    unfold InStep
    rw [hphase]
    exact ⟨h, hbuffers⟩
  cases hfeed with
  | @connected source x hnone =>
    obtain ⟨a, lost, rest, hrest, hstream⟩ := id hbuffers
    have hne : source ≠ service.activeSource := fun heq => by simp [← heq, hnone] at hrest
    exact hstep.other hne (h.connect (x + 1))
  | disconnected source =>
    simp only [UpdaterService.bootstrapStep]
    split
    · exact inStep_restart (by simpa using h.disconnect)
    · next hne => exact hstep.other hne h.disconnect
  | @account source update w rest hcall hdecode =>
    simp only [UpdaterService.bootstrapStep]
    split
    · next hactive =>
      rw [hdecode]
      exact inStep_deliverBuffered (.account w.key w.slot w.version w.value) hactive hcall h
        hbuffers
    · next hne => exact hstep.other hne (h.receive hcall)
  | @garbled source update w rest error hcall hdecode =>
    simp only [UpdaterService.bootstrapStep]
    split
    · exact inStep_bufferBootstrapEvent (h.receive hcall) fun stateEvent hevent =>
        by cases hdecode.symm.trans hevent
    · next hne => exact hstep.other hne (h.receive hcall)
  | undecodable hdecode =>
    simp only [UpdaterService.bootstrapStep]
    split
    · exact inStep_bufferBootstrapEvent h fun stateEvent hevent =>
        by cases hdecode.symm.trans hevent
    · exact hstep
  | @confirmedSlot source slot rest hcall =>
    simp only [UpdaterService.bootstrapStep]
    split
    · next hactive =>
      exact inStep_deliverBuffered (.confirmedSlot slot) hactive hcall h hbuffers
    · next hne => exact hstep.other hne (h.receive hcall)
  | fetched hexact =>
    exact ⟨h, follows_recoverAltState hexact hbuffers (hadmits url buffered hphase) url
      service.store⟩
  | fetchFailed => exact inStep_restart h
  | refreshed => exact hstep
  | refreshFailed => exact hstep
  | refreshDue => exact hstep
  | shutdown => trivial
  | channelClosed => trivial

/-- An event that the active source delivers while serving keeps the updater and the refresh
on its stream. -/
theorem Follows.receive {updater : StateUpdater} {refresh : Option RefreshInProgress}
    (event : StateEvent) {rest : List (Call Key (Option Account))}
    (h : Follows ledger (some (event.call :: rest)) updater refresh) (store : Store)
    (capacity : ℕ) :
    Follows ledger (some rest) (applyStateEvent event updater store).1
      (bufferRefreshEvent refresh event capacity) := by
  obtain ⟨⟨a, lost, boot, live, rest', hrest', hfollowing⟩, hrefresh⟩ := h
  obtain rfl := Option.some.inj hrest'
  refine ⟨⟨a, lost, boot, live ++ [event.call], rest, rfl, hfollowing.receive store⟩,
    fun running hrunning => ?_⟩
  obtain ⟨active, hactive, hbuffered⟩ := Option.bind_eq_some_iff.mp hrunning
  rw [RefreshInProgress.buffer] at hbuffered
  split at hbuffered
  · obtain rfl := Option.some.inj hbuffered
    exact (hrefresh active hactive).receive
  · cases hbuffered

/-- An event that the active source delivers while serving is applied in step. -/
theorem inStep_serveEvent (event : StateEvent) {source : ℕ} {url : String}
    {updater : StateUpdater} {refresh : Option RefreshInProgress}
    {rest : List (Call Key (Option Account))} (hactive : source = service.activeSource)
    (hcall : streams source = some (event.call :: rest))
    (h : Feeding ledger streams service.connectedSources)
    (hfollows : Follows ledger (streams service.activeSource) updater refresh) :
    InStep ledger (service.serveEvent url updater refresh event)
      (Function.update streams source (some rest)) := by
  refine ⟨h.receive hcall, ?_⟩
  rw [← hactive, hcall] at hfollows
  change Follows ledger (Function.update streams source (some rest) service.activeSource) _ _
  rw [← hactive, Function.update_self]
  exact hfollows.receive event service.store service.streamCapacity

/-- A refresh may begin at any point of the stream. -/
theorem Follows.due {stream : Option (List (Call Key (Option Account)))} {updater : StateUpdater}
    {refresh : Option RefreshInProgress} (h : Follows ledger stream updater refresh)
    (minimum : ℕ) : Follows ledger stream updater (some (refresh.getD (.start minimum))) := by
  obtain ⟨hfollowing, hrefresh⟩ := h
  refine ⟨hfollowing, fun running hrunning => ?_⟩
  obtain rfl := Option.some.inj hrunning
  cases refresh with
  | some active => exact hrefresh active rfl
  | none =>
    obtain ⟨a, lost, boot, live, rest, hrest, hfollowing⟩ := hfollowing
    exact ⟨a, lost ++ (boot ++ live), rest, hrest,
      hfollowing.stream.trans (List.append_assoc lost (boot ++ live) rest).symm⟩

/-- Ending a refresh leaves the updater on its stream. -/
theorem Follows.ended {stream : Option (List (Call Key (Option Account)))}
    {updater : StateUpdater} {refresh : Option RefreshInProgress}
    (h : Follows ledger stream updater refresh) : Follows ledger stream updater none :=
  ⟨h.1, fun _ hnone => by cases hnone⟩

/-- A wake-up while serving keeps in step if an installed refresh is handed over. -/
theorem inStep_serveStep {url : String} {updater : StateUpdater}
    {refresh : Option RefreshInProgress} (hphase : service.phase = .serving url updater refresh)
    (hfeed : Feeds ledger deserialize streams input streams')
    (hadmits : HandsOver ledger service streams input)
    (h : Feeding ledger streams service.connectedSources)
    (hfollows : Follows ledger (streams service.activeSource) updater refresh) :
    InStep ledger (service.serveStep deserialize url updater refresh input) streams' := by
  have hstep : InStep ledger service streams := by
    unfold InStep
    rw [hphase]
    exact ⟨h, hfollows⟩
  cases hfeed with
  | @connected source x hnone =>
    obtain ⟨a, lost, boot, live, rest, hrest, -⟩ := hfollows.1
    have hne : source ≠ service.activeSource := fun heq => by simp [← heq, hnone] at hrest
    exact hstep.other hne (h.connect (x + 1))
  | disconnected source =>
    simp only [UpdaterService.serveStep]
    split
    · exact inStep_restart (by simpa using h.disconnect)
    · next hne => exact hstep.other hne h.disconnect
  | @account source update w rest hcall hdecode =>
    simp only [UpdaterService.serveStep, hdecode]
    split
    · next hactive =>
      exact inStep_serveEvent (.account w.key w.slot w.version w.value) hactive hcall h hfollows
    · next hne => exact hstep.other hne (h.receive hcall)
  | @garbled source update w rest error hcall hdecode =>
    simp only [UpdaterService.serveStep, hdecode]
    split
    · exact inStep_restart (by simpa using h.receive hcall)
    · next hne => exact hstep.other hne (h.receive hcall)
  | undecodable hdecode =>
    simp only [UpdaterService.serveStep, hdecode]
    split
    · exact inStep_restart (by simpa using h)
    · exact hstep
  | @confirmedSlot source slot rest hcall =>
    simp only [UpdaterService.serveStep]
    split
    · next hactive => exact inStep_serveEvent (.confirmedSlot slot) hactive hcall h hfollows
    · next hne => exact hstep.other hne (h.receive hcall)
  | fetched => exact hstep
  | fetchFailed => exact hstep
  | refreshed hexact =>
    cases refresh with
    | none => exact ⟨h, hfollows⟩
    | some completed =>
      exact ⟨h, follows_recoverAltState hexact (hfollows.2 completed rfl)
        (hadmits url updater completed hphase) url service.store⟩
  | refreshFailed =>
    cases refresh with
    | none => exact ⟨h, hfollows⟩
    | some completed => exact ⟨h, hfollows.ended⟩
  | refreshDue => exact ⟨h, hfollows.due updater.confirmedSlot⟩
  | shutdown => trivial
  | channelClosed => trivial

/-- A wake-up keeps in step if every fetch it completes is handed over. -/
theorem inStep_step (h : InStep ledger service streams)
    (hfeed : Feeds ledger deserialize streams input streams')
    (hadmits : HandsOver ledger service streams input) :
    InStep ledger (service.step deserialize input) streams' := by
  cases hphase : service.phase with
  | waiting =>
    simp only [InStep, hphase] at h
    simp only [UpdaterService.step, hphase]
    exact inStep_waitStep hphase hfeed h
  | bootstrapping url buffered =>
    simp only [InStep, hphase] at h
    simp only [UpdaterService.step, hphase]
    exact inStep_bootstrapStep hphase hfeed hadmits h.1 h.2
  | serving url updater refresh =>
    simp only [InStep, hphase] at h
    simp only [UpdaterService.step, hphase]
    exact inStep_serveStep hphase hfeed hadmits h.1 h.2
  | stopped result => simp only [UpdaterService.step, InStep, hphase]

/-- In every run whose fetches are handed over, the service and the streams keep in step. -/
theorem Reaches.inStep (h : Reaches ledger deserialize (HandsOver ledger) service streams) :
    InStep ledger service streams := by
  induction h with
  | start capacity urls store => exact inStep_restart fun source hsource => by simp at hsource
  | step _ hfeed hadmits ih => exact inStep_step ih hfeed hadmits

/-- In every run whose fetches are handed over, a serving updater holds the ledger's state at
its confirmed slot, and after the active source confirms a slot at or above the base slot,
that is the state at this slot. -/
theorem handoff_exact (h : Reaches ledger deserialize (HandsOver ledger) service streams)
    {url : String} {updater : StateUpdater} {refresh : Option RefreshInProgress}
    (hserving : service.phase = .serving url updater refresh) :
    Shows ledger updater.confirmedSlot (updater.accounts[·]?) ∧
    ∀ s rest, streams service.activeSource = some (.confirm s :: rest) →
      updater.bootstrapSlot ≤ s →
      ∃ updater' refresh',
        (service.step deserialize (.yellowstone (.confirmedSlot service.activeSource s))).phase =
          .serving url updater' refresh' ∧
        updater'.confirmedSlot = s ∧ Shows ledger s (updater'.accounts[·]?) := by
  have hinstep := h.inStep
  simp only [InStep, hserving] at hinstep
  obtain ⟨-, ⟨a, lost, boot, live, rest, hrest, hfollowing⟩, -⟩ := hinstep
  refine ⟨hfollowing.exact, fun s rest' hconfirm hs => ?_⟩
  obtain rfl := Option.some.inj (hrest.symm.trans hconfirm)
  have hslot := hfollowing.confirmedSlot_confirm hs service.store
  have hreceived : Following ledger (applyStateEvent (.confirmedSlot s) updater service.store).1
      a lost boot (live ++ [.confirm s]) rest' :=
    Following.receive hfollowing service.store
  simp only [UpdaterService.step, hserving, UpdaterService.serveStep, if_pos,
    UpdaterService.serveEvent]
  refine ⟨_, _, rfl, hslot, ?_⟩
  have hexact := hreceived.exact
  rwa [hslot] at hexact

end InStep

/-- A table created in slot 5, and an empty slot 6. -/
def earlyTable : Ledger Key (Option Account) :=
  .pair (.single ⟨.filled 1, 5, 1, some (.sample (.filled 1))⟩) (.empty 6) (by decide)

/-- The service after its only source connected at slot 5 and a state was fetched. -/
def bootstrappedFrom (fetched : FetchedAltState) : UpdaterService :=
  (UpdaterService.start 8 ["rpc"] Store.new).run acceptAll
    [.yellowstone (.connected 0), .fetchFinished (.ok fetched)]

/-- What the source has still to deliver then. -/
def connectedAtFive : Streams :=
  Function.update (fun _ => none) 0 (some (earlyTable.streamFrom 6))

/-- The service gets there whenever the fetched state is exact and the fetch is admitted. -/
theorem reaches_bootstrappedFrom {fetched : FetchedAltState}
    {admits : UpdaterService → Streams → Input → Prop}
    (hexact : Shows earlyTable fetched.contextSlot (fetched.accounts[·]?))
    (hconnect : ∀ service streams, admits service streams (.yellowstone (.connected 0)))
    (hfetch : ∀ service, admits service connectedAtFive (.fetchFinished (.ok fetched))) :
    Reaches earlyTable acceptAll admits (bootstrappedFrom fetched) connectedAtFive :=
  .step (.step (.start 8 ["rpc"] Store.new) (.connected 5 rfl) (hconnect _ _)) (.fetched hexact)
    (hfetch _)

/-- The table as a fetch at slot 5 reads it. -/
def earlyTableFetch : FetchedAltState where
  contextSlot := 5
  accounts := (∅ : Accounts).insert (.filled 1) (Account.sample (.filled 1)).received

/-- That fetch is exact. -/
theorem earlyTableFetch_exact : Shows earlyTable 5 (earlyTableFetch.accounts[·]?) := by
  intro k
  by_cases hk : Key.filled 1 = k
  · subst hk
    decide +kernel
  · simp [earlyTableFetch, earlyTable, Ledger.chain, Chain.stateAt,
      Chain.newestAt, newest, ofKey, hk]

/-- A fetch at slot 5 hands over to the source connected at slot 5. -/
theorem earlyTable_handoff :
    ∃ updater refresh,
      ((bootstrappedFrom earlyTableFetch).step acceptAll
        (.yellowstone (.confirmedSlot 0 6))).phase = .serving "rpc" updater refresh ∧
      updater.confirmedSlot = 6 ∧ Shows earlyTable 6 (updater.accounts[·]?) := by
  have hslots : ∀ w ∈ earlyTable.writes, ¬ 5 < w.slot := by decide +kernel
  refine (handoff_exact (reaches_bootstrappedFrom earlyTableFetch_exact (fun _ _ => trivial)
    fun service url buffered _ rest hrest => ⟨fun _ _ w hw hslot => absurd hslot (hslots w hw),
      fun v _ _ w hw => ?_⟩) rfl).2 6 [] rfl (by decide)
  obtain rfl : rest = [.confirm 6] := by
    by_cases hactive : service.activeSource = 0
    · rw [hactive] at hrest
      exact Option.some.inj hrest.symm
    · rw [connectedAtFive, Function.update_of_ne hactive] at hrest
      cases hrest
  exact absurd hw List.not_mem_nil

/-- A fetch that lags behind the slot its source connected at loses the table for good. -/
theorem laggingFetch_loses_table :
    Reaches earlyTable acceptAll (fun _ _ _ => True) (bootstrappedFrom ⟨4, ∅⟩)
        connectedAtFive ∧
      connectedAtFive 0 = some [.confirm 6] ∧
      ¬ ∃ updater refresh,
        ((bootstrappedFrom ⟨4, ∅⟩).step acceptAll
          (.yellowstone (.confirmedSlot 0 6))).phase = .serving "rpc" updater refresh ∧
        Shows earlyTable 6 (updater.accounts[·]?) := by
  refine ⟨reaches_bootstrappedFrom (fun k => ?_) (fun _ _ => trivial) fun _ => trivial, rfl, ?_⟩
  · exact congrArg (Option.map Account.received) ExtTreeMap.getElem?_empty
  · rintro ⟨updater, refresh, hphase, hexact⟩
    cases hphase
    exact absurd (hexact (.filled 1)) (by decide +kernel)

end AltCache
