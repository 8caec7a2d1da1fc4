import AltCache.Process.Listening
import AltCache.Process.Panic
import AltCache.Updater.Rotation
import AltCache.Updater.Serving

/-!
# The process never gets stuck

The updater waits only while it counts no source as connected, so a source that streams
meanwhile still has its connection in the channel. And wherever the process is, short of a
signal and of a full bootstrap buffer, it serves again after as many wake-ups as the channel
holds events, and ten more.
-/

namespace AltCache

open Lanes

namespace UpdaterService

variable {deserialize : Deserialize} {service : UpdaterService} {input : Input}

/-- Every connected source is configured, and the service waits only if there is none. -/
structure Attentive (service : UpdaterService) : Prop where
  configured : ∀ source ∈ service.connectedSources, source < service.yellowstoneUrls.length
  waiting : service.phase = .waiting → service.connectedSources = ∅

/-- A bootstrap that begins does not wait. -/
theorem beginBootstrap_not_waiting (service : UpdaterService) :
    service.beginBootstrap.phase ≠ .waiting := by
  unfold beginBootstrap stop
  split <;> simp

/-- It waits exactly if the active source is not connected. -/
theorem awaitActive_waiting (service : UpdaterService) :
    service.awaitActive.phase = .waiting ↔ service.activeSource ∉ service.connectedSources := by
  unfold awaitActive
  split
  · next hactive => exact iff_of_false (beginBootstrap_not_waiting _) (not_not.mpr hactive)
  · next hactive => exact iff_of_true rfl hactive

/-- It waits or begins a bootstrap, if the active source is configured. -/
theorem phase_awaitActive (h : service.activeSource < service.yellowstoneUrls.length) :
    service.awaitActive.phase = .waiting ∨
      ∃ url, service.awaitActive.phase = .bootstrapping url [] := by
  unfold awaitActive beginBootstrap
  split
  · rw [List.getElem?_eq_getElem h]
    exact Or.inr ⟨_, rfl⟩
  · exact Or.inl rfl

/-- So it does on an event that it receives while it waits. -/
theorem phase_waitStep (deserialize : Deserialize) (hwaiting : service.phase = .waiting)
    (hactive : service.activeSource < service.yellowstoneUrls.length) {event : Event}
    (hsource : ∀ source, Input.yellowstone event = .yellowstone (.connected source) →
      source < service.yellowstoneUrls.length) :
    (service.step deserialize (.yellowstone event)).phase = .waiting ∨
      ∃ url, (service.step deserialize (.yellowstone event)).phase = .bootstrapping url [] := by
  simp only [UpdaterService.step, hwaiting]
  cases event with
  | connected source => exact phase_awaitActive (hsource source rfl)
  | disconnected source => exact phase_awaitActive hactive
  | account source update => exact Or.inl hwaiting
  | confirmedSlot source slot => exact Or.inl hwaiting

/-- The head of the service loop waits only if no configured source is connected. -/
theorem restart_waiting
    (hconfigured : ∀ source ∈ service.connectedSources, source < service.yellowstoneUrls.length)
    (hactive : service.activeSource < service.yellowstoneUrls.length)
    (h : service.restart.phase = .waiting) : service.connectedSources = ∅ := by
  by_contra hsome
  unfold restart at h
  rw [awaitActive_waiting] at h
  dsimp only at h
  split at h
  · next hconnected => exact h hconnected
  · have hnext := nextConnected_eq_turn hactive hconfigured (Finset.nonempty_iff_ne_empty.mpr hsome)
    unfold selectNextYellowstone at h
    dsimp only at h
    rw [hnext] at h
    exact h (Rotation.turn_mem (Finset.nonempty_iff_ne_empty.mpr hsome) _)

/-- Rotating changes no connection. -/
theorem connectedSources_selectNextYellowstone (service : UpdaterService) :
    service.selectNextYellowstone.connectedSources = service.connectedSources := by
  unfold selectNextYellowstone
  split <;> rfl

/-- Rotating first does not change that. -/
theorem rotate_waiting
    (hconfigured : ∀ source ∈ service.connectedSources, source < service.yellowstoneUrls.length)
    (hactive : service.activeSource < service.yellowstoneUrls.length)
    (h : service.selectNextYellowstone.restart.phase = .waiting) :
    service.connectedSources = ∅ := by
  have hsources : Sources service .refreshDue service := ⟨rfl, rfl, fun h _ => h⟩
  have hurls := yellowstoneUrls_selectNextYellowstone service
  have hconnected := connectedSources_selectNextYellowstone service
  rw [← hconnected]
  apply restart_waiting _ _ h
  · rw [hconnected, hurls]
    exact hconfigured
  · rw [hurls]
    exact hsources.selectNextYellowstone.activeSource hactive (by simp)

/-- The sources that are connected after an input are configured, if its source is. -/
theorem Attentive.configured_connect (h : service.Attentive) {input : Input}
    (hsource : ∀ source, input = .yellowstone (.connected source) →
      source < service.yellowstoneUrls.length)
    {source : ℕ} (hmem : source ∈ connect service.connectedSources input) :
    source < service.yellowstoneUrls.length := by
  unfold connect at hmem
  split at hmem
  · next other =>
    rcases Finset.mem_insert.mp hmem with rfl | hmem
    · exact hsource source rfl
    · exact h.configured source hmem
  · exact h.configured source (Finset.mem_of_mem_erase hmem)
  · exact h.configured source hmem

/-- A wake-up of a running service keeps it attentive. -/
theorem Attentive.step (h : service.Attentive) (input : Input)
    (hrunning : ∀ result, service.phase ≠ .stopped result)
    (hactive : service.activeSource < service.yellowstoneUrls.length)
    (hsource : ∀ source, input = .yellowstone (.connected source) →
      source < service.yellowstoneUrls.length) :
    (service.step deserialize input).Attentive := by
  have hsources := sources_step deserialize input hrunning
  have hconnected := hsources.connectedSources
  have hurls := hsources.yellowstoneUrls
  have hconfigured : ∀ source ∈ connect service.connectedSources input,
      source < service.yellowstoneUrls.length := fun _ => h.configured_connect hsource
  have hwoken := woken_step deserialize service input
  refine ⟨by rwa [hconnected, hurls], fun hwaiting => ?_⟩
  have hbusy (hphase : service.Busy) (hsame : (service.step deserialize input).phase =
      service.phase) : False := by
    rw [hsame] at hwaiting
    rcases hphase with ⟨_, _, hphase⟩ | ⟨_, _, _, hphase⟩ <;> rw [hphase] at hwaiting <;>
      cases hwaiting
  generalize hnext : service.step deserialize input = next at hwoken hwaiting hconnected hbusy
  cases hwoken with
  | passed => exact h.waiting hwaiting
  | stopped hphase => exact (hrunning _ hphase).elim
  | shutdown => cases hwaiting
  | channelClosed => cases hwaiting
  | overflowed => cases hwaiting
  | awaitConnected =>
    rw [awaitActive_waiting] at hwaiting
    exact absurd (Finset.mem_insert_self _ _) hwaiting
  | awaitDisconnected hphase =>
    rw [hconnected, connect, h.waiting hphase]
    exact Finset.erase_empty _
  | connected hphase => exact (hbusy hphase rfl).elim
  | disconnected hphase => exact (hbusy hphase rfl).elim
  | lost =>
    rw [hconnected]
    refine rotate_waiting ?_ ?_ hwaiting
    · exact hconfigured
    · exact hactive
  | broken => exact hconnected ▸ rotate_waiting h.configured hactive hwaiting
  | fetchFailed => exact hconnected ▸ restart_waiting h.configured hactive hwaiting
  | buffered => cases hwaiting
  | recovered => cases hwaiting
  | due => cases hwaiting
  | finished => cases hwaiting
  | applied => cases hwaiting

/-- The service begins attentive. -/
theorem attentive_start (streamCapacity : ℕ) (yellowstoneUrls : List String) (store : Store) :
    (start streamCapacity yellowstoneUrls store).Attentive := by
  have hsources : Sources
      { streamCapacity, yellowstoneUrls, store, connectedSources := ∅, activeSource := 0
        phase := .waiting } .refreshDue
      { streamCapacity, yellowstoneUrls, store, connectedSources := ∅, activeSource := 0
        phase := .waiting } := ⟨rfl, rfl, fun h _ => h⟩
  have hnone : (start streamCapacity yellowstoneUrls store).connectedSources = ∅ :=
    hsources.restart.connectedSources
  exact ⟨fun source hsource => by simp [hnone] at hsource, fun _ => hnone⟩

end UpdaterService

/-- A source that becomes connected says so. -/
theorem Connectivity.mem_of_path {events : List Event} (h : Path Connectivity false events true) :
    ∃ source, .connected source ∈ events := by
  induction events with
  | nil => exact absurd h Bool.false_ne_true
  | cons event events ih =>
    obtain ⟨after, hevent, hrest⟩ := h
    generalize hbefore : false = before at hevent
    cases hevent with
    | connected source => exact ⟨source, List.mem_cons_self⟩
    | disconnected before source =>
      obtain ⟨other, hother⟩ := ih hrest
      exact ⟨other, List.mem_cons_of_mem _ hother⟩
    | account => cases hbefore
    | confirmedSlot => cases hbefore

/-- The updater receives from the channel. -/
def ProcessInput.receives : ProcessInput → Bool
  | .receive => true
  | _ => false

namespace Process

variable {deserialize : Deserialize} {process next : Process} {input : ProcessInput}

/-- A wake-up that leaves the updater running keeps it attentive. -/
theorem attentive_step (h : process.service.Attentive) (hconfigured : process.Configured)
    (hrunning : process.receiverDropped = false) (input : ProcessInput) :
    (process.step deserialize input).service.Attentive := by
  have hwake {wake : Input} (hsource : ∀ source, wake = .yellowstone (.connected source) →
      source < process.service.yellowstoneUrls.length) :
      (process.service.step deserialize wake).Attentive :=
    h.step wake (not_stopped_of_running hrunning) hconfigured.active hsource
  have hmoved := moved_step deserialize input hrunning
  generalize process.step deserialize input = next at hmoved ⊢
  cases hmoved with
  | idle => exact h
  | signalled => exact h
  | offered => exact h
  | put => exact h
  | delayed => exact h
  | cancelled => exact h
  | took hchannel => exact hwake (hconfigured.taken hchannel)
  | woken hwoken => exact hwake fun source hconnected => by subst hconnected; cases hwoken
  | paged => exact ⟨h.configured, h.waiting⟩

/-- The updater stays attentive while it runs. -/
theorem attentive_run (deserialize : Deserialize) (streamCapacity : ℕ)
    {yellowstoneUrls : List String} (hsources : 0 < yellowstoneUrls.length)
    (inputs : List ProcessInput)
    (hrunning : ((start streamCapacity yellowstoneUrls).run deserialize inputs).receiverDropped =
      false) :
    ((start streamCapacity yellowstoneUrls).run deserialize inputs).service.Attentive := by
  induction inputs using List.reverseRecOn with
  | nil => exact UpdaterService.attentive_start ..
  | append_singleton inputs input ih =>
    rw [run_concat] at hrunning ⊢
    have hbefore := receiverDropped_of_step hrunning
    have hconfigured := configured_run deserialize streamCapacity hsources inputs hbefore
    exact attentive_step (ih hbefore) hconfigured hbefore input

/-- As long as the updater does not receive, the channel only grows. -/
theorem Moved.channel_append (hmoved : Moved deserialize process input next)
    (hreceives : input.receives = false) : ∃ more, next.channel = process.channel ++ more := by
  cases hmoved with
  | @put source event thread => exact ⟨[event], rfl⟩
  | took => cases hreceives
  | _ => exact ⟨[], (List.append_nil _).symm⟩

/-- A waiting updater takes the first event out of the channel. -/
theorem step_receive_of_waiting (deserialize : Deserialize) {event : Event}
    {channel : List Event} (hwaiting : process.service.phase = .waiting)
    (hchannel : process.channel = event :: channel) :
    process.step deserialize .receive =
      { process with channel }.wake deserialize (.yellowstone event) := by
  simp only [step, Process.receive, receiverDropped, hwaiting, hchannel]
  rfl

/-- A connection that a waiting updater receives ends the wait. -/
theorem phase_wake_connected (deserialize : Deserialize) {process : Process} (source : ℕ)
    (hwaiting : process.service.phase = .waiting) :
    (process.wake deserialize (.yellowstone (.connected source))).service.phase ≠ .waiting := by
  intro hphase
  simp only [Process.wake, UpdaterService.step, hwaiting, UpdaterService.waitStep] at hphase
  exact (UpdaterService.awaitActive_waiting _).mp hphase (Finset.mem_insert_self _ _)

/-- The wait for an active source is over: a bootstrap begins, or the updater has shut down. -/
def WaitOver (process : Process) : Prop :=
  (∃ url, process.service.phase = .bootstrapping url []) ∨
    process.stop = true ∧ process.service.phase = .stopped (.ok ())

/-- With events in the channel a waiting updater goes on waiting, or its wait is over. -/
theorem Moved.waits (hmoved : Moved deserialize process input next) (h : process.Configured)
    (hwaiting : process.service.phase = .waiting) (hchannel : process.channel ≠ []) :
    next.service.phase = .waiting ∨ next.WaitOver := by
  cases hmoved with
  | took htaken =>
    exact (UpdaterService.phase_waitStep deserialize hwaiting h.active
      (h.taken htaken)).imp_right Or.inl
  | @woken input wake hwake =>
    have hstep : (process.wake deserialize wake).service = process.service.waitStep wake := by
      simp only [Process.wake, UpdaterService.step, hwaiting]
    cases hwake with
    | shutdown hstop => exact Or.inr (Or.inr ⟨hstop, by rw [hstep]; rfl⟩)
    | channelClosed hempty => exact absurd hempty hchannel
    | fetchFinished result => exact Or.inl (by rwa [hstep])
    | refreshDue => exact Or.inl (by rwa [hstep])
    | refreshFinished result => exact Or.inl (by rwa [hstep])
  | idle => exact Or.inl hwaiting
  | signalled => exact Or.inl hwaiting
  | offered => exact Or.inl hwaiting
  | put => exact Or.inl hwaiting
  | delayed => exact Or.inl hwaiting
  | cancelled => exact Or.inl hwaiting
  | paged => exact Or.inl hwaiting

/-- A connection in the channel ends the wait of the updater once it has been received. -/
theorem wait_ends (deserialize : Deserialize) {source : ℕ} {before after : List Event}
    (later : List ProcessInput) (h : process.Configured)
    (hwaiting : process.service.phase = .waiting)
    (hchannel : process.channel = before ++ .connected source :: after)
    (hreceives : before.length < later.countP ProcessInput.receives) :
    ∃ first, first <+: later ∧ (process.run deserialize first).WaitOver := by
  induction later generalizing process before after with
  | nil => exact absurd hreceives (Nat.not_lt_zero _)
  | cons input later ih =>
    have hrunning : process.receiverDropped = false := by
      rw [receiverDropped, hwaiting]
    have hmoved := moved_step deserialize input hrunning
    have hconfigured := hmoved.configured h hrunning
    rcases hmoved.waits h hwaiting (by simp [hchannel]) with hwaits | hover
    · have hgoes (hnext : ∃ first, first <+: later ∧
          ((process.step deserialize input).run deserialize first).WaitOver) :
          ∃ first, first <+: input :: later ∧ (process.run deserialize first).WaitOver := by
        obtain ⟨first, hfirst, hover⟩ := hnext
        exact ⟨input :: first, List.cons_prefix_cons.mpr ⟨rfl, hfirst⟩, hover⟩
      cases hinput : input.receives with
      | false =>
        obtain ⟨more, hmore⟩ := hmoved.channel_append hinput
        rw [List.countP_cons_of_neg (by simp [hinput])] at hreceives
        have hnext : (process.step deserialize input).channel =
            before ++ .connected source :: (after ++ more) := by
          rw [hmore, hchannel, List.append_assoc, List.cons_append]
        exact hgoes (ih hconfigured hwaits hnext hreceives)
      | true =>
        obtain rfl : input = .receive := by
          cases input <;> first | rfl | cases hinput
        cases before with
        | nil =>
          rw [step_receive_of_waiting deserialize hwaiting hchannel] at hwaits
          exact (phase_wake_connected deserialize source hwaiting hwaits).elim
        | cons event before =>
          rw [List.countP_cons_of_pos rfl] at hreceives
          have hnext : (process.step deserialize .receive).channel =
              before ++ .connected source :: after := by
            rw [step_receive_of_waiting deserialize hwaiting hchannel]
            rfl
          exact hgoes (ih hconfigured hwaits hnext (Nat.lt_of_succ_lt_succ hreceives))
    · exact ⟨[input], List.cons_prefix_cons.mpr ⟨rfl, List.nil_prefix⟩, hover⟩

/-- While the updater waits, every source whose thread is streaming still has its connection in
the channel: the wait is over by the time that all in the channel is received. -/
theorem waits_for_connection (deserialize : Deserialize) (streamCapacity : ℕ)
    (yellowstoneUrls : List String) (hsources : 0 < yellowstoneUrls.length)
    (inputs : List ProcessInput) {process : Process}
    (hprocess : process = (start streamCapacity yellowstoneUrls).run deserialize inputs)
    (hwaiting : process.service.phase = .waiting) {source : ℕ}
    (hstreaming : process.threads source = .streaming) :
    .connected source ∈ process.channel ∧
      ∀ later : List ProcessInput,
        process.channel.length ≤ later.countP ProcessInput.receives →
        ∃ first, first <+: later ∧ (process.run deserialize first).WaitOver := by
  have hrunning : process.receiverDropped = false := by
    rw [receiverDropped, hwaiting]
  subst hprocess
  have hmem : .connected source ∈
      ((start streamCapacity yellowstoneUrls).run deserialize inputs).channel := by
    obtain ⟨said, hears⟩ := hears_run deserialize streamCapacity yellowstoneUrls inputs hrunning
    have hattentive := attentive_run deserialize streamCapacity hsources inputs hrunning
    have hpath := hears.inTransit source
    have hsaid : said source = true := by
      have htells := hears.tells source
      rwa [hstreaming] at htells
    rw [hsaid, hattentive.waiting hwaiting] at hpath
    obtain ⟨other, hother⟩ := Connectivity.mem_of_path hpath
    have hoffered : ((start streamCapacity yellowstoneUrls).run deserialize
        inputs).offered source = none := by
      rw [offered, hstreaming]
      rfl
    rw [underway, hoffered, Option.toList_none, List.append_nil] at hother
    obtain ⟨hmem, hlane⟩ := List.mem_filter.mp hother
    obtain rfl : other = source := of_decide_eq_true hlane
    exact hmem
  refine ⟨hmem, fun later hlater => ?_⟩
  obtain ⟨before, after, hchannel⟩ := List.append_of_mem hmem
  have hconfigured := configured_run deserialize streamCapacity hsources inputs hrunning
  refine wait_ends deserialize later hconfigured hwaiting hchannel (lt_of_lt_of_le ?_ hlater)
  simp [hchannel]

/-- One source has been subscribed and has sent its connection. -/
def announced : List ProcessInput := [.source 0 .subscribed, .source 0 .sendable]

/-- The connection is in the channel, and the updater bootstraps once it has received it. -/
theorem announced_waits :
    .connected 0 ∈ ((start 1 ["a"]).run acceptAll announced).channel ∧
      ∃ first, first <+: [.signal, .receive] ∧
        (((start 1 ["a"]).run acceptAll announced).run acceptAll first).WaitOver := by
  have hstreaming : ((start 1 ["a"]).run acceptAll announced).threads 0 = .streaming := rfl
  obtain ⟨hchannel, hends⟩ :=
    waits_for_connection acceptAll 1 ["a"] (by decide) announced rfl rfl hstreaming
  exact ⟨hchannel, hends [.signal, .receive] le_rfl⟩

end Process

/-- The slot that a fetch has to reach: a refresh may not fall behind what is served. -/
def UpdaterService.minimumContextSlot (service : UpdaterService) : ℕ :=
  match service.phase with
  | .serving _ _ (some refresh) => refresh.minimumContextSlot
  | _ => 0

namespace Process

variable {deserialize : Deserialize} {process next : Process} {input : ProcessInput}

/-- A wake-up that is not a signal, in which a fetch fails or returns a given state. -/
def Fetching (fetched : FetchedAltState) (process : Process) : ProcessInput → Prop
  | .signal => False
  | .fetchFinished (.ok state) => state = fetched
  | .refreshFinished (.ok state) =>
    state = fetched ∧ process.service.minimumContextSlot ≤ state.contextSlot
  | _ => True

/-- The process may come to serve a snapshot after at most so many wake-ups, if every fetch that
succeeds returns a given state. -/
inductive ServesWithin (deserialize : Deserialize) (fetched : FetchedAltState)
    (snapshot : ReadSnapshot) : Process → ℕ → Prop where
  | serves {process wakeups} (h : process.service.store.readSnapshot = .ok snapshot) :
      ServesWithin deserialize fetched snapshot process wakeups
  | step {process wakeups} (input : ProcessInput) (hinput : process.Fetching fetched input)
      (h : ServesWithin deserialize fetched snapshot (process.step deserialize input) wakeups) :
      ServesWithin deserialize fetched snapshot process (wakeups + 1)

/-- The updater of a live process waits, its store would publish what is fetched as a given
snapshot, the channel holds some events, and the thread of a source is at some wait point. -/
structure Waits (process : Process) (fetched : FetchedAltState) (snapshot : ReadSnapshot)
    (source : ℕ) (thread : SourceThread) (channel : List Event) : Prop where
  live : process.Live
  waiting : process.service.phase = .waiting
  capacity : 0 < process.service.streamCapacity
  configured : source < process.service.yellowstoneUrls.length
  published :
    process.service.store.published fetched.contextSlot fetched.accounts = snapshot
  channel : process.channel = channel
  thread : process.threads source = thread

section Serves

variable {fetched : FetchedAltState} {snapshot : ReadSnapshot} {wakeups more source : ℕ}
  {thread : SourceThread} {channel : List Event} {event : Event} {url : String}
  {updater : StateUpdater}

/-- A wake-up of a source's thread more. -/
theorem ServesWithin.ofSource {other : ℕ} {input : SourceInput}
    (h : (process.step deserialize (.source other input)).ServesWithin deserialize fetched
      snapshot wakeups) : process.ServesWithin deserialize fetched snapshot (wakeups + 1) :=
  .step (.source other input) trivial h

/-- More wake-ups than are needed. -/
theorem ServesWithin.mono (h : process.ServesWithin deserialize fetched snapshot wakeups)
    (hmore : wakeups ≤ more) : process.ServesWithin deserialize fetched snapshot more := by
  induction h generalizing more with
  | serves hserves => exact .serves hserves
  | step input hinput _ ih =>
    obtain ⟨more, rfl⟩ := Nat.exists_eq_add_of_lt hmore
    exact .step input hinput (ih (Nat.le_add_right _ _))

/-- A bootstrap that has buffered nothing lacks only the fetch. -/
theorem serves_bootstrapping (h : process.service.phase = .bootstrapping url []) :
    process.ServesWithin deserialize fetched
      (process.service.store.published fetched.contextSlot fetched.accounts) 1 := by
  refine .step (.fetchFinished (.ok fetched)) rfl (.serves ?_)
  have hstore : (process.step deserialize (.fetchFinished (.ok fetched))).service.store =
      (recoverAltState url fetched [] process.service.store).2 := by
    simp only [step, wake, UpdaterService.step, h, UpdaterService.bootstrapStep]
  rw [hstore, recoverAltState_nil]
  exact Store.readSnapshot_publish_eq ..

/-- A service that serves and is not refreshing may refresh. -/
theorem serves_idle (h : process.service.phase = .serving url updater none)
    (hslot : updater.confirmedSlot ≤ fetched.contextSlot) :
    process.ServesWithin deserialize fetched
      (process.service.store.published fetched.contextSlot fetched.accounts) 2 := by
  have hdue : (process.step deserialize .refreshDue).service =
      { process.service with
        phase := .serving url updater (some (.start updater.confirmedSlot)) } := by
    simp only [step, wake, UpdaterService.step, h, UpdaterService.serveStep]
    rfl
  have hminimum : (process.step deserialize .refreshDue).service.minimumContextSlot =
      updater.confirmedSlot := by
    rw [hdue]
    rfl
  refine .step .refreshDue trivial
    (.step (.refreshFinished (.ok fetched)) ⟨rfl, hminimum.trans_le hslot⟩ (.serves ?_))
  have hstore : ((process.step deserialize .refreshDue).step deserialize
      (.refreshFinished (.ok fetched))).service.store =
        (recoverAltState url fetched [] process.service.store).2 := by
    change ((process.step deserialize .refreshDue).service.step deserialize
      (.refreshFinished (.ok fetched))).store = _
    rw [hdue]
    rfl
  rw [hstore, recoverAltState_nil]
  exact Store.readSnapshot_publish_eq ..

/-- A refresh that is under way may fail first. -/
theorem serves_serving {refresh : Option RefreshInProgress}
    (h : process.service.phase = .serving url updater refresh)
    (hslot : updater.confirmedSlot ≤ fetched.contextSlot) :
    process.ServesWithin deserialize fetched
      (process.service.store.published fetched.contextSlot fetched.accounts) 3 := by
  cases refresh with
  | none => exact (serves_idle h hslot).mono (by decide)
  | some active =>
    have hfailed : (process.step deserialize (.refreshFinished (.error ""))).service =
        { process.service with phase := .serving url updater none } := by
      simp only [step, wake, UpdaterService.step, h, UpdaterService.serveStep]
      rfl
    have hphase : (process.step deserialize (.refreshFinished (.error ""))).service.phase =
        .serving url updater none := by
      rw [hfailed]
    rw [← Store.published_congr (congrArg (·.store.current) hfailed)]
    exact .step (.refreshFinished (.error "")) trivial (serves_idle hphase hslot)

/-- A wake-up of a process whose updater waits leaves it live. -/
theorem Waits.live_step (h : process.Waits fetched snapshot source thread channel)
    (deserialize : Deserialize) (hinput : input ≠ .signal) :
    (process.step deserialize input).Live ∧
      (process.step deserialize input).receiverDropped = false := by
  have hrunning : process.receiverDropped = false := by
    rw [receiverDropped, h.waiting]
  rcases (moved_step deserialize input hrunning).live h.live hrunning hinput with
    hlive | ⟨⟨url, buffered, hphase, -⟩, -⟩
  · exact hlive
  · rw [h.waiting] at hphase
    cases hphase

/-- The thread goes on to its next wait point. -/
theorem Waits.goOn {input : SourceInput} {next : SourceThread} {channel' : List Event}
    (h : process.Waits fetched snapshot source thread channel)
    (hstep : process.sourceStep source input =
      { process with channel := channel' }.setThread source next) :
    (process.step deserialize (.source source input)).Waits fetched snapshot source next
      channel' := by
  have hsource : (.source source input : ProcessInput) ≠ .signal := by simp
  obtain ⟨hlive, -⟩ := h.live_step deserialize hsource
  rw [step, hstep] at hlive ⊢
  exact ⟨hlive, h.waiting, h.capacity, h.configured, h.published, rfl, threads_setThread_self ..⟩

/-- The updater receives the next event: it goes on waiting, or begins a bootstrap. -/
theorem Waits.receive (h : process.Waits fetched snapshot source thread (event :: channel))
    (deserialize : Deserialize) :
    (process.step deserialize .receive).Waits fetched snapshot source thread channel ∨
      (∃ url, (process.step deserialize .receive).service.phase = .bootstrapping url []) ∧
        (process.step deserialize .receive).service.store.published fetched.contextSlot
          fetched.accounts = snapshot := by
  have hreceive : (.receive : ProcessInput) ≠ .signal := by simp
  obtain ⟨hlive, hrunning⟩ := h.live_step deserialize hreceive
  rw [step_receive_of_waiting deserialize h.waiting h.channel] at hlive hrunning ⊢
  have hnext := UpdaterService.phase_waitStep deserialize h.waiting h.live.active
    (h.live.taken h.channel)
  have hpublished (hserving : ∀ url updater refresh,
      (process.service.step deserialize (.yellowstone event)).phase ≠
        .serving url updater refresh) :
      (process.service.step deserialize (.yellowstone event)).store.published
        fetched.contextSlot fetched.accounts = snapshot := by
    rw [Store.published_congr ((UpdaterService.stored_step deserialize _ _).current hserving)]
    exact h.published
  rcases hnext with hphase | ⟨url, hphase⟩
  · have hurls : (process.service.step deserialize (.yellowstone event)).yellowstoneUrls =
        process.service.yellowstoneUrls :=
      (UpdaterService.sources_step deserialize _ (by simp [h.waiting])).yellowstoneUrls
    refine Or.inl ⟨hlive, hphase, ?_, ?_, hpublished (by simp [hphase]), rfl, h.thread⟩
    · change 0 < (process.service.step deserialize (.yellowstone event)).streamCapacity
      rw [UpdaterService.streamCapacity_step]
      exact h.capacity
    · change source <
        (process.service.step deserialize (.yellowstone event)).yellowstoneUrls.length
      rw [hurls]
      exact h.configured
  · exact Or.inr ⟨⟨url, hphase⟩, hpublished (by simp [hphase])⟩

/-- A bootstrap that has just begun serves what is fetched. -/
theorem serves_begun
    (h : (∃ url, process.service.phase = .bootstrapping url []) ∧
      process.service.store.published fetched.contextSlot fetched.accounts = snapshot) :
    process.ServesWithin deserialize fetched snapshot 1 := by
  obtain ⟨⟨url, hphase⟩, rfl⟩ := h
  exact serves_bootstrapping hphase

/-- A waiting updater receives an event and the process serves, if it does from there. -/
theorem Waits.serves_received
    (h : process.Waits fetched snapshot source thread (event :: channel)) (hmore : 1 ≤ wakeups)
    (hrest : ∀ next : Process, next.Waits fetched snapshot source thread channel →
      next.ServesWithin deserialize fetched snapshot wakeups) :
    process.ServesWithin deserialize fetched snapshot (wakeups + 1) := by
  apply ServesWithin.step .receive trivial
  rcases h.receive deserialize with hnext | hbegun
  · exact hrest _ hnext
  · exact (serves_begun hbegun).mono hmore

/-- A connection that is received ends the wait. -/
theorem Waits.serves_connected
    (h : process.Waits fetched snapshot source thread (.connected source :: channel)) :
    process.ServesWithin deserialize fetched snapshot 2 := by
  apply ServesWithin.step .receive trivial
  rcases h.receive deserialize with hnext | hbegun
  · have hwaiting := hnext.waiting
    rw [step_receive_of_waiting deserialize h.waiting h.channel] at hwaiting
    exact (phase_wake_connected deserialize source h.waiting hwaiting).elim
  · exact serves_begun hbegun

/-- A thread that connects sends its connection. -/
theorem Waits.serves_connecting (h : process.Waits fetched snapshot source .connecting []) :
    process.ServesWithin deserialize fetched snapshot 4 := by
  have hsubscribed : (process.step deserialize (.source source .subscribed)).Waits fetched
      snapshot source (.sending (.connected source)) [] :=
    h.goOn (by simp only [sourceStep, h.thread, ← h.channel])
  have hsent : ((process.step deserialize (.source source .subscribed)).step deserialize
      (.source source .sendable)).Waits fetched snapshot source .streaming [.connected source] :=
    hsubscribed.goOn (by
      simp only [sourceStep, hsubscribed.thread, receiverDropped, hsubscribed.waiting, send,
        hsubscribed.channel, List.length_nil, hsubscribed.capacity]
      rfl)
  exact hsent.serves_connected.ofSource.ofSource

/-- A thread that has waited connects again. -/
theorem Waits.serves_delaying (h : process.Waits fetched snapshot source .delaying []) :
    process.ServesWithin deserialize fetched snapshot 5 := by
  have hnext : (process.step deserialize (.source source .elapsed)).Waits fetched snapshot source
      .connecting [] :=
    h.goOn (by simp only [sourceStep, h.thread, ← h.channel])
  exact hnext.serves_connecting.ofSource

/-- A thread whose session has failed announces it first. -/
theorem Waits.serves_failed (h : process.Waits fetched snapshot source .failed []) :
    process.ServesWithin deserialize fetched snapshot 7 := by
  have hsent : (process.step deserialize (.source source .sendable)).Waits fetched snapshot
      source .delaying [.disconnected source] :=
    h.goOn (by
      simp only [sourceStep, h.thread, receiverDropped, h.waiting, send, h.channel,
        List.length_nil, h.capacity]
      rfl)
  have hserves : (process.step deserialize (.source source .sendable)).ServesWithin deserialize
      fetched snapshot 6 :=
    hsent.serves_received (by decide) fun next hnext => hnext.serves_delaying
  exact hserves.ofSource

/-- A thread that streams may fail. -/
theorem Waits.serves_streaming (h : process.Waits fetched snapshot source .streaming []) :
    process.ServesWithin deserialize fetched snapshot 8 := by
  have hnext : (process.step deserialize (.source source .sessionFailed)).Waits fetched snapshot
      source .failed [] :=
    h.goOn (by simp only [sourceStep, h.thread, ← h.channel])
  exact hnext.serves_failed.ofSource

/-- A thread that has an event to send sends it first. -/
theorem Waits.serves_sending (h : process.Waits fetched snapshot source (.sending event) []) :
    process.ServesWithin deserialize fetched snapshot 10 := by
  have hsent : (process.step deserialize (.source source .sendable)).Waits fetched snapshot
      source .streaming [event] :=
    h.goOn (by
      simp only [sourceStep, h.thread, receiverDropped, h.waiting, send, h.channel,
        List.length_nil, h.capacity]
      rfl)
  have hserves : (process.step deserialize (.source source .sendable)).ServesWithin deserialize
      fetched snapshot 9 :=
    hsent.serves_received (by decide) fun next hnext => hnext.serves_streaming
  exact hserves.ofSource

/-- With an empty channel, the thread of any source leads on. -/
theorem Waits.serves_empty (h : process.Waits fetched snapshot source thread []) :
    process.ServesWithin deserialize fetched snapshot 10 := by
  cases thread with
  | connecting => exact h.serves_connecting.mono (by decide)
  | streaming => exact h.serves_streaming.mono (by decide)
  | sending event => exact h.serves_sending
  | failed => exact h.serves_failed.mono (by decide)
  | delaying => exact h.serves_delaying.mono (by decide)
  | ended => exact absurd (h.live.threads source h.thread) (not_le.mpr h.configured)

/-- Otherwise what is in the channel is received first. -/
theorem Waits.serves (h : process.Waits fetched snapshot source thread channel) :
    process.ServesWithin deserialize fetched snapshot (channel.length + 10) := by
  induction channel generalizing process with
  | nil => exact h.serves_empty
  | cons event channel ih =>
    have hserves : process.ServesWithin deserialize fetched snapshot (channel.length + 10 + 1) :=
      h.serves_received (Nat.le_add_left 1 _) fun next hnext => ih hnext
    exact hserves.mono (by rw [List.length_cons, Nat.add_right_comm])

/-- A live process whose updater waits serves once what its channel holds is received. -/
theorem Live.serves_waiting (h : process.Live) (hwaiting : process.service.phase = .waiting)
    (hroom : 0 < process.service.streamCapacity) :
    process.ServesWithin deserialize fetched
      (process.service.store.published fetched.contextSlot fetched.accounts)
      (process.channel.length + 10) := by
  have hwaits : process.Waits fetched
      (process.service.store.published fetched.contextSlot fetched.accounts)
      process.service.activeSource (process.threads process.service.activeSource)
      process.channel :=
    ⟨h, hwaiting, hroom, h.active, rfl, rfl, rfl⟩
  exact hwaits.serves

/-- A bootstrap that has buffered events fails, and the next one begins with an empty buffer. -/
theorem Live.serves_buffered {buffered : List StateEvent} (h : process.Live)
    (hrunning : process.receiverDropped = false) (hroom : 0 < process.service.streamCapacity)
    (hphase : process.service.phase = .bootstrapping url buffered) :
    process.ServesWithin deserialize fetched
      (process.service.store.published fetched.contextSlot fetched.accounts)
      (process.channel.length + 11) := by
  have hservice : (process.step deserialize (.fetchFinished (.error ""))).service =
      process.service.restart := by
    simp only [step, Process.wake, UpdaterService.step, hphase, UpdaterService.bootstrapStep]
  have hpublished : (process.step deserialize (.fetchFinished (.error ""))).service.store.published
      fetched.contextSlot fetched.accounts =
        process.service.store.published fetched.contextSlot fetched.accounts := by
    apply Store.published_congr
    rw [hservice, UpdaterService.store_restart, Store.current_invalidate]
  have hquiet (event : Event) : Input.fetchFinished (.error "") ≠ .yellowstone event := by simp
  obtain ⟨hlive, hruns⟩ := h.runsOn deserialize hrunning hquiet (by simp) (by simp)
  change (process.step deserialize (.fetchFinished (.error ""))).Live at hlive
  change (process.step deserialize (.fetchFinished (.error ""))).receiverDropped = false at hruns
  have hfresh := hservice ▸ UpdaterService.fresh_restart process.service
  rw [← hpublished]
  apply ServesWithin.step (.fetchFinished (.error "")) trivial
  cases hnext : (process.step deserialize (.fetchFinished (.error ""))).service.phase with
  | waiting =>
    have hroom' : 0 <
        (process.step deserialize (.fetchFinished (.error ""))).service.streamCapacity := by
      rw [hservice, UpdaterService.streamCapacity_restart]
      exact hroom
    exact hlive.serves_waiting hnext hroom'
  | bootstrapping url' buffered' =>
    obtain ⟨rfl, -⟩ := hfresh.bootstrapping url' buffered' hnext
    exact (serves_bootstrapping hnext).mono (Nat.le_add_left ..)
  | serving url' updater refresh => exact (hfresh.notServing url' updater refresh hnext).elim
  | stopped result => exact (not_stopped_of_running hruns result hnext).elim

end Serves

/-- No wake-up changes the capacity. -/
theorem Moved.streamCapacity (h : Moved deserialize process input next) :
    next.service.streamCapacity = process.service.streamCapacity := by
  cases h with
  | took => exact UpdaterService.streamCapacity_step ..
  | woken => exact UpdaterService.streamCapacity_step ..
  | _ => rfl

/-- The capacity stays what it was configured to be while the updater runs. -/
theorem streamCapacity_run (deserialize : Deserialize) (streamCapacity : ℕ)
    (yellowstoneUrls : List String) (inputs : List ProcessInput)
    (hrunning : ((start streamCapacity yellowstoneUrls).run deserialize inputs).receiverDropped =
      false) :
    ((start streamCapacity yellowstoneUrls).run deserialize inputs).service.streamCapacity =
      streamCapacity := by
  induction inputs using List.reverseRecOn with
  | nil => exact UpdaterService.streamCapacity_restart _
  | append_singleton inputs input ih =>
    rw [run_concat] at hrunning ⊢
    have hbefore := receiverDropped_of_step hrunning
    exact (moved_step deserialize input hbefore).streamCapacity.trans (ih hbefore)

/-- The channel of a running updater has room for an event at least. -/
theorem room_of_running {streamCapacity : ℕ} (hcapacity : 0 < streamCapacity)
    {yellowstoneUrls : List String} {inputs : List ProcessInput} {process : Process}
    (hprocess : process = (start streamCapacity yellowstoneUrls).run deserialize inputs)
    (hrunning : process.receiverDropped = false) : 0 < process.service.streamCapacity := by
  subst hprocess
  exact hcapacity.trans_eq
    (streamCapacity_run deserialize streamCapacity yellowstoneUrls inputs hrunning).symm

/-- A live process whose channel has room serves what is fetched after at most as many wake-ups as
the channel holds events and eleven more. -/
theorem Live.serves {process : Process} (h : process.Live)
    (hrunning : process.receiverDropped = false) (hroom : 0 < process.service.streamCapacity)
    {fetched : FetchedAltState}
    (hslot : ∀ url updater refresh, process.service.phase = .serving url updater refresh →
      updater.confirmedSlot ≤ fetched.contextSlot) :
    process.ServesWithin deserialize fetched
      (process.service.store.published fetched.contextSlot fetched.accounts)
      (process.channel.length + 11) := by
  cases hphase : process.service.phase with
  | waiting => exact (h.serves_waiting hphase hroom).mono (Nat.le_succ _)
  | bootstrapping url buffered => exact h.serves_buffered hrunning hroom hphase
  | serving url updater refresh =>
    exact (serves_serving hphase (hslot url updater refresh hphase)).mono (by omega)
  | stopped result => exact (not_stopped_of_running hrunning result hphase).elim

/-- Wherever a live process is, after at most as many wake-ups as its channel holds events and
eleven more it serves what a fetch returns that is not behind what it serves already: no
interleaving, failure or refresh leaves it stuck. -/
theorem serves_again (deserialize : Deserialize) {streamCapacity : ℕ}
    (hcapacity : 0 < streamCapacity) {yellowstoneUrls : List String}
    (hsources : 0 < yellowstoneUrls.length) (inputs : List ProcessInput)
    (hsignal : .signal ∉ inputs) {process : Process}
    (hprocess : process = (start streamCapacity yellowstoneUrls).run deserialize inputs)
    (hrunning : process.receiverDropped = false) {fetched : FetchedAltState}
    (hslot : ∀ url updater refresh, process.service.phase = .serving url updater refresh →
      updater.confirmedSlot ≤ fetched.contextSlot) :
    process.ServesWithin deserialize fetched
      (process.service.store.published fetched.contextSlot fetched.accounts)
      (process.channel.length + 11) := by
  have hroom := room_of_running hcapacity hprocess hrunning
  rcases live_run deserialize streamCapacity hsources inputs hsignal hprocess with
    ⟨hlive, -⟩ | ⟨-, hphase, -⟩
  · exact hlive.serves hrunning hroom hslot
  · exact (not_stopped_of_running hrunning _ hphase).elim

/-- A table fetched at slot 7. -/
def tableAtSeven : FetchedAltState where
  contextSlot := 7
  accounts := (∅ : Accounts).insert (.filled 1) (Account.sample (.filled 1)).received

/-- The run of two threads, while it bootstraps, serves it within twelve wake-ups. -/
theorem twoThreads_serve :
    ∃ process, process = (start 1 ["a", "b"]).run acceptAll twoThreads ∧
      process.ServesWithin acceptAll tableAtSeven ⟨7, tableAtSeven.accounts⟩ 12 := by
  have hsources : 0 < ["a", "b"].length := by decide
  have hsignal : (.signal : ProcessInput) ∉ twoThreads := by simp [twoThreads]
  exact ⟨_, rfl,
    serves_again acceptAll Nat.one_pos hsources twoThreads hsignal rfl rfl
      fun url updater refresh hphase => by cases hphase⟩

end Process

end AltCache
