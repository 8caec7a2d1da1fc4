import AltCache.Process.Delivery

/-!
# What brings the process down

No thread of a source ends and no source index leaves its range, so short of a signal the
updater returns for one reason: its active source delivers more during one bootstrap fetch than
the buffer holds.
-/

namespace AltCache

/-- The error of a bootstrap that buffers too much. -/
def bootstrapBufferFull : Except String Unit := .error "bootstrap update buffer full"

namespace UpdaterService

variable {deserialize : Deserialize} {service : UpdaterService} {input : Input}
  {result : Except String Unit}

/-- A bootstrap whose buffer is full. -/
def BufferFull (service : UpdaterService) : Prop :=
  ∃ url buffered, service.phase = .bootstrapping url buffered ∧
    service.streamCapacity ≤ buffered.length

/-- Waiting for the active source keeps it. -/
theorem activeSource_awaitActive (service : UpdaterService) :
    service.awaitActive.activeSource = service.activeSource := by
  unfold awaitActive beginBootstrap stop
  split
  · split <;> rfl
  · rfl

/-- A configured active source is never indexed out of bounds. -/
theorem not_stopped_awaitActive (h : service.activeSource < service.yellowstoneUrls.length) :
    service.awaitActive.phase ≠ .stopped result := by
  unfold awaitActive beginBootstrap
  rw [List.getElem?_eq_getElem h]
  split <;> simp

/-- Nor is it by a restart that leaves a configured one. -/
theorem not_stopped_restart (h : service.restart.activeSource < service.yellowstoneUrls.length) :
    service.restart.phase ≠ .stopped result := by
  unfold restart at h ⊢
  rw [activeSource_awaitActive] at h
  apply not_stopped_awaitActive
  refine h.trans_eq ?_
  split
  · rfl
  · unfold selectNextYellowstone
    split <;> rfl

/-- Rotating keeps the configured sources. -/
theorem yellowstoneUrls_selectNextYellowstone (service : UpdaterService) :
    service.selectNextYellowstone.yellowstoneUrls = service.yellowstoneUrls := by
  unfold selectNextYellowstone
  split <;> rfl

/-- After a rotation a service with a configured active source restarts. -/
theorem not_stopped_rotate (h : service.activeSource < service.yellowstoneUrls.length) :
    service.selectNextYellowstone.restart.phase ≠ .stopped result := by
  have hsources : Sources service .refreshDue service := ⟨rfl, rfl, fun h _ => h⟩
  have hlt := hsources.selectNextYellowstone.restart.activeSource h (by simp)
  apply not_stopped_restart
  rwa [yellowstoneUrls_selectNextYellowstone]

/-- A bootstrap with room buffers the next event or restarts. -/
theorem not_overflowed (deserialize : Deserialize) (result : Except String Unit) {url : String}
    {buffered : List StateEvent} {event : Event}
    (hphase : service.phase = .bootstrapping url buffered)
    (hroom : buffered.length < service.streamCapacity)
    (hevent : ∀ source, event ≠ .connected source ∧ event ≠ .disconnected source)
    (hactive : service.activeSource < service.yellowstoneUrls.length) :
    (service.step deserialize (.yellowstone event)).phase ≠ .stopped result := by
  have hbuffer (decoded : Except String StateEvent) :
      (service.bufferBootstrapEvent url buffered decoded).phase ≠ .stopped result := by
    unfold bufferBootstrapEvent
    rw [if_neg (not_le.mpr hroom)]
    cases decoded with
    | ok event => simp
    | error error => exact not_stopped_rotate hactive
  unfold step
  rw [hphase]
  cases event with
  | connected source => exact ((hevent source).1 rfl).elim
  | disconnected source => exact ((hevent source).2 rfl).elim
  | account source update =>
    simp only [bootstrapStep]
    split
    · exact hbuffer _
    · simp [hphase]
  | confirmedSlot source slot =>
    simp only [bootstrapStep]
    split
    · exact hbuffer _
    · simp [hphase]

/-- A running service stops on shutdown, when the channel is closed, or with a full buffer. -/
theorem stopped_step (hrunning : ∀ result, service.phase ≠ .stopped result)
    (hactive : service.activeSource < service.yellowstoneUrls.length)
    (hsource : ∀ source, input = .yellowstone (.connected source) →
      source < service.yellowstoneUrls.length)
    (h : (service.step deserialize input).phase = .stopped result) :
    input = .shutdown ∨ input = .channelClosed ∨
      result = bootstrapBufferFull ∧ service.BufferFull ∧ ∃ event, input = .yellowstone event := by
  have hsources := sources_step deserialize input hrunning
  have hnext := hsources.activeSource hactive hsource
  have hurls := hsources.yellowstoneUrls
  have hwoken := woken_step deserialize service input
  generalize hstep : service.step deserialize input = next at h hwoken hnext hurls
  cases hwoken with
  | passed => exact (hrunning _ h).elim
  | stopped hphase => exact (hrunning _ hphase).elim
  | shutdown => exact Or.inl rfl
  | channelClosed => exact Or.inr (Or.inl rfl)
  | @overflowed event url buffered hphase hevent =>
    refine Or.inr (Or.inr ⟨(Phase.stopped.inj h).symm, ⟨url, buffered, hphase, ?_⟩, event, rfl⟩)
    by_contra hroom
    have hgoes := not_overflowed deserialize result hphase (not_le.mp hroom) hevent hactive
    rw [hstep] at hgoes
    exact hgoes h
  | awaitConnected =>
    rw [activeSource_awaitActive] at hnext
    exact (not_stopped_awaitActive hnext h).elim
  | awaitDisconnected =>
    rw [activeSource_awaitActive] at hnext
    exact (not_stopped_awaitActive hnext h).elim
  | connected => exact (hrunning _ h).elim
  | disconnected => exact (hrunning _ h).elim
  | lost =>
    refine (not_stopped_restart ?_ h).elim
    rwa [yellowstoneUrls_selectNextYellowstone]
  | broken => exact (not_stopped_rotate hactive h).elim
  | fetchFailed => exact (not_stopped_restart hnext h).elim
  | buffered => cases h
  | recovered => cases h
  | due => cases h
  | finished => cases h
  | applied => cases h

end UpdaterService

namespace Process

variable {deserialize : Deserialize} {process next : Process} {input : ProcessInput}

/-- Every source that the process knows of is configured, and its events are its own. -/
structure Configured (process : Process) : Prop where
  active : process.service.activeSource < process.service.yellowstoneUrls.length
  channel : ∀ event ∈ process.channel, event.source < process.service.yellowstoneUrls.length
  offered : ∀ source event, process.offered source = some event → event.source = source
  ended : ∀ source, process.service.yellowstoneUrls.length ≤ source →
    process.threads source = .ended

/-- A process that no signal has reached and no thread has left. -/
structure Live (process : Process) : Prop extends process.Configured where
  stop : process.stop = false
  threads : ∀ source, process.threads source = .ended →
    process.service.yellowstoneUrls.length ≤ source

/-- A source whose thread offers an event is configured. -/
theorem Configured.source_lt {source : ℕ} {event : Event} (h : process.Configured)
    (hoffer : process.offered source = some event) :
    source < process.service.yellowstoneUrls.length := by
  by_contra hle
  rw [Process.offered, h.ended source (not_lt.mp hle)] at hoffer
  cases hoffer

/-- A thread goes on, or ends. -/
theorem Configured.setThread {source : ℕ} {thread : SourceThread} (h : process.Configured)
    (hended : process.threads source = .ended → thread = .ended)
    (hoffer : ∀ event, thread.offer source = some event → event.source = source) :
    (process.setThread source thread).Configured := by
  refine ⟨h.active, h.channel, fun other event hother => ?_, fun other hle => ?_⟩
  · rw [offered_setThread] at hother
    by_cases hsame : other = source
    · subst hsame
      rw [Function.update_self] at hother
      exact hoffer event hother
    · rw [Function.update_of_ne hsame] at hother
      exact h.offered other event hother
  · by_cases hsame : other = source
    · subst hsame
      rw [threads_setThread_self]
      exact hended (h.ended other hle)
    · rw [threads_setThread_of_ne _ _ hsame]
      exact h.ended other hle

/-- The event that a thread waits to send may join the channel. -/
theorem Configured.put {source : ℕ} {event : Event} (h : process.Configured)
    (hoffer : process.offered source = some event) :
    { process with channel := process.channel ++ [event] }.Configured := by
  refine ⟨h.active, fun other hother => ?_, h.offered, h.ended⟩
  rcases List.mem_append.mp hother with hother | hother
  · exact h.channel other hother
  · rw [List.mem_singleton.mp hother, h.offered source event hoffer]
    exact h.source_lt hoffer

/-- A thread of a live process goes on. -/
theorem Live.setThread {source : ℕ} {thread : SourceThread} (h : process.Live)
    (hthread : process.threads source ≠ .ended) (hended : thread ≠ .ended)
    (hoffer : ∀ event, thread.offer source = some event → event.source = source) :
    (process.setThread source thread).Live := by
  refine ⟨h.toConfigured.setThread (fun h => absurd h hthread) hoffer, h.stop,
    fun other hother => ?_⟩
  by_cases hsame : other = source
  · subst hsame
    rw [threads_setThread_self] at hother
    exact absurd hother hended
  · rw [threads_setThread_of_ne _ _ hsame] at hother
    exact h.threads other hother

/-- An updater that runs is in none of its final phases. -/
theorem not_stopped_of_running (h : process.receiverDropped = false) (result : Except String Unit) :
    process.service.phase ≠ .stopped result := by
  intro hstopped
  rw [receiverDropped, hstopped] at h
  cases h

/-- An updater in none of its final phases runs. -/
theorem running_of_not_stopped (h : ∀ result, process.service.phase ≠ .stopped result) :
    process.receiverDropped = false := by
  unfold receiverDropped
  split
  · next result hphase => exact (h result hphase).elim
  · rfl

/-- A running updater wakes up. -/
theorem Configured.wake {channel : List Event} {wake : Input} (h : process.Configured)
    (hrunning : process.receiverDropped = false) (hchannel : channel ⊆ process.channel)
    (hsource : ∀ source, wake = .yellowstone (.connected source) →
      source < process.service.yellowstoneUrls.length) :
    ({ process with channel }.wake deserialize wake).Configured := by
  have hsources := UpdaterService.sources_step deserialize wake (not_stopped_of_running hrunning)
  have hurls := hsources.yellowstoneUrls
  refine ⟨?_, fun event hevent => ?_, h.offered, fun source hle => ?_⟩
  · change (process.service.step deserialize wake).activeSource <
      (process.service.step deserialize wake).yellowstoneUrls.length
    rw [hurls]
    exact hsources.activeSource h.active hsource
  · change event.source < (process.service.step deserialize wake).yellowstoneUrls.length
    rw [hurls]
    exact h.channel event (hchannel hevent)
  · change (process.service.step deserialize wake).yellowstoneUrls.length ≤ source at hle
    rw [hurls] at hle
    exact h.ended source hle

/-- The event that the updater takes is about a configured source. -/
theorem Configured.taken {channel : List Event} {event : Event} (h : process.Configured)
    (hchannel : process.channel = event :: channel) (source : ℕ)
    (hconnected : Input.yellowstone event = .yellowstone (.connected source)) :
    source < process.service.yellowstoneUrls.length := by
  have hlt := h.channel event (hchannel ▸ List.mem_cons_self)
  rwa [Input.yellowstone.inj hconnected] at hlt

/-- Every wake-up while the updater runs keeps the process configured. -/
theorem Moved.configured (hmoved : Moved deserialize process input next) (h : process.Configured)
    (hrunning : process.receiverDropped = false) : next.Configured := by
  cases hmoved with
  | idle => exact h
  | signalled => exact ⟨h.active, h.channel, h.offered, h.ended⟩
  | @offered source input event hsaid hfree =>
    have hlane := SourceThread.source_said hsaid
    refine h.setThread (fun hended => ?_) fun other hother => ?_
    · rw [hended] at hsaid
      cases hsaid
    · rw [SourceThread.offer_holding hlane] at hother
      exact Option.some.inj hother ▸ hlane
  | @put source event thread hoffer hroom hthread =>
    refine (h.put hoffer).setThread (fun hended => ?_) fun other hother => ?_
    · have hended : process.threads source = .ended := hended
      rcases hthread with ⟨hthread, -⟩ | ⟨hthread, -⟩ <;> rw [hthread] at hended <;> cases hended
    · rcases hthread with ⟨-, rfl⟩ | ⟨-, rfl⟩ <;> cases hother
  | @delayed source hthread =>
    have hruns : process.threads source ≠ .ended := by simp [hthread]
    exact h.setThread (fun hended => absurd hended hruns) fun event hoffer => by cases hoffer
  | cancelled => exact h.setThread (fun _ => rfl) fun event hoffer => by cases hoffer
  | took hchannel =>
    exact h.wake hrunning (hchannel ▸ List.subset_cons_self _ _) (h.taken hchannel)
  | woken hwoken =>
    have hquiet (source : ℕ) : ∀ {wake : Input}, Wakes process input wake →
        wake ≠ .yellowstone (.connected source) := by
      intro wake hwoken
      cases hwoken <;> simp
    exact h.wake hrunning (List.Subset.refl _) fun source hwake => (hquiet source hwoken hwake).elim
  | paged => exact ⟨h.active, h.channel, h.offered, h.ended⟩

/-- The updater of a live process wakes up. -/
theorem Live.wake {channel : List Event} {wake : Input} (h : process.Live)
    (hrunning : process.receiverDropped = false) (hchannel : channel ⊆ process.channel)
    (hsource : ∀ source, wake = .yellowstone (.connected source) →
      source < process.service.yellowstoneUrls.length) :
    ({ process with channel }.wake deserialize wake).Live := by
  have hurls := (UpdaterService.sources_step deserialize wake
    (not_stopped_of_running hrunning)).yellowstoneUrls
  refine ⟨h.toConfigured.wake hrunning hchannel hsource, h.stop, fun source hended => ?_⟩
  change (process.service.step deserialize wake).yellowstoneUrls.length ≤ source
  rw [hurls]
  exact h.threads source hended

/-- The updater of a live process wakes up and runs on, unless the bootstrap buffer is full. -/
theorem Live.woken (deserialize : Deserialize) {channel : List Event} {wake : Input}
    (h : process.Live)
    (hrunning : process.receiverDropped = false) (hchannel : channel ⊆ process.channel)
    (hsource : ∀ source, wake = .yellowstone (.connected source) →
      source < process.service.yellowstoneUrls.length)
    (hshutdown : wake ≠ .shutdown) (hclosed : wake ≠ .channelClosed) :
    ({ process with channel }.wake deserialize wake).Live ∧
        ({ process with channel }.wake deserialize wake).receiverDropped = false ∨
      process.service.BufferFull ∧ (∃ event, wake = .yellowstone event) ∧
        (process.service.step deserialize wake).phase = .stopped bootstrapBufferFull := by
  by_cases hstopped : ∃ result, (process.service.step deserialize wake).phase = .stopped result
  · obtain ⟨result, hresult⟩ := hstopped
    rcases UpdaterService.stopped_step (not_stopped_of_running hrunning) h.active hsource hresult
      with hwake | hwake | ⟨rfl, hfull, hwake⟩
    · exact (hshutdown hwake).elim
    · exact (hclosed hwake).elim
    · exact Or.inr ⟨hfull, hwake, hresult⟩
  · exact Or.inl ⟨h.wake hrunning hchannel hsource,
      running_of_not_stopped fun result hresult => hstopped ⟨result, hresult⟩⟩

/-- What is neither an event nor an end leaves the updater running. -/
theorem Live.runsOn (deserialize : Deserialize) {wake : Input} (h : process.Live)
    (hrunning : process.receiverDropped = false) (hquiet : ∀ event, wake ≠ .yellowstone event)
    (hshutdown : wake ≠ .shutdown) (hclosed : wake ≠ .channelClosed) :
    (process.wake deserialize wake).Live ∧
      (process.wake deserialize wake).receiverDropped = false := by
  rcases h.woken deserialize hrunning (List.Subset.refl _)
    (fun source hconnected => (hquiet _ hconnected).elim) hshutdown hclosed with
    hlive | ⟨-, ⟨event, hevent⟩, -⟩
  · exact hlive
  · exact (hquiet event hevent).elim

/-- Some thread of a live process still sends. -/
theorem Live.senders (h : process.Live) : process.sendersDropped = false := by
  by_contra hdropped
  have hall := List.all_eq_true.mp (Bool.not_eq_false _ ▸ hdropped) process.service.activeSource
    (List.mem_range.mpr h.active)
  exact absurd (h.threads _ (of_decide_eq_true hall)) (not_le.mpr h.active)

/-- Every wake-up but a signal leaves a live process live, unless the bootstrap buffer is full
when the updater receives. -/
theorem Moved.live (hmoved : Moved deserialize process input next) (h : process.Live)
    (hrunning : process.receiverDropped = false) (hsignal : input ≠ .signal) :
    next.Live ∧ next.receiverDropped = false ∨
      process.service.BufferFull ∧ input = .receive ∧ next.stop = false ∧
        next.service.phase = .stopped bootstrapBufferFull := by
  cases hmoved with
  | idle => exact Or.inl ⟨h, hrunning⟩
  | signalled => exact (hsignal rfl).elim
  | @offered source input event hsaid hfree =>
    have hlane := SourceThread.source_said hsaid
    refine Or.inl ⟨h.setThread (fun hended => ?_) (by cases event <;> simp [SourceThread.holding])
      fun other hother => ?_, hrunning⟩
    · rw [hended] at hsaid
      cases hsaid
    · rw [SourceThread.offer_holding hlane] at hother
      exact Option.some.inj hother ▸ hlane
  | @put source event thread hoffer hroom hthread =>
    have hput : { process with channel := process.channel ++ [event] }.Live :=
      ⟨h.toConfigured.put hoffer, h.stop, h.threads⟩
    refine Or.inl ⟨hput.setThread (fun hended => ?_) ?_ fun other hother => ?_, hrunning⟩
    · exact absurd (h.threads source hended) (not_le.mpr (h.source_lt hoffer))
    · rcases hthread with ⟨-, rfl⟩ | ⟨-, rfl⟩ <;> simp
    · rcases hthread with ⟨-, rfl⟩ | ⟨-, rfl⟩ <;> cases hother
  | @delayed source hthread =>
    refine Or.inl ⟨h.setThread (by simp [hthread]) (by simp) fun event hoffer => ?_, hrunning⟩
    cases hoffer
  | cancelled hstop =>
    rw [h.stop] at hstop
    cases hstop
  | @took event channel hchannel =>
    rcases h.woken deserialize hrunning (hchannel ▸ List.subset_cons_self _ _)
      (h.taken hchannel) (by simp) (by simp) with hlive | ⟨hfull, -, hphase⟩
    · exact Or.inl hlive
    · exact Or.inr ⟨hfull, rfl, h.stop, hphase⟩
  | woken hwake =>
    cases hwake with
    | shutdown hstop =>
      rw [h.stop] at hstop
      cases hstop
    | channelClosed hchannel hsenders =>
      rw [h.senders] at hsenders
      cases hsenders
    | fetchFinished result =>
      exact Or.inl (h.runsOn deserialize hrunning (by simp) (by simp) (by simp))
    | refreshDue => exact Or.inl (h.runsOn deserialize hrunning (by simp) (by simp) (by simp))
    | refreshFinished result =>
      exact Or.inl (h.runsOn deserialize hrunning (by simp) (by simp) (by simp))
  | paged =>
    exact Or.inl ⟨⟨⟨h.active, h.channel, h.offered, h.ended⟩, h.stop, h.threads⟩, hrunning⟩

/-- The process begins live if it has a source. -/
theorem live_start (streamCapacity : ℕ) {yellowstoneUrls : List String}
    (hsources : 0 < yellowstoneUrls.length) :
    (start streamCapacity yellowstoneUrls).Live ∧
      (start streamCapacity yellowstoneUrls).receiverDropped = false := by
  let initial : UpdaterService :=
    { streamCapacity, yellowstoneUrls, store := .new, connectedSources := ∅, activeSource := 0
      phase := .waiting }
  have hinitial : UpdaterService.Sources initial .refreshDue initial := ⟨rfl, rfl, fun h _ => h⟩
  have hactive := hinitial.restart.activeSource hsources (by simp)
  have hurls : (start streamCapacity yellowstoneUrls).service.yellowstoneUrls = yellowstoneUrls :=
    hinitial.restart.yellowstoneUrls
  have hthread (source : ℕ) : (start streamCapacity yellowstoneUrls).threads source =
      if source < yellowstoneUrls.length then .connecting else .ended := rfl
  refine ⟨⟨⟨?_, fun event hevent => ?_, fun source event hoffer => ?_, fun source hle => ?_⟩,
    rfl, fun source hended => ?_⟩, ?_⟩
  · exact hactive.trans_eq (congrArg List.length hurls).symm
  · cases hevent
  · rw [offered, hthread] at hoffer
    split at hoffer <;> cases hoffer
  · rw [hurls] at hle
    rw [hthread, if_neg (not_lt.mpr hle)]
  · rw [hurls]
    by_contra hlt
    rw [hthread, if_pos (not_le.mp hlt)] at hended
    cases hended
  · apply running_of_not_stopped
    intro result
    change initial.restart.phase ≠ .stopped result
    exact UpdaterService.not_stopped_restart hactive

/-- The process stays configured while its updater runs. -/
theorem configured_run (deserialize : Deserialize) (streamCapacity : ℕ)
    {yellowstoneUrls : List String} (hsources : 0 < yellowstoneUrls.length)
    (inputs : List ProcessInput)
    (hrunning : ((start streamCapacity yellowstoneUrls).run deserialize inputs).receiverDropped =
      false) :
    ((start streamCapacity yellowstoneUrls).run deserialize inputs).Configured := by
  induction inputs using List.reverseRecOn with
  | nil => exact (live_start streamCapacity hsources).1.toConfigured
  | append_singleton inputs input ih =>
    rw [run_concat] at hrunning ⊢
    have hbefore := receiverDropped_of_step hrunning
    exact (moved_step deserialize input hbefore).configured (ih hbefore) hbefore

/-- A live process has not panicked. -/
theorem Live.panic (h : process.Live) (hrunning : process.receiverDropped = false) :
    process.panic = none := by
  unfold Process.panic
  split
  · next result hphase => exact (not_stopped_of_running hrunning result hphase).elim
  · rw [List.find?_eq_none.mpr, Option.bind_none]
    intro source hsource hended
    exact absurd (h.threads source (of_decide_eq_true hended))
      (not_le.mpr (List.mem_range.mp hsource))

/-- A thread that wakes up begins no shutdown. -/
theorem stop_sourceStep (process : Process) (source : ℕ) (input : SourceInput) :
    (process.sourceStep source input).stop = process.stop := by
  have hsend (event : Event) (thread : SourceThread) :
      (process.send source event thread).stop = process.stop := by
    unfold send setThread
    split <;> rfl
  unfold sourceStep
  split
  · rfl
  · rfl
  · rfl
  · split <;> rfl
  · split
    · rfl
    · exact hsend ..
  · split
    · rfl
    · exact hsend ..
  · rfl
  · rfl
  · split <;> rfl
  · rfl

/-- Only a signal begins shutdown. -/
theorem stop_step (hsignal : input ≠ .signal) :
    (process.step deserialize input).stop = process.stop := by
  cases input with
  | signal => exact (hsignal rfl).elim
  | source source input => exact stop_sourceStep ..
  | receive =>
    simp only [step, receive]
    split
    · rfl
    · split
      · rfl
      · split <;> rfl
  | shutdown =>
    simp only [step]
    split <;> rfl
  | fetchFinished result => rfl
  | refreshDue => rfl
  | refreshFinished result => rfl
  | snapshotPage now snapshotSlot after limit => rfl

/-- A full bootstrap buffer brings the process down. -/
theorem panic_of_full {process : Process} (hstop : process.stop = false)
    (hphase : process.service.phase = .stopped bootstrapBufferFull) :
    process.panic = some "alt-state-updater failed: bootstrap update buffer full" := by
  simp only [panic, hphase, hstop]
  rfl

/-- What a run without a signal leads to: a live process, or one whose updater has returned
because its bootstrap buffer was full when it received. -/
theorem live_run (deserialize : Deserialize) (streamCapacity : ℕ) {yellowstoneUrls : List String}
    (hsources : 0 < yellowstoneUrls.length) (inputs : List ProcessInput)
    (hsignal : .signal ∉ inputs) {process : Process}
    (hprocess : process = (start streamCapacity yellowstoneUrls).run deserialize inputs) :
    process.Live ∧ process.receiverDropped = false ∨
      process.stop = false ∧ process.service.phase = .stopped bootstrapBufferFull ∧
        ∃ first later, inputs = first ++ .receive :: later ∧
          ((start streamCapacity yellowstoneUrls).run deserialize first).service.BufferFull := by
  subst hprocess
  induction inputs using List.reverseRecOn with
  | nil => exact Or.inl (live_start streamCapacity hsources)
  | append_singleton inputs input ih =>
    rw [run_concat]
    have hnot : input ≠ .signal := fun hsame => hsignal (by simp [hsame])
    rcases ih (fun hmem => hsignal (List.mem_append_left _ hmem)) with
      ⟨hlive, hrunning⟩ | ⟨hstop, hphase, first, later, hinputs, hfull⟩
    · rcases (moved_step deserialize input hrunning).live hlive hrunning hnot with
        hnext | ⟨hfull, rfl, hstop, hphase⟩
      · exact Or.inl hnext
      · exact Or.inr ⟨hstop, hphase, inputs, [], rfl, hfull⟩
    · refine Or.inr ⟨(stop_step hnot).trans hstop, ?_, first, later ++ [input], ?_, hfull⟩
      · apply (phase_step_of_receiverDropped deserialize input _).trans hphase
        rw [receiverDropped, hphase]
      · rw [hinputs, List.append_assoc, List.cons_append]

/-- Without a signal the process runs on for ever, unless its active source delivers more than
the bootstrap buffer holds while one state is fetched. -/
theorem panic_of_overflow (deserialize : Deserialize) (streamCapacity : ℕ)
    (yellowstoneUrls : List String) (hsources : 0 < yellowstoneUrls.length)
    (inputs : List ProcessInput) (hsignal : .signal ∉ inputs) {process : Process}
    (hprocess : process = (start streamCapacity yellowstoneUrls).run deserialize inputs) :
    process.panic = none ∧ process.receiverDropped = false ∨
      process.panic = some "alt-state-updater failed: bootstrap update buffer full" ∧
        ∃ first later, inputs = first ++ .receive :: later ∧
          ((start streamCapacity yellowstoneUrls).run deserialize first).service.BufferFull := by
  rcases live_run deserialize streamCapacity hsources inputs hsignal hprocess with
    ⟨hlive, hrunning⟩ | ⟨hstop, hphase, hfull⟩
  · exact Or.inl ⟨hlive.panic hrunning, hrunning⟩
  · exact Or.inr ⟨panic_of_full hstop hphase, hfull⟩

/-- One source over a channel and a buffer for one event confirms two slots during the fetch. -/
def twoConfirmations : List ProcessInput :=
  [.source 0 .subscribed, .source 0 .sendable, .receive,
    .source 0 (.message (.slot 7 slotConfirmed)), .source 0 .sendable, .receive,
    .source 0 (.message (.slot 8 slotConfirmed)), .source 0 .sendable, .receive]

/-- It brings the process down. -/
theorem twoConfirmations_overflow :
    ∃ first later, twoConfirmations = first ++ .receive :: later ∧
      ((start 1 ["a"]).run (fun _ => none) first).service.BufferFull := by
  rcases panic_of_overflow (fun _ => none) 1 ["a"] (by decide) twoConfirmations
    (by simp [twoConfirmations]) rfl with ⟨hnone, -⟩ | ⟨-, hfull⟩
  · exact absurd hnone (by decide)
  · exact hfull

end Process

end AltCache
