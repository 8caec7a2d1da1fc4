import AltCache.Process.Progress
import AltCache.Updater.Readiness
import AltCache.Updater.Serving

/-!
# Which losses of readiness are alerted

The updater raises an alert when its bootstrap fetch fails and when its active source disconnects
while it serves. Both say that readiness is false, and it is. While a process runs, the store
becomes unready in three ways only: at shutdown, by a disconnection, which is alerted with the
URL of the source, and by an update of the active source that cannot be decoded, which is not.
-/

namespace AltCache

namespace UpdaterService

/-- The alert that the updater raises when it wakes up, if any. -/
def alert? (service : UpdaterService) : Input → Option String
  | .fetchFinished (.error _) =>
    match service.phase with
    | .bootstrapping .. => some "ALT cache bootstrap RPC failed; readiness is false"
    | _ => none
  | .yellowstone (.disconnected failed) =>
    match service.phase with
    | .serving url .. =>
      if failed = service.activeSource then
        some ("ALT cache source " ++ url ++ " failed; readiness is false")
      else none
    | _ => none
  | _ => none

/-- The store is ready exactly while the updater serves, and the URL it fetches or serves under is
that of its active source. -/
def Settled (service : UpdaterService) : Prop :=
  match service.phase with
  | .waiting => service.store.ready = false
  | .bootstrapping url _ =>
    service.store.ready = false ∧ service.yellowstoneUrls[service.activeSource]? = some url
  | .serving url .. =>
    service.store.ready = true ∧ service.yellowstoneUrls[service.activeSource]? = some url
  | .stopped _ => True

section Settled

variable {deserialize : Deserialize} {service next : UpdaterService} {input : Input}

/-- The head of the service loop is settled. -/
theorem Fresh.settled (h : Fresh service) : service.Settled := by
  unfold Settled
  cases hphase : service.phase with
  | waiting => exact h.notReady fun result hstopped => by simp [hphase] at hstopped
  | bootstrapping url buffered =>
    exact ⟨h.notReady fun result hstopped => by simp [hphase] at hstopped,
      (h.bootstrapping url buffered hphase).2.2⟩
  | serving url updater refresh => exact (h.notServing url updater refresh hphase).elim
  | stopped result => trivial

/-- Applying an event leaves a ready store ready. -/
theorem ready_applyStateEvent {updater : StateUpdater} {store : Store} (event : StateEvent)
    (h : store.ready = true) : (applyStateEvent event updater store).2.ready = true := by
  cases event with
  | account key slot version account => exact h
  | confirmedSlot slot =>
    simp only [applyStateEvent, StateUpdater.confirm]
    split
    · exact h
    · dsimp only
      split
      · exact h
      · rfl

/-- So does installing a refreshed state. -/
theorem ready_installRefreshedAltState {result : Except String FetchedAltState}
    {refresh : Option RefreshInProgress} {updater : StateUpdater} {store : Store} {url : String}
    (h : store.ready = true) :
    (installRefreshedAltState result refresh updater store url).2.ready = true := by
  cases refresh with
  | none => exact h
  | some completed =>
    cases result with
    | error error => exact h
    | ok fetched => exact ready_recoverAltState ..

/-- Every wake-up of the updater leaves it settled. -/
theorem settled_step (deserialize : Deserialize) (h : service.Settled) (input : Input) :
    (service.step deserialize input).Settled := by
  have hwoken := woken_step deserialize service input
  generalize service.step deserialize input = next at hwoken ⊢
  unfold Settled at h
  cases hwoken with
  | passed => exact h
  | stopped => exact h
  | shutdown => trivial
  | channelClosed => trivial
  | overflowed => trivial
  | awaitConnected hphase =>
    rw [hphase] at h
    apply Fresh.settled
    exact fresh_awaitActive h
  | awaitDisconnected hphase =>
    rw [hphase] at h
    apply Fresh.settled
    exact fresh_awaitActive h
  | connected => exact h
  | disconnected => exact h
  | lost => exact (fresh_restart _).settled
  | broken => exact (fresh_restart _).settled
  | fetchFailed => exact (fresh_restart _).settled
  | buffered hphase =>
    rw [hphase] at h
    exact h
  | recovered hphase =>
    rw [hphase] at h
    exact ⟨ready_recoverAltState .., h.2⟩
  | due hphase =>
    rw [hphase] at h
    exact h
  | finished hphase =>
    rw [hphase] at h
    exact ⟨ready_installRefreshedAltState h.1, h.2⟩
  | applied hphase =>
    rw [hphase] at h
    exact ⟨ready_applyStateEvent _ h.1, h.2⟩

/-- A restarted updater is not ready. -/
theorem ready_restart (service : UpdaterService) : service.restart.store.ready = false := by
  rw [store_restart]
  rfl

/-- What an alert says is true. -/
theorem ready_of_alert {text : String} (halert : service.alert? input = some text) :
    (service.step deserialize input).store.ready = false := by
  cases input with
  | fetchFinished result =>
    cases result with
    | ok fetched => cases halert
    | error error =>
      cases hphase : service.phase with
      | bootstrapping url buffered =>
        simp only [step, hphase, bootstrapStep]
        exact ready_restart service
      | _ => simp [alert?, hphase] at halert
  | yellowstone event =>
    cases event with
    | disconnected failed =>
      cases hphase : service.phase with
      | serving url updater refresh =>
        simp only [alert?, hphase] at halert
        split at halert
        · next hactive =>
          simp only [step, hphase, serveStep, if_pos hactive]
          exact ready_restart _
        · cases halert
      | _ => simp [alert?, hphase] at halert
    | _ => cases halert
  | _ => cases halert

/-- A ready store becomes unready at shutdown, when the active source disconnects, or when an
update of the active source cannot be decoded. -/
theorem unready_step (h : service.Settled) (hready : service.store.ready = true)
    (hnot : (service.step deserialize input).store.ready = false) :
    input = .shutdown ∨
      (∃ url, service.yellowstoneUrls[service.activeSource]? = some url ∧
        input = .yellowstone (.disconnected service.activeSource) ∧
        service.alert? input =
          some ("ALT cache source " ++ url ++ " failed; readiness is false")) ∨
      ∃ update error, input = .yellowstone (.account service.activeSource update) ∧
        decodeAccountUpdate deserialize update = .error error := by
  have hstill {P : Prop} {store : Store} (hstore : store.ready = true)
      (hnot : store.ready = false) : P :=
    absurd (hstore.symm.trans hnot) (by decide)
  have hwoken := woken_step deserialize service input
  generalize service.step deserialize input = next at hwoken hnot
  unfold Settled at h
  cases hwoken with
  | passed => exact hstill hready hnot
  | stopped => exact hstill hready hnot
  | shutdown => exact Or.inl rfl
  | channelClosed => exact hstill hready hnot
  | overflowed => exact hstill hready hnot
  | awaitConnected hphase =>
    rw [hphase] at h
    exact hstill hready h
  | awaitDisconnected hphase =>
    rw [hphase] at h
    exact hstill hready h
  | connected => exact hstill hready hnot
  | disconnected => exact hstill hready hnot
  | lost hbusy =>
    rcases hbusy with ⟨url, buffered, hphase⟩ | ⟨url, updater, refresh, hphase⟩
    · rw [hphase] at h
      exact hstill hready h.1
    · rw [hphase] at h
      exact Or.inr (Or.inl ⟨url, h.2, rfl, by simp [alert?, hphase]⟩)
  | broken hbusy hdecode => exact Or.inr (Or.inr ⟨_, _, rfl, hdecode⟩)
  | fetchFailed hphase =>
    rw [hphase] at h
    exact hstill hready h.1
  | buffered hphase =>
    rw [hphase] at h
    exact hstill hready h.1
  | recovered hphase =>
    rw [hphase] at h
    exact hstill hready h.1
  | due => exact hstill hready hnot
  | finished => exact hstill (ready_installRefreshedAltState hready) hnot
  | applied => exact hstill (ready_applyStateEvent _ hready) hnot

end Settled

end UpdaterService

namespace Process

variable {deserialize : Deserialize} {process : Process} {input : ProcessInput}

/-- What the updater wakes up on when the process does. -/
def wakeup? (process : Process) : ProcessInput → Option Input
  | .receive =>
    match process.channel with
    | event :: _ => some (.yellowstone event)
    | [] => if process.sendersDropped then some .channelClosed else none
  | .shutdown => if process.stop then some .shutdown else none
  | .fetchFinished result => some (.fetchFinished result)
  | .refreshDue => some .refreshDue
  | .refreshFinished result => some (.refreshFinished result)
  | .signal => none
  | .source .. => none
  | .snapshotPage .. => none

/-- The alert that a wake-up of the process raises, if any. -/
def alert? (process : Process) (input : ProcessInput) : Option String :=
  (process.wakeup? input).bind process.service.alert?

/-- Only the cancellation wakes the updater up to shut down. -/
theorem eq_shutdown_of_wakeup (h : process.wakeup? input = some .shutdown) : input = .shutdown := by
  cases input with
  | shutdown => rfl
  | receive =>
    simp only [wakeup?] at h
    split at h
    · cases h
    · split at h <;> cases h
  | _ => cases h

/-- Only the first event of the channel wakes it up with an event, when it receives. -/
theorem receive_of_wakeup {event : Event} (h : process.wakeup? input = some (.yellowstone event)) :
    input = .receive ∧ process.channel.head? = some event := by
  cases input with
  | receive =>
    cases hchannel : process.channel with
    | cons first channel =>
      simp only [wakeup?, hchannel] at h
      cases h
      exact ⟨rfl, rfl⟩
    | nil =>
      simp only [wakeup?, hchannel] at h
      split at h <;> cases h
  | shutdown =>
    simp only [wakeup?] at h
    split at h <;> cases h
  | _ => cases h

/-- The updater wakes up once. -/
theorem service_of_wakeup {wake : Input} (h : process.wakeup? input = some wake) :
    (process.step deserialize input).service = process.service.step deserialize wake := by
  cases input with
  | receive =>
    cases hdropped : process.receiverDropped with
    | true =>
      simp only [step, receive, hdropped, if_true]
      exact (step_of_receiverDropped wake hdropped).symm
    | false =>
      cases hchannel : process.channel with
      | cons event channel =>
        simp only [wakeup?, hchannel] at h
        obtain rfl := Option.some.inj h
        simp only [step, receive, hdropped, hchannel]
        rfl
      | nil =>
        simp only [wakeup?, hchannel] at h
        split at h
        · next hsenders =>
          obtain rfl := Option.some.inj h
          simp only [step, receive, hdropped, hchannel, if_pos hsenders]
          rfl
        · cases h
  | shutdown =>
    simp only [wakeup?] at h
    split at h
    · next hstop =>
      obtain rfl := Option.some.inj h
      simp only [step, if_pos hstop]
      rfl
    · cases h
  | fetchFinished result =>
    obtain rfl := Option.some.inj h
    rfl
  | refreshDue =>
    obtain rfl := Option.some.inj h
    rfl
  | refreshFinished result =>
    obtain rfl := Option.some.inj h
    rfl
  | signal => cases h
  | source source input => cases h
  | snapshotPage now snapshotSlot after limit => cases h

/-- If the updater does not wake up, at most what the store retains changes. -/
theorem service_of_no_wakeup (deserialize : Deserialize) (h : process.wakeup? input = none) :
    ∃ store : Store, (process.step deserialize input).service = { process.service with store } ∧
      store.ready = process.service.store.ready := by
  cases input with
  | signal => exact ⟨process.service.store, rfl, rfl⟩
  | source source input =>
    exact ⟨process.service.store, service_sourceStep process source input, rfl⟩
  | snapshotPage now snapshotSlot after limit =>
    exact ⟨_, rfl, (Store.snapshotPage_frame now process.service.store snapshotSlot after limit).2⟩
  | receive =>
    refine ⟨process.service.store, ?_, rfl⟩
    cases hchannel : process.channel with
    | cons event channel => simp [wakeup?, hchannel] at h
    | nil =>
      simp only [wakeup?, hchannel] at h
      split at h
      · cases h
      · next hsenders =>
        simp only [step, receive, hchannel, if_neg hsenders]
        split <;> rfl
  | shutdown =>
    refine ⟨process.service.store, ?_, rfl⟩
    simp only [wakeup?] at h
    split at h
    · cases h
    · next hstop => simp only [step, if_neg hstop]
  | fetchFinished result => cases h
  | refreshDue => cases h
  | refreshFinished result => cases h

/-- In every run the updater is settled. -/
theorem settled_run (deserialize : Deserialize) (streamCapacity : ℕ) (yellowstoneUrls : List String)
    (inputs : List ProcessInput) :
    ((start streamCapacity yellowstoneUrls).run deserialize inputs).service.Settled := by
  induction inputs using List.reverseRecOn with
  | nil => exact (UpdaterService.fresh_restart _).settled
  | append_singleton inputs input ih =>
    rw [run_concat]
    generalize (start streamCapacity yellowstoneUrls).run deserialize inputs = process at ih ⊢
    cases hwakeup : process.wakeup? input with
    | some wake =>
      rw [service_of_wakeup hwakeup]
      exact UpdaterService.settled_step deserialize ih wake
    | none =>
      obtain ⟨store, hservice, hready⟩ := service_of_no_wakeup deserialize hwakeup
      rw [hservice]
      unfold UpdaterService.Settled at ih ⊢
      dsimp only
      rw [hready]
      exact ih

end Process

open Process in
/-- Whenever a process raises an alert, its store is unready then, as the alert says. A store that
is ready becomes unready at shutdown; when its active source disconnects, and then an alert
names the source; or when an update of its active source cannot be decoded. -/
theorem readiness_alerted (deserialize : Deserialize) (streamCapacity : ℕ)
    (yellowstoneUrls : List String) (inputs : List ProcessInput) {process next : Process}
    (hprocess : process = (start streamCapacity yellowstoneUrls).run deserialize inputs)
    {input : ProcessInput} (hnext : next = process.step deserialize input) :
    (∀ text, process.alert? input = some text → next.service.store.ready = false) ∧
      (process.service.store.ready = true → next.service.store.ready = false →
        input = .shutdown ∨
        (∃ url, process.service.yellowstoneUrls[process.service.activeSource]? = some url ∧
          input = .receive ∧
          process.channel.head? = some (.disconnected process.service.activeSource) ∧
          process.alert? input =
            some ("ALT cache source " ++ url ++ " failed; readiness is false")) ∨
        ∃ update error, input = .receive ∧
          process.channel.head? = some (.account process.service.activeSource update) ∧
          decodeAccountUpdate deserialize update = .error error) := by
  have hsettled : process.service.Settled := by
    subst hprocess
    exact settled_run deserialize streamCapacity yellowstoneUrls inputs
  subst hnext
  cases hwakeup : process.wakeup? input with
  | none =>
    obtain ⟨store, hservice, hready⟩ := service_of_no_wakeup deserialize hwakeup
    rw [hservice]
    refine ⟨fun text halert => ?_, fun hbefore hafter => ?_⟩
    · rw [Process.alert?, hwakeup] at halert
      cases halert
    · exact absurd ((hready.trans hbefore).symm.trans hafter) (by decide)
  | some wake =>
    have halert : process.alert? input = process.service.alert? wake := by
      rw [Process.alert?, hwakeup]
      rfl
    rw [service_of_wakeup hwakeup, halert]
    refine ⟨fun text => UpdaterService.ready_of_alert, fun hbefore hafter => ?_⟩
    rcases UpdaterService.unready_step hsettled hbefore hafter with
      rfl | ⟨url, hurl, rfl, htext⟩ | ⟨update, error, rfl, hdecode⟩
    · exact Or.inl (eq_shutdown_of_wakeup hwakeup)
    · obtain ⟨hinput, hhead⟩ := receive_of_wakeup hwakeup
      exact Or.inr (Or.inl ⟨url, hurl, hinput, hhead, htext⟩)
    · obtain ⟨hinput, hhead⟩ := receive_of_wakeup hwakeup
      exact Or.inr (Or.inr ⟨update, error, hinput, hhead, hdecode⟩)

/-- The only source of a process is connected, a state is fetched, and the source is lost. -/
def lostSource : List ProcessInput :=
  [.source 0 .subscribed, .source 0 .sendable, .receive, .fetchFinished (.ok ⟨7, ∅⟩),
    .source 0 .sessionFailed, .source 0 .sendable]

/-- The store was ready and is not any more when the alert is raised. -/
theorem lostSource_alerted :
    ((Process.start 1 ["a"]).run (fun _ => none) lostSource).service.store.ready = true ∧
      (((Process.start 1 ["a"]).run (fun _ => none) lostSource).step (fun _ => none)
        .receive).service.store.ready = false := by
  have halert : ((Process.start 1 ["a"]).run (fun _ => none) lostSource).alert? .receive =
      some "ALT cache source a failed; readiness is false" := by
    decide +kernel
  obtain ⟨htrue, -⟩ := readiness_alerted (fun _ => none) 1 ["a"] lostSource rfl rfl
  exact ⟨rfl, htrue _ halert⟩

end AltCache
