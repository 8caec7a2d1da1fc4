import AltCache.Updater.Steps

/-!
# Runs that readers cannot tell apart

Two runs of the service are compared. Events of inactive sources are passed over at every
wait point, so runs that differ in them alone show the same states. A background refresh
touches the live updater only when it is installed, so leaving out refreshes that install
nothing changes nothing but the refresh in progress.
-/

namespace AltCache.UpdaterService

/-- An update or a confirmation of a source that is not the active one. -/
def Inactive (service : UpdaterService) : Input → Prop
  | .yellowstone (.account source _) => source ≠ service.activeSource
  | .yellowstone (.confirmedSlot source _) => source ≠ service.activeSource
  | _ => False

instance (service : UpdaterService) (input : Input) : Decidable (service.Inactive input) := by
  unfold Inactive
  split <;> infer_instance

/-- What readers and operators see of the service. -/
structure Observation where
  slot : ℕ
  accounts : Accounts
  ready : Bool
  activeYellowstoneUrl : Option String
  activeSource : ℕ
  connectedSources : Finset ℕ

/-- The state of the service as it is seen. -/
def observe (service : UpdaterService) : Observation where
  slot := service.store.current.slot
  accounts := service.store.current.accounts
  ready := service.store.ready
  activeYellowstoneUrl := service.store.activeYellowstoneUrl
  activeSource := service.activeSource
  connectedSources := service.connectedSources

/-- The inputs of a run without the events of sources that are inactive when they arrive. -/
def remaining (deserialize : Deserialize) (service : UpdaterService) : List Input → List Input
  | [] => []
  | input :: inputs =>
    if service.Inactive input then (service.step deserialize input).remaining deserialize inputs
    else input :: (service.step deserialize input).remaining deserialize inputs

/-- What is seen after each remaining input of a run. -/
def observed (deserialize : Deserialize) (service : UpdaterService) :
    List Input → List Observation
  | [] => []
  | input :: inputs =>
    if service.Inactive input then (service.step deserialize input).observed deserialize inputs
    else
      (service.step deserialize input).observe ::
        (service.step deserialize input).observed deserialize inputs

/-- What is seen after each input of a run. -/
def trace (deserialize : Deserialize) (service : UpdaterService) : List Input → List Observation
  | [] => []
  | input :: inputs =>
    (service.step deserialize input).observe ::
      (service.step deserialize input).trace deserialize inputs

section Inactive

variable {deserialize : Deserialize} {service : UpdaterService} {input : Input}

/-- An event of an inactive source changes nothing. -/
theorem step_of_inactive (h : service.Inactive input) :
    service.step deserialize input = service := by
  cases input with
  | yellowstone event =>
    cases event with
    | connected source => exact h.elim
    | disconnected source => exact h.elim
    | account source update =>
      have hother : ¬ source = service.activeSource := h
      unfold step
      split
      · rfl
      · exact if_neg hother
      · exact if_neg hother
      · rfl
    | confirmedSlot source slot =>
      have hother : ¬ source = service.activeSource := h
      unfold step
      split
      · rfl
      · exact if_neg hother
      · exact if_neg hother
      · rfl
  | shutdown => exact h.elim
  | channelClosed => exact h.elim
  | fetchFinished result => exact h.elim
  | refreshDue => exact h.elim
  | refreshFinished result => exact h.elim

/-- The remaining inputs alone show the same states. -/
theorem observed_eq_trace (deserialize : Deserialize) (service : UpdaterService)
    (inputs : List Input) :
    service.observed deserialize inputs =
      service.trace deserialize (service.remaining deserialize inputs) := by
  induction inputs generalizing service with
  | nil => rfl
  | cons input inputs ih =>
    rw [observed, remaining]
    split
    · next hinactive =>
      rw [step_of_inactive hinactive]
      exact ih service
    · rw [trace, ih]

/-- Inactive sources cannot influence what is seen: runs with the same remaining inputs show
the same states after each of them. -/
theorem observed_eq_of_remaining_eq {first second : List Input}
    (h : service.remaining deserialize first = service.remaining deserialize second) :
    service.observed deserialize first = service.observed deserialize second := by
  rw [observed_eq_trace, observed_eq_trace, h]

/-- The first of two sources serves while the second sends an event; then the first fails. -/
def failoverAfter (event : Event) : List Input :=
  [.yellowstone (.connected 0), .yellowstone event, .fetchFinished (.ok ⟨5, ∅⟩),
    .yellowstone (.connected 1), .yellowstone event, .yellowstone (.disconnected 0)]

/-- Until the second source is active, its broken update is as good as a confirmation. -/
theorem failover_observed :
    (start 4 ["first", "second"] .new).observed (fun _ => none)
        (failoverAfter (.account 1 ⟨none, 9, false⟩)) =
      (start 4 ["first", "second"] .new).observed (fun _ => none)
        (failoverAfter (.confirmedSlot 1 9)) :=
  observed_eq_of_remaining_eq rfl

end Inactive

/-- A refresh is in progress. -/
def refreshing (service : UpdaterService) : Bool :=
  match service.phase with
  | .serving _ _ (some _) => true
  | _ => false

/-- The service without the refresh in progress. -/
def withoutRefresh (service : UpdaterService) : UpdaterService :=
  match service.phase with
  | .serving url updater _ => { service with phase := .serving url updater none }
  | _ => service

/-- The live updater, while the service serves. -/
def updater? (service : UpdaterService) : Option StateUpdater :=
  match service.phase with
  | .serving _ updater _ => some updater
  | _ => none

/-- An input that starts or ends a refresh. -/
def Refreshes : Input → Prop
  | .refreshDue => True
  | .refreshFinished _ => True
  | _ => False

instance (input : Input) : Decidable (Refreshes input) := by
  unfold Refreshes
  split <;> infer_instance

/-- The states of a run after each input that is not a refresh's own. -/
def eventStates (deserialize : Deserialize) (service : UpdaterService) :
    List Input → List UpdaterService
  | [] => []
  | input :: inputs =>
    let service := service.step deserialize input
    if Refreshes input then service.eventStates deserialize inputs
    else service :: service.eventStates deserialize inputs

/-- The second run is the first without some refresh attempts that install nothing. The flag
tells whether such an attempt is in progress in the first run. -/
inductive Leaves (deserialize : Deserialize) (service : UpdaterService) :
    List Input → List Input → Bool → Prop where
  | nil : Leaves deserialize service [] [] false
  /-- Both runs take an input; it may end the attempt, by overflow or a failover. -/
  | both {first second lacking input} (h : Leaves deserialize service first second lacking)
      (hinput : lacking = true → ¬ Refreshes input) :
      Leaves deserialize service (first ++ [input]) (second ++ [input])
        (lacking && (service.run deserialize (first ++ [input])).refreshing)
  /-- An attempt that is left out begins. -/
  | begins {first second} (h : Leaves deserialize service first second false)
      (hidle : (service.run deserialize first).refreshing = false) :
      Leaves deserialize service (first ++ [.refreshDue]) second
        (service.run deserialize (first ++ [.refreshDue])).refreshing
  /-- A timer tick during the attempt. -/
  | due {first second} (h : Leaves deserialize service first second true) :
      Leaves deserialize service (first ++ [.refreshDue]) second true
  /-- The attempt's fetch fails. -/
  | fails {first second error} (h : Leaves deserialize service first second true) :
      Leaves deserialize service (first ++ [.refreshFinished (.error error)]) second false

section Leaves

variable {deserialize : Deserialize} {service : UpdaterService} {first second : List Input}
  {lacking : Bool} {input : Input}

/-- A run that ends with an input takes it last. -/
theorem run_concat (deserialize : Deserialize) (service : UpdaterService) (inputs : List Input)
    (input : Input) :
    service.run deserialize (inputs ++ [input]) =
      (service.run deserialize inputs).step deserialize input :=
  List.foldl_concat ..

/-- Without a refresh in progress there is none to leave out. -/
theorem withoutRefresh_of_not_refreshing (h : service.refreshing = false) :
    service.withoutRefresh = service := by
  obtain ⟨capacity, urls, store, connected, active, phase⟩ := service
  cases phase with
  | serving url updater refresh =>
    cases refresh with
    | none => rfl
    | some running => cases h
  | waiting => rfl
  | bootstrapping url buffered => rfl
  | stopped result => rfl

/-- A service that does not serve has no refresh in progress. -/
theorem withoutRefresh_of_not_serving
    (h : ∀ url updater refresh, service.phase ≠ .serving url updater refresh) :
    service.withoutRefresh = service := by
  unfold withoutRefresh
  split
  · next url updater refresh hphase => exact (h url updater refresh hphase).elim
  · rfl

/-- Rotating to another source keeps the phase and does not depend on it. -/
theorem selectNextYellowstone_phase (service : UpdaterService) (phase : Phase) :
    { service with phase }.selectNextYellowstone =
      { service.selectNextYellowstone with phase } := by
  unfold selectNextYellowstone
  dsimp only
  split <;> rfl

/-- Restarting does not depend on the phase. -/
theorem restart_phase (service : UpdaterService) (phase : Phase) :
    { service with phase }.restart = service.restart := by
  unfold restart
  dsimp only
  split
  · rfl
  · unfold selectNextYellowstone
    dsimp only
    split <;> rfl

/-- Failing over does not depend on the phase. -/
theorem failover_phase (service : UpdaterService) (phase : Phase) :
    { service with phase }.selectNextYellowstone.restart =
      service.selectNextYellowstone.restart := by
  rw [selectNextYellowstone_phase, restart_phase]

/-- A service with a refresh in progress serves. -/
theorem serving_of_refreshing (h : service.refreshing = true) :
    ∃ url updater running, service.phase = .serving url updater (some running) := by
  unfold refreshing at h
  split at h
  · next url updater running hphase => exact ⟨url, updater, running, hphase⟩
  · cases h

/-- A wake-up that does not find the service serving starts no refresh. -/
theorem not_refreshing_step
    (h : ∀ url updater refresh, service.phase ≠ .serving url updater refresh) :
    (service.step deserialize input).refreshing = false := by
  apply Bool.eq_false_of_not_eq_true
  intro hrefreshing
  obtain ⟨url, updater, running, hphase⟩ := serving_of_refreshing hrefreshing
  have hserved := served_step hphase
  generalize hrefresh : some running = refresh at hserved
  generalize (service.step deserialize input).store = store at hserved
  cases hserved with
  | idle hserving => exact h _ _ _ hserving
  | due hserving => exact h _ _ _ hserving
  | failed hserving => exact h _ _ _ hserving
  | installed hserving => exact h _ _ _ hserving
  | recovered hbootstrapping => cases hrefresh
  | applied event stateEvent hserving => exact h _ _ _ hserving

/-- An input other than a refresh's own does not depend on the refresh in progress. -/
theorem step_withoutRefresh (h : ¬ Refreshes input) :
    service.withoutRefresh.step deserialize input =
      (service.step deserialize input).withoutRefresh := by
  by_cases hserving : ∃ url updater refresh, service.phase = .serving url updater refresh
  · have hrestart (failing : UpdaterService) :
        failing.selectNextYellowstone.restart =
          failing.selectNextYellowstone.restart.withoutRefresh :=
      (withoutRefresh_of_not_serving fun _ _ _ => restart_not_serving _).symm
    obtain ⟨capacity, urls, store, connected, active, phase⟩ := service
    obtain ⟨url, updater, refresh, rfl⟩ := hserving
    have hwithout : withoutRefresh ⟨capacity, urls, store, connected, active,
        .serving url updater refresh⟩ =
          ⟨capacity, urls, store, connected, active, .serving url updater none⟩ := rfl
    cases input with
    | yellowstone event =>
      cases event with
      | connected source => rfl
      | disconnected source =>
        by_cases hactive : source = active
        · simp only [hwithout, step, serveStep, if_pos hactive]
          exact (failover_phase _ _).symm.trans (hrestart _)
        · simp only [hwithout, step, serveStep, if_neg hactive]
          rfl
      | account source update =>
        by_cases hactive : source = active
        · simp only [hwithout, step, serveStep, if_pos hactive]
          split
          · rfl
          · exact (failover_phase _ _).symm.trans (hrestart _)
        · simp only [hwithout, step, serveStep, if_neg hactive]
      | confirmedSlot source slot =>
        by_cases hactive : source = active
        · simp only [hwithout, step, serveStep, if_pos hactive]
          rfl
        · simp only [hwithout, step, serveStep, if_neg hactive]
    | shutdown => rfl
    | channelClosed => rfl
    | fetchFinished result => rfl
    | refreshDue => exact (h trivial).elim
    | refreshFinished result => exact (h trivial).elim
  · have hidle : ∀ url updater refresh, service.phase ≠ .serving url updater refresh :=
      fun url updater refresh hphase => hserving ⟨url, updater, refresh, hphase⟩
    rw [withoutRefresh_of_not_serving hidle,
      withoutRefresh_of_not_refreshing (not_refreshing_step hidle)]

/-- Starting a refresh changes nothing else. -/
theorem withoutRefresh_step_refreshDue (deserialize : Deserialize) (service : UpdaterService) :
    (service.step deserialize .refreshDue).withoutRefresh = service.withoutRefresh := by
  obtain ⟨capacity, urls, store, connected, active, phase⟩ := service
  cases phase <;> rfl

/-- A failed fetch ends the refresh and changes nothing else. -/
theorem step_refreshFinished_error (deserialize : Deserialize) (service : UpdaterService)
    (error : String) :
    service.step deserialize (.refreshFinished (.error error)) = service.withoutRefresh := by
  obtain ⟨capacity, urls, store, connected, active, phase⟩ := service
  cases phase with
  | serving url updater refresh => cases refresh <;> rfl
  | waiting => rfl
  | bootstrapping url buffered => rfl
  | stopped result => rfl

/-- A run without some failed refresh attempts ends as the first run does, but for an attempt
that is still in progress. -/
theorem Leaves.run_eq (h : Leaves deserialize service first second lacking) :
    service.run deserialize second =
      if lacking then (service.run deserialize first).withoutRefresh
      else service.run deserialize first := by
  induction h with
  | nil => rfl
  | @both first second lacking input h hinput ih =>
    rw [run_concat, run_concat, ih]
    cases lacking with
    | false => rfl
    | true =>
      rw [if_pos rfl, step_withoutRefresh (hinput rfl), Bool.true_and]
      split
      · rfl
      · next hnot => exact withoutRefresh_of_not_refreshing (Bool.eq_false_of_not_eq_true hnot)
  | @begins first second h hidle ih =>
    rw [ih, if_neg Bool.false_ne_true, run_concat]
    have hback := withoutRefresh_step_refreshDue deserialize (service.run deserialize first)
    rw [withoutRefresh_of_not_refreshing hidle] at hback
    split
    · exact hback.symm
    · next hnot =>
      exact hback.symm.trans (withoutRefresh_of_not_refreshing (Bool.eq_false_of_not_eq_true hnot))
  | @due first second h ih =>
    rw [ih, if_pos rfl, if_pos rfl, run_concat, withoutRefresh_step_refreshDue]
  | @fails first second error h ih =>
    rw [ih, if_pos rfl, if_neg Bool.false_ne_true, run_concat, step_refreshFinished_error]

/-- Two services have the same store, sources and live updater, and are in the same state when
they do not serve. -/
structure Alike (service other : UpdaterService) : Prop where
  store : other.store = service.store
  activeSource : other.activeSource = service.activeSource
  connectedSources : other.connectedSources = service.connectedSources
  updater : other.updater? = service.updater?
  outcome : service.updater? = none → other = service

/-- A service is alike without the refresh in progress. -/
theorem alike_withoutRefresh (service : UpdaterService) : Alike service service.withoutRefresh := by
  obtain ⟨capacity, urls, store, connected, active, phase⟩ := service
  cases phase with
  | serving url updater refresh => exact ⟨rfl, rfl, rfl, rfl, fun hnone => by cases hnone⟩
  | waiting => exact ⟨rfl, rfl, rfl, rfl, fun _ => rfl⟩
  | bootstrapping url buffered => exact ⟨rfl, rfl, rfl, rfl, fun _ => rfl⟩
  | stopped result => exact ⟨rfl, rfl, rfl, rfl, fun _ => rfl⟩

/-- The last state of a run is listed unless a refresh's own input led to it. -/
theorem eventStates_concat (deserialize : Deserialize) (service : UpdaterService)
    (inputs : List Input) (input : Input) :
    service.eventStates deserialize (inputs ++ [input]) =
      service.eventStates deserialize inputs ++
        if Refreshes input then [] else [service.run deserialize (inputs ++ [input])] := by
  induction inputs generalizing service with
  | nil => rfl
  | cons earlier inputs ih =>
    have hrun : service.run deserialize (earlier :: inputs ++ [input]) =
        (service.step deserialize earlier).run deserialize (inputs ++ [input]) := rfl
    rw [List.cons_append, eventStates, eventStates, ← List.cons_append, hrun]
    split
    · exact ih _
    · rw [ih, List.cons_append]

/-- A refresh's own input adds no state to the list. -/
theorem eventStates_concat_of_refreshes (service : UpdaterService) (inputs : List Input)
    (h : Refreshes input) :
    service.eventStates deserialize (inputs ++ [input]) =
      service.eventStates deserialize inputs := by
  rw [eventStates_concat, if_pos h, List.append_nil]

/-- Both runs are alike where they are now. -/
theorem Leaves.alike (h : Leaves deserialize service first second lacking) :
    Alike (service.run deserialize first) (service.run deserialize second) := by
  rw [h.run_eq]
  split
  · exact alike_withoutRefresh _
  · exact ⟨rfl, rfl, rfl, rfl, fun _ => rfl⟩

/-- A failed refresh is invisible: leaving out any attempts that install nothing keeps the
store and the live updater after every event, and the state in which serving ends. -/
theorem failed_refreshes_invisible (h : Leaves deserialize service first second lacking) :
    List.Forall₂ Alike (service.eventStates deserialize first)
        (service.eventStates deserialize second) ∧
      Alike (service.run deserialize first) (service.run deserialize second) := by
  refine ⟨?_, h.alike⟩
  induction h with
  | nil => exact .nil
  | @both first second lacking input h hinput ih =>
    rw [eventStates_concat, eventStates_concat]
    split
    · simpa using ih
    · exact List.rel_append ih (.cons (h.both hinput).alike .nil)
  | begins h hidle ih =>
    rw [eventStates_concat_of_refreshes _ _ (show Refreshes .refreshDue from trivial)]
    exact ih
  | due h ih =>
    rw [eventStates_concat_of_refreshes _ _ (show Refreshes .refreshDue from trivial)]
    exact ih
  | @fails first second error h ih =>
    rw [eventStates_concat_of_refreshes _ _ (show Refreshes (.refreshFinished (.error error)) from
      trivial)]
    exact ih

/-- A source serves, and a refresh that buffers a confirmation fails. -/
def failedRefresh : List Input :=
  [.yellowstone (.connected 0), .fetchFinished (.ok ⟨5, ∅⟩), .refreshDue,
    .yellowstone (.confirmedSlot 0 6), .refreshFinished (.error "lagging"),
    .yellowstone (.confirmedSlot 0 7)]

/-- The same events without the refresh. -/
def noRefresh : List Input :=
  [.yellowstone (.connected 0), .fetchFinished (.ok ⟨5, ∅⟩), .yellowstone (.confirmedSlot 0 6),
    .yellowstone (.confirmedSlot 0 7)]

/-- The failed refresh is not seen. -/
theorem failedRefresh_invisible :
    List.Forall₂ Alike ((start 4 ["rpc"] .new).eventStates (fun _ => none) failedRefresh)
        ((start 4 ["rpc"] .new).eventStates (fun _ => none) noRefresh) ∧
      Alike ((start 4 ["rpc"] .new).run (fun _ => none) failedRefresh)
        ((start 4 ["rpc"] .new).run (fun _ => none) noRefresh) := by
  have hserving : Leaves (fun _ => none) (start 4 ["rpc"] .new) (failedRefresh.take 2)
      (noRefresh.take 2) false :=
      .both (.both .nil fun hlacking => absurd hlacking Bool.false_ne_true)
        fun hlacking => absurd hlacking Bool.false_ne_true
  have hbegun : Leaves (fun _ => none) (start 4 ["rpc"] .new) (failedRefresh.take 3)
      (noRefresh.take 2) true := .begins hserving rfl
  have hbuffered : Leaves (fun _ => none) (start 4 ["rpc"] .new) (failedRefresh.take 4)
      (noRefresh.take 3) true := .both hbegun fun _ => not_false
  exact failed_refreshes_invisible
    (.both (.fails hbuffered) fun hlacking => absurd hlacking Bool.false_ne_true)

end Leaves

end AltCache.UpdaterService
