import AltCache.Replay.Chain
import AltCache.UiAccount
import AltCache.Updater.Refresh

/-!
# Do served accounts roll back?

A serving period is recorded with the arrival time of every update, the updates that were
accepted, and the journal that the live updater tracks. The version filter keeps a live
updater from rolling back, but a refresh starts with an empty version map: an update that is
older than one accepted before the refresh began gets through once more, unless its slot is
below the fetched one or a newer update of its key arrived since.
-/

namespace AltCache

open AltCache.Replay

/-- The time an update arrived and the account it brings. -/
abbrev Stamped := ℕ × Option Account

/-- The arrival time of an update. -/
abbrev arrival (w : Write Key Stamped) : ℕ := w.value.1

/-- The call an event makes when it arrives at a time. -/
def StateEvent.stampedCall (time : ℕ) : StateEvent → Call Key Stamped
  | .account key slot writeVersion value => .queue ⟨key, slot, writeVersion, (time, value)⟩
  | .confirmedSlot slot => .confirm slot

/-- The calls of events that arrive one after another from time 0. -/
def stampedCalls (events : List StateEvent) : List (Call Key Stamped) :=
  events.zipIdx.map fun (event, time) => event.stampedCall time

/-- What wakes up the serve loop. -/
inductive ServeInput where
  | event (event : StateEvent)
  | refreshDue
  | refreshFinished (result : Except String FetchedAltState)

/-- The state of the serve loop with the history of its updates: those that arrived, those
that were accepted, the journal of the live updater, and the times at which the buffers of
the live updater and of a running refresh began. -/
structure ServeRecord where
  url : String
  updater : StateUpdater
  store : Store
  refresh : Option RefreshInProgress
  clock : ℕ
  arrivals : List (Write Key Stamped)
  accepted : List (Write Key Stamped)
  journal : Journal Key Stamped
  began : ℕ
  refreshCalls : List (Call Key Stamped)
  refreshBegan : ℕ

namespace ServeRecord

/-- Serving begins with a recovered updater. -/
def start (url : String) (fetched : FetchedAltState) (buffered : List StateEvent)
    (store : Store) : ServeRecord where
  url
  updater := (recoverAltState url fetched buffered store).1
  store := (recoverAltState url fetched buffered store).2
  refresh := none
  clock := buffered.length
  arrivals := delivered (stampedCalls buffered)
  accepted :=
    ((Journal.start fetched.contextSlot).run (stampedCalls buffered ++ [.settle])).accepted
  journal := (Journal.start fetched.contextSlot).run (stampedCalls buffered ++ [.settle])
  began := 0
  refreshCalls := []
  refreshBegan := 0

/-- One wake-up of the serve loop, recorded. -/
def step (record : ServeRecord) (capacity : ℕ) : ServeInput → ServeRecord
  | .event event =>
    let (updater, store) := applyStateEvent event record.updater record.store
    let call := event.stampedCall record.clock
    { record with
      updater, store
      refresh := bufferRefreshEvent record.refresh event capacity
      clock := record.clock + 1
      arrivals := record.arrivals ++ delivered [call]
      accepted :=
        if event.accepted record.updater = [] then record.accepted
        else record.accepted ++ delivered [call]
      journal := record.journal.call call
      refreshCalls := record.refreshCalls ++ [call] }
  | .refreshDue =>
    match record.refresh with
    | some _ => record
    | none =>
      { record with
        refresh := some (.start record.updater.confirmedSlot)
        refreshCalls := []
        refreshBegan := record.clock }
  | .refreshFinished result =>
    let (updater, store) :=
      installRefreshedAltState result record.refresh record.updater record.store record.url
    match record.refresh, result with
    | some _, .ok fetched =>
      let journal :=
        (Journal.start fetched.contextSlot).run (record.refreshCalls ++ [.settle])
      { record with
        updater, store, journal
        refresh := none
        accepted := record.accepted ++ journal.accepted
        began := record.refreshBegan }
    | _, _ => { record with updater, store, refresh := none }

end ServeRecord

/-- An update is not stale for an updater whose buffer began at a time: it lies below the base
slot, an update of its key at least as new arrived between that time and it, or no update of
its key accepted before that time is newer. -/
def NotStale (floor began : ℕ) (arrivals accepted : List (Write Key Stamped))
    (w : Write Key Stamped) : Prop :=
  w.slot < floor ∨
    (∃ v ∈ arrivals, began ≤ arrival v ∧ arrival v < arrival w ∧ v.key = w.key ∧ w.tag ≤ v.tag) ∨
    ∀ v ∈ accepted, arrival v < began → v.key = w.key → v.tag ≤ w.tag

/-- No update is stale, neither one that arrives nor one that an installed refresh replays. -/
def ServeRecord.Admits (record : ServeRecord) : ServeInput → Prop
  | .event (.account key slot version value) =>
    NotStale record.updater.bootstrapSlot record.began record.arrivals record.accepted
      ⟨key, slot, version, (record.clock, value)⟩
  | .refreshFinished (.ok fetched) => record.refresh.isSome →
    ∀ w ∈ record.arrivals, record.refreshBegan ≤ arrival w →
      NotStale fetched.contextSlot record.refreshBegan record.arrivals record.accepted w
  | _ => True

/-- The inputs of the service that wake up the serve loop of a source. -/
inductive Wakes (deserialize : Deserialize) (source : ℕ) : Input → ServeInput → Prop where
  | account {update event} (h : decodeAccountUpdate deserialize update = .ok event) :
      Wakes deserialize source (.yellowstone (.account source update)) (.event event)
  | confirmedSlot (slot : ℕ) :
      Wakes deserialize source (.yellowstone (.confirmedSlot source slot))
        (.event (.confirmedSlot slot))
  | refreshDue : Wakes deserialize source .refreshDue .refreshDue
  | refreshFinished (result : Except String FetchedAltState) :
      Wakes deserialize source (.refreshFinished result) (.refreshFinished result)

/-- The inputs that leave the serve loop of a source alone. -/
def Idle (source : ℕ) : Input → Prop
  | .yellowstone (.connected _) => True
  | .yellowstone (.disconnected other) => other ≠ source
  | .yellowstone (.account other _) => other ≠ source
  | .yellowstone (.confirmedSlot other _) => other ≠ source
  | .fetchFinished _ => True
  | _ => False

/-- The runs of one serving period, from the bootstrap that opens it, with their records. -/
inductive ServingPeriod (deserialize : Deserialize) (admits : ServeRecord → ServeInput → Prop) :
    UpdaterService → ServeRecord → Prop where
  | start {service : UpdaterService} {url buffered} (fetched : FetchedAltState)
      (hphase : service.phase = .bootstrapping url buffered) :
      ServingPeriod deserialize admits (service.step deserialize (.fetchFinished (.ok fetched)))
        (.start url fetched buffered service.store)
  | step {service record input serveInput} (h : ServingPeriod deserialize admits service record)
      (hwakes : Wakes deserialize service.activeSource input serveInput)
      (hadmits : admits record serveInput) :
      ServingPeriod deserialize admits (service.step deserialize input)
        (record.step service.streamCapacity serveInput)
  | idle {service record input} (h : ServingPeriod deserialize admits service record)
      (hidle : Idle service.activeSource input) :
      ServingPeriod deserialize admits (service.step deserialize input) record

section ServingPeriod

variable {deserialize : Deserialize} {admits : ServeRecord → ServeInput → Prop}
  {service : UpdaterService} {record : ServeRecord}

/-- The service is in the recorded state. -/
def ServeRecord.RecordOf (record : ServeRecord) (service : UpdaterService) : Prop :=
  service.phase = .serving record.url record.updater record.refresh ∧ service.store = record.store

/-- A recorded wake-up is the service's. -/
theorem ServeRecord.RecordOf.step (h : record.RecordOf service) {input : Input}
    {serveInput : ServeInput} (hwakes : Wakes deserialize service.activeSource input serveInput) :
    (record.step service.streamCapacity serveInput).RecordOf (service.step deserialize input) := by
  obtain ⟨hphase, hstore⟩ := h
  cases hwakes with
  | account hdecode =>
    simp only [UpdaterService.step, hphase, UpdaterService.serveStep, if_pos, hdecode,
      UpdaterService.serveEvent, hstore]
    exact ⟨rfl, rfl⟩
  | confirmedSlot slot =>
    simp only [UpdaterService.step, hphase, UpdaterService.serveStep, if_pos,
      UpdaterService.serveEvent, hstore]
    exact ⟨rfl, rfl⟩
  | refreshDue =>
    simp only [UpdaterService.step, hphase, UpdaterService.serveStep]
    cases hrefresh : record.refresh with
    | some running => simp [ServeRecord.step, RecordOf, hrefresh, hstore]
    | none => simp [ServeRecord.step, RecordOf, hrefresh, hstore]
  | refreshFinished result =>
    simp only [UpdaterService.step, hphase, UpdaterService.serveStep, hstore]
    cases hrefresh : record.refresh with
    | none => simp [ServeRecord.step, RecordOf, hrefresh]
    | some running => cases result <;> simp [ServeRecord.step, RecordOf, hrefresh]

/-- An idle input changes nothing that is recorded. -/
theorem ServeRecord.RecordOf.idle (h : record.RecordOf service) {input : Input}
    (hidle : Idle service.activeSource input) :
    record.RecordOf (service.step deserialize input) := by
  obtain ⟨hphase, hstore⟩ := h
  cases input with
  | yellowstone event =>
    cases event with
    | connected source =>
      simp [UpdaterService.step, hphase, UpdaterService.serveStep, RecordOf, hstore]
    | _ =>
      simp only [Idle] at hidle
      simp [UpdaterService.step, hphase, UpdaterService.serveStep, RecordOf, hstore, hidle]
  | fetchFinished result =>
    simp [UpdaterService.step, hphase, UpdaterService.serveStep, RecordOf, hstore]
  | _ => exact hidle.elim

/-- Throughout a serving period the service is in the recorded state. -/
theorem ServingPeriod.recordOf (h : ServingPeriod deserialize admits service record) :
    record.RecordOf service := by
  induction h with
  | start fetched hphase =>
    simp only [UpdaterService.step, hphase, UpdaterService.bootstrapStep]
    exact ⟨rfl, rfl⟩
  | step _ hwakes _ ih => exact ih.step hwakes
  | idle _ hidle ih => exact ih.idle hidle

/-- The updates that arrived at or after a time. -/
def arrivedSince (time : ℕ) (arrivals : List (Write Key Stamped)) : List (Write Key Stamped) :=
  arrivals.filter (time ≤ arrival ·)

@[simp] theorem mem_arrivedSince {time : ℕ} {arrivals : List (Write Key Stamped)}
    {w : Write Key Stamped} :
    w ∈ arrivedSince time arrivals ↔ w ∈ arrivals ∧ time ≤ arrival w := by
  simp [arrivedSince]

/-- What holds of every record: the journal is the live updater's and admits from the updates
since its buffer began, a running refresh has buffered the updates since it began, and the
accepted updates from before the live buffer began are no newer than those in the journal. -/
structure ServeRecord.Good (record : ServeRecord) : Prop where
  tracks : ∃ base, record.updater.Tracks Prod.snd base record.journal
  ordered : record.arrivals.Pairwise fun a b => arrival a < arrival b
  past : ∀ w ∈ record.arrivals, arrival w < record.clock
  journal : record.journal.AdmitsFrom (arrivedSince record.began record.arrivals)
  began : record.began ≤ record.clock
  refreshBegan : record.refreshBegan ≤ record.clock
  accepted : ∀ w ∈ record.accepted, w ∈ record.arrivals
  refresh : ∀ running, record.refresh = some running →
    calls running.bufferedEvents = record.refreshCalls.map (.map Prod.snd) ∧
      delivered record.refreshCalls = arrivedSince record.refreshBegan record.arrivals
  fresh : ∀ w ∈ record.journal.accepted, ∀ v ∈ record.accepted, arrival v < record.began →
    v.key = w.key → v.tag ≤ w.tag

/-- In a good record nothing applied is older than an update accepted before it arrived. -/
theorem ServeRecord.Good.never_older (h : record.Good) {v w : Write Key Stamped}
    (hw : w ∈ record.journal.accepted) (hv : v ∈ record.accepted) (hkey : v.key = w.key)
    (htime : arrival v < arrival w) : v.tag ≤ w.tag := by
  by_cases hbegan : arrival v < record.began
  · exact h.fresh w hw v hv hbegan hkey
  · have hadmitted : w ∈ ofKey w.key
        (admitted record.journal.floor (arrivedSince record.began record.arrivals)) :=
      h.journal w.key ▸ mem_ofKey.mpr ⟨hw, rfl⟩
    exact (tag_lt_of_mem_admitted (h.ordered.filter _) (mem_ofKey.mp hadmitted).1
      (mem_arrivedSince.mpr ⟨h.accepted v hv, not_lt.mp hbegan⟩) hkey htime).le

/-- More arrivals make no update stale. -/
theorem NotStale.mono {floor began : ℕ} {arrivals arrivals' accepted : List (Write Key Stamped)}
    {w : Write Key Stamped} (h : NotStale floor began arrivals accepted w)
    (hmore : ∀ v ∈ arrivals, v ∈ arrivals') : NotStale floor began arrivals' accepted w :=
  h.imp_right fun h => h.imp_left fun hnewer => by
    obtain ⟨v, hv, hrest⟩ := hnewer
    exact ⟨v, hmore v hv, hrest⟩

/-- An admitted update that is not stale is no older than the updates accepted before. -/
theorem NotStale.tag_le {floor began : ℕ} {arrivals accepted : List (Write Key Stamped)}
    {w : Write Key Stamped} (h : NotStale floor began arrivals accepted w)
    (hordered : arrivals.Pairwise fun a b => arrival a < arrival b)
    (hw : w ∈ admitted floor (arrivedSince began arrivals)) {v : Write Key Stamped}
    (hv : v ∈ accepted) (hbegan : arrival v < began) (hkey : v.key = w.key) : v.tag ≤ w.tag := by
  rcases h with hfloor | ⟨u, hu, hubegan, hutime, hukey, htag⟩ | hfresh
  · have := (mem_of_mem_admitted hw).2
    omega
  · exact absurd htag (tag_lt_of_mem_admitted (hordered.filter _) hw
      (mem_arrivedSince.mpr ⟨hu, hubegan⟩) hukey hutime).not_ge
  · exact hfresh v hv hbegan hkey

/-- Stamping one more event stamps it with the number of events before it. -/
theorem stampedCalls_concat (events : List StateEvent) (event : StateEvent) :
    stampedCalls (events ++ [event]) =
      stampedCalls events ++ [event.stampedCall events.length] := by
  simp [stampedCalls, List.zipIdx_append]

/-- Forgetting the stamp of a call leaves the event's call. -/
@[simp] theorem map_stampedCall (event : StateEvent) (time : ℕ) :
    (event.stampedCall time).map Prod.snd = event.call := by
  cases event <;> rfl

/-- Forgetting the stamps leaves the events' calls. -/
theorem map_stampedCalls (events : List StateEvent) :
    (stampedCalls events).map (.map Prod.snd) = calls events := by
  induction events using List.reverseRecOn with
  | nil => rfl
  | append_singleton events event ih => simp [stampedCalls_concat, ih]

/-- An event's update is stamped with the time of its arrival. -/
theorem arrival_stampedCall {event : StateEvent} {time : ℕ} {w : Write Key Stamped}
    (h : w ∈ delivered [event.stampedCall time]) : arrival w = time := by
  cases event with
  | account key slot version value =>
    obtain rfl := List.mem_singleton.mp h
    rfl
  | confirmedSlot slot => exact absurd h List.not_mem_nil

/-- Updates that arrive later extend an ordered record of past updates. -/
theorem ordered_append {arrivals : List (Write Key Stamped)} {clock : ℕ} (event : StateEvent)
    (hordered : arrivals.Pairwise fun a b => arrival a < arrival b)
    (hpast : ∀ w ∈ arrivals, arrival w < clock) :
    ((arrivals ++ delivered [event.stampedCall clock]).Pairwise fun a b =>
        arrival a < arrival b) ∧
      ∀ w ∈ arrivals ++ delivered [event.stampedCall clock], arrival w < clock + 1 := by
  refine ⟨List.pairwise_append.mpr ⟨hordered, ?_, fun v hv w hw => ?_⟩, fun w hw => ?_⟩
  · cases event with
    | account key slot version value => exact List.pairwise_singleton _ _
    | confirmedSlot slot => exact List.Pairwise.nil
  · rw [arrival_stampedCall hw]
    exact hpast v hv
  · rcases List.mem_append.mp hw with hw | hw
    · exact (hpast w hw).trans (Nat.lt_succ_self clock)
    · rw [arrival_stampedCall hw]
      exact Nat.lt_succ_self clock

/-- The updates of stamped events arrive in order, before the next one. -/
theorem ordered_stampedCalls (events : List StateEvent) :
    ((delivered (stampedCalls events)).Pairwise fun a b => arrival a < arrival b) ∧
      ∀ w ∈ delivered (stampedCalls events), arrival w < events.length := by
  induction events using List.reverseRecOn with
  | nil => exact ⟨List.Pairwise.nil, fun w hw => absurd hw List.not_mem_nil⟩
  | append_singleton events event ih =>
    rw [stampedCalls_concat, delivered_append, List.length_append, List.length_singleton]
    exact ordered_append event ih.1 ih.2

/-- A recovered updater tracks the journal of its stamped calls. -/
theorem recoverAltState_tracks_stamped (url : String) (fetched : FetchedAltState)
    {buffered : List StateEvent} (store : Store) {stamped : List (Call Key Stamped)}
    (h : calls buffered = stamped.map (.map Prod.snd)) :
    (recoverAltState url fetched buffered store).1.Tracks Prod.snd (fetched.accounts[·]?)
      ((Journal.start fetched.contextSlot).run (stamped ++ [.settle])) := by
  have hcalls : calls buffered ++ [Call.settle] =
      (stamped ++ [Call.settle]).map (Call.map Prod.snd) := by
    rw [List.map_append, ← h]
    rfl
  rw [recoverAltState_eq_replay, hcalls, StateUpdater.replay_map]
  exact (StateUpdater.tracks_start Prod.snd url fetched).replay store _

/-- Serving begins with a good record. -/
theorem ServeRecord.good_start (url : String) (fetched : FetchedAltState)
    (buffered : List StateEvent) (store : Store) :
    (ServeRecord.start url fetched buffered store).Good := by
  obtain ⟨hordered, hpast⟩ := ordered_stampedCalls buffered
  have hadmits := Journal.admitsFrom_run fetched.contextSlot (stampedCalls buffered ++ [.settle])
  rw [delivered_append, delivered_settle, List.append_nil] at hadmits
  refine ⟨⟨_, recoverAltState_tracks_stamped url fetched store (map_stampedCalls buffered).symm⟩,
    hordered, hpast, ?_, Nat.zero_le _, Nat.zero_le _, fun w hw => ?_, fun _ h => (by cases h),
    fun _ _ _ _ h => absurd h (Nat.not_lt_zero _)⟩
  · have hall : arrivedSince 0 (delivered (stampedCalls buffered)) =
        delivered (stampedCalls buffered) := by simp [arrivedSince]
    change Journal.AdmitsFrom _ (arrivedSince 0 (delivered (stampedCalls buffered)))
    rwa [hall]
  · have hmem := hadmits w.key ▸ mem_ofKey.mpr ⟨hw, rfl⟩
    exact (mem_of_mem_admitted (mem_ofKey.mp hmem).1).1

/-- Updates that arrive later are among those since a past time. -/
theorem arrivedSince_append {time clock : ℕ} (h : time ≤ clock)
    (arrivals : List (Write Key Stamped)) (event : StateEvent) :
    arrivedSince time (arrivals ++ delivered [event.stampedCall clock]) =
      arrivedSince time arrivals ++ delivered [event.stampedCall clock] := by
  rw [arrivedSince, List.filter_append]
  congr 1
  apply List.filter_eq_self.mpr
  intro w hw
  rw [arrival_stampedCall hw]
  simpa using h

/-- What a journal has accepted after an event it had accepted before or the event brings. -/
theorem mem_accepted_call {j : Journal Key Stamped} {event : StateEvent} {time : ℕ}
    {w : Write Key Stamped} (hw : w ∈ (j.call (event.stampedCall time)).accepted) :
    w ∈ j.accepted ∨ w ∈ delivered [event.stampedCall time] := by
  cases event with
  | account key slot version value =>
    change w ∈ (j.queue ⟨key, slot, version, (time, value)⟩).accepted at hw
    rw [Journal.accepted_queue] at hw
    split at hw
    · exact (List.mem_append.mp hw)
    · exact Or.inl hw
  | confirmedSlot slot =>
    have hmem : w ∈ ofKey w.key (j.confirm slot).accepted := mem_ofKey.mpr ⟨hw, rfl⟩
    rw [Journal.ofKey_accepted_confirm] at hmem
    exact Or.inl (mem_ofKey.mp hmem).1

variable {capacity : ℕ}

/-- An event that is not a stale update keeps the record good. -/
theorem ServeRecord.Good.event (h : record.Good) {event : StateEvent}
    (hadmits : record.Admits (.event event)) : (record.step capacity (.event event)).Good := by
  obtain ⟨base, htracks⟩ := h.tracks
  obtain ⟨hordered, hpast⟩ := ordered_append event h.ordered h.past
  have hstep := htracks.perform record.store (event.stampedCall record.clock)
  rw [← StateUpdater.perform_map, map_stampedCall, ← applyStateEvent_eq_perform] at hstep
  have hjournal := h.journal.call (event.stampedCall record.clock)
  rw [← arrivedSince_append h.began] at hjournal
  refine ⟨⟨base, hstep⟩, hordered, hpast, hjournal, h.began.trans (Nat.le_succ _),
    h.refreshBegan.trans (Nat.le_succ _), fun w hw => ?_, fun running hrunning => ?_,
    fun w hw v hv hbegan hkey => ?_⟩
  · change w ∈ if event.accepted record.updater = [] then record.accepted
      else record.accepted ++ delivered [event.stampedCall record.clock] at hw
    split at hw
    · exact List.mem_append_left _ (h.accepted w hw)
    · exact List.mem_append.mpr ((List.mem_append.mp hw).imp_left (h.accepted w))
  · obtain ⟨active, hactive, hbuffered⟩ := Option.bind_eq_some_iff.mp hrunning
    obtain ⟨hcalls, hdelivered⟩ := h.refresh active hactive
    rw [RefreshInProgress.buffer] at hbuffered
    split at hbuffered
    · obtain rfl := Option.some.inj hbuffered
      change calls (active.bufferedEvents ++ [event]) =
          (record.refreshCalls ++ [event.stampedCall record.clock]).map _ ∧
        delivered (record.refreshCalls ++ [event.stampedCall record.clock]) =
          arrivedSince record.refreshBegan (record.arrivals ++ _)
      rw [arrivedSince_append h.refreshBegan, delivered_append, hdelivered, calls_append, hcalls]
      simp
    · cases hbuffered
  · have hvold : v ∈ record.accepted := by
      change v ∈ if event.accepted record.updater = [] then record.accepted
        else record.accepted ++ delivered [event.stampedCall record.clock] at hv
      split at hv
      · exact hv
      · apply (List.mem_append.mp hv).resolve_right
        intro hnew
        rw [arrival_stampedCall hnew] at hbegan
        exact hbegan.not_ge h.began
    rcases mem_accepted_call hw with hold | hnew
    · exact h.fresh w hold v hvold hbegan hkey
    · have hadmitted := hjournal w.key ▸ mem_ofKey.mpr ⟨hw, rfl⟩
      cases event with
      | account key slot version value =>
        obtain rfl := List.mem_singleton.mp hnew
        have hfloor : (record.journal.call
            (StateEvent.stampedCall record.clock (.account key slot version value))).floor =
            record.updater.bootstrapSlot :=
          (Journal.floor_queue _ _).trans htracks.bootstrapSlot.symm
        rw [hfloor] at hadmitted
        exact (hadmits.mono fun u hu => List.mem_append_left _ hu).tag_le hordered
          (mem_ofKey.mp hadmitted).1 hvold hbegan hkey
      | confirmedSlot slot => exact absurd hnew List.not_mem_nil

/-- A refresh that begins keeps the record good. -/
theorem ServeRecord.Good.refreshDue (h : record.Good) :
    (record.step capacity .refreshDue).Good := by
  cases hrefresh : record.refresh with
  | some running => simpa only [step, hrefresh] using h
  | none =>
    simp only [step, hrefresh]
    refine ⟨h.tracks, h.ordered, h.past, h.journal, h.began, le_rfl, h.accepted,
      fun running hrunning => ?_, h.fresh⟩
    obtain rfl := Option.some.inj hrunning
    refine ⟨rfl, (List.filter_eq_nil_iff.mpr fun w hw => ?_).symm⟩
    simpa using h.past w hw

/-- A refresh that ends, without replaying a stale update, keeps the record good. -/
theorem ServeRecord.Good.refreshFinished (h : record.Good)
    {result : Except String FetchedAltState}
    (hadmits : record.Admits (.refreshFinished result)) :
    (record.step capacity (.refreshFinished result)).Good := by
  cases hrefresh : record.refresh with
  | none =>
    simp only [step, hrefresh, installRefreshedAltState]
    exact ⟨h.tracks, h.ordered, h.past, h.journal, h.began, h.refreshBegan, h.accepted,
      fun _ h => (by cases h), h.fresh⟩
  | some completed =>
    cases result with
    | error error =>
      simp only [step, hrefresh, installRefreshedAltState]
      exact ⟨h.tracks, h.ordered, h.past, h.journal, h.began, h.refreshBegan, h.accepted,
        fun _ h => (by cases h), h.fresh⟩
    | ok fetched =>
      obtain ⟨hcalls, hdelivered⟩ := h.refresh completed hrefresh
      have hadmits := hadmits (by simp [hrefresh])
      have hjournal := Journal.admitsFrom_run fetched.contextSlot
        (record.refreshCalls ++ [Call.settle])
      rw [delivered_append, delivered_settle, List.append_nil, hdelivered] at hjournal
      have hreplayed {w : Write Key Stamped} (hw : w ∈ ((Journal.start fetched.contextSlot).run
          (record.refreshCalls ++ [Call.settle])).accepted) :
          w ∈ admitted fetched.contextSlot (arrivedSince record.refreshBegan record.arrivals) := by
        have hmem := hjournal w.key ▸ mem_ofKey.mpr ⟨hw, rfl⟩
        rw [Journal.floor_run] at hmem
        exact (mem_ofKey.mp hmem).1
      have harrived {w : Write Key Stamped} (hw : w ∈ ((Journal.start fetched.contextSlot).run
          (record.refreshCalls ++ [Call.settle])).accepted) :
          w ∈ record.arrivals ∧ record.refreshBegan ≤ arrival w :=
        mem_arrivedSince.mp (mem_of_mem_admitted (hreplayed hw)).1
      simp only [step, hrefresh, installRefreshedAltState]
      refine ⟨⟨_, recoverAltState_tracks_stamped record.url fetched record.store hcalls⟩,
        h.ordered, h.past, hjournal, h.refreshBegan, h.refreshBegan, fun w hw => ?_,
        fun _ h => (by cases h), fun w hw v hv hbegan hkey => ?_⟩
      · exact (List.mem_append.mp hw).elim (h.accepted w) fun hw => (harrived hw).1
      · refine (List.mem_append.mp hv).elim (fun hv => ?_) fun hv => ?_
        · exact (hadmits w (harrived hw).1 (harrived hw).2).tag_le h.ordered (hreplayed hw) hv
            hbegan hkey
        · exact absurd hbegan (harrived hv).2.not_gt

/-- Throughout a serving period without stale updates the record is good. -/
theorem ServingPeriod.good (h : ServingPeriod deserialize ServeRecord.Admits service record) :
    record.Good := by
  induction h with
  | start fetched hphase => exact ServeRecord.good_start ..
  | step _ hwakes hadmits ih =>
    cases hwakes with
    | account => exact ih.event hadmits
    | confirmedSlot => exact ih.event hadmits
    | refreshDue => exact ih.refreshDue
    | refreshFinished => exact ih.refreshFinished hadmits
  | idle _ _ ih => exact ih

/-- Throughout a serving period without stale updates, refreshes included, no update applied to
the served accounts is older than one of its key that was accepted before it arrived. -/
theorem served_never_rolls_back
    (h : ServingPeriod deserialize ServeRecord.Admits service record) :
    record.RecordOf service ∧
      (∃ base, record.updater.Tracks Prod.snd base record.journal) ∧
      ∀ w ∈ record.journal.applied, ∀ v ∈ record.accepted, v.key = w.key →
        arrival v < arrival w → v.tag ≤ w.tag :=
  ⟨h.recordOf, h.good.tracks, fun _ hw _ hv hkey htime =>
    h.good.never_older (List.mem_append_left _ hw) hv hkey htime⟩

end ServingPeriod

/-- The body of a table with a write version. -/
def tableBody (version : ℕ) : SubscribeUpdateAccountInfo :=
  { (Account.sample (.filled 1)).value with writeVersion := version }

/-- Its event in a slot. -/
def tableEvent (slot version : ℕ) : StateEvent :=
  .account (.filled 1) slot version (some ⟨tableBody version⟩)

/-- An update of the table reaches the serve loop of source 0 as its event. -/
theorem wakes_table (slot version : ℕ) :
    Wakes acceptAll 0 (.yellowstone (.account 0 ⟨some (tableBody version), slot, false⟩))
      (.event (tableEvent slot version)) :=
  .account rfl

/-- The service while it bootstraps from source 0. -/
def bootstrappingService : UpdaterService :=
  (UpdaterService.start 8 ["rpc"] Store.new).step acceptAll (.yellowstone (.connected 0))

/-- Versions 2 and 1 of the table arrive in slot 7 without a refresh in between. -/
def orderedService : UpdaterService :=
  bootstrappingService.run acceptAll
    [.fetchFinished (.ok ⟨5, ∅⟩),
      .yellowstone (.account 0 ⟨some (tableBody 2), 7, false⟩),
      .yellowstone (.account 0 ⟨some (tableBody 1), 7, false⟩),
      .yellowstone (.confirmedSlot 0 7)]

/-- The record of that serving period. -/
def orderedRecord : ServeRecord :=
  [ServeInput.event (tableEvent 7 2), .event (tableEvent 7 1), .event (.confirmedSlot 7)].foldl
    (fun record input => record.step 8 input)
    (.start "rpc" ⟨5, ∅⟩ [] bootstrappingService.store)

/-- The version filter drops the older one. -/
theorem ordered_never_rolls_back :
    orderedRecord.RecordOf orderedService ∧
      (∃ base, orderedRecord.updater.Tracks Prod.snd base orderedRecord.journal) ∧
      ∀ w ∈ orderedRecord.journal.applied, ∀ v ∈ orderedRecord.accepted, v.key = w.key →
        arrival v < arrival w → v.tag ≤ w.tag := by
  have hstart : ServingPeriod acceptAll ServeRecord.Admits
      (bootstrappingService.step acceptAll (.fetchFinished (.ok ⟨5, ∅⟩)))
      (.start "rpc" ⟨5, ∅⟩ [] bootstrappingService.store) := .start ⟨5, ∅⟩ rfl
  refine served_never_rolls_back (((hstart.step (wakes_table 7 2) ?_).step (wakes_table 7 1)
    ?_).step (.confirmedSlot 7) trivial)
  · exact Or.inr (Or.inr fun _ _ h => absurd h (Nat.not_lt_zero _))
  · exact Or.inr (Or.inl ⟨_, List.mem_cons_self, Nat.zero_le _, by decide, rfl, by decide⟩)

/-- The history of the table: slot 7 writes it twice. -/
def tableHistory : Chain Key (Option Account) where
  writes := [⟨.filled 1, 7, 1, some ⟨tableBody 1⟩⟩, ⟨.filled 1, 7, 2, some ⟨tableBody 2⟩⟩]
  unique a ha b hb _ htag := by
    rcases List.mem_pair.mp ha with rfl | rfl <;> rcases List.mem_pair.mp hb with rfl | rfl
    · rfl
    · exact absurd htag (by decide)
    · exact absurd htag (by decide)
    · rfl

/-- The table as a refresh fetched at slot 7 reads it. -/
def tableFetch : FetchedAltState where
  contextSlot := 7
  accounts := (∅ : Accounts).insert (.filled 1) (Account.mk (tableBody 2)).received

/-- The fetched state is exact, as far as a fetch can tell. -/
theorem tableFetch_exact (k : Key) : (tableFetch.accounts[k]?).map Account.received =
    tableHistory.stateAt (Option.map Account.received) 7 k := by
  by_cases hk : Key.filled 1 = k
  · subst hk
    decide +kernel
  · simp [tableFetch, tableHistory, Chain.stateAt, Chain.newestAt, newest, ofKey, hk]

/-- Versions 2 and then 1 of the table arrive in slot 7; in between the refresh is installed. -/
def lateVersionService : UpdaterService :=
  bootstrappingService.run acceptAll
    [.fetchFinished (.ok ⟨5, ∅⟩),
      .yellowstone (.account 0 ⟨some (tableBody 2), 7, false⟩), .refreshDue,
      .yellowstone (.confirmedSlot 0 7), .refreshFinished (.ok tableFetch),
      .yellowstone (.account 0 ⟨some (tableBody 1), 7, false⟩),
      .yellowstone (.confirmedSlot 0 8)]

/-- The record of that serving period. -/
def lateVersionRecord : ServeRecord :=
  [ServeInput.event (tableEvent 7 2), .refreshDue, .event (.confirmedSlot 7),
    .refreshFinished (.ok tableFetch), .event (tableEvent 7 1), .event (.confirmedSlot 8)].foldl
      (fun record input => record.step 8 input)
      (.start "rpc" ⟨5, ∅⟩ [] bootstrappingService.store)

/-- The older version is accepted after the refresh, whose state is exact, and rolls the table
back. -/
theorem lateVersion_rolls_back :
    ServingPeriod acceptAll (fun _ _ => True) lateVersionService lateVersionRecord ∧
      (∀ k : Key, (tableFetch.accounts[k]?).map Account.received =
        tableHistory.stateAt (Option.map Account.received) tableFetch.contextSlot k) ∧
      lateVersionRecord.updater.accounts[Key.filled 1]? = some ⟨tableBody 1⟩ ∧
      ∃ w ∈ lateVersionRecord.journal.applied, ∃ v ∈ lateVersionRecord.accepted,
        v.key = w.key ∧ arrival v < arrival w ∧ ¬ v.tag ≤ w.tag := by
  refine ⟨?_, tableFetch_exact, by decide +kernel, by decide +kernel⟩
  have hstart : ServingPeriod acceptAll (fun _ _ => True)
      (bootstrappingService.step acceptAll (.fetchFinished (.ok ⟨5, ∅⟩)))
      (.start "rpc" ⟨5, ∅⟩ [] bootstrappingService.store) := .start ⟨5, ∅⟩ rfl
  exact (((((hstart.step (wakes_table 7 2) trivial).step .refreshDue trivial).step
    (.confirmedSlot 7) trivial).step (.refreshFinished _) trivial).step (wakes_table 7 1)
    trivial).step (.confirmedSlot 8) trivial

end AltCache
