import AltCache.Client.Service

/-!
# What one wake-up of the client can do

A wake-up of `establish_session` passes over its input, goes on with its attempt, gives the
attempt up, or completes it; a wake-up of a followed session handles at most one event. The
inversion lemmas state this once; invariants of the client follow from them.
-/

namespace AltCache

/-- An input that comes from a snapshot server. -/
def ClientInput.FromServer : ClientInput → Prop
  | .chunk _ => True
  | .snapshotEnded => True
  | .snapshotFailed _ => True
  | _ => False

/-- An input that a call of `establish_session` with a subscription does not wait for. -/
def ClientInput.Idle : ClientInput → Prop
  | .subscribed => True
  | .elapsed => True
  | .dropped => True
  | _ => False

/-- What one wake-up makes of a call of `establish_session`. -/
inductive EstablishCall.Tried (deserialize : Deserialize) (allocates : ℕ → Bool)
    (config : AltConfig) (call : EstablishCall) : ClientInput → Establish → Prop where
  /-- The input is passed over. -/
  | passed {input} (h : call.attempt = .connecting ∨ input.Idle) :
      Tried deserialize allocates config call input (.going call)
  /-- The attempt is given up. -/
  | failed {input} (error : String) :
      Tried deserialize allocates config call input (call.attemptFailed config error)
  | subscribed (h : call.attempt = .connecting) :
      Tried deserialize allocates config call .subscribed
        (.going { call with attempt := .bootstrapping [] 0 .new })
  | buffered {update buffered buffered' url download}
      (h : call.attempt = .bootstrapping buffered url download)
      (hok : bufferUpdate buffered update = .ok buffered') :
      Tried deserialize allocates config call (.update update)
        (.going { call with attempt := .bootstrapping buffered' url download })
  | received {chunk buffered url download download'}
      (h : call.attempt = .bootstrapping buffered url download)
      (hok : download.push deserialize chunk = .ok download') :
      Tried deserialize allocates config call (.chunk chunk)
        (.going { call with attempt := .bootstrapping buffered url download' })
  | panicked {chunk buffered url download}
      (h : call.attempt = .bootstrapping buffered url download)
      (hpanics : download.pushPanics allocates chunk = true) :
      Tried deserialize allocates config call (.chunk chunk) .panicked
  /-- The download is given up for the next URL. -/
  | nextUrl {input buffered url download}
      (h : call.attempt = .bootstrapping buffered url download)
      (hinput : input.FromServer) :
      Tried deserialize allocates config call input
        (.going { call with attempt := .bootstrapping buffered (url + 1) .new })
  | established {buffered url download snapshot session}
      (h : call.attempt = .bootstrapping buffered url download)
      (hfinish : download.finish = .ok snapshot)
      (hok : replayBuffered deserialize (call.sourceIndex config)
        (snapshot.slot, snapshot.tables) buffered = .ok session) :
      Tried deserialize allocates config call .snapshotEnded (.established session)

variable {deserialize : Deserialize} {allocates : ℕ → Bool} {config : AltConfig}
  {call : EstablishCall}

/-- Giving a download up goes on with the next URL or gives the attempt up. -/
theorem EstablishCall.tried_fetchFrom (input : ClientInput) {buffered : List BufferedEvent}
    {url : ℕ} {download : SnapshotDownload}
    (h : call.attempt = .bootstrapping buffered url download) (hinput : input.FromServer)
    (error : String) :
    Tried deserialize allocates config call input
      (call.fetchFrom config buffered (url + 1) error) := by
  unfold fetchFrom
  split
  · exact .nextUrl h hinput
  · exact .failed error

/-- Every wake-up of `establish_session` is one of those. -/
theorem EstablishCall.tried_step (deserialize : Deserialize) (allocates : ℕ → Bool)
    (config : AltConfig) (call : EstablishCall) (input : ClientInput) :
    Tried deserialize allocates config call input
      (call.step deserialize allocates config input) := by
  cases hattempt : call.attempt with
  | connecting =>
    simp only [step, hattempt]
    cases input with
    | subscribed =>
      simp only [connectStep, fetchFrom]
      split
      · exact .subscribed hattempt
      · exact .failed _
    | sourceFailed error => exact .failed error
    | update update => exact .passed (Or.inl hattempt)
    | chunk chunk => exact .passed (Or.inl hattempt)
    | snapshotEnded => exact .passed (Or.inl hattempt)
    | snapshotFailed error => exact .passed (Or.inl hattempt)
    | elapsed => exact .passed (Or.inl hattempt)
    | dropped => exact .passed (Or.inl hattempt)
  | bootstrapping buffered url download =>
    simp only [step, hattempt]
    cases input with
    | subscribed => exact .passed (Or.inr trivial)
    | sourceFailed error => exact .failed error
    | update update =>
      simp only [bootstrapStep]
      split
      · exact .failed _
      · next buffered' hok => exact .buffered hattempt hok
    | chunk chunk =>
      simp only [bootstrapStep]
      split
      · next hpanics => exact .panicked hattempt hpanics
      · split
        · exact tried_fetchFrom (.chunk chunk) hattempt trivial _
        · next download' hok => exact .received hattempt hok
    | snapshotEnded =>
      simp only [bootstrapStep]
      split
      · exact tried_fetchFrom .snapshotEnded hattempt trivial _
      · next snapshot hfinish =>
        unfold finishBootstrap
        split
        · exact .failed _
        · next session hok => exact .established hattempt hfinish hok
    | snapshotFailed error => exact tried_fetchFrom (.snapshotFailed error) hattempt trivial error
    | elapsed => exact .passed (Or.inr trivial)
    | dropped => exact .passed (Or.inr trivial)

/-- Giving an attempt up attempts the next source from scratch, or fails. -/
theorem EstablishCall.attemptFailed_cases (config : AltConfig) (call : EstablishCall)
    (error : String) :
    (call.offset + 1 < config.yellowstoneGrpc.length ∧ call.attemptFailed config error =
        .going ⟨call.startSource, call.offset + 1, .connecting⟩) ∨
      (config.yellowstoneGrpc.length ≤ call.offset + 1 ∧
        call.attemptFailed config error = .failed error) := by
  unfold attemptFailed attemptAt
  split
  · next h => exact Or.inl ⟨h, rfl⟩
  · next h => exact Or.inr ⟨not_lt.mp h, rfl⟩

/-- Following one message without event changes nothing. -/
theorem follow_passed {update : UpdateOneof} (h : update.event? = none) (session : Session)
    (confirmedSlot : ℕ) :
    follow deserialize session confirmedSlot [update] = (.ok (), session, confirmedSlot) := by
  cases update with
  | ping => rfl
  | other => rfl
  | account update => cases h
  | slot slot status =>
    by_cases hstatus : status = slotConfirmed
    · simp [UpdateOneof.event?, hstatus] at h
    · simp [follow, hstatus]

/-- Following one message handles its event; a risen confirmed slot is shown to readers. -/
theorem follow_event {update : UpdateOneof} {event : BufferedEvent}
    (h : update.event? = some event) (session : Session) (confirmedSlot : ℕ) :
    follow deserialize session confirmedSlot [update] =
      match session.handle deserialize false event with
      | (.error error, session) => (.error error, session, confirmedSlot)
      | (.ok true, session) => (.ok (), session, session.confirmedSlot)
      | (.ok false, session) => (.ok (), session, confirmedSlot) := by
  cases update with
  | ping => cases h
  | other => cases h
  | account update =>
    cases h
    simp only [follow, Session.handle]
    cases session.queueUpdate update false with
    | error error => rfl
    | ok session => rfl
  | slot slot status =>
    by_cases hstatus : status = slotConfirmed
    · simp only [UpdateOneof.event?, if_pos hstatus, Option.some.injEq] at h
      subst h
      simp only [follow, Session.handle, if_pos hstatus, Session.confirm]
      by_cases hle : slot ≤ session.confirmedSlot
      · rw [if_pos hle]
      · rw [if_neg hle]
        rcases session.applyPendingThrough deserialize slot with ⟨error | ⟨⟩, after⟩
        · rfl
        · rfl
    · simp [UpdateOneof.event?, hstatus] at h

/-- What readers find while a running client handles an input. -/
inductive Client.Glimpsed (deserialize : Deserialize) (allocates : ℕ → Bool) (config : AltConfig)
    (inner : Inner) (task : ClientTask) (input : ClientInput) : Inner → Prop where
  /-- What they find afterwards. -/
  | afterwards {after task'}
      (h : (Client.running inner task).step deserialize allocates config input =
        .running after task') :
      Glimpsed deserialize allocates config inner task input after
  /-- Some of the updates that are being confirmed have been applied. -/
  | confirming {session slot applied tables} (htask : task = .following session)
      (hinput : input = .update (.slot slot slotConfirmed)) (hslot : session.confirmedSlot < slot)
      (hfirst : applied <+: session.pending.through slot)
      (happlied : applied.foldlM (applyUpdate deserialize) session.tables = .ok tables) :
      Glimpsed deserialize allocates config inner task input { inner with tables }
  /-- The recovered session is not all stored. -/
  | restoring {call tables confirmedSlot} (htask : task = .recovering call) :
      Glimpsed deserialize allocates config inner task input
        { inner with tables, confirmedSlot }

/-- They find nothing else. -/
theorem Client.glimpsed {inner glimpse : Inner} {task : ClientTask} {input : ClientInput}
    (h : glimpse ∈ (Client.running inner task).glimpses deserialize allocates config input) :
    Glimpsed deserialize allocates config inner task input glimpse := by
  rw [glimpses, List.mem_append] at h
  rcases h with h | h
  · cases task with
    | delaying nextSource => cases h
    | panicked => cases h
    | recovering call =>
      simp only [passing] at h
      split at h
      · rcases List.mem_pair.mp h with rfl | rfl
        · exact .restoring rfl
        · exact .restoring rfl
      · cases h
    | following session =>
      simp only [passing] at h
      split at h
      · next slot status =>
        split at h
        · next hconfirms =>
          obtain ⟨rfl, hslot⟩ := hconfirms
          obtain ⟨tables, hseen, rfl⟩ := List.mem_map.mp h
          rw [Session.slotGlimpses_eq
            ((session.pending.slotsThrough_pairwise slot).imp ne_of_lt)] at hseen
          obtain ⟨applied, hfirst, happlied⟩ := exists_prefix_of_mem_queueGlimpses hseen
          exact .confirming rfl rfl hslot hfirst happlied
        · cases h
      · cases h
  · cases hafter : (Client.running inner task).step deserialize allocates config input with
    | running after task' =>
      rw [hafter] at h
      obtain rfl := List.mem_singleton.mp h
      exact .afterwards hafter
    | _ =>
      rw [hafter] at h
      cases h

end AltCache
