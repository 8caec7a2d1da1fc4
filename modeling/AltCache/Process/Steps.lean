import AltCache.Lanes
import AltCache.Process

/-!
# What one wake-up of the process can do

A source thread offers an event, puts it into the channel when there is room, goes on without
one, or ends; the updater takes the first event, or wakes up on something else. The inversion
lemma states this once; what the channel carries follows from it.
-/

namespace AltCache

/-- The event that a thread waits to send. -/
def SourceThread.offer (source : ℕ) : SourceThread → Option Event
  | .sending event => some event
  | .failed => some (.disconnected source)
  | _ => none

/-- The thread that waits to send an event. -/
def SourceThread.holding : Event → SourceThread
  | .disconnected _ => .failed
  | event => .sending event

/-- The event that an input makes a thread wait to send. -/
def SourceThread.said (source : ℕ) : SourceThread → SourceInput → Option Event
  | .connecting, .subscribed => some (.connected source)
  | .connecting, .sessionFailed => some (.disconnected source)
  | .streaming, .sessionFailed => some (.disconnected source)
  | .streaming, .message update => update.passedOn source
  | _, _ => none

/-- An event passed on is about the source it came from, and its session goes on. -/
theorem UpdateOneof.source_passedOn {source : ℕ} {update : UpdateOneof} {event : Event}
    (h : update.passedOn source = some event) :
    event.source = source ∧ SourceThread.holding event = .sending event := by
  cases update with
  | ping => cases h
  | account update =>
    cases h
    exact ⟨rfl, rfl⟩
  | slot slot status =>
    rw [passedOn] at h
    split at h
    · cases h
      exact ⟨rfl, rfl⟩
    · cases h
  | other => cases h

/-- So is every event that a thread waits to send. -/
theorem SourceThread.source_said {source : ℕ} {thread : SourceThread} {input : SourceInput}
    {event : Event} (h : thread.said source input = some event) : event.source = source := by
  unfold said at h
  split at h
  · cases h
    rfl
  · cases h
    rfl
  · cases h
    rfl
  · exact (UpdateOneof.source_passedOn h).1
  · cases h

/-- That event is what the thread then waits to send. -/
theorem SourceThread.offer_holding {source : ℕ} {event : Event} (h : event.source = source) :
    (holding event).offer source = some event := by
  subst h
  cases event <;> rfl

namespace Process

variable {deserialize : Deserialize} {process : Process}

/-- The event that the thread of a source waits to send. -/
def offered (process : Process) (source : ℕ) : Option Event :=
  (process.threads source).offer source

/-- The event that an input makes the thread of a source wait to send. -/
def said (process : Process) (source : ℕ) : ProcessInput → Option Event
  | .source other input =>
    if other = source then (process.threads source).said source input else none
  | _ => none

/-- The event that an input makes the updater take out of the channel. -/
def taken (process : Process) : ProcessInput → Option Event
  | .receive => if process.receiverDropped then none else process.channel.head?
  | _ => none

/-- What a running updater can wake up on besides the events of the channel. -/
inductive Wakes (process : Process) : ProcessInput → Input → Prop where
  | shutdown (hstop : process.stop = true) : Wakes process .shutdown .shutdown
  | channelClosed (hchannel : process.channel = []) (hsenders : process.sendersDropped = true) :
      Wakes process .receive .channelClosed
  | fetchFinished (result : Except String FetchedAltState) :
      Wakes process (.fetchFinished result) (.fetchFinished result)
  | refreshDue : Wakes process .refreshDue .refreshDue
  | refreshFinished (result : Except String FetchedAltState) :
      Wakes process (.refreshFinished result) (.refreshFinished result)

/-- What a wake-up can do while the updater runs, with the process afterwards. -/
inductive Moved (deserialize : Deserialize) (process : Process) :
    ProcessInput → Process → Prop where
  /-- Nothing happens. -/
  | idle {input} (hsaid : ∀ source, process.said source input = none)
      (htaken : process.taken input = none) : Moved deserialize process input process
  | signalled : Moved deserialize process .signal { process with stop := true }
  /-- A thread waits to send an event. -/
  | offered {source input event}
      (hsaid : (process.threads source).said source input = some event)
      (hfree : process.offered source = none) :
      Moved deserialize process (.source source input)
        (process.setThread source (.holding event))
  /-- A thread sends its event. -/
  | put {source event thread} (hoffer : process.offered source = some event)
      (hroom : process.channel.length < process.service.streamCapacity)
      (hthread : process.threads source = .sending event ∧ thread = .streaming ∨
        process.threads source = .failed ∧ thread = .delaying) :
      Moved deserialize process (.source source .sendable)
        ({ process with channel := process.channel ++ [event] }.setThread source thread)
  /-- A thread connects again. -/
  | delayed {source} (hthread : process.threads source = .delaying) :
      Moved deserialize process (.source source .elapsed) (process.setThread source .connecting)
  /-- A thread ends at shutdown. -/
  | cancelled {source} (hstop : process.stop = true) (hthread : process.threads source ≠ .failed) :
      Moved deserialize process (.source source .cancelled) (process.setThread source .ended)
  /-- The updater takes an event. -/
  | took {event channel} (hchannel : process.channel = event :: channel) :
      Moved deserialize process .receive
        ({ process with channel }.wake deserialize (.yellowstone event))
  /-- The updater wakes up on something else. -/
  | woken {input wake} (hwake : Wakes process input wake) :
      Moved deserialize process input (process.wake deserialize wake)
  | paged (now : ℕ) (snapshotSlot : Option ℕ) (after : Option Key) (limit : ℕ) :
      Moved deserialize process (.snapshotPage now snapshotSlot after limit)
        (process.page now snapshotSlot after limit)

section Threads

variable {source : ℕ} {input : SourceInput} {event : Event} {thread next : SourceThread}

/-- A thread that is not waiting for room offers nothing. -/
theorem offered_eq_none (hthread : process.threads source = thread)
    (hoffer : thread.offer source = none) : process.offered source = none := by
  rw [offered, hthread, hoffer]

/-- Its going on changes nothing in what the threads offer. -/
theorem update_offered_none (hthread : process.threads source = thread)
    (hoffer : thread.offer source = none) :
    Function.update process.offered source none = process.offered :=
  Function.update_eq_self_iff.mpr (offered_eq_none hthread hoffer).symm

/-- An input that a thread passes over makes no thread send anything. -/
theorem said_passed (hthread : process.threads source = thread)
    (h : thread.said source input = none) (other : ℕ) :
    process.said other (.source source input) = none := by
  rw [said]
  split
  · next hsame =>
    subst hsame
    rwa [hthread]
  · rfl

/-- An input that a thread passes over leaves it alone. -/
theorem moved_passed (hthread : process.threads source = thread)
    (h : thread.said source input = none) :
    Moved deserialize process (.source source input) process :=
  .idle (said_passed hthread h) rfl

/-- An input on which a thread has something to send makes it wait for room. -/
theorem moved_offered (hthread : process.threads source = thread)
    (hoffer : thread.offer source = none) (hsaid : thread.said source input = some event) :
    Moved deserialize process (.source source input)
      (process.setThread source (.holding event)) := by
  subst hthread
  exact .offered hsaid hoffer

/-- A thread that waits for room sends its event or goes on waiting. -/
theorem moved_send (hthread : process.threads source = thread)
    (hoffer : thread.offer source = some event) (hsaid : thread.said source .sendable = none)
    (hnext : thread = .sending event ∧ next = .streaming ∨ thread = .failed ∧ next = .delaying) :
    Moved deserialize process (.source source .sendable) (process.send source event next) := by
  unfold send
  split
  · next hroom =>
    subst hthread
    exact .put hoffer hroom hnext
  · exact moved_passed hthread hsaid

/-- A thread that does not wait to report its failure ends when it sees the cancellation. -/
theorem moved_cancelled (hthread : process.threads source = thread) (hfailed : thread ≠ .failed)
    (hsaid : thread.said source .cancelled = none) :
    Moved deserialize process (.source source .cancelled)
      (if process.stop then process.setThread source .ended else process) := by
  split
  · next hstop =>
    subst hthread
    exact .cancelled hstop hfailed
  · exact moved_passed hthread hsaid

/-- A streaming thread waits to send the event of a message, if it has one. -/
theorem moved_message (hthread : process.threads source = .streaming) (update : UpdateOneof) :
    Moved deserialize process (.source source (.message update))
      (process.sourceStep source (.message update)) := by
  simp only [sourceStep, hthread]
  cases hevent : update.passedOn source with
  | none => exact moved_passed hthread hevent
  | some event =>
    dsimp only
    rw [← (UpdateOneof.source_passedOn hevent).2]
    exact moved_offered hthread rfl hevent

/-- Every wake-up of a source thread is one of those. -/
theorem moved_sourceStep (deserialize : Deserialize) (source : ℕ) (input : SourceInput)
    (hrunning : process.receiverDropped = false) :
    Moved deserialize process (.source source input) (process.sourceStep source input) := by
  cases hthread : process.threads source with
  | connecting =>
    have hsubscribed : SourceThread.connecting.said source .subscribed =
        some (.connected source) := rfl
    have hfailed : SourceThread.connecting.said source .sessionFailed =
        some (.disconnected source) := rfl
    cases input <;> simp only [sourceStep, hthread]
    case subscribed => exact moved_offered hthread rfl hsubscribed
    case sessionFailed => exact moved_offered hthread rfl hfailed
    case cancelled => exact moved_cancelled hthread (by simp) rfl
    all_goals exact moved_passed hthread rfl
  | streaming =>
    have hfailed : SourceThread.streaming.said source .sessionFailed =
        some (.disconnected source) := rfl
    cases input with
    | message update => exact moved_message hthread update
    | sessionFailed =>
      simp only [sourceStep, hthread]
      exact moved_offered hthread rfl hfailed
    | cancelled =>
      simp only [sourceStep, hthread]
      exact moved_cancelled hthread (by simp) rfl
    | _ =>
      simp only [sourceStep, hthread]
      exact moved_passed hthread rfl
  | sending event =>
    cases input <;> simp only [sourceStep, hthread]
    case sendable =>
      rw [hrunning]
      exact moved_send hthread rfl rfl (Or.inl ⟨rfl, rfl⟩)
    case cancelled => exact moved_cancelled hthread (by simp) rfl
    all_goals exact moved_passed hthread rfl
  | failed =>
    cases input <;> simp only [sourceStep, hthread]
    case sendable =>
      rw [hrunning]
      exact moved_send hthread rfl rfl (Or.inr ⟨rfl, rfl⟩)
    all_goals exact moved_passed hthread rfl
  | delaying =>
    cases input <;> simp only [sourceStep, hthread]
    case elapsed => exact .delayed hthread
    case cancelled => exact moved_cancelled hthread (by simp) rfl
    all_goals exact moved_passed hthread rfl
  | ended =>
    cases input <;> simp only [sourceStep, hthread]
    case cancelled => exact moved_cancelled hthread (by simp) rfl
    all_goals exact moved_passed hthread rfl

end Threads

/-- Every wake-up is one of those while the updater runs. -/
theorem moved_step (deserialize : Deserialize) (input : ProcessInput)
    (hrunning : process.receiverDropped = false) :
    Moved deserialize process input (process.step deserialize input) := by
  cases input with
  | signal => exact .signalled
  | source source input => exact moved_sourceStep deserialize source input hrunning
  | receive =>
    unfold step receive
    dsimp only
    rw [hrunning]
    cases hchannel : process.channel with
    | cons event channel => exact .took hchannel
    | nil =>
      dsimp only
      split
      · exact absurd ‹_› Bool.false_ne_true
      · split
        · next hsenders => exact .woken (.channelClosed hchannel hsenders)
        · exact .idle (fun _ => rfl) (by simp [taken, hchannel])
  | shutdown =>
    simp only [step]
    split
    · next hstop => exact .woken (.shutdown hstop)
    · exact .idle (fun _ => rfl) rfl
  | fetchFinished result => exact .woken (.fetchFinished result)
  | refreshDue => exact .woken .refreshDue
  | refreshFinished result => exact .woken (.refreshFinished result)
  | snapshotPage now snapshotSlot after limit => exact .paged now snapshotSlot after limit

end Process

end AltCache
