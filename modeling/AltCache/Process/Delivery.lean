import AltCache.Process.Steps
import AltCache.Updater.Readiness

/-!
# What the channel carries

However the threads interleave, the updater receives what each source thread sent, in order,
once, and nothing else; what is missing waits in the channel, which never overflows, or with
the thread, and at shutdown one event of a source can be lost. So the updater hears from a
source only between its connection and its disconnection, and knows which sources stream once
it has caught up.
-/

namespace AltCache

open Lanes

namespace UpdaterService

/-- Waiting for the active source keeps the capacity. -/
@[simp] theorem streamCapacity_awaitActive (service : UpdaterService) :
    service.awaitActive.streamCapacity = service.streamCapacity := by
  unfold awaitActive beginBootstrap stop
  split
  · split <;> rfl
  · rfl

/-- Rotating keeps the capacity. -/
@[simp] theorem streamCapacity_selectNextYellowstone (service : UpdaterService) :
    service.selectNextYellowstone.streamCapacity = service.streamCapacity := by
  unfold selectNextYellowstone
  split <;> rfl

/-- Restarting keeps the capacity. -/
@[simp] theorem streamCapacity_restart (service : UpdaterService) :
    service.restart.streamCapacity = service.streamCapacity := by
  unfold restart
  rw [streamCapacity_awaitActive]
  split
  · rfl
  · rw [streamCapacity_selectNextYellowstone]

/-- Every wake-up keeps the capacity. -/
@[simp] theorem streamCapacity_step (deserialize : Deserialize) (service : UpdaterService)
    (input : Input) : (service.step deserialize input).streamCapacity = service.streamCapacity := by
  have hwoken := woken_step deserialize service input
  generalize service.step deserialize input = next at hwoken ⊢
  cases hwoken with
  | awaitConnected => simp
  | awaitDisconnected => simp
  | lost => simp
  | broken => simp
  | fetchFailed => simp
  | _ => rfl

end UpdaterService

namespace Process

variable {deserialize : Deserialize} {process : Process} {source : ℕ}

/-- What the thread of a source waited to send in a run. -/
def told (deserialize : Deserialize) (source : ℕ) : Process → List ProcessInput → List Event
  | _, [] => []
  | process, input :: inputs =>
    (process.said source input).toList ++
      told deserialize source (process.step deserialize input) inputs

/-- What the updater received in a run. -/
def received (deserialize : Deserialize) : Process → List ProcessInput → List Event
  | _, [] => []
  | process, input :: inputs =>
    (process.taken input).toList ++ received deserialize (process.step deserialize input) inputs

/-- The last input of a run. -/
theorem run_concat (deserialize : Deserialize) (process : Process) (inputs : List ProcessInput)
    (input : ProcessInput) : process.run deserialize (inputs ++ [input]) =
      (process.run deserialize inputs).step deserialize input :=
  List.foldl_concat ..

/-- What is sent at the last input. -/
theorem told_concat (deserialize : Deserialize) (source : ℕ) (process : Process)
    (inputs : List ProcessInput) (input : ProcessInput) :
    told deserialize source process (inputs ++ [input]) =
      told deserialize source process inputs ++
        ((process.run deserialize inputs).said source input).toList := by
  induction inputs generalizing process with
  | nil => exact List.append_nil _
  | cons first inputs ih =>
    rw [List.cons_append, told, told, ih, List.append_assoc]
    rfl

/-- What is received at the last input. -/
theorem received_concat (deserialize : Deserialize) (process : Process)
    (inputs : List ProcessInput) (input : ProcessInput) :
    received deserialize process (inputs ++ [input]) =
      received deserialize process inputs ++
        ((process.run deserialize inputs).taken input).toList := by
  induction inputs generalizing process with
  | nil => exact List.append_nil _
  | cons first inputs ih =>
    rw [List.cons_append, received, received, ih, List.append_assoc]
    rfl

/-- What the threads offer after one of them has gone on. -/
theorem offered_setThread (process : Process) (source : ℕ) (thread : SourceThread) :
    (process.setThread source thread).offered =
      Function.update process.offered source (thread.offer source) := by
  funext other
  by_cases hsame : other = source
  · subst hsame
    rw [offered, threads_setThread_self, Function.update_self]
  · rw [offered, threads_setThread_of_ne _ _ hsame, Function.update_of_ne hsame]
    rfl

/-- Sending changes nothing of the updater. -/
theorem service_send (process : Process) (source : ℕ) (event : Event) (thread : SourceThread) :
    (process.send source event thread).service = process.service := by
  unfold send setThread
  split <;> rfl

/-- The source threads change nothing of the updater. -/
theorem service_sourceStep (process : Process) (source : ℕ) (input : SourceInput) :
    (process.sourceStep source input).service = process.service := by
  unfold sourceStep
  split
  · rfl
  · rfl
  · rfl
  · split <;> rfl
  · split
    · rfl
    · exact service_send ..
  · split
    · rfl
    · exact service_send ..
  · rfl
  · rfl
  · split <;> rfl
  · rfl

/-- An updater that has returned does nothing any more. -/
theorem step_of_receiverDropped (input : Input) (h : process.receiverDropped = true) :
    process.service.step deserialize input = process.service := by
  unfold receiverDropped at h
  unfold UpdaterService.step
  split at h
  · next hphase => rw [hphase]
  · cases h

/-- What an updater that has returned has left behind changes in the store only. -/
theorem phase_step_of_receiverDropped (deserialize : Deserialize) (input : ProcessInput)
    (h : process.receiverDropped = true) :
    (process.step deserialize input).service.phase = process.service.phase := by
  have hwake (wake : Input) :
      (process.wake deserialize wake).service.phase = process.service.phase :=
    congrArg UpdaterService.phase (step_of_receiverDropped wake h)
  cases input with
  | signal => rfl
  | source source input => exact congrArg UpdaterService.phase (service_sourceStep ..)
  | receive =>
    simp only [step, receive, h, if_true]
  | shutdown =>
    simp only [step]
    split
    · exact hwake _
    · rfl
  | fetchFinished result => exact hwake _
  | refreshDue => exact hwake _
  | refreshFinished result => exact hwake _
  | snapshotPage now snapshotSlot after limit => rfl

/-- An updater that still runs has run before. -/
theorem receiverDropped_of_step {input : ProcessInput}
    (h : (process.step deserialize input).receiverDropped = false) :
    process.receiverDropped = false := by
  cases hdropped : process.receiverDropped with
  | false => rfl
  | true =>
    have hphase := phase_step_of_receiverDropped deserialize input hdropped
    unfold receiverDropped at h hdropped
    rw [hphase, hdropped] at h
    exact h

/-- What has been received of each source after one more event. -/
theorem filter_source_concat (received : List Event) (event : Event) :
    (fun source => (received ++ [event]).filter (·.source = source)) =
      Function.update (fun source => received.filter (·.source = source)) event.source
        (received.filter (·.source = event.source) ++ [event]) := by
  funext source
  rw [List.filter_append]
  by_cases hsame : event.source = source
  · subst hsame
    simp
  · rw [Function.update_of_ne (Ne.symm hsame), List.filter_cons_of_neg (by simpa using hsame),
      List.filter_nil, List.append_nil]

/-- What the updater has received and what is on its way make up what the sources have said, and
a source that said more has lost its last event at shutdown. -/
structure Carries (process : Process) (said told : ℕ → List Event) (received : List Event) :
    Prop where
  inTransit : InTransit Records Event.source process.channel process.offered
    (fun source => received.filter (·.source = source)) said
  offered : ∀ source event, process.offered source = some event → event.source = source
  lost : ∀ source, ∃ lost, told source = said source ++ lost ∧ lost.length ≤ 1 ∧
    (lost ≠ [] → process.stop = true ∧ process.threads source = .ended)

namespace Carries

variable {said told : ℕ → List Event} {received : List Event} {input : ProcessInput}
  {next : Process} {event : Event} {thread : SourceThread}

/-- An idle thread has an event to send. -/
theorem offer {input : SourceInput} (h : process.Carries said told received)
    (hsaid : (process.threads source).said source input = some event)
    (hfree : process.offered source = none) :
    (process.setThread source (.holding event)).Carries
      (Function.update said source (said source ++ [event]))
      (fun other => told other ++ (process.said other (.source source input)).toList) received := by
  have hoffer := SourceThread.offer_holding (SourceThread.source_said hsaid)
  refine ⟨?_, fun other offer hother => ?_, fun other => ?_⟩
  · rw [offered_setThread, hoffer]
    exact h.inTransit.offer hfree rfl
  · rw [offered_setThread, hoffer] at hother
    by_cases hsame : other = source
    · subst hsame
      rw [Function.update_self] at hother
      exact Option.some.inj hother ▸ SourceThread.source_said hsaid
    · rw [Function.update_of_ne hsame] at hother
      exact h.offered other offer hother
  · obtain ⟨lost, htold, hlength, hlost⟩ := h.lost other
    by_cases hsame : other = source
    · subst hsame
      have hnone : lost = [] := by
        by_contra hne
        rw [(hlost hne).2] at hsaid
        cases hsaid
      rw [hnone, List.append_nil] at htold
      refine ⟨[], ?_, Nat.zero_le _, fun hne => (hne rfl).elim⟩
      rw [Function.update_self, List.append_nil, Process.said, if_pos rfl, hsaid, htold]
      rfl
    · refine ⟨lost, ?_, hlength, fun hne => ?_⟩
      · rw [Function.update_of_ne hsame, Process.said, if_neg (Ne.symm hsame), htold]
        exact List.append_nil _
      · refine ⟨(hlost hne).1, ?_⟩
        rw [threads_setThread_of_ne _ _ hsame]
        exact (hlost hne).2

/-- A thread that has sent its event, or has none, goes on without one. -/
theorem goOn {channel : List Event} (h : process.Carries said told received)
    (htransit : InTransit Records Event.source channel
      (Function.update process.offered source none)
      (fun source => received.filter (·.source = source)) said)
    (hoffer : thread.offer source = none) (hended : process.threads source ≠ .ended) :
    ({ process with channel }.setThread source thread).Carries said told received := by
  refine ⟨?_, fun other offer hother => ?_, fun other => ?_⟩
  · rw [offered_setThread, hoffer]
    exact htransit
  · rw [offered_setThread, hoffer] at hother
    by_cases hsame : other = source
    · subst hsame
      rw [Function.update_self] at hother
      cases hother
    · rw [Function.update_of_ne hsame] at hother
      exact h.offered other offer hother
  · obtain ⟨lost, htold, hlength, hlost⟩ := h.lost other
    refine ⟨lost, htold, hlength, fun hne => ⟨(hlost hne).1, ?_⟩⟩
    by_cases hsame : other = source
    · subst hsame
      exact (hended (hlost hne).2).elim
    · rw [threads_setThread_of_ne _ _ hsame]
      exact (hlost hne).2

/-- A thread that ends loses the event it waited to send. -/
theorem cancel (h : process.Carries said told received) (hstop : process.stop = true)
    (source : ℕ) :
    ∃ said', (process.setThread source .ended).Carries said' told received := by
  obtain ⟨t, htransit⟩ := h.inTransit.retract source
  refine ⟨Function.update said source t, ?_, fun other offer hother => ?_, fun other => ?_⟩
  · rw [offered_setThread]
    exact htransit
  · rw [offered_setThread] at hother
    by_cases hsame : other = source
    · subst hsame
      rw [Function.update_self] at hother
      cases hother
    · rw [Function.update_of_ne hsame] at hother
      exact h.offered other offer hother
  · obtain ⟨lost, htold, hlength, hlost⟩ := h.lost other
    by_cases hsame : other = source
    · subst hsame
      have hbefore := path_records.mp (h.inTransit other)
      have hafter := path_records.mp (htransit other)
      rw [underway, Function.update_self, Function.update_self, Option.toList_none,
        List.append_nil] at hafter
      rw [underway, ← List.append_assoc, ← hafter] at hbefore
      refine ⟨(process.offered other).toList ++ lost, ?_, ?_, fun _ =>
        ⟨hstop, threads_setThread_self ..⟩⟩
      · rw [htold, hbefore, Function.update_self, List.append_assoc]
      · cases hoffer : process.offered other with
        | none => exact hlength
        | some event =>
          have hnone : lost = [] := by
            by_contra hne
            rw [Process.offered, (hlost hne).2] at hoffer
            cases hoffer
          rw [hnone]
          exact le_rfl
    · refine ⟨lost, ?_, hlength, fun hne => ⟨hstop, ?_⟩⟩
      · rw [Function.update_of_ne hsame]
        exact htold
      · rw [threads_setThread_of_ne _ _ hsame]
        exact (hlost hne).2

/-- The updater receives the first event of the channel. -/
theorem take {channel : List Event} {service : UpdaterService}
    (h : process.Carries said told received) (hchannel : process.channel = event :: channel) :
    ({ process with channel, service }).Carries said told (received ++ [event]) := by
  obtain ⟨t, ht, htransit⟩ := (hchannel ▸ h.inTransit).take
  refine ⟨?_, h.offered, h.lost⟩
  rw [filter_source_concat, ← show t = _ from ht]
  exact htransit

/-- What is carried does not depend on the updater's state. -/
theorem congr {next : Process} (h : process.Carries said told received)
    (hchannel : next.channel = process.channel) (hthreads : next.threads = process.threads)
    (hstop : process.stop = true → next.stop = true) : next.Carries said told received := by
  have hoffered : next.offered = process.offered := by
    funext source
    rw [Process.offered, hthreads]
    rfl
  refine ⟨?_, ?_, fun source => ?_⟩
  · rw [hchannel, hoffered]
    exact h.inTransit
  · rw [hoffered]
    exact h.offered
  · obtain ⟨lost, htold, hlength, hlost⟩ := h.lost source
    rw [hthreads]
    exact ⟨lost, htold, hlength, fun hne => (hlost hne).imp_left hstop⟩

end Carries

/-- Every wake-up of a running updater's process carries on. -/
theorem Moved.carries {input : ProcessInput} {next : Process} {said told : ℕ → List Event}
    {received : List Event} (hmoved : Moved deserialize process input next)
    (hrunning : process.receiverDropped = false) (h : process.Carries said told received) :
    ∃ said', next.Carries said' (fun source => told source ++ (process.said source input).toList)
      (received ++ (process.taken input).toList) := by
  have hquiet {said' : ℕ → List Event} (hsaid : ∀ source, process.said source input = none)
      (htaken : process.taken input = none) (hnext : next.Carries said' told received) :
      ∃ said', next.Carries said'
        (fun source => told source ++ (process.said source input).toList)
        (received ++ (process.taken input).toList) := by
    refine ⟨said', ?_⟩
    simp only [hsaid, htaken, Option.toList_none, List.append_nil]
    exact hnext
  cases hmoved with
  | idle hsaid htaken => exact hquiet hsaid htaken h
  | signalled => exact hquiet (fun _ => rfl) rfl (h.congr rfl rfl fun _ => rfl)
  | offered hsaid hfree =>
    have hoffered := h.offer hsaid hfree
    exact ⟨_, by simpa [taken] using hoffered⟩
  | @put source event thread hoffer hroom hthread =>
    have hsaid : (process.threads source).said source .sendable = none := by
      rcases hthread with ⟨hthread, -⟩ | ⟨hthread, -⟩ <;> rw [hthread] <;> rfl
    have hended : process.threads source ≠ .ended := by
      rcases hthread with ⟨hthread, -⟩ | ⟨hthread, -⟩ <;> simp [hthread]
    have hnext : thread.offer source = none := by
      rcases hthread with ⟨-, rfl⟩ | ⟨-, rfl⟩ <;> rfl
    exact hquiet (said_passed rfl hsaid) rfl
      (h.goOn (h.inTransit.put hoffer (h.offered _ _ hoffer)) hnext hended)
  | @delayed source hthread =>
    have hsaid : (process.threads source).said source .elapsed = none := by
      rw [hthread]
      rfl
    have hfree : Function.update process.offered source none = process.offered :=
      update_offered_none hthread rfl
    exact hquiet (said_passed rfl hsaid) rfl
      (h.goOn (hfree.symm ▸ h.inTransit) rfl (by simp [hthread]))
  | @cancelled source hstop hthread =>
    have hsaid : (process.threads source).said source .cancelled = none := by
      cases process.threads source <;> rfl
    obtain ⟨said', hcancelled⟩ := h.cancel hstop source
    exact hquiet (said_passed rfl hsaid) rfl hcancelled
  | @took event channel hchannel =>
    have htaken : process.taken .receive = some event := by
      rw [taken, hrunning, hchannel]
      rfl
    rw [htaken]
    refine ⟨said, ?_⟩
    simp only [Process.said, Option.toList_none, List.append_nil]
    exact h.take hchannel
  | woken hwake =>
    refine hquiet (by cases hwake <;> exact fun _ => rfl) ?_ (h.congr rfl rfl id)
    cases hwake with
    | channelClosed hchannel => simp [taken, hchannel]
    | _ => rfl
  | paged now snapshotSlot after limit =>
    exact hquiet (fun _ => rfl) rfl (h.congr rfl rfl id)

/-- The process begins with nothing said. -/
theorem carries_start (streamCapacity : ℕ) (yellowstoneUrls : List String) :
    (start streamCapacity yellowstoneUrls).Carries (fun _ => []) (fun _ => []) [] := by
  have hoffered : (start streamCapacity yellowstoneUrls).offered = fun _ => none := by
    funext source
    unfold offered start
    dsimp only
    split <;> rfl
  refine ⟨?_, fun source event hoffer => ?_, fun source => ?_⟩
  · rw [hoffered]
    exact InTransit.nil Event.source _
  · rw [hoffered] at hoffer
    cases hoffer
  · exact ⟨[], rfl, Nat.zero_le _, fun hne => (hne rfl).elim⟩

/-- Every run of a running updater's process carries on. -/
theorem carries_run (deserialize : Deserialize) (streamCapacity : ℕ)
    (yellowstoneUrls : List String) (inputs : List ProcessInput)
    (hrunning : ((start streamCapacity yellowstoneUrls).run deserialize inputs).receiverDropped =
      false) :
    ∃ said, ((start streamCapacity yellowstoneUrls).run deserialize inputs).Carries said
      (fun source => told deserialize source (start streamCapacity yellowstoneUrls) inputs)
      (received deserialize (start streamCapacity yellowstoneUrls) inputs) := by
  induction inputs using List.reverseRecOn with
  | nil => exact ⟨_, carries_start streamCapacity yellowstoneUrls⟩
  | append_singleton inputs input ih =>
    rw [run_concat] at hrunning ⊢
    have hbefore := receiverDropped_of_step hrunning
    obtain ⟨said, hcarries⟩ := ih hbefore
    simp only [told_concat, received_concat]
    exact (moved_step deserialize input hbefore).carries hbefore hcarries

/-- The channel holds no more than it has room for. -/
def Fits (process : Process) : Prop := process.channel.length ≤ process.service.streamCapacity

/-- Sending needs room. -/
theorem Fits.send (h : process.Fits) (source : ℕ) (event : Event) (thread : SourceThread) :
    (process.send source event thread).Fits := by
  unfold Process.send
  split
  · next hroom => simpa [Fits, setThread] using hroom
  · exact h

/-- Waking the updater up keeps the room. -/
theorem Fits.wake (h : process.Fits) (input : Input) : (process.wake deserialize input).Fits := by
  unfold Fits Process.wake
  rw [UpdaterService.streamCapacity_step]
  exact h

/-- Every wake-up keeps the channel within its capacity. -/
theorem Fits.step (h : process.Fits) (input : ProcessInput) :
    (process.step deserialize input).Fits := by
  cases input with
  | signal => exact h
  | source source input =>
    simp only [Process.step, sourceStep]
    split
    · exact h
    · exact h
    · exact h
    · split <;> exact h
    · split
      · exact h
      · exact h.send ..
    · split
      · exact h
      · exact h.send ..
    · exact h
    · exact h
    · split <;> exact h
    · exact h
  | receive =>
    simp only [Process.step, receive]
    split
    · exact h
    · split
      · next event channel hchannel =>
        have hshorter : channel.length ≤ process.service.streamCapacity := by
          have hfits : process.channel.length ≤ process.service.streamCapacity := h
          rw [hchannel, List.length_cons] at hfits
          omega
        have hrest : ({ process with channel } : Process).Fits := hshorter
        exact hrest.wake _
      · split
        · exact h.wake _
        · exact h
  | shutdown =>
    simp only [Process.step]
    split
    · exact h.wake _
    · exact h
  | fetchFinished result => exact h.wake _
  | refreshDue => exact h.wake _
  | refreshFinished result => exact h.wake _
  | snapshotPage now snapshotSlot after limit => exact h

/-- So does every run. -/
theorem fits_run (deserialize : Deserialize) (streamCapacity : ℕ) (yellowstoneUrls : List String)
    (inputs : List ProcessInput) :
    ((start streamCapacity yellowstoneUrls).run deserialize inputs).Fits := by
  induction inputs using List.reverseRecOn with
  | nil => exact Nat.zero_le _
  | append_singleton inputs input ih =>
    rw [run_concat]
    exact ih.step input

/-- While the updater runs, it has received of each source what its thread sent, in order and
once: only the events in the channel and the one its thread waits to send are missing, and at
most one more that shutdown has lost. The channel never holds more than its capacity. -/
theorem received_in_order (deserialize : Deserialize) (streamCapacity : ℕ)
    (yellowstoneUrls : List String) (inputs : List ProcessInput) {process : Process}
    (hprocess : process = (start streamCapacity yellowstoneUrls).run deserialize inputs)
    (hrunning : process.receiverDropped = false) :
    process.channel.length ≤ process.service.streamCapacity ∧ ∀ source, ∃ lost,
      told deserialize source (start streamCapacity yellowstoneUrls) inputs =
        (received deserialize (start streamCapacity yellowstoneUrls) inputs).filter
            (·.source = source) ++
          process.channel.filter (·.source = source) ++ (process.offered source).toList ++ lost ∧
      lost.length ≤ 1 ∧ (lost ≠ [] → process.stop = true ∧ process.threads source = .ended) := by
  subst hprocess
  refine ⟨fits_run deserialize streamCapacity yellowstoneUrls inputs, fun source => ?_⟩
  obtain ⟨said, hcarries⟩ := carries_run deserialize streamCapacity yellowstoneUrls inputs hrunning
  obtain ⟨lost, htold, hlength, hlost⟩ := hcarries.lost source
  refine ⟨lost, ?_, hlength, hlost⟩
  have hsaid := path_records.mp (hcarries.inTransit source)
  rw [htold, hsaid]
  simp only [underway, List.append_assoc]

/-- Two sources over a channel with room for one event: the first is connected, has announced
itself and waits to confirm slot 7 while the second waits to announce itself. -/
def twoThreads : List ProcessInput :=
  [.source 0 .subscribed, .source 1 .subscribed, .source 0 .sendable,
    .source 0 (.message (.slot 7 slotConfirmed)), .source 1 .sendable, .receive,
    .source 0 .sendable]

/-- The updater has received the first announcement, and the confirmation is on its way. -/
theorem twoThreads_in_order :
    ∃ lost, [Event.connected 0, .confirmedSlot 0 7] =
      [.connected 0] ++ [.confirmedSlot 0 7] ++ [] ++ lost ∧ lost.length ≤ 1 ∧
        (lost ≠ [] → False) := by
  obtain ⟨lost, htold, hlength, hlost⟩ :=
    (received_in_order (fun _ => none) 1 ["a", "b"] twoThreads rfl rfl).2 0
  exact ⟨lost, htold, hlength, fun hne => absurd (hlost hne).1 (by decide)⟩

end Process

end AltCache
