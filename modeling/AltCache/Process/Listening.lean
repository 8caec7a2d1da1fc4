import AltCache.Process.Delivery

/-!
# Whom the updater listens to

An event of a source reaches the updater between a connection and the next disconnection of
that source, however long it waited in the channel. Once nothing of a source is on its way, the
updater counts the source as connected exactly when its thread is streaming.
-/

namespace AltCache

open Lanes

/-- What an event says about the connection of its source. -/
inductive Connectivity : Bool → Event → Bool → Prop where
  | connected (source : ℕ) : Connectivity false (.connected source) true
  | disconnected (before : Bool) (source : ℕ) : Connectivity before (.disconnected source) false
  | account (source : ℕ) (update : SubscribeUpdateAccount) :
      Connectivity true (.account source update) true
  | confirmedSlot (source slot : ℕ) : Connectivity true (.confirmedSlot source slot) true

/-- Whether a thread has said that it is connected, counting the event it waits to send. A
thread may end at any point. -/
def SourceThread.Tells : SourceThread → Bool → Prop
  | .streaming, connected => connected = true
  | .sending _, connected => connected = true
  | .ended, _ => True
  | _, connected => connected = false

/-- A source that the updater hears from is connected, and one that connects was not. -/
def Event.Timely (connected : Finset ℕ) (event : Event) : Prop :=
  match event with
  | .connected source => source ∉ connected
  | .disconnected _ => True
  | .account source _ => source ∈ connected
  | .confirmedSlot source _ => source ∈ connected

/-- An event that follows what its source said before is timely. -/
theorem Connectivity.timely {connected : Finset ℕ} {event : Event} {after : Bool}
    (h : Connectivity (decide (event.source ∈ connected)) event after) :
    event.Timely connected := by
  generalize hbefore : decide (event.source ∈ connected) = before at h
  cases h with
  | connected source => exact of_decide_eq_false hbefore
  | disconnected before source => trivial
  | account source update => exact (decide_eq_true_iff (p := source ∈ connected)).mp hbefore
  | confirmedSlot source slot => exact (decide_eq_true_iff (p := source ∈ connected)).mp hbefore

open UpdaterService in
/-- The updater records what an event says. -/
theorem Connectivity.connect {connected : Finset ℕ} {event : Event} {after : Bool}
    (h : Connectivity (decide (event.source ∈ connected)) event after) :
    (fun source => decide (source ∈ connect connected (.yellowstone event))) =
      Function.update (fun source => decide (source ∈ connected)) event.source after := by
  funext other
  generalize hbefore : decide (event.source ∈ connected) = before at h
  by_cases hsame : other = event.source
  · subst hsame
    rw [Function.update_self]
    cases h with
    | connected source => simp [UpdaterService.connect, Event.source]
    | disconnected before source => simp [UpdaterService.connect, Event.source]
    | account source update => exact hbefore
    | confirmedSlot source slot => exact hbefore
  · rw [Function.update_of_ne hsame]
    cases h with
    | connected source =>
      have hother : other ≠ source := hsame
      simp [UpdaterService.connect, hother]
    | disconnected before source =>
      have hother : other ≠ source := hsame
      simp [UpdaterService.connect, hother]
    | account source update => rfl
    | confirmedSlot source slot => rfl

/-- What an input makes a thread say follows what it said before. -/
theorem SourceThread.Tells.said {source : ℕ} {thread : SourceThread} {connected : Bool}
    {input : SourceInput} {event : Event} (h : thread.Tells connected)
    (hsaid : thread.said source input = some event) :
    ∃ after, Connectivity connected event after ∧ (holding event).Tells after := by
  unfold SourceThread.said at hsaid
  split at hsaid
  · cases hsaid
    obtain rfl : connected = false := h
    exact ⟨true, .connected source, rfl⟩
  · cases hsaid
    exact ⟨false, .disconnected _ source, rfl⟩
  · cases hsaid
    exact ⟨false, .disconnected _ source, rfl⟩
  · next update =>
    obtain rfl : connected = true := h
    cases update with
    | account update =>
      cases hsaid
      exact ⟨true, .account source update, rfl⟩
    | slot slot status =>
      rw [UpdateOneof.passedOn] at hsaid
      split at hsaid
      · cases hsaid
        exact ⟨true, .confirmedSlot source slot, rfl⟩
      · cases hsaid
    | ping => cases hsaid
    | other => cases hsaid
  · cases hsaid

namespace Process

variable {deserialize : Deserialize} {process next : Process} {input : ProcessInput}
  {said : ℕ → Bool}

/-- The sources that the updater counts as connected are led by what is on its way to what the
threads have said. -/
structure Hears (process : Process) (said : ℕ → Bool) : Prop where
  tells : ∀ source, (process.threads source).Tells (said source)
  inTransit : InTransit Connectivity Event.source process.channel process.offered
    (fun source => decide (source ∈ process.service.connectedSources)) said

namespace Hears

/-- A thread goes on, having said something or nothing. -/
theorem setThread {source : ℕ} {thread : SourceThread} {connected : Bool} {channel : List Event}
    (h : process.Hears said) (hthread : thread.Tells connected)
    (htransit : InTransit Connectivity Event.source channel
      (Function.update process.offered source (thread.offer source))
      (fun source => decide (source ∈ process.service.connectedSources))
      (Function.update said source connected)) :
    ({ process with channel }.setThread source thread).Hears
      (Function.update said source connected) := by
  refine ⟨fun other => ?_, ?_⟩
  · by_cases hsame : other = source
    · subst hsame
      rw [threads_setThread_self, Function.update_self]
      exact hthread
    · rw [threads_setThread_of_ne _ _ hsame, Function.update_of_ne hsame]
      exact h.tells other
  · rw [offered_setThread]
    exact htransit

/-- The same, if what it has said stays true. -/
theorem goOn {source : ℕ} {thread : SourceThread} {channel : List Event} (h : process.Hears said)
    (hthread : thread.Tells (said source)) (hoffer : thread.offer source = none)
    (htransit : InTransit Connectivity Event.source channel
      (Function.update process.offered source none)
      (fun source => decide (source ∈ process.service.connectedSources)) said) :
    ({ process with channel }.setThread source thread).Hears said := by
  rw [← Function.update_eq_self source said]
  refine h.setThread hthread ?_
  rw [hoffer, Function.update_eq_self]
  exact htransit

/-- The updater wakes up; whom it counts as connected follows the input. -/
theorem wake {channel : List Event} {wake : Input} {connected : ℕ → Bool}
    (hrunning : process.receiverDropped = false)
    (htells : ∀ source, (process.threads source).Tells (said source))
    (htransit : InTransit Connectivity Event.source channel process.offered connected said)
    (hconnected : (fun source => decide (source ∈
      UpdaterService.connect process.service.connectedSources wake)) = connected) :
    ({ process with channel }.wake deserialize wake).Hears said := by
  have hphase (result : Except String Unit) : process.service.phase ≠ .stopped result := by
    intro hstopped
    rw [receiverDropped, hstopped] at hrunning
    cases hrunning
  have hsources := UpdaterService.sources_step deserialize wake hphase
  refine ⟨htells, ?_⟩
  have hnext : (fun source => decide (source ∈
      (process.service.step deserialize wake).connectedSources)) = connected := by
    rw [hsources.connectedSources, hconnected]
  rw [← hnext] at htransit
  exact htransit

end Hears

/-- Every wake-up of a running updater's process keeps it hearing. -/
theorem Moved.hears (hmoved : Moved deserialize process input next)
    (hrunning : process.receiverDropped = false)
    (hlane : ∀ source event, process.offered source = some event → event.source = source)
    (h : process.Hears said) : ∃ said', next.Hears said' := by
  cases hmoved with
  | idle => exact ⟨said, h⟩
  | signalled => exact ⟨said, h.tells, h.inTransit⟩
  | @offered source input event hsaid hfree =>
    obtain ⟨after, hafter, htells⟩ := (h.tells source).said hsaid
    refine ⟨_, h.setThread htells ?_⟩
    rw [SourceThread.offer_holding (SourceThread.source_said hsaid)]
    exact h.inTransit.offer hfree hafter
  | @put source event thread hoffer hroom hthread =>
    have hput := h.inTransit.put hoffer (hlane source event hoffer)
    have hsaid := h.tells source
    rcases hthread with ⟨hthread, rfl⟩ | ⟨hthread, rfl⟩
    · rw [hthread] at hsaid
      exact ⟨said, h.goOn hsaid rfl hput⟩
    · rw [hthread] at hsaid
      exact ⟨said, h.goOn hsaid rfl hput⟩
  | @delayed source hthread =>
    have hfree : Function.update process.offered source none = process.offered :=
      update_offered_none hthread rfl
    have hsaid := h.tells source
    rw [hthread] at hsaid
    exact ⟨said, h.goOn hsaid rfl (hfree.symm ▸ h.inTransit)⟩
  | @cancelled source hstop hthread =>
    obtain ⟨t, htransit⟩ := h.inTransit.retract source
    have htells : SourceThread.ended.Tells t := trivial
    exact ⟨_, h.setThread htells htransit⟩
  | @took event channel hchannel =>
    obtain ⟨t, ht, htransit⟩ := (hchannel ▸ h.inTransit).take
    exact ⟨said, Hears.wake hrunning h.tells htransit ht.connect⟩
  | woken hwake => exact ⟨said, Hears.wake hrunning h.tells h.inTransit (by cases hwake <;> rfl)⟩
  | paged => exact ⟨said, h.tells, h.inTransit⟩

/-- At first no source is connected, and no thread says otherwise. -/
theorem hears_start (streamCapacity : ℕ) (yellowstoneUrls : List String) :
    (start streamCapacity yellowstoneUrls).Hears fun _ => false := by
  have hconnected : (start streamCapacity yellowstoneUrls).service.connectedSources = ∅ := by
    have hsources : UpdaterService.Sources
        { streamCapacity, yellowstoneUrls, store := .new, connectedSources := ∅, activeSource := 0
          phase := .waiting } .refreshDue
        { streamCapacity, yellowstoneUrls, store := .new, connectedSources := ∅, activeSource := 0
          phase := .waiting } := ⟨rfl, rfl, fun h _ => h⟩
    exact hsources.restart.connectedSources
  have hoffered : (start streamCapacity yellowstoneUrls).offered = fun _ => none := by
    funext source
    unfold offered start
    dsimp only
    split <;> rfl
  refine ⟨fun source => ?_, ?_⟩
  · unfold start
    dsimp only
    split
    · rfl
    · trivial
  · rw [hoffered, hconnected]
    exact InTransit.nil Event.source _

/-- While the updater runs, what it has heard is led to what the threads have said. -/
theorem hears_run (deserialize : Deserialize) (streamCapacity : ℕ) (yellowstoneUrls : List String)
    (inputs : List ProcessInput)
    (hrunning : ((start streamCapacity yellowstoneUrls).run deserialize inputs).receiverDropped =
      false) :
    ∃ said, ((start streamCapacity yellowstoneUrls).run deserialize inputs).Hears said := by
  induction inputs using List.reverseRecOn with
  | nil => exact ⟨_, hears_start streamCapacity yellowstoneUrls⟩
  | append_singleton inputs input ih =>
    rw [run_concat] at hrunning ⊢
    have hbefore := receiverDropped_of_step hrunning
    obtain ⟨said, hears⟩ := ih hbefore
    obtain ⟨told, hcarries⟩ :=
      carries_run deserialize streamCapacity yellowstoneUrls inputs hbefore
    exact (moved_step deserialize input hbefore).hears hbefore hcarries.offered hears

/-- While the updater runs, the next event it receives is timely; and a source of which nothing
is on its way counts as connected exactly if its thread is streaming. -/
theorem updater_hears_connected (deserialize : Deserialize) (streamCapacity : ℕ)
    (yellowstoneUrls : List String) (inputs : List ProcessInput) {process : Process}
    (hprocess : process = (start streamCapacity yellowstoneUrls).run deserialize inputs)
    (hrunning : process.receiverDropped = false) :
    (∀ event ∈ process.channel.head?, event.Timely process.service.connectedSources) ∧
      ∀ source, (∀ event ∈ process.channel, event.source ≠ source) →
        process.offered source = none → process.threads source ≠ .ended →
        (source ∈ process.service.connectedSources ↔ process.threads source = .streaming) := by
  have hhears : ∃ said, process.Hears said := by
    subst hprocess
    exact hears_run deserialize streamCapacity yellowstoneUrls inputs hrunning
  obtain ⟨said, hears⟩ := hhears
  refine ⟨fun event hevent => ?_, fun source hchannel hoffered hended => ?_⟩
  · obtain ⟨channel, hchannel⟩ := List.head?_eq_some_iff.mp hevent
    obtain ⟨t, ht, -⟩ := (hchannel ▸ hears.inTransit).take
    exact ht.timely
  · have hpath := hears.inTransit source
    have hnone : underway Event.source process.channel process.offered source = [] := by
      rw [underway, hoffered, List.filter_eq_nil_iff.mpr (by simpa using hchannel)]
      rfl
    rw [hnone] at hpath
    have hsaid : decide (source ∈ process.service.connectedSources) = said source := hpath
    have htells := hears.tells source
    rw [← hsaid] at htells
    unfold offered at hoffered
    cases hthread : process.threads source with
    | streaming =>
      rw [hthread] at htells
      exact iff_of_true (of_decide_eq_true htells) rfl
    | connecting =>
      rw [hthread] at htells
      exact iff_of_false (of_decide_eq_false htells) (by simp)
    | delaying =>
      rw [hthread] at htells
      exact iff_of_false (of_decide_eq_false htells) (by simp)
    | ended => exact (hended hthread).elim
    | sending event =>
      rw [hthread] at hoffered
      cases hoffered
    | failed =>
      rw [hthread] at hoffered
      cases hoffered

/-- In the run of two threads the confirmation is received next, from a connected source. -/
theorem twoThreads_timely :
    Event.Timely ((start 1 ["a", "b"]).run (fun _ => none) twoThreads).service.connectedSources
      (.confirmedSlot 0 7) :=
  (updater_hears_connected (fun _ => none) 1 ["a", "b"] twoThreads rfl rfl).1 _ rfl

end Process

end AltCache
