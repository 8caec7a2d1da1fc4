import AltCache.Process.Delivery
import AltCache.Updater.Serving

/-!
# What the process serves

Every subscription delivers the ledger from a slot on, sources fail at any point, and fetched
states are exact. The events on their way lead from what the updater has still to receive of a
source to what the source has still to deliver. So a run of the process is a run of the updater
over the streams as they reach it: if every completed fetch is handed over there, whatever is
read from the store, in one piece or page by page, is the ledger's state of its slot.
-/

namespace AltCache

open Lanes
open AltCache.Replay

/-- What a source has still to deliver, if it is connected. -/
abbrev Stream := Option (List (Call Key (Option Account)))

/-- What an event of a source says about what the source had to deliver before and after it. -/
inductive Delivery (ledger : Ledger Key (Option Account)) (deserialize : Deserialize) :
    Stream → Event → Stream → Prop where
  | connected (source x : ℕ) :
      Delivery ledger deserialize none (.connected source) (some (ledger.streamFrom (x + 1)))
  | disconnected (before : Stream) (source : ℕ) :
      Delivery ledger deserialize before (.disconnected source) none
  | account {source update w rest} (hdecode : decodeAccountUpdate deserialize update =
        .ok (.account w.key w.slot w.version w.value)) :
      Delivery ledger deserialize (some (.queue w :: rest)) (.account source update) (some rest)
  | garbled {source update w rest error}
      (hdecode : decodeAccountUpdate deserialize update = .error error) :
      Delivery ledger deserialize (some (.queue w :: rest)) (.account source update) (some rest)
  | undecodable {source update error} (before : Stream)
      (hdecode : decodeAccountUpdate deserialize update = .error error) :
      Delivery ledger deserialize before (.account source update) before
  | confirmedSlot {source slot rest} :
      Delivery ledger deserialize (some (.confirm slot :: rest)) (.confirmedSlot source slot)
        (some rest)

/-- Such an event is an input that the updater's streams can produce. -/
theorem Delivery.feeds {ledger : Ledger Key (Option Account)} {deserialize : Deserialize}
    {streams : Streams} {event : Event} {after : Stream}
    (h : Delivery ledger deserialize (streams event.source) event after) :
    Feeds ledger deserialize streams (.yellowstone event)
      (Function.update streams event.source after) := by
  generalize hbefore : streams event.source = before at h
  cases h with
  | connected source x => exact .connected x hbefore
  | disconnected before source => exact .disconnected source
  | account hdecode => exact .account hbefore hdecode
  | garbled hdecode => exact .garbled hbefore hdecode
  | undecodable before hdecode =>
    rw [← hbefore, Function.update_eq_self]
    exact .undecodable hdecode
  | confirmedSlot => exact .confirmedSlot hbefore

/-- What the outside holds for the process: what each subscription has still to deliver to its
thread, what it had when each event in the channel was sent, and what each connection has still
to deliver to the updater. -/
structure ProcessWorld where
  subscriptions : Streams
  queued : List Stream
  seen : Streams

/-- The inputs that the outside can produce while the updater runs, and what they use up. -/
inductive ProcessFeeds (ledger : Ledger Key (Option Account)) (deserialize : Deserialize)
    (process : Process) : ProcessWorld → ProcessInput → ProcessWorld → Prop where
  | subscribed {world source} (x : ℕ) (hthread : process.threads source = .connecting) :
      ProcessFeeds ledger deserialize process world (.source source .subscribed)
        { world with
          subscriptions :=
            Function.update world.subscriptions source (some (ledger.streamFrom (x + 1))) }
  | message {world source update event rest} (hthread : process.threads source = .streaming)
      (hevent : update.passedOn source = some event)
      (hdelivery : Delivery ledger deserialize (world.subscriptions source) event rest) :
      ProcessFeeds ledger deserialize process world (.source source (.message update))
        { world with subscriptions := Function.update world.subscriptions source rest }
  | otherMessage {world source update} (hevent : update.passedOn source = none) :
      ProcessFeeds ledger deserialize process world (.source source (.message update)) world
  | sessionFailed {world source}
      (hthread : process.threads source = .connecting ∨ process.threads source = .streaming) :
      ProcessFeeds ledger deserialize process world (.source source .sessionFailed)
        { world with subscriptions := Function.update world.subscriptions source none }
  | sent {world source event} (hoffer : process.offered source = some event)
      (hroom : process.channel.length < process.service.streamCapacity) :
      ProcessFeeds ledger deserialize process world (.source source .sendable)
        { world with queued := world.queued ++ [world.subscriptions source] }
  | elapsed {world source} (hthread : process.threads source = .delaying) :
      ProcessFeeds ledger deserialize process world (.source source .elapsed) world
  | cancelled {world source} :
      ProcessFeeds ledger deserialize process world (.source source .cancelled) world
  | received {world event channel after queued} (hchannel : process.channel = event :: channel)
      (hqueued : world.queued = after :: queued) :
      ProcessFeeds ledger deserialize process world .receive
        { world with seen := Function.update world.seen event.source after, queued }
  | emptied {world} (hchannel : process.channel = []) :
      ProcessFeeds ledger deserialize process world .receive world
  | fetched {world fetched}
      (hexact : Shows ledger fetched.contextSlot (fetched.accounts[·]?)) :
      ProcessFeeds ledger deserialize process world (.fetchFinished (.ok fetched)) world
  | fetchFailed {world} (error : String) :
      ProcessFeeds ledger deserialize process world (.fetchFinished (.error error)) world
  | refreshed {world fetched}
      (hexact : Shows ledger fetched.contextSlot (fetched.accounts[·]?)) :
      ProcessFeeds ledger deserialize process world (.refreshFinished (.ok fetched)) world
  | refreshFailed {world} (error : String) :
      ProcessFeeds ledger deserialize process world (.refreshFinished (.error error)) world
  | refreshDue {world} : ProcessFeeds ledger deserialize process world .refreshDue world
  | signal {world} : ProcessFeeds ledger deserialize process world .signal world
  | shutdown {world} : ProcessFeeds ledger deserialize process world .shutdown world
  | snapshotPage {world} (now : ℕ) (snapshotSlot : Option ℕ) (after : Option Key) (limit : ℕ) :
      ProcessFeeds ledger deserialize process world
        (.snapshotPage now snapshotSlot after limit) world
  /-- Nothing matters once the updater has returned. -/
  | returned {world input} (hreturned : process.receiverDropped = true) :
      ProcessFeeds ledger deserialize process world input world

/-- Whatever fetch an input completes, its state is handed over to the stream of the active
source as it reaches the updater. -/
def ProcessHandsOver (ledger : Ledger Key (Option Account)) (process : Process)
    (world : ProcessWorld) : ProcessInput → Prop
  | .fetchFinished result => HandsOver ledger process.service world.seen (.fetchFinished result)
  | .refreshFinished result => HandsOver ledger process.service world.seen (.refreshFinished result)
  | _ => True

/-- The states of the process and the outside, where every completed fetch is handed over. -/
inductive ProcessReaches (ledger : Ledger Key (Option Account)) (deserialize : Deserialize)
    (streamCapacity : ℕ) (yellowstoneUrls : List String) : Process → ProcessWorld → Prop where
  | start : ProcessReaches ledger deserialize streamCapacity yellowstoneUrls
      (.start streamCapacity yellowstoneUrls) ⟨fun _ => none, [], fun _ => none⟩
  | step {process world input world'}
      (h : ProcessReaches ledger deserialize streamCapacity yellowstoneUrls process world)
      (hfeed : ProcessFeeds ledger deserialize process world input world')
      (hhandover : ProcessHandsOver ledger process world input) :
      ProcessReaches ledger deserialize streamCapacity yellowstoneUrls
        (process.step deserialize input) world'

/-- An event with what its source had to deliver after it. -/
def Labelled (ledger : Ledger Key (Option Account)) (deserialize : Deserialize) (before : Stream)
    (label : Event × Stream) (after : Stream) : Prop :=
  after = label.2 ∧ Delivery ledger deserialize before label.1 after

/-- A thread without a session has no subscription. -/
def SourceThread.Subscribed (thread : SourceThread) (subscription : Stream) : Prop :=
  match thread with
  | .connecting => subscription = none
  | .failed => subscription = none
  | .delaying => subscription = none
  | _ => True

namespace Process

variable {ledger : Ledger Key (Option Account)} {deserialize : Deserialize}
  {process : Process} {world world' : ProcessWorld} {input : ProcessInput} {said : Streams}

/-- The process and the outside agree on what is on its way to the updater, and every thread that
has not ended has passed on what its subscription delivered. -/
structure Linked (ledger : Ledger Key (Option Account)) (deserialize : Deserialize)
    (process : Process) (world : ProcessWorld) (said : Streams) : Prop where
  length : process.channel.length = world.queued.length
  inTransit : InTransit (Labelled ledger deserialize) (·.1.source)
    (process.channel.zip world.queued)
    (fun source => (process.offered source).map (·, said source)) world.seen said
  said : ∀ source, process.threads source ≠ .ended → said source = world.subscriptions source
  subscribed : ∀ source, (process.threads source).Subscribed (world.subscriptions source)
  offered : ∀ source event, process.offered source = some event → event.source = source

/-- What is offered, with what is delivered after it, once one thread has gone on. -/
theorem map_offered_setThread (process : Process) (said : Streams) (source : ℕ)
    (thread : SourceThread) (after : Stream) :
    (fun other => ((process.setThread source thread).offered other).map
        (·, Function.update said source after other)) =
      Function.update (fun other => (process.offered other).map (·, said other)) source
        ((thread.offer source).map (·, after)) := by
  funext other
  rw [offered_setThread]
  by_cases hsame : other = source
  · subst hsame
    simp only [Function.update_self]
  · simp only [Function.update_of_ne hsame]

namespace Linked

/-- A thread has an event to send. -/
theorem offer {source : ℕ} {event : Event} {after : Stream}
    (h : process.Linked ledger deserialize world said) (hfree : process.offered source = none)
    (hthread : process.threads source ≠ .ended) (hlane : event.source = source)
    (hdelivery : Delivery ledger deserialize (world.subscriptions source) event after)
    (hnext : (SourceThread.holding event).Subscribed after) :
    (process.setThread source (.holding event)).Linked ledger deserialize
      { world with subscriptions := Function.update world.subscriptions source after }
      (Function.update said source after) := by
  refine ⟨h.length, ?_, fun other hother => ?_, fun other => ?_, fun other offer hother => ?_⟩
  · rw [map_offered_setThread, SourceThread.offer_holding hlane]
    refine h.inTransit.offer ?_ ⟨rfl, ?_⟩
    · rw [hfree]
      rfl
    · rw [h.said source hthread]
      exact hdelivery
  · by_cases hsame : other = source
    · subst hsame
      simp only [Function.update_self]
    · rw [threads_setThread_of_ne _ _ hsame] at hother
      simp only [Function.update_of_ne hsame]
      exact h.said other hother
  · by_cases hsame : other = source
    · subst hsame
      simp only [threads_setThread_self, Function.update_self]
      exact hnext
    · simp only [threads_setThread_of_ne _ _ hsame, Function.update_of_ne hsame]
      exact h.subscribed other
  · rw [offered_setThread] at hother
    by_cases hsame : other = source
    · subst hsame
      rw [Function.update_self, SourceThread.offer_holding hlane] at hother
      exact Option.some.inj hother ▸ hlane
    · rw [Function.update_of_ne hsame] at hother
      exact h.offered other offer hother

/-- A thread goes on without an event to send. -/
theorem goOn {source : ℕ} {thread : SourceThread} {channel : List Event} {queued : List Stream}
    {after : Stream} (h : process.Linked ledger deserialize world said)
    (hlength : channel.length = queued.length)
    (htransit : InTransit (Labelled ledger deserialize) (·.1.source) (channel.zip queued)
      (Function.update (fun source => (process.offered source).map (·, said source)) source none)
      world.seen (Function.update said source after))
    (hoffer : thread.offer source = none)
    (hsaid : thread = .ended ∨ after = world.subscriptions source)
    (hnext : thread.Subscribed (world.subscriptions source)) :
    ({ process with channel }.setThread source thread).Linked ledger deserialize
      { world with queued } (Function.update said source after) := by
  refine ⟨hlength, ?_, fun other hother => ?_, fun other => ?_, fun other offer hother => ?_⟩
  · rw [map_offered_setThread, hoffer]
    exact htransit
  · by_cases hsame : other = source
    · subst hsame
      rw [threads_setThread_self] at hother
      rw [Function.update_self]
      exact hsaid.resolve_left hother
    · rw [threads_setThread_of_ne _ _ hsame] at hother
      rw [Function.update_of_ne hsame]
      exact h.said other hother
  · by_cases hsame : other = source
    · subst hsame
      rw [threads_setThread_self]
      exact hnext
    · rw [threads_setThread_of_ne _ _ hsame]
      exact h.subscribed other
  · rw [offered_setThread] at hother
    by_cases hsame : other = source
    · subst hsame
      rw [Function.update_self, hoffer] at hother
      cases hother
    · rw [Function.update_of_ne hsame] at hother
      exact h.offered other offer hother

/-- A thread sends its event. -/
theorem put {source : ℕ} {event : Event} {thread : SourceThread}
    (h : process.Linked ledger deserialize world said)
    (hoffer : process.offered source = some event) (hthread : thread.offer source = none)
    (hended : process.threads source ≠ .ended)
    (hnext : thread.Subscribed (world.subscriptions source)) :
    ({ process with channel := process.channel ++ [event] }.setThread source thread).Linked ledger
      deserialize { world with queued := world.queued ++ [world.subscriptions source] } said := by
  have hlane := h.offered source event hoffer
  have hsaid := h.said source hended
  have hlabel : (process.offered source).map (·, said source) = some (event, said source) := by
    rw [hoffer]
    rfl
  have hput := h.inTransit.put hlabel hlane
  rw [← Function.update_eq_self source said]
  refine h.goOn ?_ ?_ hthread (Or.inr hsaid) hnext
  · simp [h.length]
  · rw [Function.update_eq_self, List.zip_append h.length, ← hsaid]
    exact hput

/-- What is linked does not depend on the updater's state. -/
theorem congr {next : Process} (h : process.Linked ledger deserialize world said)
    (hchannel : next.channel = process.channel) (hthreads : next.threads = process.threads) :
    next.Linked ledger deserialize world said := by
  have hoffered : next.offered = process.offered := by
    funext source
    rw [Process.offered, hthreads]
    rfl
  refine ⟨?_, ?_, ?_, ?_, ?_⟩
  · rw [hchannel]
    exact h.length
  · rw [hchannel, hoffered]
    exact h.inTransit
  · rw [hthreads]
    exact h.said
  · rw [hthreads]
    exact h.subscribed
  · rw [hoffered]
    exact h.offered

/-- The updater receives the next event, as the outside has it. -/
theorem receive {event : Event} {channel : List Event} {after : Stream} {queued : List Stream}
    (h : process.Linked ledger deserialize world said)
    (hchannel : process.channel = event :: channel)
    (hqueued : world.queued = after :: queued) (service : UpdaterService) :
    Delivery ledger deserialize (world.seen event.source) event after ∧
      ({ process with channel, service }).Linked ledger deserialize
        { world with seen := Function.update world.seen event.source after, queued } said := by
  have htransit := h.inTransit
  rw [hchannel, hqueued, List.zip_cons_cons] at htransit
  obtain ⟨t, ⟨rfl, hdelivery⟩, htransit⟩ := htransit.take
  refine ⟨hdelivery, ?_, htransit, h.said, h.subscribed, h.offered⟩
  have hlength := h.length
  rw [hchannel, hqueued] at hlength
  exact Nat.succ.inj hlength

end Linked

/-- A message that is not passed on is passed over. -/
theorem sourceStep_passedOver {source : ℕ} {update : UpdateOneof}
    (h : update.passedOn source = none) :
    process.sourceStep source (.message update) = process := by
  cases hthread : process.threads source <;> simp [sourceStep, hthread, h]

/-- A thread that finds room sends its event. -/
theorem sourceStep_sendable {source : ℕ} {event : Event}
    (hrunning : process.receiverDropped = false)
    (hoffer : process.offered source = some event)
    (hroom : process.channel.length < process.service.streamCapacity) :
    ∃ thread, process.sourceStep source .sendable =
        { process with channel := process.channel ++ [event] }.setThread source thread ∧
      (process.threads source = .sending event ∧ thread = .streaming ∨
        process.threads source = .failed ∧ thread = .delaying) := by
  unfold offered at hoffer
  cases hthread : process.threads source with
  | sending held =>
    rw [hthread] at hoffer
    obtain rfl := Option.some.inj hoffer
    exact ⟨.streaming, by simp [sourceStep, hthread, hrunning, send, hroom], Or.inl ⟨rfl, rfl⟩⟩
  | failed =>
    rw [hthread] at hoffer
    obtain rfl := Option.some.inj hoffer
    exact ⟨.delaying, by simp [sourceStep, hthread, hrunning, send, hroom], Or.inr ⟨rfl, rfl⟩⟩
  | _ =>
    rw [hthread] at hoffer
    cases hoffer

/-- A thread that sees the cancellation ends, if it does anything. -/
theorem sourceStep_cancelled (process : Process) (source : ℕ) :
    process.sourceStep source .cancelled = process ∨
      process.sourceStep source .cancelled = process.setThread source .ended := by
  by_cases hstop : process.stop <;> cases hthread : process.threads source <;>
    simp [sourceStep, hthread, hstop]

/-- The inputs of a running process keep it linked to the outside. -/
theorem Linked.step (h : process.Linked ledger deserialize world said)
    (hrunning : process.receiverDropped = false)
    (hfeed : ProcessFeeds ledger deserialize process world input world') :
    ∃ said', (process.step deserialize input).Linked ledger deserialize world' said' := by
  cases hfeed with
  | @subscribed source x hthread =>
    have hbefore := h.subscribed source
    rw [hthread] at hbefore
    have hdelivery : Delivery ledger deserialize (world.subscriptions source) (.connected source)
        (some (ledger.streamFrom (x + 1))) :=
      (show world.subscriptions source = none from hbefore) ▸ .connected source x
    simp only [Process.step, sourceStep, hthread]
    exact ⟨_, h.offer (offered_eq_none hthread rfl) (by simp [hthread]) rfl hdelivery trivial⟩
  | @message source update event rest hthread hevent hdelivery =>
    obtain ⟨hlane, hholding⟩ := UpdateOneof.source_passedOn hevent
    simp only [Process.step, sourceStep, hthread, hevent]
    rw [← hholding]
    refine ⟨_, h.offer (offered_eq_none hthread rfl) (by simp [hthread]) hlane hdelivery ?_⟩
    rw [hholding]
    trivial
  | @otherMessage source update hevent =>
    rw [Process.step, sourceStep_passedOver hevent]
    exact ⟨said, h⟩
  | @sessionFailed source hthread =>
    have hstep : process.step deserialize (.source source .sessionFailed) =
        process.setThread source (.holding (.disconnected source)) := by
      rcases hthread with hthread | hthread <;>
        simp only [Process.step, sourceStep, hthread, SourceThread.holding]
    rw [hstep]
    refine ⟨_, h.offer ?_ ?_ rfl (.disconnected _ source) rfl⟩
    · rcases hthread with hthread | hthread <;> exact offered_eq_none hthread rfl
    · rcases hthread with hthread | hthread <;> simp [hthread]
  | @sent source event hoffer hroom =>
    obtain ⟨thread, hstep, hthread⟩ := sourceStep_sendable hrunning hoffer hroom
    have hsubscribed := h.subscribed source
    rw [Process.step, hstep]
    rcases hthread with ⟨hthread, rfl⟩ | ⟨hthread, rfl⟩
    · exact ⟨said, h.put hoffer rfl (by simp [hthread]) trivial⟩
    · rw [hthread] at hsubscribed
      exact ⟨said, h.put hoffer rfl (by simp [hthread]) hsubscribed⟩
  | @elapsed source hthread =>
    have hsubscribed := h.subscribed source
    rw [hthread] at hsubscribed
    simp only [Process.step, sourceStep, hthread]
    refine ⟨_, h.goOn h.length ?_ rfl (Or.inr rfl) hsubscribed⟩
    rw [← h.said source (by simp [hthread]), Function.update_eq_self,
      Function.update_eq_self_iff.mpr]
    · exact h.inTransit
    · rw [offered_eq_none hthread rfl]
      rfl
  | @cancelled source =>
    rw [Process.step]
    rcases sourceStep_cancelled process source with hstep | hstep
    · rw [hstep]
      exact ⟨said, h⟩
    · obtain ⟨t, htransit⟩ := h.inTransit.retract source
      rw [hstep]
      exact ⟨_, h.goOn h.length htransit rfl (Or.inl rfl) trivial⟩
  | @received event channel after queued hchannel hqueued =>
    refine ⟨said, ?_⟩
    have hreceive := (h.receive hchannel hqueued
      (process.service.step deserialize (.yellowstone event))).2
    simp only [Process.step, Process.receive, hrunning, hchannel]
    exact hreceive
  | emptied hchannel =>
    refine ⟨said, ?_⟩
    simp only [Process.step, Process.receive, hrunning, hchannel]
    split
    · exact h
    · split
      · exact h.congr rfl rfl
      · exact h
  | fetched hexact => exact ⟨said, h.congr rfl rfl⟩
  | fetchFailed error => exact ⟨said, h.congr rfl rfl⟩
  | refreshed hexact => exact ⟨said, h.congr rfl rfl⟩
  | refreshFailed error => exact ⟨said, h.congr rfl rfl⟩
  | refreshDue => exact ⟨said, h.congr rfl rfl⟩
  | signal => exact ⟨said, h.congr rfl rfl⟩
  | shutdown =>
    simp only [Process.step]
    split
    · exact ⟨said, h.congr rfl rfl⟩
    · exact ⟨said, h⟩
  | snapshotPage now snapshotSlot after limit => exact ⟨said, h.congr rfl rfl⟩
  | returned hreturned =>
    rw [hreturned] at hrunning
    cases hrunning

/-- The inputs of a running process keep its updater in step with what has reached it. -/
theorem Linked.inStep (h : process.Linked ledger deserialize world said)
    (hrunning : process.receiverDropped = false)
    (hinstep : InStep ledger process.service world.seen)
    (hfeed : ProcessFeeds ledger deserialize process world input world')
    (hhandover : ProcessHandsOver ledger process world input) :
    InStep ledger (process.step deserialize input).service world'.seen := by
  have hsource {source : ℕ} {input : SourceInput} :
      InStep ledger (process.step deserialize (.source source input)).service world.seen := by
    rw [Process.step, service_sourceStep]
    exact hinstep
  cases hfeed with
  | subscribed => exact hsource
  | message => exact hsource
  | otherMessage => exact hsource
  | sessionFailed => exact hsource
  | sent => exact hsource
  | elapsed => exact hsource
  | cancelled => exact hsource
  | @received event channel after queued hchannel hqueued =>
    have hdelivery := (h.receive hchannel hqueued process.service).1
    simp only [Process.step, Process.receive, hrunning, hchannel]
    exact inStep_step hinstep hdelivery.feeds trivial
  | emptied hchannel =>
    simp only [Process.step, Process.receive, hrunning, hchannel]
    split
    · exact hinstep
    · split
      · exact inStep_step hinstep .channelClosed trivial
      · exact hinstep
  | fetched hexact => exact inStep_step hinstep (.fetched hexact) hhandover
  | fetchFailed error => exact inStep_step hinstep .fetchFailed hhandover
  | refreshed hexact => exact inStep_step hinstep (.refreshed hexact) hhandover
  | refreshFailed error => exact inStep_step hinstep .refreshFailed hhandover
  | refreshDue => exact inStep_step hinstep .refreshDue trivial
  | signal => exact hinstep
  | shutdown =>
    simp only [Process.step]
    split
    · exact inStep_step hinstep .shutdown trivial
    · exact hinstep
  | snapshotPage now snapshotSlot after limit => exact hinstep
  | returned hreturned =>
    rw [hreturned] at hrunning
    cases hrunning

/-- A wake-up of the process is one of its updater, or a page request, or neither. -/
theorem service_step (deserialize : Deserialize) (process : Process) (input : ProcessInput) :
    (process.step deserialize input).service = process.service ∨
      (∃ wake, (process.step deserialize input).service = process.service.step deserialize wake) ∨
      ∃ now snapshotSlot after limit, process.step deserialize input =
        process.page now snapshotSlot after limit := by
  cases input with
  | signal => exact Or.inl rfl
  | source source input => exact Or.inl (service_sourceStep process source input)
  | receive =>
    simp only [Process.step, Process.receive]
    split
    · exact Or.inl rfl
    · split
      · exact Or.inr (Or.inl ⟨_, rfl⟩)
      · split
        · exact Or.inr (Or.inl ⟨_, rfl⟩)
        · exact Or.inl rfl
  | shutdown =>
    simp only [Process.step]
    split
    · exact Or.inr (Or.inl ⟨_, rfl⟩)
    · exact Or.inl rfl
  | fetchFinished result => exact Or.inr (Or.inl ⟨_, rfl⟩)
  | refreshDue => exact Or.inr (Or.inl ⟨_, rfl⟩)
  | refreshFinished result => exact Or.inr (Or.inl ⟨_, rfl⟩)
  | snapshotPage now snapshotSlot after limit =>
    exact Or.inr (Or.inr ⟨now, snapshotSlot, after, limit, rfl⟩)

/-- A wake-up keeps the store exact if the updater is in step afterwards. -/
theorem exact_step (h : process.service.store.Exact ledger) (input : ProcessInput)
    {streams : Streams} (hnext : InStep ledger (process.step deserialize input).service streams) :
    (process.step deserialize input).service.store.Exact ledger := by
  rcases service_step deserialize process input with
    hsame | ⟨wake, hwake⟩ | ⟨now, snapshotSlot, after, limit, hpage⟩
  · rw [hsame]
    exact h
  · rw [hwake] at hnext ⊢
    exact (UpdaterService.stored_step deserialize process.service wake).exact h hnext
  · rw [hpage]
    exact h.snapshotPage now snapshotSlot after limit

/-- The process begins linked to the outside. -/
theorem linked_start (streamCapacity : ℕ) (yellowstoneUrls : List String) :
    (start streamCapacity yellowstoneUrls).Linked ledger deserialize
      ⟨fun _ => none, [], fun _ => none⟩ fun _ => none := by
  have hoffered (source : ℕ) : (start streamCapacity yellowstoneUrls).offered source = none := by
    unfold offered start
    dsimp only
    split <;> rfl
  refine ⟨rfl, fun source => ?_, fun _ _ => rfl, fun source => ?_, fun source event hoffer => ?_⟩
  · rw [underway, hoffered]
    rfl
  · unfold start
    dsimp only
    split
    · rfl
    · trivial
  · rw [hoffered] at hoffer
    cases hoffer

end Process

open Process in
/-- In every run whose fetches are handed over, the updater is in step with what has reached it,
the process is linked to the outside while the updater runs, and the store is exact. -/
theorem ProcessReaches.good {ledger : Ledger Key (Option Account)} {deserialize : Deserialize}
    {streamCapacity : ℕ} {yellowstoneUrls : List String} {process : Process} {world : ProcessWorld}
    (h : ProcessReaches ledger deserialize streamCapacity yellowstoneUrls process world) :
    InStep ledger process.service world.seen ∧ process.service.store.Exact ledger ∧
      (process.receiverDropped = false → ∃ said, process.Linked ledger deserialize world said) := by
  induction h with
  | start =>
    refine ⟨inStep_restart fun source hsource => by simp at hsource, ?_, fun _ =>
      ⟨_, linked_start streamCapacity yellowstoneUrls⟩⟩
    change (UpdaterService.restart _).store.Exact ledger
    rw [UpdaterService.store_restart]
    exact Store.exact_new.invalidate
  | @step process world input world' _ hfeed hhandover ih =>
    obtain ⟨hinstep, hexact, hlinked⟩ := ih
    cases hrunning : process.receiverDropped with
    | true =>
      have hphase := phase_step_of_receiverDropped deserialize input hrunning
      have hnext : (process.step deserialize input).receiverDropped = true := by
        rw [receiverDropped, hphase]
        exact hrunning
      have hstopped : InStep ledger (process.step deserialize input).service world'.seen := by
        unfold receiverDropped at hnext
        unfold InStep
        split at hnext
        · next hstopped =>
          rw [hstopped]
          trivial
        · cases hnext
      exact ⟨hstopped, exact_step hexact input hstopped, fun hfalse => by simp [hnext] at hfalse⟩
    | false =>
      obtain ⟨said, hlink⟩ := hlinked hrunning
      have hnext := hlink.inStep hrunning hinstep hfeed hhandover
      exact ⟨hnext, exact_step hexact input hnext, fun _ => hlink.step hrunning hfeed⟩

/-- Whatever the process serves is the ledger's state of the slot it is served under: the
snapshot that is read in one piece, and the snapshot that any page is cut from, however the
threads interleave, sources fail and states are refreshed, if every completed fetch was handed
over. -/
theorem process_serves_exact {ledger : Ledger Key (Option Account)} {deserialize : Deserialize}
    {streamCapacity : ℕ} {yellowstoneUrls : List String} {process : Process} {world : ProcessWorld}
    (h : ProcessReaches ledger deserialize streamCapacity yellowstoneUrls process world) :
    (∀ snapshot, process.service.store.readSnapshot = .ok snapshot →
      Shows ledger snapshot.slot (snapshot.accounts[·]?)) ∧
    ∀ now snapshotSlot after limit page,
      (process.service.store.snapshotPage now snapshotSlot after limit).1 = .ok page →
      ∃ accounts : Accounts, Shows ledger page.slot (accounts[·]?) ∧
        page.accounts = (Store.cutPage accounts after limit).1.map Prod.snd ∧
        page.next = (Store.cutPage accounts after limit).2 := by
  obtain ⟨-, hexact, -⟩ := h.good
  refine ⟨fun snapshot hread => hexact.readSnapshot hread,
    fun now snapshotSlot after limit page hpage => ?_⟩
  obtain ⟨snapshot, hsnapshot, rfl⟩ := hexact.page hpage
  exact ⟨snapshot.accounts, hsnapshot, rfl, rfl⟩

/-- One source over a channel with room for eight events. -/
def oneSource (inputs : List ProcessInput) : Process :=
  (Process.start 8 ["rpc"]).run acceptAll inputs

/-- The source is subscribed at slot 5 and the updater knows. -/
def subscribedAtFive : Process := oneSource [.source 0 .subscribed, .source 0 .sendable, .receive]

/-- The process gets there. -/
theorem reaches_subscribedAtFive :
    ProcessReaches earlyTable acceptAll 8 ["rpc"] subscribedAtFive
      ⟨connectedAtFive, [], connectedAtFive⟩ := by
  have hsubscribed : ProcessFeeds earlyTable acceptAll (oneSource [])
      ⟨fun _ => none, [], fun _ => none⟩ (.source 0 .subscribed)
      ⟨connectedAtFive, [], fun _ => none⟩ := .subscribed 5 rfl
  have hsent : ProcessFeeds earlyTable acceptAll (oneSource [.source 0 .subscribed])
      ⟨connectedAtFive, [], fun _ => none⟩ (.source 0 .sendable)
      ⟨connectedAtFive, [some (earlyTable.streamFrom 6)], fun _ => none⟩ := .sent rfl (by decide)
  have hchannel : (oneSource [.source 0 .subscribed, .source 0 .sendable]).channel =
      [.connected 0] := rfl
  exact ((ProcessReaches.start.step hsubscribed trivial).step hsent trivial).step
    (.received hchannel rfl) trivial

/-- Then a state is fetched. -/
def servedAtFive : Process :=
  subscribedAtFive.step acceptAll (.fetchFinished (.ok earlyTableFetch))

/-- It is handed over. -/
theorem reaches_servedAtFive :
    ProcessReaches earlyTable acceptAll 8 ["rpc"] servedAtFive
      ⟨connectedAtFive, [], connectedAtFive⟩ := by
  have hslots : ∀ w ∈ earlyTable.writes, ¬ 5 < w.slot := by decide +kernel
  refine reaches_subscribedAtFive.step (.fetched earlyTableFetch_exact) ?_
  intro url buffered hphase rest hrest
  cases hphase
  cases hrest
  exact ⟨fun _ _ w hw hslot => absurd hslot (hslots w hw), fun _ hv => absurd hv List.not_mem_nil⟩

/-- What is read then is the table's state at slot 5. -/
theorem servedAtFive_exact :
    ∃ snapshot, servedAtFive.service.store.readSnapshot = .ok snapshot ∧
      Shows earlyTable snapshot.slot (snapshot.accounts[·]?) :=
  ⟨_, rfl, (process_serves_exact reaches_servedAtFive).1 _ rfl⟩

end AltCache
