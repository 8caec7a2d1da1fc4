import AltCache.Json
import AltCache.Throttle

/-!
# Alerts

A service raises an alert by putting its text into a bounded queue; when the queue is full the
text is lost. A thread of its own takes the texts out, drops those that come within a minute of
the last one it posted, and posts the others to every webhook, one after the other. A webhook
that fails is passed over.
-/

namespace AltCache

open Throttle

/-- A webhook. -/
inductive AlertTarget where
  | slack (url : String)
  | discord (url : String)
  deriving DecidableEq

namespace AlertTarget

def url : AlertTarget → String
  | .slack address => address
  | .discord address => address

/-- The body of a request. -/
def payload (text : String) : AlertTarget → Json
  | .slack _ => .obj [("text", .str text)]
  | .discord _ => .obj [("content", .str text)]

/-- The request that posts a text. -/
def request (text : String) (target : AlertTarget) : String × Json :=
  (target.url, target.payload text)

end AlertTarget

/-- The number of alerts that may wait. -/
def alertQueueCapacity : ℕ := 32

/-- The time between two alerts that are posted, in milliseconds. -/
def alertInterval : ℕ := 60 * 1000

/-- Where the thread of the alerts waits. -/
inductive AlertThread where
  | receiving
  /-- A text is being posted to a webhook, and has still to be posted to others. -/
  | posting (text : String) (target : AlertTarget) (rest : List AlertTarget)

/-- The alerts of a process: the webhooks, the texts that wait, when a text was last posted, and
the thread. -/
structure Alerts where
  targets : List AlertTarget
  queue : List String
  last : Option ℕ
  thread : AlertThread

/-- `init_alerts`: the alerts of a process that has not set them yet. Without a webhook there is
no thread. -/
def initAlerts (alerts : Option (Option Alerts)) (slack discord : Option String) :
    Except String (Option (Option Alerts)) :=
  let targets := (slack.map AlertTarget.slack).toList ++ (discord.map AlertTarget.discord).toList
  let sender := if targets.isEmpty then none else some ⟨targets, [], none, .receiving⟩
  match alerts with
  | none => .ok (some sender)
  | some _ => .error "alerts already initialized"

/-- Whatever the alerts can wake up on. -/
inductive AlertInput where
  | alert (text : String)
  /-- The thread receives at a time. -/
  | receive (now : ℕ)
  /-- A webhook has answered, or failed. -/
  | posted (delivered : Bool)

namespace Alerts

/-- `alert`: queue a text if there is room. -/
def alert (alerts : Alerts) (text : String) : Alerts :=
  if alerts.queue.length < alertQueueCapacity then
    { alerts with queue := alerts.queue ++ [text] }
  else alerts

/-- Post a text to the webhooks that are left. -/
def post (text : String) : List AlertTarget → AlertThread
  | [] => .receiving
  | target :: rest => .posting text target rest

/-- The last text was posted less than a minute ago. -/
def throttled (alerts : Alerts) (now : ℕ) : Bool :=
  alerts.last.any fun instant => now - instant < alertInterval

/-- Take a text out of the queue, and post it unless it comes too early. -/
def receive (alerts : Alerts) (now : ℕ) : Alerts :=
  match alerts.thread, alerts.queue with
  | .receiving, text :: queue =>
    if alerts.throttled now then { alerts with queue }
    else { alerts with queue, last := some now, thread := post text alerts.targets }
  | _, _ => alerts

/-- Go on with the next webhook, whether the last one failed or not. -/
def posted (alerts : Alerts) : Alerts :=
  match alerts.thread with
  | .posting text _ rest => { alerts with thread := post text rest }
  | .receiving => alerts

/-- Wake up once. -/
def step (alerts : Alerts) : AlertInput → Alerts
  | .alert text => alerts.alert text
  | .receive now => alerts.receive now
  | .posted _ => alerts.posted

end Alerts

namespace AlertThread

/-- The requests that have been made for a text being posted to these webhooks and have still to be
made. -/
def outstanding : AlertThread → List (String × Json)
  | .receiving => []
  | .posting text _ rest => rest.map (AlertTarget.request text)

/-- The request that is being made. -/
def request? : AlertThread → Option (String × Json)
  | .receiving => none
  | .posting text target _ => some (target.request text)

/-- Posting a text makes the first request and leaves the others. -/
theorem request_post (text : String) (targets : List AlertTarget) :
    (Alerts.post text targets).request?.toList ++ (Alerts.post text targets).outstanding =
      targets.map (AlertTarget.request text) := by
  cases targets with
  | nil => rfl
  | cons target rest => rfl

end AlertThread

/-- What has become of the texts in a run: those that were queued, those received, with the time,
those posted, and the requests made. -/
structure AlertLog where
  queued : List String
  received : List (String × ℕ)
  delivered : List (String × ℕ)
  requests : List (String × Json)

/-- Alerts with what has become of the texts. -/
structure AlertTrace where
  alerts : Alerts
  log : AlertLog

namespace AlertTrace

/-- The alerts as the thread starts. -/
def start (targets : List AlertTarget) : AlertTrace where
  alerts := ⟨targets, [], none, .receiving⟩
  log := ⟨[], [], [], []⟩

/-- Wake up once and record what becomes of the texts. -/
def step (trace : AlertTrace) (input : AlertInput) : AlertTrace where
  alerts := trace.alerts.step input
  log :=
    match input with
    | .alert text =>
      if trace.alerts.queue.length < alertQueueCapacity then
        { trace.log with queued := trace.log.queued ++ [text] }
      else trace.log
    | .receive now =>
      match trace.alerts.thread, trace.alerts.queue with
      | .receiving, text :: _ =>
        if trace.alerts.throttled now then
          { trace.log with received := trace.log.received ++ [(text, now)] }
        else
          { trace.log with
            received := trace.log.received ++ [(text, now)]
            delivered := trace.log.delivered ++ [(text, now)]
            requests := trace.log.requests ++
              (trace.alerts.step input).thread.request?.toList }
      | _, _ => trace.log
    | .posted _ =>
      { trace.log with
        requests := trace.log.requests ++
          match trace.alerts.thread with
          | .posting .. => (trace.alerts.step input).thread.request?.toList
          | .receiving => [] }

/-- Wake up on a list of inputs. -/
def run (trace : AlertTrace) (inputs : List AlertInput) : AlertTrace := inputs.foldl step trace

end AlertTrace

/-- The time of an input, if it has one. -/
def AlertInput.time? : AlertInput → Option ℕ
  | .receive now => some now
  | _ => none

/-- What holds of the alerts and the texts in every run over some webhooks. -/
structure AlertTrace.Good (targets : List AlertTarget) (trace : AlertTrace) : Prop where
  webhooks : trace.alerts.targets = targets
  room : trace.alerts.queue.length ≤ alertQueueCapacity
  queued : trace.log.queued = trace.log.received.map Prod.fst ++ trace.alerts.queue
  throttled : Throttled alertInterval trace.alerts.last trace.log.received trace.log.delivered
  requests : trace.log.requests ++ trace.alerts.thread.outstanding =
    trace.log.delivered.flatMap fun message => targets.map (AlertTarget.request message.1)

section Trace

variable {targets : List AlertTarget} {trace : AlertTrace} {inputs : List AlertInput}

/-- The alerts of a run are those of its inputs. -/
theorem AlertTrace.run_concat (trace : AlertTrace) (inputs : List AlertInput) (input : AlertInput) :
    trace.run (inputs ++ [input]) = (trace.run inputs).step input :=
  List.foldl_concat ..

/-- At first there are no texts. -/
theorem AlertTrace.good_start (targets : List AlertTarget) : (start targets).Good targets where
  webhooks := rfl
  room := Nat.zero_le _
  queued := rfl
  throttled := throttled_nil _
  requests := rfl

/-- A text is held back exactly if the last one was posted less than a minute ago. -/
theorem Alerts.throttled_eq_true {alerts : Alerts} {now : ℕ} :
    alerts.throttled now = true ↔ Recent alertInterval now alerts.last := by
  unfold Alerts.throttled Recent
  cases alerts.last with
  | none => simp
  | some instant => simp

/-- Queueing a text. -/
theorem AlertTrace.Good.alert (h : trace.Good targets) (text : String) :
    (trace.step (.alert text)).Good targets := by
  by_cases hroom : trace.alerts.queue.length < alertQueueCapacity
  · simp only [AlertTrace.step, Alerts.step, Alerts.alert, if_pos hroom]
    refine ⟨h.webhooks, ?_, ?_, h.throttled, h.requests⟩
    · rw [List.length_append]
      exact hroom
    · rw [h.queued, List.append_assoc]
  · simp only [AlertTrace.step, Alerts.step, Alerts.alert, if_neg hroom]
    exact ⟨h.webhooks, h.room, h.queued, h.throttled, h.requests⟩

/-- Receiving a text: what was let through before is no later than now. -/
theorem AlertTrace.Good.receive (h : trace.Good targets) {now : ℕ}
    (hclock : ∀ instant ∈ trace.alerts.last, instant ≤ now) :
    (trace.step (.receive now)).Good targets := by
  obtain ⟨⟨webhooks, queue, last, thread⟩, log⟩ := trace
  cases thread with
  | posting text target rest => exact ⟨h.webhooks, h.room, h.queued, h.throttled, h.requests⟩
  | receiving =>
    cases queue with
    | nil => exact ⟨h.webhooks, h.room, h.queued, h.throttled, h.requests⟩
    | cons text queue =>
      have hroom : queue.length ≤ alertQueueCapacity := (Nat.le_succ _).trans h.room
      have hqueued := h.queued
      have hrequests := h.requests
      dsimp only [AlertThread.outstanding] at hqueued hrequests
      rw [List.append_nil] at hrequests
      by_cases hthrottled : Alerts.throttled ⟨webhooks, text :: queue, last, .receiving⟩ now
      · simp only [AlertTrace.step, Alerts.step, Alerts.receive, if_pos hthrottled]
        refine ⟨h.webhooks, hroom, ?_, ?_, h.requests⟩
        · simpa using hqueued
        · exact h.throttled.hold (Alerts.throttled_eq_true.mp hthrottled) hclock text
      · simp only [AlertTrace.step, Alerts.step, Alerts.receive, if_neg hthrottled]
        refine ⟨h.webhooks, hroom, ?_, ?_, ?_⟩
        · simpa using hqueued
        · have hlate : ¬ Recent alertInterval now last := fun hrecent =>
            hthrottled (Alerts.throttled_eq_true.mpr hrecent)
          exact h.throttled.pass hlate hclock (by decide) text
        · obtain rfl : webhooks = targets := h.webhooks
          rw [List.flatMap_append, List.append_assoc, AlertThread.request_post, hrequests]
          simp

/-- Going on with the next webhook. -/
theorem AlertTrace.Good.posted (h : trace.Good targets) (delivered : Bool) :
    (trace.step (.posted delivered)).Good targets := by
  obtain ⟨⟨webhooks, queue, last, thread⟩, log⟩ := trace
  have hrequests := h.requests
  cases thread with
  | receiving =>
    refine ⟨h.webhooks, h.room, h.queued, h.throttled, ?_⟩
    simpa [AlertTrace.step, Alerts.step, Alerts.posted] using hrequests
  | posting text target rest =>
    refine ⟨h.webhooks, h.room, h.queued, h.throttled, ?_⟩
    simp only [AlertTrace.step, Alerts.step, Alerts.posted]
    rw [List.append_assoc, AlertThread.request_post]
    exact hrequests

/-- A text is posted at the time of an input. -/
theorem Alerts.last_step {alerts : Alerts} {input : AlertInput} {instant : ℕ}
    (h : instant ∈ (alerts.step input).last) :
    instant ∈ alerts.last ∨ input.time? = some instant := by
  obtain ⟨webhooks, queue, last, thread⟩ := alerts
  cases input with
  | alert text =>
    simp only [Alerts.step, Alerts.alert] at h
    split at h
    · exact Or.inl h
    · exact Or.inl h
  | receive now =>
    cases thread with
    | posting text target rest => exact Or.inl h
    | receiving =>
      cases queue with
      | nil => exact Or.inl h
      | cons text queue =>
        simp only [Alerts.step, Alerts.receive] at h
        split at h
        · exact Or.inl h
        · exact Or.inr h
  | posted delivered =>
    cases thread with
    | receiving => exact Or.inl h
    | posting text target rest => exact Or.inl h

/-- What holds of every run whose clock does not go back. -/
theorem AlertTrace.good_run (targets : List AlertTarget) (inputs : List AlertInput)
    (hclock : (inputs.filterMap AlertInput.time?).Pairwise (· ≤ ·)) :
    ((start targets).run inputs).Good targets ∧
      ∀ instant ∈ ((start targets).run inputs).alerts.last,
        instant ∈ inputs.filterMap AlertInput.time? := by
  induction inputs using List.reverseRecOn with
  | nil => exact ⟨good_start targets, fun instant h => by cases h⟩
  | append_singleton inputs input ih =>
    rw [List.filterMap_append, List.pairwise_append] at hclock
    obtain ⟨hearlier, -, hlater⟩ := hclock
    obtain ⟨hgood, hlast⟩ := ih hearlier
    rw [run_concat]
    refine ⟨?_, fun instant hinstant => ?_⟩
    · cases input with
      | alert text => exact hgood.alert text
      | receive now =>
        apply hgood.receive
        intro instant hinstant
        exact hlater instant (hlast instant hinstant) now List.mem_cons_self
      | posted delivered => exact hgood.posted delivered
    · rw [List.filterMap_append]
      rcases Alerts.last_step hinstant with hbefore | hnow
      · exact List.mem_append_left _ (hlast instant hbefore)
      · exact List.mem_append_right _ (by simp [hnow])

/-- In every run whose clock does not go back: at most 32 texts wait, and those that were queued
were received in order or wait. Texts are posted at least a minute apart, and one that is
dropped comes within a minute of one that is posted. Each text posted goes to every webhook in
order, whether the webhooks before it fail or not. -/
theorem alerts_once_a_minute (targets : List AlertTarget) (inputs : List AlertInput)
    (hclock : (inputs.filterMap AlertInput.time?).Pairwise (· ≤ ·))
    (htrace : trace = (AlertTrace.start targets).run inputs) :
    trace.alerts.queue.length ≤ alertQueueCapacity ∧
      trace.log.queued = trace.log.received.map Prod.fst ++ trace.alerts.queue ∧
      trace.log.delivered.Sublist trace.log.received ∧
      trace.log.delivered.Pairwise (fun first second => first.2 + alertInterval ≤ second.2) ∧
      (∀ message ∈ trace.log.received, ∃ posted ∈ trace.log.delivered,
        posted.2 ≤ message.2 ∧ message.2 < posted.2 + alertInterval) ∧
      trace.log.requests ++ trace.alerts.thread.outstanding =
        trace.log.delivered.flatMap fun posted => targets.map (AlertTarget.request posted.1) := by
  subst htrace
  obtain ⟨hgood, -⟩ := AlertTrace.good_run targets inputs hclock
  exact ⟨hgood.room, hgood.queued, hgood.throttled.sublist, hgood.throttled.spaced,
    hgood.throttled.covered, hgood.requests⟩

end Trace

/-- Two alerts in a row, and the webhook fails. -/
def twoAlerts : List AlertInput :=
  [.alert "first", .alert "second", .receive 5, .posted false, .receive 7]

/-- Only the first is posted. -/
theorem twoAlerts_posted :
    ((AlertTrace.start [.slack "hook"]).run twoAlerts).log.delivered = [("first", 5)] ∧
      ((AlertTrace.start [.slack "hook"]).run twoAlerts).log.delivered.Pairwise
        (fun first second => first.2 + alertInterval ≤ second.2) := by
  have hclock : (twoAlerts.filterMap AlertInput.time?).Pairwise (· ≤ ·) := by decide
  obtain ⟨-, -, -, hspaced, -⟩ := alerts_once_a_minute [.slack "hook"] twoAlerts hclock rfl
  exact ⟨rfl, hspaced⟩

end AltCache
