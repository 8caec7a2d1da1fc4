import AltCache.Client.Refinement

/-!
# Live staging as one stable sort

A session releases updates in batches, as confirmations come in. Over a whole run the batches
add up to one application of the accepted updates up to the confirmed slot, stably sorted by
slot. This holds because every queued update lies above the confirmed slot: the last sweep of
the recovery establishes it, and live updates of confirmed slots are refused. Updates here are
raw messages; nothing is assumed about their bodies.
-/

namespace AltCache

open Std (ExtTreeMap)
open AltCache.Replay

/-- The update an event brings. -/
def BufferedEvent.update? : BufferedEvent → Option SubscribeUpdateAccount
  | .account update => some update
  | .confirmedSlot _ => none

/-- The slot an event confirms. -/
def BufferedEvent.slot? : BufferedEvent → Option ℕ
  | .account _ => none
  | .confirmedSlot slot => some slot

namespace Session

variable {deserialize : Deserialize} {session session' : Session}

/-- The queued updates, by slot and then by arrival. -/
def staged (session : Session) : List SubscribeUpdateAccount :=
  session.pending.keys.flatMap (session.pending.getD · [])

/-- The updates among events that are not older than the session's snapshot. -/
def accepts (session : Session) (events : List BufferedEvent) : List SubscribeUpdateAccount :=
  (events.filterMap BufferedEvent.update?).filter (session.bootstrapSlot ≤ ·.slot)

/-- The accepted updates up to a slot, stably sorted by slot. -/
def released (accepted : List SubscribeUpdateAccount) (slot : ℕ) : List SubscribeUpdateAccount :=
  bySlot SubscribeUpdateAccount.slot (accepted.filter (·.slot ≤ slot))

/-- A session has applied the accepted updates up to its confirmed slot, stably sorted by slot,
to the tables it began with, and queues the others. -/
structure Stages (deserialize : Deserialize) (tables : Tables)
    (accepted : List SubscribeUpdateAccount) (session : Session) : Prop where
  tables : (released accepted session.confirmedSlot).foldlM (applyUpdate deserialize) tables =
    .ok session.tables
  pending : Buckets.Holds SubscribeUpdateAccount.slot id session.pending
    (accepted.filter (session.confirmedSlot < ·.slot))

/-- The queues hold some updates, all above the confirmed slot. -/
def QueuesAbove (session : Session) : Prop :=
  ∃ queued, Buckets.Holds SubscribeUpdateAccount.slot id session.pending queued ∧
    ∀ update ∈ queued, session.confirmedSlot < update.slot

/-- A session whose queues lie above its confirmed slot has yet to apply what it stages. -/
theorem QueuesAbove.stages (h : session.QueuesAbove) :
    session.Stages deserialize session.tables session.staged := by
  obtain ⟨queued, hqueued, habove⟩ := h
  have hstaged : session.staged = bySlot SubscribeUpdateAccount.slot queued :=
    hqueued.keys_flatMap.trans (List.map_id _)
  have hkept : session.staged.filter (session.confirmedSlot < ·.slot) = session.staged :=
    List.filter_eq_self.mpr fun update hupdate =>
      decide_eq_true (habove update (mem_bySlot.mp (hstaged ▸ hupdate)))
  have hnone : session.staged.filter (·.slot ≤ session.confirmedSlot) = [] :=
    List.filter_eq_nil_iff.mpr fun update hupdate => by
      simpa using habove update (mem_bySlot.mp (hstaged ▸ hupdate))
  refine ⟨?_, fun slot => ?_, hqueued.nonempty⟩
  · rw [released, hnone]
    rfl
  · rw [hkept, hstaged, inSlot_bySlot]
    exact hqueued.queue slot

/-- A live update that is queued without error is accepted unless it is older than the snapshot. -/
theorem Stages.queueUpdate {tables : Tables} {accepted : List SubscribeUpdateAccount}
    (h : session.Stages deserialize tables accepted) {update : SubscribeUpdateAccount}
    (hok : session.queueUpdate update false = .ok session') :
    session'.Stages deserialize tables (accepted ++ session.accepts [.account update]) ∧
      session'.bootstrapSlot = session.bootstrapSlot ∧
      session'.confirmedSlot = session.confirmedSlot := by
  unfold Session.queueUpdate at hok
  by_cases hold : update.slot < session.bootstrapSlot
  · rw [if_pos hold] at hok
    obtain rfl := Except.ok.inj hok
    have hrefused : session.accepts [.account update] = [] := by
      simp [accepts, BufferedEvent.update?, hold]
    rw [hrefused, List.append_nil]
    exact ⟨h, rfl, rfl⟩
  · rw [if_neg hold] at hok
    have haccepted : session.accepts [.account update] = [update] := by
      simp [accepts, BufferedEvent.update?, not_lt.mp hold]
    rw [haccepted]
    split at hok
    · next habove =>
      obtain rfl := Except.ok.inj hok
      have habove : session.confirmedSlot < update.slot := by simpa using habove
      refine ⟨⟨?_, ?_⟩, rfl, rfl⟩
      · change (released _ session.confirmedSlot).foldlM _ _ = _
        rw [released, List.filter_append, List.filter_singleton, decide_eq_false (not_le.mpr habove),
          cond_false, List.append_nil]
        exact h.tables
      · change Buckets.Holds _ _ _
          ((accepted ++ [update]).filter (session.confirmedSlot < ·.slot))
        rw [List.filter_append, List.filter_singleton, decide_eq_true habove, cond_true]
        exact h.pending.push update
    · cases hok

/-- A confirmation that meets no error releases the accepted updates up to its slot. -/
theorem Stages.confirm {tables : Tables} {accepted : List SubscribeUpdateAccount}
    (h : session.Stages deserialize tables accepted) {slot : ℕ} {risen : Bool}
    (hok : session.confirm deserialize slot = (.ok risen, session')) :
    session'.Stages deserialize tables accepted ∧
      session'.bootstrapSlot = session.bootstrapSlot ∧
      session'.confirmedSlot = max session.confirmedSlot slot := by
  unfold Session.confirm at hok
  split at hok
  · next hle =>
    cases hok
    exact ⟨h, rfl, (max_eq_left hle).symm⟩
  · next hlt =>
    have hlt := not_le.mp hlt
    split at hok
    · cases hok
    · next after hpending =>
      cases hok
      obtain ⟨happlied, hafter⟩ := applyPendingThrough_ok hpending
      rw [h.pending.through_eq, List.map_id] at happlied
      have hbootstrap : after.bootstrapSlot = session.bootstrapSlot := by rw [hafter]
      refine ⟨⟨?_, ?_⟩, hbootstrap, (max_eq_right hlt.le).symm⟩
      · change (released accepted slot).foldlM _ _ = _
        rw [released, bySlot_filter_le hlt.le, List.foldlM_append]
        have hbefore := h.tables
        rw [released] at hbefore
        rw [hbefore]
        exact happlied
      · have hdropped := h.pending.dropThrough slot
        have hpending : after.pending = session.pending.dropThrough slot :=
          congrArg Session.pending hafter
        change Buckets.Holds _ _ after.pending (accepted.filter (slot < ·.slot))
        rw [hpending]
        have hfilter : (accepted.filter (session.confirmedSlot < ·.slot)).filter (slot < ·.slot) =
            accepted.filter (slot < ·.slot) := by
          rw [List.filter_filter]
          apply List.filter_congr
          intro update _
          simp only [← Bool.decide_and, decide_eq_decide]
          omega
        rwa [hfilter] at hdropped

/-- Live events that meet no error keep the session at one stable sort of what it accepted. -/
theorem Stages.handleAll {tables : Tables} {accepted : List SubscribeUpdateAccount}
    (h : session.Stages deserialize tables accepted) {events : List BufferedEvent}
    (hok : session.handleAll deserialize false events = (.ok (), session')) :
    session'.Stages deserialize tables (accepted ++ session.accepts events) ∧
      session'.confirmedSlot =
        (events.filterMap BufferedEvent.slot?).foldl max session.confirmedSlot := by
  induction events generalizing session accepted with
  | nil =>
    cases hok
    rw [accepts, List.filterMap_nil, List.filter_nil, List.append_nil]
    exact ⟨h, rfl⟩
  | cons event events ih =>
    obtain ⟨risen, after, hhandle, hrest⟩ := (handleAll_cons_ok event events).mp hok
    cases event with
    | account update =>
      cases hqueue : session.queueUpdate update false with
      | error error => simp [handle, hqueue] at hhandle
      | ok queued =>
        simp only [handle, hqueue, Prod.mk.injEq] at hhandle
        obtain ⟨-, rfl⟩ := hhandle
        obtain ⟨hstages, hbootstrap, hconfirmed⟩ := h.queueUpdate hqueue
        obtain ⟨hfinal, hslot⟩ := ih hstages hrest
        have hsplit : session.accepts (.account update :: events) =
            session.accepts [.account update] ++ queued.accepts events := by
          rw [accepts, accepts, accepts, hbootstrap, ← List.filter_append]
          rfl
        rw [hsplit, ← List.append_assoc]
        exact ⟨hfinal, hslot.trans (by rw [hconfirmed]; rfl)⟩
    | confirmedSlot slot =>
      obtain ⟨hstages, hbootstrap, hconfirmed⟩ := h.confirm hhandle
      obtain ⟨hfinal, hslot⟩ := ih hstages hrest
      have hsame : session.accepts (.confirmedSlot slot :: events) = after.accepts events := by
        rw [accepts, accepts, hbootstrap]
        rfl
      rw [hsame]
      exact ⟨hfinal, hslot.trans (by rw [hconfirmed]; rfl)⟩

/-- Some updates are queued, each under its slot. -/
def Queues (session : Session) : Prop :=
  ∃ queued, Buckets.Holds SubscribeUpdateAccount.slot id session.pending queued

/-- Draining the queues keeps them in shape. -/
theorem Queues.applyPendingThrough (h : session.Queues) {slot : ℕ}
    (hok : session.applyPendingThrough deserialize slot = (.ok (), session')) :
    ∃ queued, Buckets.Holds SubscribeUpdateAccount.slot id session'.pending queued ∧
      ∀ update ∈ queued, slot < update.slot := by
  obtain ⟨queued, hqueued⟩ := h
  obtain ⟨-, hafter⟩ := applyPendingThrough_ok hok
  have hpending : session'.pending = session.pending.dropThrough slot :=
    congrArg Session.pending hafter
  refine ⟨queued.filter (slot < ·.slot), hpending ▸ hqueued.dropThrough slot, ?_⟩
  intro update hupdate
  exact of_decide_eq_true (List.mem_filter.mp hupdate).2

/-- Handling an event keeps the queues in shape. -/
theorem Queues.handle (h : session.Queues) {recovering : Bool} {event : BufferedEvent}
    {risen : Bool}
    (hok : session.handle deserialize recovering event = (.ok risen, session')) :
    session'.Queues := by
  cases event with
  | account update =>
    simp only [Session.handle, queueUpdate] at hok
    obtain ⟨queued, hqueued⟩ := h
    split_ifs at hok
    · cases hok
      exact ⟨queued, hqueued⟩
    · cases hok
      exact ⟨queued ++ [update], hqueued.push update⟩
    · cases hok
  | confirmedSlot slot =>
    simp only [Session.handle, confirm] at hok
    split at hok
    · cases hok
      exact h
    · split at hok
      · cases hok
      · next after hpending =>
        cases hok
        obtain ⟨queued, hqueued, -⟩ := h.applyPendingThrough hpending
        exact ⟨queued, hqueued⟩

/-- Handling events keeps the queues in shape. -/
theorem Queues.handleAll (h : session.Queues) {recovering : Bool} {events : List BufferedEvent}
    (hok : session.handleAll deserialize recovering events = (.ok (), session')) :
    session'.Queues := by
  induction events generalizing session with
  | nil =>
    cases hok
    exact h
  | cons event events ih =>
    obtain ⟨risen, after, hhandle, hrest⟩ := (handleAll_cons_ok event events).mp hok
    exact ih (h.handle hhandle) hrest

/-- The last sweep of a recovery leaves only updates above the confirmed slot in the queues. -/
theorem queuesAbove_of_establish {sourceIndex : ℕ} {updates : List UpdateOneof}
    {snapshot : Except String (ℕ × Tables)}
    (h : establishSessionFromSource deserialize sourceIndex updates snapshot = .ok session) :
    session.QueuesAbove := by
  obtain ⟨downloaded, -, hreplay⟩ := replayBuffered_of_establish h
  have hstart : (start sourceIndex downloaded.1 downloaded.2).Queues :=
    ⟨[], Buckets.holds_empty ..⟩
  unfold replayBuffered at hreplay
  split at hreplay
  · cases hreplay
  · next replayed hbuffered =>
    split at hreplay
    · cases hreplay
    · next swept hsweep =>
      cases hreplay
      obtain ⟨queued, hqueued, habove⟩ := (hstart.handleAll hbuffered).applyPendingThrough hsweep
      refine ⟨queued, hqueued, fun update hupdate => ?_⟩
      have hconfirmed : session.confirmedSlot = replayed.confirmedSlot := by
        rw [(applyPendingThrough_ok hsweep).2]
      rw [hconfirmed]
      exact habove update hupdate

/-- Live events handled without error over an established session leave its tables as one
application, each once, of the accepted updates up to the confirmed slot, stably sorted by
slot; the other accepted updates are queued, and the confirmed slot is the highest seen. -/
theorem live_staging {sourceIndex : ℕ} {updates : List UpdateOneof}
    {snapshot : Except String (ℕ × Tables)} {events : List BufferedEvent}
    (hestablished :
      establishSessionFromSource deserialize sourceIndex updates snapshot = .ok session)
    (hlive : session.handleAll deserialize false events = (.ok (), session')) :
    (released (session.staged ++ session.accepts events) session'.confirmedSlot).foldlM
        (applyUpdate deserialize) session.tables = .ok session'.tables ∧
      Buckets.Holds SubscribeUpdateAccount.slot id session'.pending
        ((session.staged ++ session.accepts events).filter (session'.confirmedSlot < ·.slot)) ∧
      session'.confirmedSlot =
        (events.filterMap BufferedEvent.slot?).foldl max session.confirmedSlot := by
  obtain ⟨⟨htables, hpending⟩, hslot⟩ :=
    (queuesAbove_of_establish hestablished).stages.handleAll hlive
  exact ⟨htables, hpending, hslot⟩

/-- A table opened in slot 7, received while the snapshot of slot 5 is downloaded. -/
def openedEarly : List UpdateOneof := [.account (.sample (.filled 1) 7 1 1)]

/-- The session established with that update pending. -/
def pendingSession : Session :=
  (establishSessionFromSource (fun _ => some []) 0 openedEarly (.ok (5, ∅))).toOption.getD
    (start 0 0 ∅)

/-- Slot 6 opens another table, and slot 7 is confirmed. -/
def openedLater : List BufferedEvent :=
  [.account (.sample (.filled 2) 6 1 1), .confirmedSlot 7]

/-- Both tables are applied, the one of slot 6 first. -/
theorem live_staging_openedLater :
    [.sample (.filled 2) 6 1 1, .sample (.filled 1) 7 1 1].foldlM
        (applyUpdate fun _ => some []) pendingSession.tables =
      .ok (pendingSession.handleAll (fun _ => some []) false openedLater).2.tables := by
  have hestablished : establishSessionFromSource (fun _ => some []) 0 openedEarly (.ok (5, ∅)) =
      .ok pendingSession := by
    have hok : (establishSessionFromSource (fun _ => some []) 0 openedEarly
        (.ok (5, ∅))).toOption.isSome := by
      decide +kernel
    unfold pendingSession
    cases h : establishSessionFromSource (fun _ => some []) 0 openedEarly (.ok (5, ∅)) with
    | error error => simp [h, Except.toOption] at hok
    | ok session => rfl
  have hlive : (pendingSession.handleAll (fun _ => some []) false openedLater).1 = .ok () := by
    decide +kernel
  have hreleased : released (pendingSession.staged ++ pendingSession.accepts openedLater)
      (pendingSession.handleAll (fun _ => some []) false openedLater).2.confirmedSlot =
        [.sample (.filled 2) 6 1 1, .sample (.filled 1) 7 1 1] := by
    decide +kernel
  rw [← hreleased]
  exact (live_staging hestablished (Prod.ext hlive rfl)).1

end Session

end AltCache
