import AltCache.Account
import AltCache.Replay.Buckets

/-!
# The client

The client library keeps a local map of lookup tables. A session starts from a downloaded
snapshot, replays the updates buffered while the snapshot was downloaded, and then follows
its Yellowstone stream. Updates wait in per-slot queues until their slot is confirmed; no
versions are kept. An operation that fails returns the error and whatever state it left
behind, because the map it changes is the one readers use.
-/

namespace AltCache

open Std (ExtTreeMap)
open AltCache.Replay (Buckets)

/-- A lookup table as readers get it. -/
structure AddressLookupTableAccount where
  key : Address
  addresses : List Address
  deriving DecidableEq

/-- The client's tables by key. -/
abbrev Tables := ExtTreeMap Address AddressLookupTableAccount

/-- The most events a session buffers while its snapshot is downloaded. -/
def updateBufferCapacity : ℕ := 16384

/-- The wire value of the slot status `SlotConfirmed`. -/
def slotConfirmed : ℕ := 1

/-- The messages of a Yellowstone stream that the client tells apart. -/
inductive UpdateOneof where
  | ping
  | account (update : SubscribeUpdateAccount)
  | slot (slot status : ℕ)
  | other

/-- An event kept while the snapshot is downloaded. -/
inductive BufferedEvent where
  | account (update : SubscribeUpdateAccount)
  | confirmedSlot (slot : ℕ)
  deriving DecidableEq

/-- The local replay state of one connection. -/
structure Session where
  sourceIndex : ℕ
  bootstrapSlot : ℕ
  confirmedSlot : ℕ
  tables : Tables
  pending : Buckets SubscribeUpdateAccount

/-- Apply one update to the tables. -/
def applyUpdate (deserialize : Deserialize) (tables : Tables) (update : SubscribeUpdateAccount) :
    Except String Tables :=
  match update.account with
  | none => .error "Yellowstone account body missing"
  | some account =>
    match Key.ofBytes? account.pubkey with
    | none => .error "could not convert slice to array"
    | some key =>
      if account.lamports = 0 ∨ account.owner ≠ programId.toList then .ok (tables.erase key)
      else
        match deserialize account.data with
        | none => .error "invalid ALT account"
        | some addresses => .ok (tables.insert key ⟨key, addresses⟩)

/-- Apply the updates of one slot in arrival order until one fails. -/
def applyQueue (deserialize : Deserialize) :
    Tables → List SubscribeUpdateAccount → Except String Unit × Tables
  | tables, [] => (.ok (), tables)
  | tables, update :: queue =>
    match applyUpdate deserialize tables update with
    | .error error => (.error error, tables)
    | .ok tables => applyQueue deserialize tables queue

/-- The tables after each update of a queue, until one fails. -/
def queueGlimpses (deserialize : Deserialize) : Tables → List SubscribeUpdateAccount → List Tables
  | _, [] => []
  | tables, update :: queue =>
    match applyUpdate deserialize tables update with
    | .error _ => []
    | .ok tables => tables :: queueGlimpses deserialize tables queue

namespace Session

/-- A session over a downloaded snapshot. -/
def start (sourceIndex slot : ℕ) (tables : Tables) : Session where
  sourceIndex := sourceIndex
  bootstrapSlot := slot
  confirmedSlot := slot
  tables := tables
  pending := ∅

/-- Take the queue of each slot in turn and apply it, until an update fails. -/
def applySlots (deserialize : Deserialize) :
    Session → List ℕ → Except String Unit × Session
  | session, [] => (.ok (), session)
  | session, slot :: slots =>
    match applyQueue deserialize session.tables (session.pending.getD slot []) with
    | (.error error, tables) =>
      (.error error, { session with tables, pending := session.pending.erase slot })
    | (.ok (), tables) =>
      applySlots deserialize { session with tables, pending := session.pending.erase slot } slots

/-- Apply everything queued up to a slot, slot by slot in ascending order. -/
def applyPendingThrough (deserialize : Deserialize) (session : Session) (slot : ℕ) :
    Except String Unit × Session :=
  session.applySlots deserialize (session.pending.slotsThrough slot)

/-- What the map that readers use becomes, update by update, while queues are applied slot by
slot as by `applySlots`. -/
def slotGlimpses (deserialize : Deserialize) : Session → List ℕ → List Tables
  | _, [] => []
  | session, slot :: slots =>
    queueGlimpses deserialize session.tables (session.pending.getD slot []) ++
      match applyQueue deserialize session.tables (session.pending.getD slot []) with
      | (.error _, _) => []
      | (.ok (), tables) =>
        slotGlimpses deserialize { session with tables, pending := session.pending.erase slot }
          slots

/-- Queue an update. Updates older than the snapshot are dropped; an update of a slot that is
already confirmed is an error unless the session is still recovering. -/
def queueUpdate (session : Session) (update : SubscribeUpdateAccount) (recovering : Bool) :
    Except String Session :=
  if update.slot < session.bootstrapSlot then .ok session
  else if recovering ∨ session.confirmedSlot < update.slot then
    .ok { session with pending := session.pending.push update.slot update }
  else .error "account update arrived after its slot was confirmed"

/-- Confirm a slot; the flag tells whether the confirmed slot rose. -/
def confirm (deserialize : Deserialize) (session : Session) (slot : ℕ) :
    Except String Bool × Session :=
  if slot ≤ session.confirmedSlot then (.ok false, session)
  else
    match session.applyPendingThrough deserialize slot with
    | (.error error, session) => (.error error, session)
    | (.ok (), session) => (.ok true, { session with confirmedSlot := slot })

/-- Handle one event, buffered or live. -/
def handle (deserialize : Deserialize) (recovering : Bool) (session : Session) :
    BufferedEvent → Except String Bool × Session
  | .account update =>
    match session.queueUpdate update recovering with
    | .error error => (.error error, session)
    | .ok session => (.ok false, session)
  | .confirmedSlot slot => session.confirm deserialize slot

/-- Handle events in order until one fails. -/
def handleAll (deserialize : Deserialize) (recovering : Bool) :
    Session → List BufferedEvent → Except String Unit × Session
  | session, [] => (.ok (), session)
  | session, event :: events =>
    match session.handle deserialize recovering event with
    | (.error error, session) => (.error error, session)
    | (.ok _, session) => handleAll deserialize recovering session events

end Session

/-- The event of a stream message: account updates and confirmed slots matter. -/
def UpdateOneof.event? : UpdateOneof → Option BufferedEvent
  | .account update => some (.account update)
  | .slot number status => if status = slotConfirmed then some (.confirmedSlot number) else none
  | .ping => none
  | .other => none

/-- Buffer a message received while the snapshot is downloaded. -/
def bufferUpdate (buffered : List BufferedEvent) (update : UpdateOneof) :
    Except String (List BufferedEvent) :=
  match update.event? with
  | none => .ok buffered
  | some event =>
    if buffered.length < updateBufferCapacity then .ok (buffered ++ [event])
    else .error "ALT client bootstrap update buffer full"

/-- Replay the buffered events over the downloaded snapshot. -/
def replayBuffered (deserialize : Deserialize) (sourceIndex : ℕ) (snapshot : ℕ × Tables)
    (buffered : List BufferedEvent) : Except String Session :=
  match (Session.start sourceIndex snapshot.1 snapshot.2).handleAll deserialize true buffered with
  | (.error error, _) => .error error
  | (.ok (), session) =>
    match session.applyPendingThrough deserialize session.confirmedSlot with
    | (.error error, _) => .error error
    | (.ok (), session) => .ok session

/-- Establish a session from the messages received until the snapshot request finished and
from its outcome. -/
def establishSessionFromSource (deserialize : Deserialize) (sourceIndex : ℕ)
    (updates : List UpdateOneof) (snapshot : Except String (ℕ × Tables)) :
    Except String Session := do
  let buffered ← updates.foldlM bufferUpdate []
  replayBuffered deserialize sourceIndex (← snapshot) buffered

/-- Follow the live stream until a message fails. The number is the confirmed slot shown to
readers. -/
def follow (deserialize : Deserialize) :
    Session → ℕ → List UpdateOneof → Except String Unit × Session × ℕ
  | session, confirmedSlot, [] => (.ok (), session, confirmedSlot)
  | session, confirmedSlot, .account update :: updates =>
    match session.queueUpdate update false with
    | .error error => (.error error, session, confirmedSlot)
    | .ok session => follow deserialize session confirmedSlot updates
  | session, confirmedSlot, .slot slot status :: updates =>
    if status = slotConfirmed then
      match session.confirm deserialize slot with
      | (.error error, session) => (.error error, session, confirmedSlot)
      | (.ok true, session) => follow deserialize session slot updates
      | (.ok false, session) => follow deserialize session confirmedSlot updates
    else follow deserialize session confirmedSlot updates
  | session, confirmedSlot, .ping :: updates => follow deserialize session confirmedSlot updates
  | session, confirmedSlot, .other :: updates => follow deserialize session confirmedSlot updates

/-- The events of a list of stream messages. -/
def streamEvents (updates : List UpdateOneof) : List BufferedEvent :=
  updates.filterMap UpdateOneof.event?

/-- A result that shows something is a success. -/
theorem exists_ok_of_map_toOption {ε α β : Type} {result : Except ε α} {f : α → β} {b : β}
    (h : result.toOption.map f = some b) : ∃ a, result = .ok a ∧ f a = b := by
  cases result with
  | error error => cases h
  | ok a => exact ⟨a, rfl, Option.some.inj h⟩

/-- Buffering that succeeds keeps the events received. -/
theorem eq_append_of_foldlM_bufferUpdate {updates : List UpdateOneof}
    {held buffered : List BufferedEvent} (h : updates.foldlM bufferUpdate held = .ok buffered) :
    buffered = held ++ streamEvents updates := by
  induction updates generalizing held with
  | nil => exact (Except.ok.inj h).symm.trans (List.append_nil held).symm
  | cons update updates ih =>
    rw [List.foldlM_cons, bufferUpdate] at h
    rw [streamEvents, List.filterMap_cons]
    split at h
    · next hnone =>
      rw [hnone]
      exact ih h
    · next event hsome =>
      rw [hsome]
      split at h
      · exact (ih h).trans (List.append_assoc held [event] _)
      · cases h

/-- A session is established by replaying the events received over the snapshot. -/
theorem replayBuffered_of_establish {deserialize : Deserialize} {sourceIndex : ℕ}
    {updates : List UpdateOneof} {snapshot : Except String (ℕ × Tables)} {session : Session}
    (h : establishSessionFromSource deserialize sourceIndex updates snapshot = .ok session) :
    ∃ downloaded, snapshot = .ok downloaded ∧
      replayBuffered deserialize sourceIndex downloaded (streamEvents updates) = .ok session := by
  unfold establishSessionFromSource at h
  cases hbuffered : updates.foldlM bufferUpdate [] with
  | error error => simp [hbuffered, bind, Except.bind] at h
  | ok buffered =>
    cases snapshot with
    | error error => simp [hbuffered, bind, Except.bind] at h
    | ok downloaded =>
      refine ⟨downloaded, rfl, ?_⟩
      obtain rfl := eq_append_of_foldlM_bufferUpdate hbuffered
      simpa [hbuffered, bind, Except.bind] using h

/-- Following a stream handles its events. -/
theorem follow_eq_handleAll (deserialize : Deserialize) (session : Session) (confirmedSlot : ℕ)
    (updates : List UpdateOneof) :
    ((follow deserialize session confirmedSlot updates).1,
        (follow deserialize session confirmedSlot updates).2.1) =
      session.handleAll deserialize false (streamEvents updates) := by
  induction updates generalizing session confirmedSlot with
  | nil => rfl
  | cons update updates ih =>
    cases update with
    | ping => exact ih session confirmedSlot
    | other => exact ih session confirmedSlot
    | account update =>
      simp only [follow, streamEvents, List.filterMap_cons, UpdateOneof.event?, Session.handleAll,
        Session.handle]
      split
      · rfl
      · exact ih _ confirmedSlot
    | slot slot status =>
      by_cases hstatus : status = slotConfirmed
      · simp only [follow, streamEvents, List.filterMap_cons, UpdateOneof.event?, if_pos hstatus,
          Session.handleAll, Session.handle]
        rcases session.confirm deserialize slot with ⟨error | _ | _, session⟩
        · rfl
        · exact ih _ confirmedSlot
        · exact ih _ slot
      · simp only [follow, streamEvents, List.filterMap_cons, UpdateOneof.event?, if_neg hstatus]
        exact ih session confirmedSlot

end AltCache
