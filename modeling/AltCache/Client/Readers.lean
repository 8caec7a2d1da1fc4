import AltCache.Client.Steps

/-!
# The sessions that readers see

However many attempts and sessions failed before, the session a client follows is the one
that the messages received since its subscription and one complete download establish,
followed by the messages received since; the interleaving of messages and chunks does not
matter. Readers see this session's tables and confirmed slot, and an error whenever the
client follows none.
-/

namespace AltCache

/-- The stream messages among inputs. -/
def messages (inputs : List ClientInput) : List UpdateOneof :=
  inputs.filterMap fun
    | .update update => some update
    | _ => none

/-- The snapshot chunks among inputs. -/
def receivedChunks (inputs : List ClientInput) : List SnapshotChunk :=
  inputs.filterMap fun
    | .chunk chunk => some chunk
    | _ => none

@[simp] theorem messages_append (first second : List ClientInput) :
    messages (first ++ second) = messages first ++ messages second :=
  List.filterMap_append

@[simp] theorem receivedChunks_append (first second : List ClientInput) :
    receivedChunks (first ++ second) = receivedChunks first ++ receivedChunks second :=
  List.filterMap_append

/-- A snapshot server sends no stream messages. -/
theorem messages_fromServer {input : ClientInput} (h : input.FromServer) :
    messages [input] = [] := by
  cases input with
  | update update => exact h.elim
  | _ => rfl

/-- Other inputs bring neither messages nor chunks. -/
theorem messages_idle {input : ClientInput} (h : input.Idle) :
    messages [input] = [] ∧ receivedChunks [input] = [] := by
  cases input with
  | update update => exact h.elim
  | chunk chunk => exact h.elim
  | _ => exact ⟨rfl, rfl⟩

/-- Every table is filed under its own key. -/
def Tables.Keyed (tables : Tables) : Prop :=
  ∀ (key : Address) (table : AddressLookupTableAccount), tables[key]? = some table →
    table.key = key

section Keyed

variable {deserialize : Deserialize} {tables tables' : Tables}

/-- What one operation preserves, a sequence of them preserves. -/
theorem foldlM_preserves {α β ε : Type*} {operation : β → α → Except ε β} {P : β → Prop}
    (hstep : ∀ {state a state'}, operation state a = .ok state' → P state → P state')
    {as : List α} {state state' : β} (h : as.foldlM operation state = .ok state')
    (hstate : P state) : P state' := by
  induction as generalizing state with
  | nil => exact Except.ok.inj h ▸ hstate
  | cons a as ih =>
    rw [List.foldlM_cons] at h
    cases hop : operation state a with
    | error error => simp [hop, bind, Except.bind] at h
    | ok next =>
      rw [hop] at h
      exact ih h (hstep hop hstate)

/-- Filing a table under its key. -/
theorem Tables.Keyed.insert (h : tables.Keyed) (key : Address) (addresses : List Address) :
    Tables.Keyed (Std.ExtTreeMap.insert tables key ⟨key, addresses⟩) := by
  intro other table hfound
  rw [Std.ExtTreeMap.getElem?_insert] at hfound
  split at hfound
  · next heq =>
    obtain rfl := Option.some.inj hfound
    simpa using heq
  · exact h other table hfound

/-- Removing a table. -/
theorem Tables.Keyed.erase (h : tables.Keyed) (key : Address) :
    Tables.Keyed (Std.ExtTreeMap.erase tables key) := by
  intro other table hfound
  rw [Std.ExtTreeMap.getElem?_erase] at hfound
  split at hfound
  · cases hfound
  · exact h other table hfound

/-- Applying an update. -/
theorem Tables.Keyed.applyUpdate {update : SubscribeUpdateAccount}
    (hok : AltCache.applyUpdate deserialize tables update = .ok tables') (h : tables.Keyed) :
    tables'.Keyed := by
  unfold AltCache.applyUpdate at hok
  split at hok
  · cases hok
  · split at hok
    · cases hok
    · next key hkey =>
      split at hok
      · obtain rfl := Except.ok.inj hok
        exact h.erase key
      · split at hok
        · cases hok
        · next addresses hdata =>
          obtain rfl := Except.ok.inj hok
          exact h.insert key addresses

/-- Adding a downloaded account. -/
theorem Tables.Keyed.insertAccount {state state' : Tables × ℕ} {account : AltAccount}
    (hok : AltCache.insertAccount deserialize state account = .ok state')
    (h : state.1.Keyed) : state'.1.Keyed := by
  unfold AltCache.insertAccount at hok
  dsimp only at hok
  split at hok
  · cases hok
  · next key hkey =>
    split at hok
    · cases hok
    · next addresses hdata =>
      obtain rfl := Except.ok.inj hok
      exact h.insert key addresses

/-- Taking a chunk. -/
theorem keyed_push {download download' : SnapshotDownload} {chunk : SnapshotChunk}
    (hok : download.push deserialize chunk = .ok download')
    (h : (download.tables.getD ∅).Keyed) : (download'.tables.getD ∅).Keyed := by
  unfold SnapshotDownload.push at hok
  dsimp only at hok
  split at hok
  · cases hok
  · split at hok
    · cases hok
    · split at hok
      · cases hok
      · next after payloadBytes hinsert =>
        obtain rfl := Except.ok.inj hok
        exact foldlM_preserves (P := fun state : Tables × ℕ => state.1.Keyed)
          Tables.Keyed.insertAccount hinsert h

/-- A downloaded snapshot files every table under its own key. -/
theorem keyed_fetchSnapshot {stream : List SnapshotChunk} {snapshot : CompletedSnapshot}
    (h : fetchSnapshot deserialize stream = .ok snapshot) : snapshot.tables.Keyed := by
  unfold fetchSnapshot at h
  cases hpush : SnapshotDownload.new.pushAll deserialize stream with
  | error error =>
    rw [hpush] at h
    cases h
  | ok download =>
    rw [hpush] at h
    have hempty : (SnapshotDownload.new.tables.getD ∅).Keyed := fun key table hfound => by
      simp [SnapshotDownload.new] at hfound
    have hkeyed := foldlM_preserves
      (P := fun download : SnapshotDownload => (download.tables.getD ∅).Keyed)
      keyed_push hpush hempty
    change download.finish = .ok snapshot at h
    unfold SnapshotDownload.finish at h
    split at h
    · next slot expected tables _ _ htables =>
      dsimp only at h
      split at h
      · cases h
      · obtain rfl := Except.ok.inj h
        rwa [htables] at hkeyed
    · cases h

end Keyed

namespace Session

variable {deserialize : Deserialize} {session session' : Session}

/-- A later state of a session: the same source and base slot, a confirmed slot no lower, and
tables still filed under their keys. -/
structure Onward (session session' : Session) : Prop where
  sourceIndex : session'.sourceIndex = session.sourceIndex
  bootstrapSlot : session'.bootstrapSlot = session.bootstrapSlot
  confirmedSlot : session.confirmedSlot ≤ session'.confirmedSlot
  keyed : session.tables.Keyed → session'.tables.Keyed

/-- A session is a later state of itself. -/
theorem Onward.refl (session : Session) : session.Onward session := ⟨rfl, rfl, le_rfl, id⟩

/-- Later and later. -/
theorem Onward.trans {session'' : Session} (h : session.Onward session')
    (h' : session'.Onward session'') : session.Onward session'' :=
  ⟨h'.sourceIndex.trans h.sourceIndex, h'.bootstrapSlot.trans h.bootstrapSlot,
    h.confirmedSlot.trans h'.confirmedSlot, h'.keyed ∘ h.keyed⟩

/-- Draining queues leaves everything but the tables and the queues. -/
theorem onward_applyPendingThrough {slot : ℕ}
    (hok : session.applyPendingThrough deserialize slot = (.ok (), session')) :
    session.Onward session' ∧ session'.confirmedSlot = session.confirmedSlot := by
  obtain ⟨htables, hafter⟩ := applyPendingThrough_ok hok
  refine ⟨⟨?_, ?_, ?_, foldlM_preserves Tables.Keyed.applyUpdate htables⟩, ?_⟩ <;> rw [hafter]

/-- Handling an event never changes the source, even when it fails. -/
theorem sourceIndex_handle (deserialize : Deserialize) (recovering : Bool) (session : Session)
    (event : BufferedEvent) :
    (session.handle deserialize recovering event).2.sourceIndex = session.sourceIndex := by
  cases event with
  | account update =>
    simp only [handle, queueUpdate]
    split_ifs <;> rfl
  | confirmedSlot slot =>
    simp only [handle, confirm]
    split
    · rfl
    · obtain ⟨pending, happly, -⟩ := applySlots_eq deserialize
        ((session.pending.slotsThrough_pairwise slot).imp ne_of_lt) session
      rw [applyPendingThrough, happly]
      cases (applyQueue deserialize session.tables _).1 <;> rfl

/-- Handling an event leads onward; the flag tells whether the confirmed slot rose. -/
theorem onward_handle {recovering risen : Bool} {event : BufferedEvent}
    (hok : session.handle deserialize recovering event = (.ok risen, session')) :
    session.Onward session' ∧ (risen = false → session'.confirmedSlot = session.confirmedSlot) := by
  cases event with
  | account update =>
    simp only [handle, queueUpdate] at hok
    split_ifs at hok <;> cases hok
    · exact ⟨.refl session, fun _ => rfl⟩
    · exact ⟨⟨rfl, rfl, le_rfl, id⟩, fun _ => rfl⟩
  | confirmedSlot slot =>
    simp only [handle, confirm] at hok
    split at hok
    · cases hok
      exact ⟨.refl session, fun _ => rfl⟩
    · next hslot =>
      split at hok
      · cases hok
      · next after happly =>
        cases hok
        have hafter := (onward_applyPendingThrough happly).1
        exact ⟨⟨hafter.sourceIndex, hafter.bootstrapSlot, (not_le.mp hslot).le, hafter.keyed⟩,
          fun h => by cases h⟩

/-- Handling events leads onward. -/
theorem onward_handleAll {recovering : Bool} {events : List BufferedEvent}
    (hok : session.handleAll deserialize recovering events = (.ok (), session')) :
    session.Onward session' := by
  induction events generalizing session with
  | nil =>
    cases hok
    exact .refl _
  | cons event events ih =>
    obtain ⟨risen, after, hhandle, hrest⟩ := (handleAll_cons_ok event events).mp hok
    exact (onward_handle hhandle).1.trans (ih hrest)

/-- An established session is a later state of the one that starts at its snapshot. -/
theorem onward_replayBuffered {sourceIndex : ℕ} {snapshot : ℕ × Tables}
    {buffered : List BufferedEvent}
    (hok : replayBuffered deserialize sourceIndex snapshot buffered = .ok session) :
    (start sourceIndex snapshot.1 snapshot.2).Onward session := by
  unfold replayBuffered at hok
  split at hok
  · cases hok
  · next replayed hreplay =>
    split at hok
    · cases hok
    · next settled happly =>
      cases hok
      exact (onward_handleAll hreplay).trans (onward_applyPendingThrough happly).1

end Session

section Follow

variable {deserialize : Deserialize} {session session' : Session} {confirmedSlot : ℕ}

/-- Messages are followed one after the other. -/
theorem follow_cons (session : Session) (shown : ℕ) (update : UpdateOneof)
    (updates : List UpdateOneof) :
    follow deserialize session shown (update :: updates) =
      match follow deserialize session shown [update] with
      | (.error error, session, shown) => (.error error, session, shown)
      | (.ok (), session, shown) => follow deserialize session shown updates := by
  cases update with
  | ping => rfl
  | other => rfl
  | account update =>
    simp only [follow]
    cases session.queueUpdate update false with
    | error error => rfl
    | ok session => rfl
  | slot slot status =>
    simp only [follow]
    by_cases hstatus : status = slotConfirmed
    · simp only [if_pos hstatus]
      rcases session.confirm deserialize slot with ⟨error | _ | _, after⟩
      · rfl
      · rfl
      · rfl
    · simp only [if_neg hstatus]

/-- Following messages in two parts. -/
theorem follow_append {first second : List UpdateOneof} {shown : ℕ}
    (h : follow deserialize session shown first = (.ok (), session', confirmedSlot)) :
    follow deserialize session shown (first ++ second) =
      follow deserialize session' confirmedSlot second := by
  induction first generalizing session shown with
  | nil =>
    cases h
    rfl
  | cons update first ih =>
    rw [follow_cons] at h
    rw [List.cons_append, follow_cons]
    rcases hone : follow deserialize session shown [update] with ⟨error | ⟨⟩, after, slot⟩
    · rw [hone] at h
      cases h
    · rw [hone] at h
      exact ih h

/-- Following one message without error shows the session's confirmed slot. -/
theorem confirmedSlot_follow {update : UpdateOneof}
    (h : follow deserialize session session.confirmedSlot [update] =
      (.ok (), session', confirmedSlot)) :
    confirmedSlot = session'.confirmedSlot ∧ session.Onward session' := by
  cases hevent : update.event? with
  | none =>
    rw [follow_passed hevent] at h
    cases h
    exact ⟨rfl, .refl _⟩
  | some event =>
    rw [follow_event hevent] at h
    split at h
    · cases h
    · next hhandle =>
      cases h
      exact ⟨rfl, (Session.onward_handle hhandle).1⟩
    · next hhandle =>
      cases h
      obtain ⟨honward, hsame⟩ := Session.onward_handle hhandle
      exact ⟨(hsame rfl).symm, honward⟩

/-- Following messages without error shows the session's confirmed slot. -/
theorem confirmedSlot_followAll {updates : List UpdateOneof}
    (h : follow deserialize session session.confirmedSlot updates =
      (.ok (), session', confirmedSlot)) :
    confirmedSlot = session'.confirmedSlot ∧ session.Onward session' := by
  induction updates generalizing session with
  | nil =>
    cases h
    exact ⟨rfl, .refl _⟩
  | cons update updates ih =>
    rw [follow_cons] at h
    rcases hone : follow deserialize session session.confirmedSlot [update] with
      ⟨error | ⟨⟩, after, slot⟩
    · rw [hone] at h
      cases h
    · obtain ⟨rfl, honward⟩ := confirmedSlot_follow hone
      rw [hone] at h
      obtain ⟨hslot, honward'⟩ := ih h
      exact ⟨hslot, honward.trans honward'⟩

end Follow

section Lived

variable {deserialize : Deserialize} {allocates : ℕ → Bool} {config : AltConfig}
  {inputs : List ClientInput} {input : ClientInput} {call : EstablishCall} {inner : Inner}
  {session : Session}

/-- What an attempt holds was received since its subscription; its download, since the request
was made. -/
def Gathered (deserialize : Deserialize) (inputs : List ClientInput)
    (buffered : List BufferedEvent) (download : SnapshotDownload) : Prop :=
  ∃ before earlier recent, inputs = before ++ .subscribed :: (earlier ++ recent) ∧
    (messages (earlier ++ recent)).foldlM bufferUpdate [] = .ok buffered ∧
    SnapshotDownload.new.pushAll deserialize (receivedChunks recent) = .ok download

/-- The attempt of a call is one of the configured sources', and holds what was received. -/
def EstablishCall.Begun (deserialize : Deserialize) (config : AltConfig)
    (inputs : List ClientInput) (call : EstablishCall) : Prop :=
  call.offset < config.yellowstoneGrpc.length ∧
    ∀ buffered url download, call.attempt = .bootstrapping buffered url download →
      Gathered deserialize inputs buffered download

/-- The session was established from one complete download and the messages received since its
subscription, and has followed the messages since. -/
def Followed (deserialize : Deserialize) (inputs : List ClientInput) (session : Session) : Prop :=
  ∃ before earlier recent live snapshot first,
    inputs = before ++ .subscribed :: (earlier ++ recent ++ .snapshotEnded :: live) ∧
    fetchSnapshot deserialize (receivedChunks recent) = .ok snapshot ∧
    establishSessionFromSource deserialize first.sourceIndex (messages (earlier ++ recent))
      (.ok (snapshot.slot, snapshot.tables)) = .ok first ∧
    follow deserialize first first.confirmedSlot (messages live) =
      (.ok (), session, session.confirmedSlot)

/-- Some server has announced a number of accounts that no map can be allocated for. -/
def Overflowed (allocates : ℕ → Bool) (inputs : List ClientInput) : Prop :=
  ∃ chunk ∈ receivedChunks inputs, allocates chunk.totalAccounts = false

/-- What the inputs so far have made of a call of `establish_session`. -/
def Establish.Lived (deserialize : Deserialize) (allocates : ℕ → Bool) (config : AltConfig)
    (inputs : List ClientInput) : Establish → Prop
  | .going call => call.Begun deserialize config inputs
  | .established session => session.sourceIndex < config.yellowstoneGrpc.length ∧
      Followed deserialize inputs session
  | .failed _ => True
  | .panicked => Overflowed allocates inputs

/-- What the inputs so far have made of a client. -/
def Client.Lived (deserialize : Deserialize) (allocates : ℕ → Bool) (config : AltConfig)
    (inputs : List ClientInput) : Client → Prop
  | .connecting call => call.Begun deserialize config inputs
  | .running inner (.following session) => inner = .serving session ∧
      session.sourceIndex < config.yellowstoneGrpc.length ∧
      Followed deserialize inputs session
  | .running inner (.delaying _) => inner.ready = false
  | .running inner (.recovering call) => inner.ready = false ∧
      call.Begun deserialize config inputs
  | .running inner .panicked => inner.ready = false ∧ Overflowed allocates inputs
  | .panicked => Overflowed allocates inputs
  | .refused _ => True
  | .dropped => True

/-- More inputs do not take the announcement back. -/
theorem Overflowed.append (h : Overflowed allocates inputs) (more : List ClientInput) :
    Overflowed allocates (inputs ++ more) := by
  obtain ⟨chunk, hchunk, hannounced⟩ := h
  rw [Overflowed, receivedChunks_append]
  exact ⟨chunk, List.mem_append_left _ hchunk, hannounced⟩

/-- A chunk that makes a download panic has announced such a number. -/
theorem overflowed_of_pushPanics {download : SnapshotDownload} {chunk : SnapshotChunk}
    (h : download.pushPanics allocates chunk = true) (inputs : List ClientInput) :
    Overflowed allocates (inputs ++ [.chunk chunk]) := by
  unfold SnapshotDownload.pushPanics at h
  simp only [Bool.and_eq_true, Bool.not_eq_true'] at h
  rw [Overflowed, receivedChunks_append]
  exact ⟨chunk, List.mem_append_right _ (List.mem_singleton_self _), h.2⟩

/-- A message received by an attempt is buffered. -/
theorem Gathered.update {buffered buffered' : List BufferedEvent} {download : SnapshotDownload}
    (h : Gathered deserialize inputs buffered download) {update : UpdateOneof}
    (hok : bufferUpdate buffered update = .ok buffered') :
    Gathered deserialize (inputs ++ [.update update]) buffered' download := by
  obtain ⟨before, earlier, recent, rfl, hbuffered, hdownload⟩ := h
  refine ⟨before, earlier, recent ++ [.update update], by simp, ?_, ?_⟩
  · rw [← List.append_assoc, messages_append, List.foldlM_append, hbuffered]
    change (List.foldlM bufferUpdate buffered [update] : Except String _) = _
    rw [List.foldlM_cons, hok]
    rfl
  · rwa [receivedChunks_append, show receivedChunks [.update update] = [] from rfl,
      List.append_nil]

/-- A chunk received by an attempt is taken. -/
theorem Gathered.chunk {buffered : List BufferedEvent} {download download' : SnapshotDownload}
    (h : Gathered deserialize inputs buffered download) {chunk : SnapshotChunk}
    (hok : download.push deserialize chunk = .ok download') :
    Gathered deserialize (inputs ++ [.chunk chunk]) buffered download' := by
  obtain ⟨before, earlier, recent, rfl, hbuffered, hdownload⟩ := h
  refine ⟨before, earlier, recent ++ [.chunk chunk], by simp, ?_, ?_⟩
  · rwa [← List.append_assoc, messages_append, show messages [.chunk chunk] = [] from rfl,
      List.append_nil]
  · unfold SnapshotDownload.pushAll at hdownload ⊢
    rw [receivedChunks_append, List.foldlM_append, hdownload]
    change (List.foldlM _ download [chunk] : Except String _) = _
    rw [List.foldlM_cons, hok]
    rfl

/-- A request to the next URL begins a new download. -/
theorem Gathered.nextUrl {buffered : List BufferedEvent} {download : SnapshotDownload}
    (h : Gathered deserialize inputs buffered download)
    (hinput : input.FromServer) :
    Gathered deserialize (inputs ++ [input]) buffered .new := by
  obtain ⟨before, earlier, recent, rfl, hbuffered, -⟩ := h
  refine ⟨before, earlier ++ recent ++ [input], [], by simp, ?_, rfl⟩
  rwa [List.append_nil, messages_append, messages_fromServer hinput, List.append_nil]

/-- Other inputs leave an attempt alone. -/
theorem Gathered.passed {buffered : List BufferedEvent} {download : SnapshotDownload}
    (h : Gathered deserialize inputs buffered download) (hinput : input.Idle) :
    Gathered deserialize (inputs ++ [input]) buffered download := by
  obtain ⟨before, earlier, recent, rfl, hbuffered, hdownload⟩ := h
  obtain ⟨hmessages, hchunks⟩ := messages_idle hinput
  refine ⟨before, earlier, recent ++ [input], by simp, ?_, ?_⟩
  · rwa [← List.append_assoc, messages_append, hmessages, List.append_nil]
  · rwa [receivedChunks_append, hchunks, List.append_nil]

/-- A call that goes on has an attempt that holds what was received, and a session that it
establishes is the one made of it. -/
theorem EstablishCall.Begun.step (h : call.Begun deserialize config inputs)
    (input : ClientInput) :
    (call.step deserialize allocates config input).Lived deserialize allocates config
      (inputs ++ [input]) := by
  have htried := tried_step deserialize allocates config call input
  generalize call.step deserialize allocates config input = outcome at htried
  cases htried with
  | passed hpassed =>
    refine ⟨h.1, fun buffered url download hattempt => ?_⟩
    rcases hpassed with hconnecting | hidle
    · rw [hconnecting] at hattempt
      cases hattempt
    · exact (h.2 _ _ _ hattempt).passed hidle
  | failed error =>
    rcases call.attemptFailed_cases config error with ⟨hlt, heq⟩ | ⟨-, heq⟩
    · rw [heq]
      exact ⟨hlt, fun _ _ _ hattempt => by cases hattempt⟩
    · rw [heq]
      trivial
  | subscribed hconnecting =>
    refine ⟨h.1, fun buffered url download heq => ?_⟩
    cases heq
    exact ⟨inputs, [], [], rfl, rfl, rfl⟩
  | buffered hattempt hok =>
    refine ⟨h.1, fun buffered url download heq => ?_⟩
    cases heq
    exact (h.2 _ _ _ hattempt).update hok
  | received hattempt hok =>
    refine ⟨h.1, fun buffered url download heq => ?_⟩
    cases heq
    exact (h.2 _ _ _ hattempt).chunk hok
  | panicked hattempt hpanics => exact overflowed_of_pushPanics hpanics inputs
  | nextUrl hattempt hinput =>
    refine ⟨h.1, fun buffered url download heq => ?_⟩
    cases heq
    exact (h.2 _ _ _ hattempt).nextUrl hinput
  | @established buffered url download snapshot session hattempt hfinish hok =>
    have hsource : session.sourceIndex = call.sourceIndex config :=
      (Session.onward_replayBuffered hok).sourceIndex
    refine ⟨?_, ?_⟩
    · rw [hsource]
      exact Nat.mod_lt _ (by have := h.1; omega)
    · obtain ⟨before, earlier, recent, rfl, hbuffered, hdownload⟩ := h.2 _ _ _ hattempt
      refine ⟨before, earlier, recent, [], snapshot, session, by simp, ?_, ?_, rfl⟩
      · rw [fetchSnapshot, hdownload]
        exact hfinish
      · rw [hsource, establishSessionFromSource, hbuffered]
        exact hok

/-- Where the first `establish_session` of `connect` has come to. -/
theorem Establish.Lived.ofFirst {outcome : Establish}
    (h : outcome.Lived deserialize allocates config inputs) :
    (Client.ofFirst outcome).Lived deserialize allocates config inputs := by
  cases outcome with
  | going next => exact h
  | established session => exact ⟨rfl, h⟩
  | failed error => trivial
  | panicked => exact h

/-- Where a later one has come to. -/
theorem Establish.Lived.ofLater {outcome : Establish}
    (h : outcome.Lived deserialize allocates config inputs) (hready : inner.ready = false)
    (nextSource : ℕ) :
    (Client.ofLater inner nextSource outcome).Lived deserialize allocates config inputs := by
  cases outcome with
  | going next => exact ⟨hready, h⟩
  | established session => exact ⟨rfl, h⟩
  | failed error => exact hready
  | panicked => exact ⟨hready, h⟩

/-- A call begins with the first source of its order. -/
theorem EstablishCall.lived_start (deserialize : Deserialize) (allocates : ℕ → Bool)
    (config : AltConfig) (inputs : List ClientInput) (startSource : ℕ) :
    (start config startSource).Lived deserialize allocates config inputs := by
  unfold start attemptAt
  split
  · next hlt => exact ⟨hlt, fun _ _ _ hattempt => by cases hattempt⟩
  · trivial

/-- A followed session goes on following, or readers are refused. -/
theorem lived_followStep (h : Followed deserialize inputs session)
    (hsource : session.sourceIndex < config.yellowstoneGrpc.length) :
    (Client.followStep deserialize config (.serving session) session input).Lived deserialize
      allocates config (inputs ++ [input]) := by
  obtain ⟨before, earlier, recent, live, snapshot, first, rfl, hfetch, hestablish, hfollow⟩ := h
  have hpassed (hinput : messages [input] = []) :
      (Client.running (.serving session) (.following session)).Lived deserialize allocates config
        (before ++ .subscribed :: (earlier ++ recent ++ .snapshotEnded :: live) ++ [input]) := by
    refine ⟨rfl, hsource, before, earlier, recent, live ++ [input], snapshot, first, by simp,
      hfetch, hestablish, ?_⟩
    rwa [messages_append, hinput, List.append_nil]
  cases input with
  | update update =>
    simp only [Client.followStep]
    split
    · rfl
    · next after slot hone =>
      have hone' : follow deserialize session session.confirmedSlot [update] =
          (.ok (), after, slot) := hone
      obtain ⟨rfl, honward⟩ := confirmedSlot_follow hone'
      refine ⟨rfl, honward.sourceIndex.symm ▸ hsource, before, earlier, recent,
        live ++ [.update update], snapshot, first, by simp, hfetch, hestablish, ?_⟩
      rw [messages_append, follow_append hfollow]
      exact hone
  | sourceFailed error => rfl
  | subscribed => exact hpassed rfl
  | chunk chunk => exact hpassed rfl
  | snapshotEnded => exact hpassed rfl
  | snapshotFailed error => exact hpassed rfl
  | elapsed => exact hpassed rfl
  | dropped => exact hpassed rfl

/-- What one more input makes of a client. -/
theorem Client.Lived.step {client : Client} (h : client.Lived deserialize allocates config inputs)
    (input : ClientInput) :
    (client.step deserialize allocates config input).Lived deserialize allocates config
      (inputs ++ [input]) := by
  cases client with
  | connecting call => exact (EstablishCall.Begun.step h input).ofFirst
  | refused error => trivial
  | panicked => exact Overflowed.append h [input]
  | dropped => trivial
  | running inner task =>
    cases task with
    | panicked =>
      cases input with
      | dropped => trivial
      | _ => exact ⟨h.1, h.2.append _⟩
    | following session =>
      obtain ⟨rfl, hsource, hfollowed⟩ := h
      cases input with
      | dropped => trivial
      | _ => exact lived_followStep hfollowed hsource
    | delaying nextSource =>
      cases input with
      | dropped => trivial
      | elapsed => exact (EstablishCall.lived_start ..).ofLater h nextSource
      | _ => exact h
    | recovering call =>
      cases input with
      | dropped => trivial
      | _ => exact (EstablishCall.Begun.step h.2 _).ofLater h.1 call.startSource

/-- What the inputs of a run make of the client. -/
theorem lived_run (deserialize : Deserialize) (allocates : ℕ → Bool) (config : AltConfig)
    (inputs : List ClientInput) :
    ((Client.connect config).run deserialize allocates config inputs).Lived deserialize allocates
      config inputs := by
  induction inputs using List.reverseRecOn with
  | nil =>
    change (Client.connect config).Lived deserialize allocates config []
    unfold Client.connect
    split
    · trivial
    · exact (EstablishCall.lived_start ..).ofFirst
  | append_singleton inputs input ih =>
    rw [Client.run_concat]
    exact ih.step input

/-- The tables of a followed session are filed under their own keys. -/
theorem Followed.keyed (h : Followed deserialize inputs session) : session.tables.Keyed := by
  obtain ⟨before, earlier, recent, live, snapshot, first, -, hfetch, hestablish, hfollow⟩ := h
  obtain ⟨downloaded, hdownloaded, hreplay⟩ := replayBuffered_of_establish hestablish
  cases hdownloaded
  exact (confirmedSlot_followAll hfollow).2.keyed
    ((Session.onward_replayBuffered hreplay).keyed (keyed_fetchSnapshot hfetch))

/-- Whatever happened before, readers of a running client see the followed session whenever it
waits: the one that a complete download and the messages received during it establish, and the
messages since have brought on. Without such a session every lookup is refused. While an input
is handled they may besides see some of the updates applied that a confirmation releases, under
the old slot. -/
theorem readers_see_followed {task : ClientTask}
    (h : (Client.connect config).run deserialize allocates config inputs = .running inner task) :
    ((∃ session, task = .following session ∧ inner = .serving session ∧
        session.sourceIndex < config.yellowstoneGrpc.length ∧
        Followed deserialize inputs session ∧
        ∀ key table, inner.get key = .ok (some table) → table.key = key) ∨
      (∀ session, task ≠ .following session) ∧
        ∀ key, inner.get key = .error "ALT cache is not ready") ∧
    ∀ input, ∀ glimpse ∈
        (Client.running inner task).glimpses deserialize allocates config input,
      (∀ key, glimpse.get key = .error "ALT cache is not ready") ∨
      (∃ session, (Client.running inner task).step deserialize allocates config input =
          .running (.serving session) (.following session) ∧ glimpse = .serving session) ∨
      ∃ session slot applied tables, task = .following session ∧
        input = .update (.slot slot slotConfirmed) ∧ session.confirmedSlot < slot ∧
        applied <+: session.pending.through slot ∧
        applied.foldlM (applyUpdate deserialize) session.tables = .ok tables ∧
        glimpse = { Inner.serving session with tables } := by
  have hrefused {other : Inner} (hready : other.ready = false) (key : Address) :
      other.get key = .error "ALT cache is not ready" := by
    simp [Inner.get, hready]
  have hwaits {inputs : List ClientInput} {inner : Inner} {task : ClientTask}
      (hlived : (Client.running inner task).Lived deserialize allocates config inputs) :
      (∃ session, task = .following session ∧ inner = .serving session ∧
        session.sourceIndex < config.yellowstoneGrpc.length ∧
        Followed deserialize inputs session) ∨
        (∀ session, task ≠ .following session) ∧ inner.ready = false := by
    cases task with
    | following session => exact Or.inl ⟨session, rfl, hlived⟩
    | delaying nextSource => exact Or.inr ⟨by simp, hlived⟩
    | recovering call => exact Or.inr ⟨by simp, hlived.1⟩
    | panicked => exact Or.inr ⟨by simp, hlived.1⟩
  have hlived := lived_run deserialize allocates config inputs
  rw [h] at hlived
  refine ⟨?_, fun input glimpse hglimpse => ?_⟩
  · rcases hwaits hlived with ⟨session, htask, rfl, hsource, hfollowed⟩ | ⟨hnone, hready⟩
    · refine Or.inl ⟨session, htask, rfl, hsource, hfollowed, fun key table hget => ?_⟩
      exact hfollowed.keyed key table (Except.ok.inj hget)
    · exact Or.inr ⟨hnone, hrefused hready⟩
  · cases Client.glimpsed hglimpse with
    | @afterwards after task' hafter =>
      have hnext := hlived.step input
      rw [hafter] at hnext
      rcases hwaits hnext with ⟨session, rfl, rfl, -⟩ | ⟨-, hready⟩
      · exact Or.inr (Or.inl ⟨session, hafter, rfl⟩)
      · exact Or.inl (hrefused hready)
    | @confirming session slot applied tables htask hinput hslot hprefix happlied =>
      rcases hwaits hlived with ⟨session', htask', rfl, -⟩ | ⟨hnone, -⟩
      · obtain rfl := ClientTask.following.inj (htask'.symm.trans htask)
        exact Or.inr (Or.inr ⟨session', slot, applied, tables, htask, hinput, hslot, hprefix,
          happlied, rfl⟩)
      · exact absurd htask (hnone session)
    | @restoring call tables confirmedSlot htask =>
      rcases hwaits hlived with ⟨session', htask', -⟩ | ⟨-, hready⟩
      · exact ClientTask.noConfusion (htask'.symm.trans htask)
      · exact Or.inl (hrefused hready)

end Lived

/-- One snapshot server and one source. -/
def smallConfig : AltConfig := ⟨["snapshots"], [⟨"source", none⟩]⟩

/-- Any number of accounts that fits in memory is allocated. -/
def roomy (capacity : ℕ) : Bool := capacity < 2 ^ 32

/-- The source is subscribed, brings a table while an empty snapshot is downloaded, and
confirms the table's slot afterwards. -/
def smallRun : List ClientInput :=
  [.subscribed, .update (.account (.sample (.filled 1) 6 1 1)), .chunk ⟨5, 0, []⟩, .snapshotEnded,
    .update (.slot 6 slotConfirmed)]

/-- The table is found afterwards. -/
theorem smallRun_get :
    ∃ inner session, (Client.connect smallConfig).run acceptAll roomy smallConfig smallRun =
        .running inner (.following session) ∧
      inner = .serving session ∧ inner.get (.filled 1) = .ok (some ⟨.filled 1, []⟩) := by
  have hget : ((Client.connect smallConfig).run acceptAll roomy smallConfig smallRun).inner?.map
      (Inner.get · (.filled 1)) = some (.ok (some ⟨.filled 1, []⟩)) := by decide +kernel
  obtain ⟨inner, task, hrun, hfound⟩ := Client.running_of_inner? hget
  rcases (readers_see_followed hrun).1 with ⟨session, rfl, hinner, -⟩ | ⟨-, hrefused⟩
  · exact ⟨inner, session, hrun, hinner, hfound⟩
  · rw [hrefused] at hfound
    cases hfound

/-- While its slot is confirmed, the table is found under the old slot first. -/
example : (((Client.connect smallConfig).run acceptAll roomy smallConfig
    (smallRun.take 4)).glimpses acceptAll roomy smallConfig
      (.update (.slot 6 slotConfirmed))).map
        (fun glimpse => (glimpse.confirmedSlot, glimpse.get (.filled 1))) =
    [(5, .ok (some ⟨.filled 1, []⟩)), (6, .ok (some ⟨.filled 1, []⟩))] := by
  decide +kernel

end AltCache
