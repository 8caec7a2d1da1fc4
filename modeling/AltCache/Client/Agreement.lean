import AltCache.Client.Refinement
import AltCache.StateUpdater.Refinement
import AltCache.Updater

/-!
# Client and server on the same live stream

The server's updater and the client's session read one stream of account updates and
confirmations. Both follow the same staging engine when the writes of each key arrive
oldest first. They differ in one kind of body only: an open account of the program with
undecodable data is a removal to the server and an error to the client.
-/

namespace AltCache

open Std (ExtTreeMap)
open AltCache.Replay

/-- The account the server stores for an update. -/
def accountOf (deserialize : Deserialize) (update : SubscribeUpdateAccount) : Option Account :=
  update.account.bind fun account =>
    if account.lamports = 0 ∨ account.owner ≠ programId.toList then none
    else (Account.fromYellowstone deserialize account).toOption

/-- An update with a body whose key and owner have 32 bytes. -/
def SubscribeUpdateAccount.WellFormed (update : SubscribeUpdateAccount) : Prop :=
  ∃ account, update.account = some account ∧ account.pubkey.length = 32 ∧
    account.owner.length = 32

/-- The server's handling of an event. -/
def serverHandle (deserialize : Deserialize) (state : StateUpdater × Store) :
    BufferedEvent → StateUpdater × Store
  | .account update =>
    match decodeAccountUpdate deserialize update with
    | .error _ => state
    | .ok event => applyStateEvent event state.1 state.2
  | .confirmedSlot slot => applyStateEvent (.confirmedSlot slot) state.1 state.2

/-- The server's handling of events in order. -/
def serverHandleAll (deserialize : Deserialize) (state : StateUpdater × Store)
    (events : List BufferedEvent) : StateUpdater × Store :=
  events.foldl (serverHandle deserialize) state

/-- The tables are the decoded accounts: the same keys, each with the addresses of its data. -/
def Agrees (deserialize : Deserialize) (accounts : Accounts) (tables : Tables) : Prop :=
  ∀ k : Key, tables[k]?.map some =
    accounts[k]?.map fun account =>
      (deserialize account.value.data).map (AddressLookupTableAccount.mk k)

/-- A server and a client that start alike, with nothing pending and no versions recorded. -/
structure Aligned (deserialize : Deserialize) (updater : StateUpdater) (session : Session) :
    Prop where
  bootstrapSlot : session.bootstrapSlot = updater.bootstrapSlot
  confirmedSlot : session.confirmedSlot = updater.confirmedSlot
  updaterPending : updater.pending = ∅
  versions : updater.versions = ∅
  sessionPending : session.pending = ∅
  agrees : Agrees deserialize updater.accounts session.tables

/-- Live events: well-formed updates, each of a slot above the confirmed one when it arrives,
those of each key oldest first. -/
structure LiveEvents (confirmedSlot : ℕ) (events : List BufferedEvent) : Prop where
  wellFormed : ∀ update, .account update ∈ events → update.WellFormed
  above : ∀ first update rest, events = first ++ .account update :: rest →
    confirmedBy confirmedSlot (eventCalls first) < update.slot
  increasing : (delivered (eventCalls events)).Pairwise fun a b => a.key = b.key → a.tag < b.tag

/-- After every event the client has met no error and the tables agree with the server's. -/
def InAgreement (deserialize : Deserialize) (updater : StateUpdater) (store : Store)
    (session : Session) (events : List BufferedEvent) : Prop :=
  ∀ first rest, events = first ++ rest →
    ∃ session', session.handleAll deserialize false first = (.ok (), session') ∧
      Agrees deserialize (serverHandleAll deserialize (updater, store) first).1.accounts
        session'.tables

/-- No undecodable update at or above the bootstrap slot is confirmed: its slot stays above
every slot that is. -/
def NoneConfirmedUndecodable (deserialize : Deserialize) (bootstrapSlot confirmedSlot : ℕ)
    (events : List BufferedEvent) : Prop :=
  ∀ update, .account update ∈ events → bootstrapSlot ≤ update.slot →
    Undecodable deserialize update → confirmedBy confirmedSlot (eventCalls events) < update.slot

section Decode

variable {deserialize : Deserialize}

/-- A well-formed update makes a write, and the server decodes it as that write. -/
theorem SubscribeUpdateAccount.WellFormed.decode {update : SubscribeUpdateAccount}
    (h : update.WellFormed) (deserialize : Deserialize) :
    ∃ w, update.write? = some w ∧ decodeAccountUpdate deserialize update =
      .ok (.account w.key w.slot w.version (accountOf deserialize update)) := by
  obtain ⟨account, haccount, hpubkey, howner⟩ := h
  have hkey : Key.ofBytes? account.pubkey = some ⟨account.pubkey.toArray, hpubkey⟩ :=
    dif_pos hpubkey
  have hownerKey : Key.ofBytes? account.owner = some ⟨account.owner.toArray, howner⟩ :=
    dif_pos howner
  have hprogram : (⟨account.owner.toArray, howner⟩ : Key) = programId ↔
      account.owner = programId.toList := by
    rw [← Key.ofBytes?_eq_some, hownerKey, Option.some.injEq]
  simp only [SubscribeUpdateAccount.write?, decodeAccountUpdate, accountOf, haccount, hkey,
    hownerKey, Option.bind_some, Option.map_some, ne_eq, hprogram]
  exact ⟨_, rfl, rfl⟩

/-- A well-formed update makes a replay call. -/
theorem LiveEvents.call?_isSome {confirmedSlot : ℕ} {events : List BufferedEvent}
    (h : LiveEvents confirmedSlot events) (event : BufferedEvent) (hevent : event ∈ events) :
    event.call?.isSome := by
  cases event with
  | account update =>
    obtain ⟨w, hw, -⟩ := (h.wellFormed update hevent).decode fun _ => none
    simp [BufferedEvent.call?, hw]
  | confirmedSlot slot => rfl

/-- The server handles well-formed events as replay calls. -/
theorem serverHandleAll_eq_replay {events : List BufferedEvent}
    (h : ∀ update, .account update ∈ events → update.WellFormed) (state : StateUpdater × Store) :
    serverHandleAll deserialize state events =
      StateUpdater.replay (accountOf deserialize) state (eventCalls events) := by
  induction events generalizing state with
  | nil => rfl
  | cons event events ih =>
    have ih := ih fun update hupdate => h update (List.mem_cons_of_mem _ hupdate)
    cases event with
    | account update =>
      obtain ⟨w, hw, hdecode⟩ := (h update List.mem_cons_self).decode deserialize
      obtain ⟨account, -, -, -, -, hvalue⟩ := SubscribeUpdateAccount.write?_eq_some hw
      have hcall : (BufferedEvent.account update).call? = some (.queue w) := by
        rw [BufferedEvent.call?, hw]
        rfl
      have hstep : serverHandle deserialize state (.account update) =
          StateUpdater.perform (accountOf deserialize) state (.queue w) := by
        rw [serverHandle, hdecode, StateUpdater.perform, hvalue]
        rfl
      rw [eventCalls_cons hcall, serverHandleAll, List.foldl_cons, hstep]
      exact ih _
    | confirmedSlot slot =>
      rw [eventCalls_cons rfl]
      exact ih _

/-- Server and client read the same out of an update, decodable or not. -/
theorem tableOf_eq_accountOf {w : Write Key SubscribeUpdateAccount}
    (hw : w.value.write? = some w) :
    (tableOf deserialize w.value).map some =
      (accountOf deserialize w.value).map fun account =>
        (deserialize account.value.data).map (AddressLookupTableAccount.mk w.key) := by
  obtain ⟨account, haccount, hkey, -⟩ := SubscribeUpdateAccount.write?_eq_some hw
  have hlength : account.pubkey.length = 32 := by
    rw [Key.ofBytes?_eq_some.mp hkey]
    exact w.key.size_toArray
  simp only [tableOf, accountOf, haccount, hkey, Option.bind_some]
  split
  · rfl
  · next hopen =>
    rw [not_or, not_not] at hopen
    rw [Account.fromYellowstone, if_neg (not_not.mpr hopen.2), if_neg (not_not.mpr hlength)]
    cases hdata : deserialize account.data with
    | none => rfl
    | some addresses =>
      change some (some _) = some ((deserialize account.data).map _)
      rw [hdata]
      rfl

end Decode

section Agreement

variable {deserialize : Deserialize} {updater : StateUpdater} {store : Store} {session : Session}
  {events : List BufferedEvent}

/-- A server without pending mutations and versions tracks the empty journal. -/
theorem Aligned.updater_tracks (h : Aligned deserialize updater session) :
    updater.Tracks (accountOf deserialize) (updater.accounts[·]?)
      (.empty updater.bootstrapSlot updater.confirmedSlot) where
  bootstrapSlot := rfl
  confirmedSlot := rfl
  accounts _ := rfl
  pending := h.updaterPending ▸ Buckets.holds_empty ..
  versions _ := h.versions ▸ ExtTreeMap.getElem?_empty

/-- A client aligned with it tracks the empty engine. -/
theorem Aligned.session_tracks (h : Aligned deserialize updater session) :
    session.Tracks deserialize (session.tables[·]?)
      (.empty updater.bootstrapSlot updater.confirmedSlot) where
  bootstrapSlot := h.bootstrapSlot
  confirmedSlot := h.confirmedSlot
  tables _ := rfl
  pending := h.sessionPending ▸ Buckets.holds_empty ..
  staged _ hw := absurd hw List.not_mem_nil

/-- The part of the events handled so far is live too. -/
theorem LiveEvents.of_append {confirmedSlot : ℕ} {first rest : List BufferedEvent}
    (h : LiveEvents confirmedSlot (first ++ rest)) : LiveEvents confirmedSlot first where
  wellFormed update hupdate := h.wellFormed update (List.mem_append_left rest hupdate)
  above before update after heq := h.above before update (after ++ rest) (by simp [heq])
  increasing := by
    have hincreasing := h.increasing
    rw [eventCalls_append, delivered_append] at hincreasing
    exact (List.pairwise_append.mp hincreasing).1

/-- Tracked by the same engine, the tables agree with the server's accounts. -/
theorem Aligned.agrees_after (h : Aligned deserialize updater session)
    (hlive : LiveEvents updater.confirmedSlot events) {session' : Session}
    (htracks : session'.Tracks deserialize (session.tables[·]?)
      ((Staging.empty updater.bootstrapSlot updater.confirmedSlot).run (eventCalls events))) :
    Agrees deserialize (serverHandleAll deserialize (updater, store) events).1.accounts
      session'.tables := by
  intro k
  have hserver := h.updater_tracks.replay store (eventCalls events)
  have hsame := Journal.toStaging_run (j := .empty updater.bootstrapSlot updater.confirmedSlot)
    (fun _ _ a ha => absurd ha List.not_mem_nil) hlive.increasing
  rw [serverHandleAll_eq_replay hlive.wellFormed, hserver.accounts, htracks.tables, hsame]
  change Option.map some (Staging.current _ _ (Staging.run (.empty _ _) _) k) =
    Option.map _ (Staging.current _ _ (Staging.run (.empty _ _) _) k)
  rw [Staging.current, Staging.current, Staging.latest]
  cases hlast : (ofKey k ((Staging.empty updater.bootstrapSlot updater.confirmedSlot).run
      (eventCalls events)).applied).getLast? with
  | none => exact h.agrees k
  | some w =>
    obtain ⟨hw, rfl⟩ := mem_ofKey.mp (List.mem_of_getLast? hlast)
    exact tableOf_eq_accountOf (update_of_mem_accepted rfl (List.mem_append_left _ hw)).2.1

/-- If nothing undecodable is confirmed, then not up to any point of the events either. -/
theorem NoneConfirmedUndecodable.of_append {bootstrapSlot confirmedSlot : ℕ}
    {first rest : List BufferedEvent}
    (h : NoneConfirmedUndecodable deserialize bootstrapSlot confirmedSlot (first ++ rest)) :
    NoneConfirmedUndecodable deserialize bootstrapSlot confirmedSlot first := by
  intro update hupdate hfloor hbad
  refine lt_of_le_of_lt ?_ (h update (List.mem_append_left _ hupdate) hfloor hbad)
  rw [eventCalls_append, confirmedBy_append]
  exact le_confirmedBy _ _

/-- While no undecodable update is confirmed the client meets no error. -/
theorem Aligned.handleAll_ok (h : Aligned deserialize updater session)
    (hlive : LiveEvents updater.confirmedSlot events)
    (hnone : NoneConfirmedUndecodable deserialize updater.bootstrapSlot updater.confirmedSlot
      events) :
    ∃ session', session.handleAll deserialize false events = (.ok (), session') ∧
      session'.Tracks deserialize (session.tables[·]?)
        ((Staging.empty updater.bootstrapSlot updater.confirmedSlot).run (eventCalls events)) := by
  induction events using List.reverseRecOn with
  | nil => exact ⟨session, rfl, h.session_tracks⟩
  | append_singleton events event ih =>
    obtain ⟨between, hbetween, htracks⟩ := ih hlive.of_append hnone.of_append
    obtain ⟨risen, session', hhandle⟩ : ∃ risen session',
        between.handle deserialize false event = (.ok risen, session') := by
      refine htracks.handle_ok (fun update hupdate => ?_) fun s hs w hw hws hbad => ?_
      · subst hupdate
        rw [Staging.confirmed_run]
        exact hlive.above events update [] rfl
      · subst hs
        -- a released update that is undecodable would be confirmed by this event
        obtain ⟨hupdate, -, hslot, hfloor⟩ :=
          update_of_mem_accepted rfl (List.mem_append_right _ hw)
        have hlater := hnone w.value (List.mem_append_left _ hupdate) (hslot ▸ hfloor) hbad
        have hle : s ≤ confirmedBy updater.confirmedSlot
            (eventCalls (events ++ [.confirmedSlot s])) :=
          le_confirmedBy_of_mem _ (by simp [eventCalls, BufferedEvent.call?])
        omega
    obtain ⟨call, hcall⟩ := Option.isSome_iff_exists.mp
      (hlive.call?_isSome event (List.mem_append_right _ List.mem_cons_self))
    refine ⟨session', (Session.handleAll_append_ok events [event]).mpr ⟨between, hbetween,
      (Session.handleAll_cons_ok event []).mpr ⟨risen, session', hhandle, rfl⟩⟩, ?_⟩
    rw [eventCalls_append, eventCalls_cons hcall, Staging.run_append]
    exact htracks.handle hcall hhandle

/-- An event handled without error applies nothing undecodable. -/
theorem Session.Tracks.applied_decodable {st : Staging Key SubscribeUpdateAccount}
    {base : Address → Option AddressLookupTableAccount} {event : BufferedEvent}
    {call : Call Key SubscribeUpdateAccount} {recovering risen : Bool} {after : Session}
    (h : session.Tracks deserialize base st) (hcall : event.call? = some call)
    (hok : session.handle deserialize recovering event = (.ok risen, after))
    (happlied : ∀ w ∈ st.applied, ¬ Undecodable deserialize w.value) :
    ∀ w ∈ (st.call call).applied, ¬ Undecodable deserialize w.value := by
  cases event with
  | account update =>
    obtain ⟨v, -, rfl⟩ := Option.map_eq_some_iff.mp hcall
    intro w hw
    apply happlied w
    change w ∈ (st.queue v).applied at hw
    unfold Staging.queue at hw
    split at hw <;> exact hw
  | confirmedSlot s =>
    cases hcall
    obtain ⟨-, -, hdecodes⟩ := h.of_confirm_ok hok
    intro w hw
    change w ∈ (st.confirm s).applied at hw
    unfold Staging.confirm at hw
    split at hw
    · next hlt =>
      rcases List.mem_append.mp hw with hw | hw
      · exact happlied w hw
      · simp only [mem_bySlot, List.mem_filter, decide_eq_true_eq] at hw
        exact hdecodes hlt w hw.1 hw.2
    · exact happlied w hw

/-- Client and server agree after every live event exactly when no undecodable update at or
above the bootstrap slot is confirmed. -/
theorem inAgreement_iff (h : Aligned deserialize updater session)
    (hlive : LiveEvents updater.confirmedSlot events) :
    InAgreement deserialize updater store session events ↔
      NoneConfirmedUndecodable deserialize updater.bootstrapSlot updater.confirmedSlot events := by
  constructor
  · intro hagree update hupdate hfloor hbad
    obtain ⟨session', hok, -⟩ := hagree events [] (List.append_nil _).symm
    obtain ⟨w, hwrite, -⟩ := (hlive.wellFormed update hupdate).decode deserialize
    obtain ⟨account, -, -, hslot, -, hvalue⟩ := SubscribeUpdateAccount.write?_eq_some hwrite
    have hcalls := hlive.call?_isSome
    obtain ⟨-, hswept⟩ := h.session_tracks.swept_handleAll (fun w hw => absurd hw List.not_mem_nil)
      hcalls hok
    obtain ⟨-, happlied⟩ := h.session_tracks.handleAll_of_step
      Session.Tracks.applied_decodable hcalls hok fun w hw => absurd hw List.not_mem_nil
    have hkept : w ∈ ((Staging.empty updater.bootstrapSlot updater.confirmedSlot).run
        (eventCalls events)).accepted :=
      Staging.mem_accepted_run.mpr (Or.inr
        ⟨mem_delivered_eventCalls.mpr ⟨update, hupdate, hwrite⟩, hslot.symm ▸ hfloor⟩)
    rcases List.mem_append.mp hkept with hw | hw
    · exact (happlied w hw (hvalue.symm ▸ hbad)).elim
    · have hlt := hswept w hw
      rw [Staging.confirmed_run, hslot] at hlt
      exact hlt
  · rintro hnone first rest rfl
    obtain ⟨session', hok, htracks⟩ := h.handleAll_ok hlive.of_append hnone.of_append
    exact ⟨session', hok, h.agrees_after hlive.of_append htracks⟩

end Agreement

/-- A server updater over an empty state fetched at slot 5. -/
def freshUpdater : StateUpdater := .fromFetchedAltState "rpc" ⟨5, ∅⟩

/-- A client session over an empty snapshot of slot 5. -/
def freshSession : Session := .start 0 5 ∅

/-- They start alike. -/
theorem aligned_fresh (deserialize : Deserialize) :
    Aligned deserialize freshUpdater freshSession where
  bootstrapSlot := rfl
  confirmedSlot := rfl
  updaterPending := rfl
  versions := rfl
  sessionPending := rfl
  agrees k := by simp [freshUpdater, freshSession, StateUpdater.fromFetchedAltState, Session.start]

/-- A table is created in slot 6, which is then confirmed. -/
def createdTable : List BufferedEvent :=
  [.account (.sample (.filled 1) 6 1 1), .confirmedSlot 6]

/-- The replay calls of these events. -/
theorem eventCalls_createdTable :
    eventCalls createdTable =
      [.queue ⟨.filled 1, 6, 1, .sample (.filled 1) 6 1 1⟩, .confirm 6] := by
  simp [createdTable, eventCalls, BufferedEvent.call?, SubscribeUpdateAccount.write?_sample]

/-- The events are live. -/
theorem createdTable_live : LiveEvents 5 createdTable where
  wellFormed update hupdate := by
    obtain rfl : update = .sample (.filled 1) 6 1 1 := by simpa [createdTable] using hupdate
    exact ⟨_, rfl, rfl, rfl⟩
  above first update rest heq := by
    rcases first with _ | ⟨event, _ | ⟨event', first⟩⟩
    · obtain ⟨rfl, -⟩ : update = .sample (.filled 1) 6 1 1 ∧ _ := by
        simpa [createdTable, eq_comm] using heq
      decide
    · simp [createdTable] at heq
    · simp [createdTable] at heq
  increasing := by
    rw [eventCalls_createdTable]
    exact List.pairwise_singleton _ _

/-- Client and server agree while the table's data decodes. -/
theorem createdTable_inAgreement :
    InAgreement (fun _ => some []) freshUpdater Store.new freshSession createdTable :=
  (inAgreement_iff (aligned_fresh _) createdTable_live).mpr fun _ _ _ hbad => by
    obtain ⟨_, _, _, _, hdata⟩ := hbad
    cases hdata

/-- When the data is not a table, the client fails at the confirmation. -/
theorem createdTable_not_inAgreement :
    Aligned (fun _ => none) freshUpdater freshSession ∧ LiveEvents 5 createdTable ∧
      (freshSession.handleAll (fun _ => none) false createdTable).1 =
        .error "invalid ALT account" ∧
      ¬ InAgreement (fun _ => none) freshUpdater Store.new freshSession createdTable := by
  have hfails : (freshSession.handleAll (fun _ => none) false createdTable).1 =
      .error "invalid ALT account" := by decide +kernel
  refine ⟨aligned_fresh _, createdTable_live, hfails, fun hagree => ?_⟩
  obtain ⟨session', hok, -⟩ := hagree createdTable [] rfl
  rw [hok] at hfails
  cases hfails

end AltCache
