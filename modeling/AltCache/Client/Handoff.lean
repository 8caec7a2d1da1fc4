import AltCache.Client.Refinement
import AltCache.Replay.Ledger

/-!
# From a downloaded snapshot to the live stream

A Yellowstone source that subscribed when its node had confirmed slot `x` delivers the
ledger from slot `x + 1` on; the snapshot is of a slot `b` of its server's own choosing.
The writes in between, if the server lags behind the node, reach the client by neither way.
If each of them is superseded in time, and the buffer does not stop inside slot `b`, the
tables are the ledger's state at the confirmed slot from the start on.
-/

namespace AltCache

open AltCache.Replay

/-- Stream messages whose events make exactly these calls. -/
def Delivers (updates : List UpdateOneof) (calls : List (Call Key SubscribeUpdateAccount)) : Prop :=
  (streamEvents updates).map BufferedEvent.call? = calls.map some

/-- Every write after slot `b` up to slot `x` is superseded by a write after `x`, before any
slot after `x` is confirmed. -/
def Bridged (ledger : Ledger Key SubscribeUpdateAccount) (b x : ℕ) : Prop :=
  ∀ w ∈ ledger.writes, b < w.slot → w.slot ≤ x → ∀ s, .confirm s ∈ ledger.streamFrom (x + 1) →
    ∃ v ∈ ledger.writes, v.key = w.key ∧ x < v.slot ∧ v.slot ≤ s

variable {ledger : Ledger Key SubscribeUpdateAccount} {deserialize : Deserialize} {b x : ℕ}
  {updates received following : List UpdateOneof}
  {calls seen next rest : List (Call Key SubscribeUpdateAccount)}

/-- Delivered calls are those of the events. -/
theorem Delivers.eventCalls_eq (h : Delivers updates calls) :
    eventCalls (streamEvents updates) = calls := by
  have hmap := congrArg (List.filterMap id) h
  simpa [List.filterMap_map, eventCalls, Function.comp_def] using hmap

/-- A source that delivers calls sends no malformed update. -/
theorem Delivers.call?_isSome (h : Delivers updates calls) (event : BufferedEvent)
    (hevent : event ∈ streamEvents updates) : event.call?.isSome := by
  have hmem := List.mem_map_of_mem (f := BufferedEvent.call?) hevent
  rw [h] at hmem
  obtain ⟨call, -, hcall⟩ := List.mem_map.mp hmem
  rw [← hcall]
  rfl

/-- A stream that bridges the gap covers everything after the snapshot. -/
theorem Bridged.covered (h : Bridged ledger b x) :
    ledger.Covered b (ledger.streamFrom (x + 1)) := by
  intro s hs w hw hb hws
  by_cases hx : x < w.slot
  · exact ⟨w, mem_delivered.mpr (Ledger.queue_mem_streamFrom.mpr ⟨hw, hx⟩), rfl, le_rfl, hws⟩
  · obtain ⟨v, hv, hkey, hxv, hvs⟩ := h w hw hb (not_lt.mp hx) s hs
    exact ⟨v, mem_delivered.mpr (Ledger.queue_mem_streamFrom.mpr ⟨hv, hxv⟩), hkey,
      (Write.tag_lt_of_slot_lt (by omega)).le, hvs⟩

/-- The handoff is exact: over an exact snapshot, a stream that bridges the gap, and a buffer
that does not stop inside the snapshot's slot, an established session that follows the stream
without error has the ledger's decoded state at its confirmed slot. -/
theorem client_handoff_exact {snapshot : ℕ × Tables} {sourceIndex confirmedSlot : ℕ}
    {session session' : Session}
    (hstream : ledger.streamFrom (x + 1) = seen ++ (next ++ rest))
    (hreceived : Delivers received seen) (hfollowing : Delivers following next)
    (hexact : ∀ k : Address,
      snapshot.2[k]? = ledger.chain.stateAt (tableOf deserialize) snapshot.1 k)
    (hbridged : Bridged ledger snapshot.1 x)
    (hwhole : Ledger.Whole snapshot.1 seen (next ++ rest))
    (hestablish : establishSessionFromSource deserialize sourceIndex received (.ok snapshot) =
      .ok session)
    (hfollow : follow deserialize session session.confirmedSlot following =
      (.ok (), session', confirmedSlot)) :
    ∀ k : Address,
      session'.tables[k]? = ledger.chain.stateAt (tableOf deserialize) session'.confirmedSlot k := by
  obtain ⟨downloaded, hdownloaded, hreplay⟩ := replayBuffered_of_establish hestablish
  cases hdownloaded
  have hlive := follow_eq_handleAll deserialize session session.confirmedSlot following
  rw [hfollow] at hlive
  have hevents : ∀ event ∈ streamEvents received ++ streamEvents following,
      event.call?.isSome := fun event hevent =>
    (List.mem_append.mp hevent).elim (hreceived.call?_isSome event)
      (hfollowing.call?_isSome event)
  obtain ⟨htracks, hswept, habove⟩ := tracks_sessionCalls hevents hreplay hlive.symm
  rw [hreceived.eventCalls_eq, hfollowing.eventCalls_eq] at habove
  rw [sessionCalls, hreceived.eventCalls_eq, hfollowing.eventCalls_eq] at htracks hswept
  have hdelivered : delivered (seen ++ .settle :: next) = delivered (seen ++ next) := by
    rw [delivered_append, delivered_settle_cons, delivered_append]
  have hstretch : ledger.streamFrom (x + 1) = [] ++ ((seen ++ next) ++ rest) := by
    rw [hstream, List.nil_append, List.append_assoc]
  have hjournal : ((Journal.start snapshot.1).run (seen ++ .settle :: next)).toStaging =
      (Staging.start snapshot.1).run (seen ++ .settle :: next) := by
    refine Journal.toStaging_run (fun _ _ a ha => absurd ha List.not_mem_nil) ?_
    rw [hdelivered]
    exact (Ledger.pairwise_delivered hstretch).imp And.right
  have hslot : session'.confirmedSlot = confirmedBy snapshot.1 (seen ++ next) := by
    rw [htracks.confirmedSlot, Staging.confirmed_run, confirmedBy_append, confirmedBy_settle_cons,
      confirmedBy_append]
    rfl
  have hwholeNow : Ledger.Whole snapshot.1 (seen ++ next) rest := by
    intro v hv hvslot w hw hkey
    rw [delivered_append] at hv
    rcases List.mem_append.mp hv with hv | hv
    · refine hwhole v hv hvslot w ?_ hkey
      rw [delivered_append]
      exact List.mem_append_right _ hw
    · have hlt := habove v hv hvslot.ge
      have hle := le_confirmedBy snapshot.1 seen
      omega
  intro k
  rw [htracks.tables, funext hexact, ← hjournal, hslot]
  refine Ledger.handover_exact hstretch ?_ hwholeNow hdelivered ?_ (hjournal ▸ hswept) rfl
  · rw [List.nil_append] at hstretch
    exact hstretch ▸ hbridged.covered
  · rw [confirmedBy_append, confirmedBy_settle_cons, confirmedBy_append]

/-- A table created in slot 5, and an empty slot 6. -/
def createdAtFive : Ledger Key SubscribeUpdateAccount :=
  .pair (.single ⟨.filled 1, 5, 1, .sample (.filled 1) 5 1 1⟩) (.empty 6) (by decide)

/-- The session that follows the ledger from slot 6 on, over a snapshot taken before. -/
def followedFrom (snapshot : ℕ × Tables) : Except String Session :=
  (establishSessionFromSource (fun _ => some []) 0 [] (.ok snapshot)).bind fun session =>
    match follow (fun _ => some []) session session.confirmedSlot [.slot 6 slotConfirmed] with
    | (.error error, _) => .error error
    | (.ok (), session', _) => .ok session'

/-- What the source delivers then, which the session receives. -/
theorem streamFrom_createdAtFive :
    createdAtFive.streamFrom (5 + 1) = [] ++ ([.confirm 6] ++ []) := rfl

theorem delivers_six : Delivers [.slot 6 slotConfirmed] [.confirm 6] := rfl

/-- That session is followed without error. -/
theorem exists_of_followedFrom {snapshot : ℕ × Tables} {session' : Session}
    (h : followedFrom snapshot = .ok session') :
    ∃ session confirmedSlot,
      establishSessionFromSource (fun _ => some []) 0 [] (.ok snapshot) = .ok session ∧
        follow (fun _ => some []) session session.confirmedSlot [.slot 6 slotConfirmed] =
          (.ok (), session', confirmedSlot) := by
  unfold followedFrom at h
  cases hestablish : establishSessionFromSource (fun _ => some []) 0 [] (.ok snapshot) with
  | error error => simp [hestablish, Except.bind] at h
  | ok session =>
    rw [hestablish] at h
    change (match follow _ _ _ _ with | (.error error, _) => _ | (.ok (), session', _) => _) = _ at h
    split at h
    · cases h
    · next session'' confirmedSlot hfollow =>
      cases h
      exact ⟨session, confirmedSlot, rfl, hfollow⟩

/-- The snapshot of slot 5. -/
def snapshotAtFive : ℕ × Tables := (5, (∅ : Tables).insert (.filled 1) ⟨.filled 1, []⟩)

/-- It is exact. -/
theorem snapshotAtFive_exact (k : Address) :
    snapshotAtFive.2[k]? = createdAtFive.chain.stateAt (tableOf fun _ => some []) 5 k := by
  by_cases hk : Key.filled 1 = k
  · subst hk
    decide +kernel
  · simp [snapshotAtFive, createdAtFive, Ledger.chain, Chain.stateAt,
      Chain.newestAt, newest, ofKey, hk]

/-- From the snapshot of slot 5 the session gets to the state of slot 6. -/
theorem createdAtFive_handoff :
    ∃ session', followedFrom snapshotAtFive = .ok session' ∧ ∀ k : Address,
      session'.tables[k]? =
        createdAtFive.chain.stateAt (tableOf fun _ => some []) session'.confirmedSlot k := by
  have hsucceeds : ((followedFrom snapshotAtFive).toOption.map Session.confirmedSlot) = some 6 := by
    decide +kernel
  obtain ⟨session', hok, -⟩ := exists_ok_of_map_toOption hsucceeds
  obtain ⟨session, confirmedSlot, hestablish, hfollow⟩ := exists_of_followedFrom hok
  have hslots : ∀ w ∈ createdAtFive.writes, ¬ 5 < w.slot := by decide +kernel
  exact ⟨session', hok, client_handoff_exact streamFrom_createdAtFive (rfl : Delivers [] [])
    delivers_six snapshotAtFive_exact (fun w hw hlt => absurd hlt (hslots w hw))
    (fun v hv => absurd hv List.not_mem_nil) hestablish hfollow⟩

/-- A snapshot server that lags behind the node loses the table for good. -/
theorem laggingSnapshot_loses_table :
    (∀ k : Address, (∅ : Tables)[k]? =
        createdAtFive.chain.stateAt (tableOf fun _ => some []) 4 k) ∧
      createdAtFive.streamFrom (5 + 1) = [] ++ ([.confirm 6] ++ []) ∧
      Delivers [.slot 6 slotConfirmed] [.confirm 6] ∧
      ∃ session', followedFrom (4, ∅) = .ok session' ∧ session'.confirmedSlot = 6 ∧
        ¬ ∀ k : Address, session'.tables[k]? =
          createdAtFive.chain.stateAt (tableOf fun _ => some []) 6 k := by
  refine ⟨fun k => Std.ExtTreeMap.getElem?_empty, streamFrom_createdAtFive, delivers_six, ?_⟩
  have hserved : ((followedFrom (4, ∅)).toOption.map fun session =>
      (session.confirmedSlot, session.tables[Key.filled 1]?)) = some (6, none) := by decide +kernel
  obtain ⟨session', hok, hsession'⟩ := exists_ok_of_map_toOption hserved
  obtain ⟨hconfirmed, htable⟩ := Prod.mk.inj hsession'
  refine ⟨session', hok, hconfirmed, fun hexact => ?_⟩
  have hstate : createdAtFive.chain.stateAt (tableOf fun _ => some []) 6 (.filled 1) ≠ none := by
    decide +kernel
  exact hstate ((hexact (.filled 1)).symm.trans htable)

end AltCache
