import AltCache.Client.Refinement
import AltCache.Replay.Arrival

/-!
# The newest write on a client

A session records no versions. What it serves is the newest write of each key as long as
every update arrives in time: before a newer one of its key was applied, or queued in the
same slot.
-/

namespace AltCache

open AltCache.Replay

/-- Every key touched by an update between the snapshot's slot and the confirmed slot has the
table of a newest such update; every other key has the snapshot's. -/
structure NewestWins (deserialize : Deserialize) (snapshot : ℕ × Tables)
    (events : List BufferedEvent) (session : Session) : Prop where
  touched : ∀ w ∈ delivered (eventCalls events), snapshot.1 ≤ w.slot →
    w.slot ≤ session.confirmedSlot →
    ∃ v ∈ delivered (eventCalls events), v.key = w.key ∧ snapshot.1 ≤ v.slot ∧
      v.slot ≤ session.confirmedSlot ∧ session.tables[w.key]? = tableOf deserialize v.value ∧
      ∀ a ∈ delivered (eventCalls events), a.key = w.key → a.slot ≤ session.confirmedSlot →
        a.tag ≤ v.tag
  untouched : ∀ k : Address, (∀ w ∈ delivered (eventCalls events), w.key = k →
    snapshot.1 ≤ w.slot → session.confirmedSlot < w.slot) → session.tables[k]? = snapshot.2[k]?

/-- The updates a session applies when it handles an event, in order. -/
def Session.appliedBy (session : Session) : BufferedEvent → List SubscribeUpdateAccount
  | .account _ => []
  | .confirmedSlot slot =>
    if slot ≤ session.confirmedSlot then [] else session.pending.through slot

/-- The updates a session applies while it handles events, in order. -/
def Session.appliedByAll (deserialize : Deserialize) (recovering : Bool) :
    Session → List BufferedEvent → List SubscribeUpdateAccount
  | _, [] => []
  | session, event :: events => session.appliedBy event ++
    appliedByAll deserialize recovering (session.handle deserialize recovering event).2 events

/-- The updates applied from the snapshot on: replaying the buffer, finishing the replay, and
following the live events. -/
def appliedUpdates (deserialize : Deserialize) (sourceIndex : ℕ) (snapshot : ℕ × Tables)
    (buffered live : List BufferedEvent) : List SubscribeUpdateAccount :=
  let session := Session.start sourceIndex snapshot.1 snapshot.2
  let replayed := (session.handleAll deserialize true buffered).2
  let settled := (replayed.applyPendingThrough deserialize replayed.confirmedSlot).2
  session.appliedByAll deserialize true buffered ++
    (replayed.pending.through replayed.confirmedSlot ++
      settled.appliedByAll deserialize false live)

/-- No key is put back to an older update. -/
def NeverRolledBack (updates : List SubscribeUpdateAccount) : Prop :=
  (updates.filterMap SubscribeUpdateAccount.write?).Pairwise fun a b => a.key = b.key → a.tag ≤ b.tag

/-- Every update at or above the snapshot's slot arrives in time. -/
def OnTime (slot : ℕ) (calls : List (Call Key SubscribeUpdateAccount)) : Prop :=
  ∀ first w rest, calls = first ++ .queue w :: rest → slot ≤ w.slot →
    ((Staging.start slot).run first).Timely w

section Newest

variable {deserialize : Deserialize} {snapshot : ℕ × Tables} {session : Session}
  {base : Address → Option AddressLookupTableAccount} {st : Staging Key SubscribeUpdateAccount}
  {calls : List (Call Key SubscribeUpdateAccount)} {events buffered live : List BufferedEvent}

/-- If every update so far arrived in time, the engine applies each key oldest first. -/
theorem OnTime.ordered (h : OnTime snapshot.1 calls) {rest : List (Call Key SubscribeUpdateAccount)}
    {first : List (Call Key SubscribeUpdateAccount)} (hcalls : calls = first ++ rest) :
    ((Staging.start snapshot.1).run first).Ordered := by
  refine Staging.ordered_run_iff.mpr ⟨List.Pairwise.nil, fun before w after heq hfloor => ?_⟩
  exact h before w (after ++ rest) (by simp [hcalls, heq]) hfloor

/-- In order, and with nothing confirmed pending, the session has the newest update of each key. -/
theorem Session.Tracks.newestWins
    (h : session.Tracks deserialize (snapshot.2[·]?) ((Staging.start snapshot.1).run calls))
    (hcalls : delivered calls = delivered (eventCalls events))
    (hordered : ((Staging.start snapshot.1).run calls).Ordered)
    (hswept : ((Staging.start snapshot.1).run calls).Swept) :
    NewestWins deserialize snapshot events session := by
  have hkept {w : Write Key SubscribeUpdateAccount} :
      w ∈ ((Staging.start snapshot.1).run calls).accepted ↔
        w ∈ delivered (eventCalls events) ∧ snapshot.1 ≤ w.slot := by
    rw [← hcalls]
    exact Staging.mem_accepted_run.trans (or_iff_right List.not_mem_nil)
  constructor
  · intro w hw hfloor hslot
    rw [h.confirmedSlot] at hslot ⊢
    obtain ⟨v, hv, hlatest, hvk, hvs, hmax⟩ := hordered.latest hswept (hkept.mpr ⟨hw, hfloor⟩) hslot
    obtain ⟨hv, hvfloor⟩ := hkept.mp hv
    refine ⟨v, hv, hvk, hvfloor, hvs, ?_, fun a ha hak has => ?_⟩
    · rw [h.tables, Staging.current, hlatest]
      rfl
    · by_cases hafloor : snapshot.1 ≤ a.slot
      · exact hmax a (hkept.mpr ⟨ha, hafloor⟩) hak has
      · exact (Write.tag_lt_of_slot_lt (by omega)).le
  · intro k hnone
    rw [h.confirmedSlot] at hnone
    rw [h.tables, Staging.current, Staging.latest]
    cases hlast : (ofKey k ((Staging.start snapshot.1).run calls).applied).getLast? with
    | none => rfl
    | some v =>
      obtain ⟨hv, hvk⟩ := mem_ofKey.mp (List.mem_of_getLast? hlast)
      obtain ⟨hdelivered, hfloor⟩ := hkept.mp (List.mem_append_left _ hv)
      have hlater := hnone v hdelivered hvk hfloor
      exact absurd (Staging.applied_le _ v hv) (not_le.mpr hlater)

/-- What a session applies for an event is what the engine applies for its call. -/
theorem Session.Tracks.appliedBy (h : session.Tracks deserialize base st) {event : BufferedEvent}
    {call : Call Key SubscribeUpdateAccount} (hcall : event.call? = some call) :
    (st.call call).applied.map Write.value =
      st.applied.map Write.value ++ session.appliedBy event := by
  cases event with
  | account update =>
    obtain ⟨w, -, rfl⟩ := Option.map_eq_some_iff.mp hcall
    change (st.queue w).applied.map _ = _ ++ []
    unfold Staging.queue
    split <;> simp [Staging.push]
  | confirmedSlot s =>
    cases hcall
    change (st.confirm s).applied.map _ =
      _ ++ if s ≤ session.confirmedSlot then [] else session.pending.through s
    unfold Staging.confirm
    rw [h.confirmedSlot]
    by_cases hs : st.confirmed < s
    · rw [dif_pos hs, if_neg (not_le.mpr hs), h.through_pending]
      exact List.map_append
    · rw [dif_neg hs, if_pos (not_lt.mp hs), List.append_nil]

/-- What a session applies for events is what the engine applies for their calls. -/
theorem Session.Tracks.appliedByAll (h : session.Tracks deserialize base st)
    (hevents : ∀ event ∈ events, event.call?.isSome) {recovering : Bool} {session' : Session}
    (hok : session.handleAll deserialize recovering events = (.ok (), session')) :
    (st.run (eventCalls events)).applied.map Write.value =
      st.applied.map Write.value ++ session.appliedByAll deserialize recovering events := by
  induction events generalizing session st with
  | nil => simp [Session.appliedByAll]
  | cons event events ih =>
    obtain ⟨call, hcall⟩ := Option.isSome_iff_exists.mp (hevents event List.mem_cons_self)
    obtain ⟨risen, after, hhandle, hrest⟩ := (Session.handleAll_cons_ok event events).mp hok
    rw [eventCalls_cons hcall, Staging.run_cons, Session.appliedByAll, hhandle,
      ih (h.handle hcall hhandle) (fun e he => hevents e (List.mem_cons_of_mem _ he)) hrest,
      h.appliedBy hcall, List.append_assoc]

/-- The updates applied in a session's life are those the engine applies. -/
theorem map_applied_sessionCalls (hevents : ∀ event ∈ buffered ++ live, event.call?.isSome)
    {sourceIndex : ℕ} {session' : Session}
    (hok : replayBuffered deserialize sourceIndex snapshot buffered = .ok session)
    (hlive : session.handleAll deserialize false live = (.ok (), session')) :
    ((Staging.start snapshot.1).run (sessionCalls buffered live)).applied.map Write.value =
      appliedUpdates deserialize sourceIndex snapshot buffered live := by
  have hbuffered : ∀ event ∈ buffered, event.call?.isSome := fun e he =>
    hevents e (List.mem_append_left _ he)
  have htracks := Session.tracks_replayBuffered hbuffered hok
  have hstart := Session.tracks_start deserialize sourceIndex snapshot.1 snapshot.2
  unfold replayBuffered at hok
  split at hok
  · cases hok
  · next replayed hreplay =>
    split at hok
    · cases hok
    · next settled happly =>
      cases hok
      have hreplayed := hstart.handleAll hbuffered hreplay
      have hfollow := htracks.appliedByAll (fun e he => hevents e (List.mem_append_right _ he)) hlive
      rw [sessionCalls, ← List.singleton_append (l := eventCalls live), ← List.append_assoc,
        Staging.run_append, hfollow, appliedUpdates, hreplay]
      simp only [happly]
      rw [Staging.run_append, Staging.run_singleton, ← List.append_assoc]
      congr 1
      change ((_ : List _) ++ bySlot Write.slot (List.filter _ _)).map Write.value = _
      rw [List.map_append, hstart.appliedByAll hbuffered hreplay, hreplayed.through_pending,
        hreplayed.confirmedSlot]
      rfl

/-- The writes of the updates applied in a session's life are those the engine applies. -/
theorem filterMap_write?_appliedUpdates (hevents : ∀ event ∈ buffered ++ live, event.call?.isSome)
    {sourceIndex : ℕ} {session' : Session}
    (hok : replayBuffered deserialize sourceIndex snapshot buffered = .ok session)
    (hlive : session.handleAll deserialize false live = (.ok (), session')) :
    (appliedUpdates deserialize sourceIndex snapshot buffered live).filterMap
        SubscribeUpdateAccount.write? =
      ((Staging.start snapshot.1).run (sessionCalls buffered live)).applied := by
  rw [← map_applied_sessionCalls hevents hok hlive, List.filterMap_map]
  have hwrites : ∀ w ∈ ((Staging.start snapshot.1).run (sessionCalls buffered live)).applied,
      w.value.write? = some w := fun w hw =>
    (update_of_mem_accepted (delivered_sessionCalls buffered live) (List.mem_append_left _ hw)).2.1
  exact (List.filterMap_congr hwrites).trans List.filterMap_some

/-- The condition is exact: a session that ends with nothing pending and put no key back to an
older update received every update in time. -/
theorem onTime_of_neverRolledBack (hevents : ∀ event ∈ buffered ++ live, event.call?.isSome)
    {sourceIndex : ℕ} {session' : Session}
    (hok : replayBuffered deserialize sourceIndex snapshot buffered = .ok session)
    (hlive : session.handleAll deserialize false live = (.ok (), session'))
    (hpending : session'.pending = ∅)
    (hnever : NeverRolledBack (appliedUpdates deserialize sourceIndex snapshot buffered live)) :
    OnTime snapshot.1 (sessionCalls buffered live) := by
  obtain ⟨htracks, -, -⟩ := tracks_sessionCalls hevents hok hlive
  have hstaged : ((Staging.start snapshot.1).run (sessionCalls buffered live)).staged = [] := by
    apply List.eq_nil_iff_forall_not_mem.mpr
    intro w hw
    have hqueue := htracks.pending.mem_iff.mpr ⟨w, hw, rfl⟩
    rw [hpending] at hqueue
    exact Std.ExtTreeMap.not_mem_empty hqueue
  have hordered : ((Staging.start snapshot.1).run (sessionCalls buffered live)).Ordered := by
    rw [Staging.Ordered, Staging.release, hstaged]
    change (_ ++ []).Pairwise _
    rw [List.append_nil, ← filterMap_write?_appliedUpdates hevents hok hlive]
    exact hnever
  exact (Staging.ordered_run_iff.mp hordered).2

/-- The newest write wins: if every update arrives in time, then after every confirmation that
takes effect while the buffer is replayed, when the session is established, and after every
live event, each key has the value of its newest confirmed update, and no update was ever
applied after a newer one of its key. -/
theorem newest_wins (hevents : ∀ event ∈ buffered ++ live, event.call?.isSome)
    (hontime : OnTime snapshot.1 (sessionCalls buffered live)) (deserialize : Deserialize)
    (sourceIndex : ℕ) :
    (∀ first s rest between after, buffered = first ++ .confirmedSlot s :: rest →
      (Session.start sourceIndex snapshot.1 snapshot.2).handleAll deserialize true first =
        (.ok (), between) →
      between.confirm deserialize s = (.ok true, after) →
      NewestWins deserialize snapshot first after) ∧
    ∀ session session', replayBuffered deserialize sourceIndex snapshot buffered = .ok session →
      session.handleAll deserialize false live = (.ok (), session') →
      NewestWins deserialize snapshot (buffered ++ live) session' ∧
        NeverRolledBack (appliedUpdates deserialize sourceIndex snapshot buffered live) := by
  constructor
  · rintro first s rest between after rfl hfirst hconfirm
    have htracks := (Session.tracks_start deserialize sourceIndex snapshot.1 snapshot.2).handleAll
      (fun e he => hevents e (by simp [he])) hfirst
    obtain ⟨hafter, hrisen, -⟩ := htracks.of_confirm_ok hconfirm
    have hrun : (Staging.start snapshot.1).run (eventCalls first ++ [.confirm s]) =
        ((Staging.start snapshot.1).run (eventCalls first)).confirm s := by
      rw [Staging.run_append]
      rfl
    have hcalls : sessionCalls (first ++ .confirmedSlot s :: rest) live =
        (eventCalls first ++ [.confirm s]) ++ (eventCalls rest ++ .settle :: eventCalls live) := by
      simp [sessionCalls, eventCalls, BufferedEvent.call?]
    apply Session.Tracks.newestWins (hrun ▸ hafter) (by simp) (hontime.ordered hcalls)
    rw [hrun]
    exact Staging.swept_confirm (of_decide_eq_true hrisen.symm)
  · intro session session' hok hlive
    obtain ⟨htracks, hswept, -⟩ := tracks_sessionCalls hevents hok hlive
    have hordered := hontime.ordered (List.append_nil _).symm
    refine ⟨htracks.newestWins (delivered_sessionCalls buffered live) hordered hswept, ?_⟩
    rw [NeverRolledBack, filterMap_write?_appliedUpdates hevents hok hlive]
    exact (List.pairwise_append.mp hordered).1

end Newest

/-- A table is opened in slot 7. -/
def opening : SubscribeUpdateAccount := .sample (.filled 1) 7 1 1

/-- A later version in the same slot closes it. -/
def closing : SubscribeUpdateAccount := .sample (.filled 1) 7 2 0

theorem write?_opening : opening.write? = some ⟨.filled 1, 7, 1, opening⟩ :=
  SubscribeUpdateAccount.write?_sample ..

theorem write?_closing : closing.write? = some ⟨.filled 1, 7, 2, closing⟩ :=
  SubscribeUpdateAccount.write?_sample ..

/-- Both versions in some order, and the confirmation of their slot. -/
def versions (first second : SubscribeUpdateAccount) : List BufferedEvent :=
  [.account first, .account second, .confirmedSlot 7]

/-- A session over an empty snapshot of slot 5 after these events. -/
def replayedVersions (first second : SubscribeUpdateAccount) : Except String Session :=
  replayBuffered (fun _ => some []) 0 (5, ∅) (versions first second)

/-- The replay calls of the events. -/
theorem eventCalls_versions {first second : SubscribeUpdateAccount}
    {v w : Write Key SubscribeUpdateAccount} (hfirst : first.write? = some v)
    (hsecond : second.write? = some w) :
    eventCalls (versions first second) = [.queue v, .queue w, .confirm 7] := by
  simp [versions, eventCalls, BufferedEvent.call?, hfirst, hsecond]

/-- In the order of their versions the newest one wins. -/
theorem orderedVersions_newest_wins :
    ∃ session, replayedVersions opening closing = .ok session ∧
      NewestWins (fun _ => some []) (5, ∅) (versions opening closing) session := by
  have hevents : ∀ event ∈ versions opening closing ++ [], event.call?.isSome := by decide +kernel
  have hordered : ((Staging.start 5).run (sessionCalls (versions opening closing) [])).Ordered := by
    rw [sessionCalls, eventCalls_versions write?_opening write?_closing]
    unfold Staging.Ordered
    decide +kernel
  have hontime : OnTime (5, (∅ : Tables)).1 (sessionCalls (versions opening closing) []) :=
    (Staging.ordered_run_iff.mp hordered).2
  have hsucceeds : (replayedVersions opening closing).toOption.map Session.confirmedSlot =
      some 7 := by decide +kernel
  obtain ⟨session, hok, -⟩ := exists_ok_of_map_toOption hsucceeds
  exact ⟨session, hok,
    ((newest_wins hevents hontime (fun _ => some []) 0).2 session session hok rfl).1⟩

/-- In the other order the older version wins, and the closed table is served. -/
theorem reorderedVersions_older_wins :
    ∃ session, replayedVersions closing opening = .ok session ∧
      ¬ NewestWins (fun _ => some []) (5, ∅) (versions closing opening) session := by
  have hserved : ((replayedVersions closing opening).toOption.map fun session =>
      (session.confirmedSlot, session.tables[Key.filled 1]?)) =
        some (7, some ⟨.filled 1, []⟩) := by decide +kernel
  obtain ⟨session, hok, hsession⟩ := exists_ok_of_map_toOption hserved
  obtain ⟨hconfirmed, htable⟩ := Prod.mk.inj hsession
  refine ⟨session, hok, fun hwins => ?_⟩
  have hdelivered : delivered (eventCalls (versions closing opening)) =
      [⟨.filled 1, 7, 2, closing⟩, ⟨.filled 1, 7, 1, opening⟩] := by
    rw [eventCalls_versions write?_closing write?_opening]
    rfl
  obtain ⟨htouched, -⟩ := hwins
  rw [hdelivered] at htouched
  obtain ⟨v, hv, -, -, -, hvalue, hmax⟩ :=
    htouched ⟨.filled 1, 7, 2, closing⟩ List.mem_cons_self (by decide) hconfirmed.ge
  obtain rfl : v = ⟨.filled 1, 7, 2, closing⟩ := by
    rcases List.mem_cons.mp hv with hv | hv
    · exact hv
    · rw [List.mem_singleton.mp hv] at hmax
      exact absurd (hmax _ List.mem_cons_self rfl hconfirmed.ge) (by decide)
  cases htable.symm.trans hvalue

end AltCache
