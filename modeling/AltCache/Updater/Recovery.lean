import AltCache.Updater
import AltCache.StateUpdater.Refinement

/-!
# What a recovery ends with

A bootstrap and a background refresh recover in the same way: buffered events are replayed
into the fetched state and the result is published once. Nothing is published while the
replay runs. The recovered slot and accounts are given here by the fetched state and the
buffered events alone.
-/

namespace AltCache

open AltCache.Replay

/-- The replay call an event makes. -/
def StateEvent.call : StateEvent → Call Key (Option Account)
  | .account key slot writeVersion value => .queue ⟨key, slot, writeVersion, value⟩
  | .confirmedSlot slot => .confirm slot

/-- The replay calls of a list of events. -/
def calls (events : List StateEvent) : List (Call Key (Option Account)) :=
  events.map StateEvent.call

@[simp] theorem calls_nil : calls [] = [] := rfl

@[simp] theorem calls_append (first second : List StateEvent) :
    calls (first ++ second) = calls first ++ calls second :=
  List.map_append

@[simp] theorem calls_singleton (event : StateEvent) : calls [event] = [event.call] := rfl

/-- The slot confirmed at the end of a replay. -/
def replayedSlot (fetched : FetchedAltState) (events : List StateEvent) : ℕ :=
  confirmedBy fetched.contextSlot (calls events)

/-- The account of a key at the end of a replay: that of its last admitted update up to the
replayed slot, or the fetched one if no update was admitted. -/
def replayedAccount (fetched : FetchedAltState) (events : List StateEvent) (k : Key) :
    Option Account :=
  (((ofKey k (admitted fetched.contextSlot (delivered (calls events)))).filter
    (·.slot ≤ replayedSlot fetched events)).getLast?).elim fetched.accounts[k]? Write.value

/-- Applying an event performs its call. -/
theorem applyStateEvent_eq_perform (event : StateEvent) (updater : StateUpdater) (store : Store) :
    applyStateEvent event updater store =
      StateUpdater.perform id (updater, store) event.call := by
  cases event <;> rfl

/-- Applying events performs their calls. -/
theorem applyStateEvents_eq_replay (events : List StateEvent) (updater : StateUpdater)
    (store : Store) :
    applyStateEvents events updater store =
      StateUpdater.replay id (updater, store) (calls events) := by
  induction events using List.reverseRecOn with
  | nil => rfl
  | append_singleton events event ih =>
    rw [applyStateEvents, List.foldl_concat, ← applyStateEvents, ih, applyStateEvent_eq_perform,
      calls_append, StateUpdater.replay, StateUpdater.replay, List.foldl_append]
    rfl

/-- An event applied during recovery leaves the updater recovering under the same URL and
publishes nothing. -/
theorem applyStateEvent_recovering {updater : StateUpdater} (h : updater.recovering = true)
    (event : StateEvent) (store : Store) :
    (applyStateEvent event updater store).1.recovering = true ∧
      (applyStateEvent event updater store).1.activeYellowstoneUrl =
        updater.activeYellowstoneUrl ∧
      (applyStateEvent event updater store).2 = store := by
  cases event with
  | account key slot version account =>
    unfold applyStateEvent StateUpdater.queue
    dsimp only
    split <;> exact ⟨h, rfl, rfl⟩
  | confirmedSlot slot =>
    simp only [applyStateEvent, StateUpdater.confirm, StateUpdater.applyPendingThrough_eq, h]
    split
    · exact ⟨h, rfl, rfl⟩
    · exact ⟨rfl, rfl, rfl⟩

/-- Events applied during recovery leave the updater recovering under the same URL and
publish nothing. -/
theorem applyStateEvents_recovering {updater : StateUpdater} (h : updater.recovering = true)
    (events : List StateEvent) (store : Store) :
    (applyStateEvents events updater store).1.recovering = true ∧
      (applyStateEvents events updater store).1.activeYellowstoneUrl =
        updater.activeYellowstoneUrl ∧
      (applyStateEvents events updater store).2 = store := by
  induction events using List.reverseRecOn with
  | nil => exact ⟨h, rfl, rfl⟩
  | append_singleton events event ih =>
    obtain ⟨hrecovering, hurl, hstore⟩ := ih
    have hstep := applyStateEvent_recovering hrecovering event
      (applyStateEvents events updater store).2
    rw [applyStateEvents, List.foldl_concat]
    exact ⟨hstep.1, hstep.2.1.trans hurl, hstep.2.2.trans hstore⟩

section Recover

variable (url : String) (fetched : FetchedAltState) (buffered : List StateEvent) (store : Store)

/-- A recovery performs the buffered calls and settles. -/
theorem recoverAltState_eq_replay :
    recoverAltState url fetched buffered store =
      StateUpdater.replay id (.fromFetchedAltState url fetched, store)
        (calls buffered ++ [.settle]) := by
  rw [recoverAltState, applyStateEvents_eq_replay, StateUpdater.replay, StateUpdater.replay,
    List.foldl_concat]
  rfl

/-- A recovered updater tracks the journal of its buffered calls. -/
theorem recoverAltState_tracks :
    (recoverAltState url fetched buffered store).1.Tracks id (fetched.accounts[·]?)
      ((Journal.start fetched.contextSlot).run (calls buffered ++ [.settle])) := by
  rw [recoverAltState_eq_replay]
  exact (StateUpdater.tracks_start id url fetched).replay store _

/-- A recovery publishes once, and what it publishes is the recovered updater's state. -/
theorem recoverAltState_store :
    (recoverAltState url fetched buffered store).2 =
      store.publish url (recoverAltState url fetched buffered store).1.confirmedSlot
        (recoverAltState url fetched buffered store).1.accounts := by
  have hfresh : (StateUpdater.fromFetchedAltState url fetched).recovering = true := rfl
  obtain ⟨-, hurl, hstore⟩ := applyStateEvents_recovering hfresh buffered store
  simp only [recoverAltState, StateUpdater.finishRecovery, StateUpdater.applyPendingThrough_eq,
    hurl, hstore]
  rfl

/-- A recovered updater keeps the fetched context slot as its bootstrap slot. -/
@[simp] theorem bootstrapSlot_recoverAltState :
    (recoverAltState url fetched buffered store).1.bootstrapSlot = fetched.contextSlot :=
  (recoverAltState_tracks url fetched buffered store).bootstrapSlot.trans (Journal.floor_run _ _)

/-- A recovery ends at the largest of the context slot and the buffered confirmed slots. -/
theorem confirmedSlot_recoverAltState :
    (recoverAltState url fetched buffered store).1.confirmedSlot =
      replayedSlot fetched buffered := by
  rw [(recoverAltState_tracks url fetched buffered store).confirmedSlot, Journal.confirmed_run,
    confirmedBy_append]
  rfl

/-- The accounts a recovery ends with are the replayed ones. -/
theorem getElem?_recoverAltState (k : Key) :
    (recoverAltState url fetched buffered store).1.accounts[k]? =
      replayedAccount fetched buffered k := by
  rw [(recoverAltState_tracks url fetched buffered store).accounts, Staging.current,
    Staging.latest, (Journal.swept_run_settle _ _).ofKey_applied, Journal.ofKey_accepted_run,
    Journal.confirmed_run, confirmedBy_append, delivered_append]
  change ((List.filter _ (ofKey k (admitted _ (_ ++ [])))).getLast?).elim _ _ = _
  rw [List.append_nil]
  rfl

end Recover

/-- If no update of a key above the replayed slot arrived before one up to it, the replayed
account is that of the key's newest update between the context slot and the replayed slot. -/
theorem replayedAccount_eq_newest {fetched : FetchedAltState} {events : List StateEvent} {k : Key}
    (harrival : (ofKey k (delivered (calls events))).Pairwise fun a b =>
      replayedSlot fetched events < a.slot → replayedSlot fetched events < b.slot) :
    replayedAccount fetched events k =
      (newest k ((delivered (calls events)).filter fun w =>
        fetched.contextSlot ≤ w.slot ∧ w.slot ≤ replayedSlot fetched events)).elim
          fetched.accounts[k]? Write.value := by
  rw [replayedAccount, ofKey_admitted_filter_le harrival, getLast?_ofKey_admitted,
    List.filter_filter]
  congr 3
  funext w
  simp

end AltCache
