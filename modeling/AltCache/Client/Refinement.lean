import AltCache.Client
import AltCache.Replay.Staging

/-!
# The client session refines the staging engine

A session stages raw updates and decodes each one only when its slot is confirmed. As long
as nothing it releases is undecodable it tracks the staging engine: the queues hold the
staged writes, and the tables are the engine's current state over the snapshot. One
undecodable update that is released fails the whole confirmation.
-/

namespace AltCache

open Std (ExtTreeMap)
open AltCache.Replay

/-- The write an update makes, unless its body or its key is malformed. -/
def SubscribeUpdateAccount.write? (update : SubscribeUpdateAccount) :
    Option (Write Key SubscribeUpdateAccount) :=
  update.account.bind fun account =>
    (Key.ofBytes? account.pubkey).map fun key => ⟨key, update.slot, account.writeVersion, update⟩

/-- The table an update leaves under its key. -/
def tableOf (deserialize : Deserialize) (update : SubscribeUpdateAccount) :
    Option AddressLookupTableAccount :=
  update.account.bind fun account =>
    (Key.ofBytes? account.pubkey).bind fun key =>
      if account.lamports = 0 ∨ account.owner ≠ programId.toList then none
      else (deserialize account.data).map (AddressLookupTableAccount.mk key)

/-- An open account of the program whose data is not a table. -/
def Undecodable (deserialize : Deserialize) (update : SubscribeUpdateAccount) : Prop :=
  ∃ account, update.account = some account ∧ account.lamports ≠ 0 ∧
    account.owner = programId.toList ∧ deserialize account.data = none

/-- The replay call an event makes, unless it is malformed. -/
def BufferedEvent.call? : BufferedEvent → Option (Call Key SubscribeUpdateAccount)
  | .account update => update.write?.map .queue
  | .confirmedSlot slot => some (.confirm slot)

/-- The replay calls of a list of events. -/
def eventCalls (events : List BufferedEvent) : List (Call Key SubscribeUpdateAccount) :=
  events.filterMap BufferedEvent.call?

@[simp] theorem eventCalls_nil : eventCalls [] = [] := rfl

@[simp] theorem eventCalls_append (first second : List BufferedEvent) :
    eventCalls (first ++ second) = eventCalls first ++ eventCalls second :=
  List.filterMap_append

/-- An event makes its call before the later events make theirs. -/
theorem eventCalls_cons {event : BufferedEvent} {call : Call Key SubscribeUpdateAccount}
    (h : event.call? = some call) (events : List BufferedEvent) :
    eventCalls (event :: events) = call :: eventCalls events :=
  List.filterMap_cons_some h

/-- The fields of an update's write. -/
theorem SubscribeUpdateAccount.write?_eq_some {update : SubscribeUpdateAccount}
    {w : Write Key SubscribeUpdateAccount} (h : update.write? = some w) :
    ∃ account, update.account = some account ∧ Key.ofBytes? account.pubkey = some w.key ∧
      w.slot = update.slot ∧ w.version = account.writeVersion ∧ w.value = update := by
  obtain ⟨account, haccount, h⟩ := Option.bind_eq_some_iff.mp h
  obtain ⟨key, hkey, rfl⟩ := Option.map_eq_some_iff.mp h
  exact ⟨account, haccount, hkey, rfl, rfl, rfl⟩

/-- The write of a sample update. -/
theorem SubscribeUpdateAccount.write?_sample (key : Key) (slot writeVersion lamports : ℕ) :
    (sample key slot writeVersion lamports).write? =
      some ⟨key, slot, writeVersion, sample key slot writeVersion lamports⟩ := by
  have hkey : Key.ofBytes? key.toList = some key := Key.ofBytes?_eq_some.mpr rfl
  simp [sample, Account.sample, write?, hkey]

/-- The writes delivered by events are those of their updates. -/
theorem mem_delivered_eventCalls {events : List BufferedEvent}
    {w : Write Key SubscribeUpdateAccount} :
    w ∈ delivered (eventCalls events) ↔ ∃ update, .account update ∈ events ∧
      update.write? = some w := by
  rw [mem_delivered, eventCalls, List.mem_filterMap]
  constructor
  · rintro ⟨event, hevent, hcall⟩
    cases event with
    | account update =>
      obtain ⟨v, hv, hcall⟩ := Option.map_eq_some_iff.mp hcall
      cases hcall
      exact ⟨update, hevent, hv⟩
    | confirmedSlot slot => cases hcall
  · rintro ⟨update, hupdate, hw⟩
    exact ⟨.account update, hupdate, by rw [BufferedEvent.call?, hw]; rfl⟩

/-- A write that an engine kept comes from an update among the events it was given. -/
theorem update_of_mem_accepted {floor confirmed : ℕ} {events : List BufferedEvent}
    {calls : List (Call Key SubscribeUpdateAccount)}
    (hcalls : delivered calls = delivered (eventCalls events))
    {w : Write Key SubscribeUpdateAccount}
    (hw : w ∈ ((Staging.empty floor confirmed).run calls).accepted) :
    .account w.value ∈ events ∧ w.value.write? = some w ∧ w.slot = w.value.slot ∧
      floor ≤ w.slot := by
  obtain ⟨hdelivered, hfloor⟩ :=
    (Staging.mem_accepted_run.mp hw).resolve_left List.not_mem_nil
  rw [hcalls] at hdelivered
  obtain ⟨update, hupdate, hwrite⟩ := mem_delivered_eventCalls.mp hdelivered
  obtain ⟨account, -, -, hslot, -, hvalue⟩ := SubscribeUpdateAccount.write?_eq_some hwrite
  rw [hvalue]
  exact ⟨hupdate, hwrite, hslot, hfloor⟩

section Apply

variable {deserialize : Deserialize}

/-- An update that decodes sets its key to its table. -/
theorem applyUpdate_of_write {update : SubscribeUpdateAccount} {w : Write Key SubscribeUpdateAccount}
    (hw : update.write? = some w) (hdecodes : ¬ Undecodable deserialize update) (tables : Tables) :
    ∃ tables', applyUpdate deserialize tables update = .ok tables' ∧
      ∀ k : Address, tables'[k]? = if w.key = k then tableOf deserialize update else tables[k]? := by
  obtain ⟨account, haccount, hkey, -⟩ := SubscribeUpdateAccount.write?_eq_some hw
  simp only [applyUpdate, tableOf, haccount, hkey, Option.bind_some]
  split
  · refine ⟨_, rfl, fun k => ?_⟩
    simp [ExtTreeMap.getElem?_erase]
  · next hopen =>
    rw [not_or, not_not] at hopen
    cases hdata : deserialize account.data with
    | none => exact (hdecodes ⟨account, haccount, hopen.1, hopen.2, hdata⟩).elim
    | some addresses =>
      refine ⟨_, rfl, fun k => ?_⟩
      simp [ExtTreeMap.getElem?_insert]

/-- An undecodable update is an error. -/
theorem applyUpdate_undecodable {update : SubscribeUpdateAccount}
    {w : Write Key SubscribeUpdateAccount} (hw : update.write? = some w)
    (h : Undecodable deserialize update) (tables : Tables) :
    applyUpdate deserialize tables update = .error "invalid ALT account" := by
  obtain ⟨account, haccount, hkey, -⟩ := SubscribeUpdateAccount.write?_eq_some hw
  obtain ⟨account', haccount', hlamports, howner, hdata⟩ := h
  obtain rfl := Option.some.inj (haccount.symm.trans haccount')
  simp [applyUpdate, haccount, hkey, hlamports, howner, hdata]

/-- Queues are applied one after the other unless the first fails. -/
theorem applyQueue_append (first second : List SubscribeUpdateAccount) (tables : Tables) :
    applyQueue deserialize tables (first ++ second) =
      match applyQueue deserialize tables first with
      | (.error error, tables) => (.error error, tables)
      | (.ok (), tables) => applyQueue deserialize tables second := by
  induction first generalizing tables with
  | nil => rfl
  | cons update first ih =>
    rw [List.cons_append, applyQueue, applyQueue]
    cases applyUpdate deserialize tables update with
    | error error => rfl
    | ok tables => exact ih tables

/-- A queue is applied in full exactly when every update in it is. -/
theorem applyQueue_ok_iff {queue : List SubscribeUpdateAccount} {tables tables' : Tables} :
    applyQueue deserialize tables queue = (.ok (), tables') ↔
      queue.foldlM (applyUpdate deserialize) tables = .ok tables' := by
  induction queue generalizing tables with
  | nil => simp [applyQueue, pure, Except.pure]
  | cons update queue ih =>
    rw [applyQueue, List.foldlM_cons]
    cases applyUpdate deserialize tables update with
    | error error => simp [bind, Except.bind]
    | ok tables => exact ih

/-- Queues are seen one after the other unless the first fails. -/
theorem queueGlimpses_append (first second : List SubscribeUpdateAccount) (tables : Tables) :
    queueGlimpses deserialize tables (first ++ second) =
      queueGlimpses deserialize tables first ++
        match applyQueue deserialize tables first with
        | (.error _, _) => []
        | (.ok (), tables) => queueGlimpses deserialize tables second := by
  induction first generalizing tables with
  | nil => rfl
  | cons update first ih =>
    rw [List.cons_append, queueGlimpses, queueGlimpses, applyQueue]
    cases applyUpdate deserialize tables update with
    | error error => rfl
    | ok tables => exact congrArg (tables :: ·) (ih tables)

/-- Whatever is seen while a queue is applied is what some of its first updates make. -/
theorem exists_prefix_of_mem_queueGlimpses {queue : List SubscribeUpdateAccount}
    {tables tables' : Tables} (h : tables' ∈ queueGlimpses deserialize tables queue) :
    ∃ applied, applied <+: queue ∧
      applied.foldlM (applyUpdate deserialize) tables = .ok tables' := by
  induction queue generalizing tables with
  | nil => cases h
  | cons update queue ih =>
    rw [queueGlimpses] at h
    cases hok : applyUpdate deserialize tables update with
    | error error =>
      rw [hok] at h
      cases h
    | ok after =>
      rw [hok] at h
      rcases List.mem_cons.mp h with rfl | h
      · exact ⟨[update], by simp, by rw [List.foldlM_cons, hok]; rfl⟩
      · obtain ⟨applied, hprefix, happlied⟩ := ih h
        exact ⟨update :: applied, List.prefix_cons_inj update |>.mpr hprefix,
          by rw [List.foldlM_cons, hok]; exact happlied⟩

variable {writes : List (Write Key SubscribeUpdateAccount)}

/-- Updates that decode set each key to the table of its last update. -/
theorem applyQueue_of_writes (hwrites : ∀ w ∈ writes, w.value.write? = some w)
    (hdecodes : ∀ w ∈ writes, ¬ Undecodable deserialize w.value) (tables : Tables) :
    ∃ tables', applyQueue deserialize tables (writes.map Write.value) = (.ok (), tables') ∧
      ∀ k : Address, tables'[k]? =
        ((ofKey k writes).getLast?).elim tables[k]? fun w => tableOf deserialize w.value := by
  induction writes using List.reverseRecOn with
  | nil => exact ⟨tables, rfl, fun _ => rfl⟩
  | append_singleton writes w ih =>
    obtain ⟨tables₁, hfirst, htables₁⟩ := ih (fun v hv => hwrites v (List.mem_append_left _ hv))
      fun v hv => hdecodes v (List.mem_append_left _ hv)
    have hlast : w ∈ writes ++ [w] := List.mem_append_right _ List.mem_cons_self
    obtain ⟨tables₂, hsecond, htables₂⟩ :=
      applyUpdate_of_write (hwrites w hlast) (hdecodes w hlast) tables₁
    refine ⟨tables₂, ?_, fun k => ?_⟩
    · rw [List.map_append, applyQueue_append, hfirst]
      simp [applyQueue, hsecond]
    · rw [htables₂, ofKey_append, ofKey_singleton]
      by_cases hk : w.key = k
      · simp [hk]
      · simp [hk, htables₁]

/-- A queue with an undecodable update fails. -/
theorem applyQueue_undecodable (hwrites : ∀ w ∈ writes, w.value.write? = some w)
    (h : ∃ w ∈ writes, Undecodable deserialize w.value) (tables : Tables) :
    (applyQueue deserialize tables (writes.map Write.value)).1 = .error "invalid ALT account" := by
  induction writes generalizing tables with
  | nil => simp at h
  | cons w writes ih =>
    rw [List.map_cons, applyQueue]
    by_cases hw : Undecodable deserialize w.value
    · rw [applyUpdate_undecodable (hwrites w List.mem_cons_self) hw]
    · obtain ⟨tables', hok, -⟩ := applyUpdate_of_write (hwrites w List.mem_cons_self) hw tables
      rw [hok]
      refine ih (fun v hv => hwrites v (List.mem_cons_of_mem _ hv)) ?_ tables'
      obtain ⟨v, hv, hundecodable⟩ := h
      rcases List.mem_cons.mp hv with rfl | hv
      · exact (hw hundecodable).elim
      · exact ⟨v, hv, hundecodable⟩

end Apply

namespace Session

variable {deserialize : Deserialize} {base : Address → Option AddressLookupTableAccount}
  {session : Session} {st : Staging Key SubscribeUpdateAccount}

/-- Visiting distinct slots applies their queues as one, and takes all of them if none fails. -/
theorem applySlots_eq (deserialize : Deserialize) {slots : List ℕ} (hslots : slots.Nodup)
    (session : Session) :
    ∃ pending, session.applySlots deserialize slots =
        ((applyQueue deserialize session.tables
            (slots.flatMap (session.pending.getD · []))).1,
          { session with
            tables := (applyQueue deserialize session.tables
              (slots.flatMap (session.pending.getD · []))).2
            pending }) ∧
      ((applyQueue deserialize session.tables
          (slots.flatMap (session.pending.getD · []))).1 = .ok () →
        pending = slots.foldl ExtTreeMap.erase session.pending) := by
  induction slots generalizing session with
  | nil => exact ⟨session.pending, rfl, fun _ => rfl⟩
  | cons s slots ih =>
    obtain ⟨hs, hrest⟩ := List.nodup_cons.mp hslots
    have hothers : slots.flatMap ((session.pending.erase s).getD · []) =
        slots.flatMap (session.pending.getD · []) :=
      List.flatMap_congr fun t ht =>
        Buckets.getD_erase_of_ne session.pending fun heq => hs (heq ▸ ht)
    rw [List.flatMap_cons, applyQueue_append, applySlots]
    rcases applyQueue deserialize session.tables (session.pending.getD s []) with
      ⟨error | ⟨⟩, tables⟩
    · exact ⟨_, rfl, fun h => by cases h⟩
    · obtain ⟨pending, happly, hpending⟩ :=
        ih hrest { session with tables, pending := session.pending.erase s }
      rw [hothers] at happly hpending
      exact ⟨pending, happly, hpending⟩

/-- What is seen while distinct slots are visited is what is seen of their queues as one. -/
theorem slotGlimpses_eq {slots : List ℕ} (hslots : slots.Nodup) (session : Session) :
    session.slotGlimpses deserialize slots =
      queueGlimpses deserialize session.tables (slots.flatMap (session.pending.getD · [])) := by
  induction slots generalizing session with
  | nil => rfl
  | cons s slots ih =>
    obtain ⟨hs, hrest⟩ := List.nodup_cons.mp hslots
    have hothers : slots.flatMap ((session.pending.erase s).getD · []) =
        slots.flatMap (session.pending.getD · []) :=
      List.flatMap_congr fun t ht =>
        Buckets.getD_erase_of_ne session.pending fun heq => hs (heq ▸ ht)
    rw [List.flatMap_cons, queueGlimpses_append, slotGlimpses]
    rcases applyQueue deserialize session.tables (session.pending.getD s []) with
      ⟨error | ⟨⟩, tables⟩
    · rfl
    · have hafter := ih hrest { session with tables, pending := session.pending.erase s }
      rw [hothers] at hafter
      exact congrArg (queueGlimpses deserialize session.tables (session.pending.getD s []) ++ ·)
        hafter

/-- Everything queued up to a slot is applied and dropped, if no update of it fails. -/
theorem applyPendingThrough_ok {slot : ℕ} {session' : Session}
    (h : session.applyPendingThrough deserialize slot = (.ok (), session')) :
    (session.pending.through slot).foldlM (applyUpdate deserialize) session.tables =
        .ok session'.tables ∧
      session' = { session with
        tables := session'.tables
        pending := session.pending.dropThrough slot } := by
  obtain ⟨pending, happly, hpending⟩ := applySlots_eq deserialize
    ((session.pending.slotsThrough_pairwise slot).imp ne_of_lt) session
  rw [applyPendingThrough, happly] at h
  obtain ⟨hok, rfl⟩ := Prod.mk.inj h
  obtain rfl := hpending hok
  exact ⟨applyQueue_ok_iff.mp (Prod.ext hok rfl), rfl⟩

/-- The session's state is the engine's, over the base tables. -/
structure Tracks (deserialize : Deserialize) (base : Address → Option AddressLookupTableAccount)
    (session : Session) (st : Staging Key SubscribeUpdateAccount) : Prop where
  bootstrapSlot : session.bootstrapSlot = st.floor
  confirmedSlot : session.confirmedSlot = st.confirmed
  tables : ∀ k : Address, session.tables[k]? = st.current (tableOf deserialize) base k
  pending : Buckets.Holds Write.slot Write.value session.pending st.staged
  staged : ∀ w ∈ st.staged, w.value.write? = some w

/-- A session over a snapshot tracks the empty engine. -/
theorem tracks_start (deserialize : Deserialize) (sourceIndex slot : ℕ) (tables : Tables) :
    (start sourceIndex slot tables).Tracks deserialize (tables[·]?) (.start slot) where
  bootstrapSlot := rfl
  confirmedSlot := rfl
  tables _ := rfl
  pending := Buckets.holds_empty ..
  staged _ h := absurd h List.not_mem_nil

/-- The updates released up to a slot are the staged ones up to it, arranged by slot. -/
theorem Tracks.through_pending (h : session.Tracks deserialize base st) (s : ℕ) :
    session.pending.through s =
      (bySlot Write.slot (st.staged.filter (·.slot ≤ s))).map Write.value :=
  h.pending.through_eq s

/-- Queueing a well-formed update is the engine's queueing. -/
theorem Tracks.queueUpdate (h : session.Tracks deserialize base st)
    {update : SubscribeUpdateAccount} {w : Write Key SubscribeUpdateAccount}
    (hw : update.write? = some w) {recovering : Bool} {session' : Session}
    (hok : session.queueUpdate update recovering = .ok session') :
    session'.Tracks deserialize base (st.queue w) := by
  obtain ⟨account, -, -, hslot, -, hvalue⟩ := SubscribeUpdateAccount.write?_eq_some hw
  unfold Session.queueUpdate at hok
  rw [h.bootstrapSlot, ← hslot] at hok
  unfold Staging.queue
  by_cases hfloor : st.floor ≤ w.slot
  · rw [if_neg (not_lt.mpr hfloor)] at hok
    rw [dif_pos hfloor]
    split at hok
    · obtain rfl := Except.ok.inj hok
      refine ⟨rfl, h.confirmedSlot, h.tables, ?_, fun v hv => ?_⟩
      · have hpush := h.pending.push w
        rwa [hvalue] at hpush
      · rcases List.mem_append.mp hv with hv | hv
        · exact h.staged v hv
        · rw [List.mem_singleton.mp hv, hvalue]
          exact hw
    · cases hok
  · rw [if_pos (not_le.mp hfloor)] at hok
    obtain rfl := Except.ok.inj hok
    rw [dif_neg hfloor]
    exact h

/-- Applying everything up to a slot is the engine's advance, if all of it decodes. -/
theorem Tracks.advance (h : session.Tracks deserialize base st) {s : ℕ} (hs : st.confirmed ≤ s)
    (hdecodes : ∀ w ∈ st.staged, w.slot ≤ s → ¬ Undecodable deserialize w.value) :
    ∃ session', session.applyPendingThrough deserialize s = (.ok (), session') ∧
      session'.confirmedSlot = session.confirmedSlot ∧
      { session' with confirmedSlot := s }.Tracks deserialize base (st.advance s hs) := by
  have hreleased (w : Write Key SubscribeUpdateAccount)
      (hw : w ∈ bySlot Write.slot (st.staged.filter (·.slot ≤ s))) : w ∈ st.staged ∧ w.slot ≤ s := by
    simpa using hw
  obtain ⟨tables, hqueue, htables⟩ := applyQueue_of_writes
    (fun w hw => h.staged w (hreleased w hw).1)
    (fun w hw => hdecodes w (hreleased w hw).1 (hreleased w hw).2) session.tables
  obtain ⟨pending, happly, hpending⟩ := applySlots_eq deserialize
    ((session.pending.slotsThrough_pairwise s).imp ne_of_lt) session
  rw [← Buckets.through, h.through_pending, hqueue] at happly hpending
  obtain rfl := hpending rfl
  refine ⟨_, happly, rfl, h.bootstrapSlot, rfl, fun k => ?_, h.pending.dropThrough s, fun w hw =>
    h.staged w (List.mem_filter.mp hw).1⟩
  change tables[k]? = ((ofKey k (st.applied ++ _)).getLast?).elim _ _
  rw [htables, h.tables, ofKey_append, List.getLast?_append, Staging.current, Staging.latest]
  cases ((ofKey k (bySlot Write.slot (st.staged.filter (·.slot ≤ s)))).getLast?) <;> rfl

/-- Applying an undecodable update fails. -/
theorem Tracks.applyPendingThrough_undecodable (h : session.Tracks deserialize base st) {s : ℕ}
    {w : Write Key SubscribeUpdateAccount} (hw : w ∈ st.staged) (hs : w.slot ≤ s)
    (hundecodable : Undecodable deserialize w.value) :
    (session.applyPendingThrough deserialize s).1 = .error "invalid ALT account" := by
  obtain ⟨pending, happly, -⟩ := applySlots_eq deserialize
    ((session.pending.slotsThrough_pairwise s).imp ne_of_lt) session
  rw [applyPendingThrough, happly, ← Buckets.through, h.through_pending]
  refine applyQueue_undecodable (fun v hv => h.staged v ?_) ⟨w, ?_, hundecodable⟩ session.tables
  · simp only [mem_bySlot, List.mem_filter] at hv
    exact hv.1
  · simpa using ⟨hw, hs⟩

/-- A confirmation succeeds when everything it releases decodes, and is the engine's. -/
theorem Tracks.confirm (h : session.Tracks deserialize base st) {s : ℕ}
    (hdecodes : st.confirmed < s → ∀ w ∈ st.staged, w.slot ≤ s → ¬ Undecodable deserialize w.value) :
    ∃ session', session.confirm deserialize s = (.ok (decide (st.confirmed < s)), session') ∧
      session'.Tracks deserialize base (st.confirm s) := by
  unfold Session.confirm Staging.confirm
  rw [h.confirmedSlot]
  by_cases hs : st.confirmed < s
  · obtain ⟨session', hok, -, htracks⟩ := h.advance hs.le (hdecodes hs)
    rw [if_neg (not_le.mpr hs), hok, dif_pos hs, decide_eq_true hs]
    exact ⟨_, rfl, htracks⟩
  · rw [if_pos (not_lt.mp hs), dif_neg hs, decide_eq_false hs]
    exact ⟨session, rfl, h⟩

/-- A confirmation that releases an undecodable update fails. -/
theorem Tracks.confirm_undecodable (h : session.Tracks deserialize base st) {s : ℕ}
    (hlt : st.confirmed < s) {w : Write Key SubscribeUpdateAccount} (hw : w ∈ st.staged)
    (hs : w.slot ≤ s) (hundecodable : Undecodable deserialize w.value) :
    (session.confirm deserialize s).1 = .error "invalid ALT account" := by
  have hfail := h.applyPendingThrough_undecodable hw hs hundecodable
  unfold Session.confirm
  rw [h.confirmedSlot, if_neg (not_le.mpr hlt)]
  rcases hresult : session.applyPendingThrough deserialize s with ⟨error | ⟨⟩, session'⟩
  · rw [hresult] at hfail
    cases hfail
    rfl
  · rw [hresult] at hfail
    cases hfail

/-- A confirmation that succeeds releases nothing undecodable and is the engine's. -/
theorem Tracks.of_confirm_ok (h : session.Tracks deserialize base st) {s : ℕ} {risen : Bool}
    {session' : Session} (hok : session.confirm deserialize s = (.ok risen, session')) :
    session'.Tracks deserialize base (st.confirm s) ∧ risen = decide (st.confirmed < s) ∧
      (st.confirmed < s → ∀ w ∈ st.staged, w.slot ≤ s → ¬ Undecodable deserialize w.value) := by
  have hdecodes (hlt : st.confirmed < s) (w : Write Key SubscribeUpdateAccount)
      (hw : w ∈ st.staged) (hs : w.slot ≤ s) : ¬ Undecodable deserialize w.value := by
    intro hundecodable
    have hfail := h.confirm_undecodable hlt hw hs hundecodable
    rw [hok] at hfail
    cases hfail
  obtain ⟨session₁, hconfirm, htracks⟩ := h.confirm hdecodes
  rw [hok] at hconfirm
  cases hconfirm
  exact ⟨htracks, rfl, hdecodes⟩

/-- An event handled without error is the engine's call. -/
theorem Tracks.handle (h : session.Tracks deserialize base st) {event : BufferedEvent}
    {call : Call Key SubscribeUpdateAccount} (hcall : event.call? = some call) {recovering : Bool}
    {risen : Bool} {session' : Session}
    (hok : session.handle deserialize recovering event = (.ok risen, session')) :
    session'.Tracks deserialize base (st.call call) := by
  cases event with
  | account update =>
    obtain ⟨w, hw, rfl⟩ := Option.map_eq_some_iff.mp hcall
    cases hqueue : session.queueUpdate update recovering with
    | error error => simp [Session.handle, hqueue] at hok
    | ok queued =>
      simp only [Session.handle, hqueue, Prod.mk.injEq] at hok
      exact hok.2 ▸ h.queueUpdate hw hqueue
  | confirmedSlot s =>
    cases hcall
    exact (h.of_confirm_ok hok).1

/-- A live event meets no error if its update is above the confirmed slot and its confirmation
releases nothing undecodable. -/
theorem Tracks.handle_ok (h : session.Tracks deserialize base st) {event : BufferedEvent}
    (habove : ∀ update, event = .account update → st.confirmed < update.slot)
    (hdecodes : ∀ s, event = .confirmedSlot s → ∀ w ∈ st.staged, w.slot ≤ s →
      ¬ Undecodable deserialize w.value) :
    ∃ risen session', session.handle deserialize false event = (.ok risen, session') := by
  cases event with
  | account update =>
    have habove := habove update rfl
    rw [← h.confirmedSlot] at habove
    by_cases hfloor : update.slot < session.bootstrapSlot
    · exact ⟨false, session, by simp [Session.handle, Session.queueUpdate, hfloor]⟩
    · refine ⟨false, { session with pending := session.pending.push update.slot update }, ?_⟩
      simp [Session.handle, Session.queueUpdate, hfloor, habove]
  | confirmedSlot s =>
    obtain ⟨session', hconfirm, -⟩ := h.confirm fun _ => hdecodes s rfl
    exact ⟨_, session', hconfirm⟩

/-- A live event handled without error brings no update of a confirmed slot. -/
theorem Tracks.above_of_handle (h : session.Tracks deserialize base st) {event : BufferedEvent}
    {call : Call Key SubscribeUpdateAccount} (hcall : event.call? = some call) {risen : Bool}
    {session' : Session}
    (hok : session.handle deserialize false event = (.ok risen, session')) :
    ∀ w ∈ delivered [call], st.floor ≤ w.slot → st.confirmed < w.slot := by
  intro w hw hfloor
  cases event with
  | account update =>
    obtain ⟨v, hv, rfl⟩ := Option.map_eq_some_iff.mp hcall
    obtain rfl := List.mem_singleton.mp hw
    obtain ⟨account, -, -, hslot, -⟩ := SubscribeUpdateAccount.write?_eq_some hv
    have hnotold : ¬ update.slot < session.bootstrapSlot := by
      rw [h.bootstrapSlot, ← hslot]
      exact not_lt.mpr hfloor
    rw [← h.confirmedSlot, hslot]
    by_contra hlate
    simp [Session.handle, Session.queueUpdate, hnotold, hlate] at hok
  | confirmedSlot s =>
    cases hcall
    exact absurd hw List.not_mem_nil

/-- Events are handled one after the other. -/
theorem handleAll_cons_ok {recovering : Bool} {session' : Session} (event : BufferedEvent)
    (events : List BufferedEvent) :
    session.handleAll deserialize recovering (event :: events) = (.ok (), session') ↔
      ∃ risen after, session.handle deserialize recovering event = (.ok risen, after) ∧
        after.handleAll deserialize recovering events = (.ok (), session') := by
  rw [Session.handleAll]
  rcases session.handle deserialize recovering event with ⟨error | risen, after⟩
  · simp
  · simp

/-- Handling events in two parts. -/
theorem handleAll_append_ok {recovering : Bool} {session' : Session}
    (first second : List BufferedEvent) :
    session.handleAll deserialize recovering (first ++ second) = (.ok (), session') ↔
      ∃ between, session.handleAll deserialize recovering first = (.ok (), between) ∧
        between.handleAll deserialize recovering second = (.ok (), session') := by
  induction first generalizing session with
  | nil => simp [Session.handleAll]
  | cons event first ih =>
    simp only [List.cons_append, handleAll_cons_ok, ih]
    constructor
    · rintro ⟨risen, after, hevent, between, hfirst, hsecond⟩
      exact ⟨between, ⟨risen, after, hevent, hfirst⟩, hsecond⟩
    · rintro ⟨between, ⟨risen, after, hevent, hfirst⟩, hsecond⟩
      exact ⟨risen, after, hevent, between, hfirst, hsecond⟩

/-- What every handled event preserves holds of the engine after all of them. -/
theorem Tracks.handleAll_of_step {recovering : Bool} {P : Staging Key SubscribeUpdateAccount → Prop}
    (hstep : ∀ {session : Session} {st : Staging Key SubscribeUpdateAccount}
      {event : BufferedEvent} {call : Call Key SubscribeUpdateAccount} {risen : Bool}
      {after : Session}, session.Tracks deserialize base st → event.call? = some call →
      session.handle deserialize recovering event = (.ok risen, after) → P st → P (st.call call))
    (h : session.Tracks deserialize base st) {events : List BufferedEvent}
    (hevents : ∀ event ∈ events, event.call?.isSome) {session' : Session}
    (hok : session.handleAll deserialize recovering events = (.ok (), session')) (hstart : P st) :
    session'.Tracks deserialize base (st.run (eventCalls events)) ∧
      P (st.run (eventCalls events)) := by
  induction events generalizing session st with
  | nil =>
    cases hok
    exact ⟨h, hstart⟩
  | cons event events ih =>
    obtain ⟨call, hcall⟩ := Option.isSome_iff_exists.mp (hevents event List.mem_cons_self)
    obtain ⟨risen, after, hhandle, hrest⟩ := (handleAll_cons_ok event events).mp hok
    rw [eventCalls_cons hcall, Staging.run_cons]
    exact ih (h.handle hcall hhandle) (fun e he => hevents e (List.mem_cons_of_mem _ he)) hrest
      (hstep h hcall hhandle hstart)

/-- Events handled without error are the engine's calls. -/
theorem Tracks.handleAll (h : session.Tracks deserialize base st) {events : List BufferedEvent}
    (hevents : ∀ event ∈ events, event.call?.isSome) {recovering : Bool} {session' : Session}
    (hok : session.handleAll deserialize recovering events = (.ok (), session')) :
    session'.Tracks deserialize base (st.run (eventCalls events)) :=
  (h.handleAll_of_step (P := fun _ => True) (fun _ _ _ _ => trivial) hevents hok trivial).1

/-- Live events handled without error bring no update of a slot confirmed before them, and leave
none of a confirmed slot staged. -/
theorem Tracks.swept_handleAll (h : session.Tracks deserialize base st) (hswept : st.Swept)
    {events : List BufferedEvent} (hevents : ∀ event ∈ events, event.call?.isSome)
    {session' : Session}
    (hok : session.handleAll deserialize false events = (.ok (), session')) :
    (∀ w ∈ delivered (eventCalls events), st.floor ≤ w.slot → st.confirmed < w.slot) ∧
      (st.run (eventCalls events)).Swept := by
  induction events generalizing session st with
  | nil => exact ⟨fun w hw => absurd hw List.not_mem_nil, hswept⟩
  | cons event events ih =>
    obtain ⟨call, hcall⟩ := Option.isSome_iff_exists.mp (hevents event List.mem_cons_self)
    obtain ⟨risen, after, hhandle, hrest⟩ := (handleAll_cons_ok event events).mp hok
    rw [eventCalls_cons hcall, Staging.run_cons, delivered_cons call (eventCalls events)]
    have habove := h.above_of_handle hcall hhandle
    obtain ⟨hlater, hfinal⟩ := ih (h.handle hcall hhandle) (hswept.call habove)
      (fun e he => hevents e (List.mem_cons_of_mem _ he)) hrest
    refine ⟨fun w hw hfloor => ?_, hfinal⟩
    rcases List.mem_append.mp hw with hw | hw
    · exact habove w hw hfloor
    · have hlt := hlater w hw (by rwa [Staging.floor_call])
      rw [Staging.confirmed_call] at hlt
      exact (le_confirmedBy st.confirmed [call]).trans_lt hlt

/-- Applying late updates of confirmed slots without error is the engine's settling. -/
theorem Tracks.settle (h : session.Tracks deserialize base st) {session' : Session}
    (hok : session.applyPendingThrough deserialize session.confirmedSlot = (.ok (), session')) :
    session'.Tracks deserialize base st.settle := by
  rw [h.confirmedSlot] at hok
  obtain ⟨settled, happly, hslot, hsettled⟩ := h.advance le_rfl fun w hw hs hundecodable => by
    have hfail := h.applyPendingThrough_undecodable hw hs hundecodable
    rw [hok] at hfail
    cases hfail
  rw [hok] at happly
  cases happly
  exact ⟨hsettled.bootstrapSlot, hslot.trans h.confirmedSlot, hsettled.tables, hsettled.pending,
    hsettled.staged⟩

/-- A session established from buffered events tracks their calls, settled. -/
theorem tracks_replayBuffered {sourceIndex : ℕ} {snapshot : ℕ × Tables}
    {buffered : List BufferedEvent} (hbuffered : ∀ event ∈ buffered, event.call?.isSome)
    (hok : replayBuffered deserialize sourceIndex snapshot buffered = .ok session) :
    session.Tracks deserialize (snapshot.2[·]?)
      ((Staging.start snapshot.1).run (eventCalls buffered ++ [.settle])) := by
  unfold replayBuffered at hok
  split at hok
  · cases hok
  · next replayed hreplay =>
    have htracks := (tracks_start deserialize sourceIndex snapshot.1 snapshot.2).handleAll
      hbuffered hreplay
    rw [Staging.run_append, Staging.run_singleton]
    split at hok
    · cases hok
    · next settled happly =>
      cases hok
      exact htracks.settle happly

end Session

/-- The replay calls of a session's life. -/
def sessionCalls (buffered live : List BufferedEvent) : List (Call Key SubscribeUpdateAccount) :=
  eventCalls buffered ++ .settle :: eventCalls live

section Life

variable {deserialize : Deserialize} {snapshot : ℕ × Tables} {session : Session}
  {buffered live : List BufferedEvent}

/-- The calls of a session's life deliver the writes of its events. -/
theorem delivered_sessionCalls (buffered live : List BufferedEvent) :
    delivered (sessionCalls buffered live) = delivered (eventCalls (buffered ++ live)) := by
  rw [sessionCalls, delivered_append, delivered_settle_cons, ← delivered_append, eventCalls_append]

/-- A session followed without error tracks the calls of its life, has nothing confirmed
pending, and met no live update of a slot confirmed before. -/
theorem tracks_sessionCalls (hevents : ∀ event ∈ buffered ++ live, event.call?.isSome)
    {sourceIndex : ℕ} {session' : Session}
    (hok : replayBuffered deserialize sourceIndex snapshot buffered = .ok session)
    (hlive : session.handleAll deserialize false live = (.ok (), session')) :
    session'.Tracks deserialize (snapshot.2[·]?)
        ((Staging.start snapshot.1).run (sessionCalls buffered live)) ∧
      ((Staging.start snapshot.1).run (sessionCalls buffered live)).Swept ∧
      ∀ w ∈ delivered (eventCalls live), snapshot.1 ≤ w.slot →
        confirmedBy snapshot.1 (eventCalls buffered) < w.slot := by
  have htracks := Session.tracks_replayBuffered
    (fun e he => hevents e (List.mem_append_left _ he)) hok
  have hswept : ((Staging.start snapshot.1).run (eventCalls buffered ++ [.settle])).Swept := by
    rw [Staging.run_append]
    exact Staging.swept_settle _
  have hrun : (Staging.start snapshot.1).run (sessionCalls buffered live) =
      ((Staging.start snapshot.1).run (eventCalls buffered ++ [.settle])).run (eventCalls live) := by
    rw [← Staging.run_append, List.append_assoc]
    rfl
  have hrest (e : BufferedEvent) (he : e ∈ live) := hevents e (List.mem_append_right _ he)
  rw [hrun]
  obtain ⟨habove, hfinal⟩ := htracks.swept_handleAll hswept hrest hlive
  refine ⟨htracks.handleAll hrest hlive, hfinal, fun w hw hfloor => ?_⟩
  have hlt := habove w hw (by rwa [Staging.floor_run])
  rw [Staging.confirmed_run, confirmedBy_append] at hlt
  exact hlt

end Life

end AltCache
