import AltCache.Client.Refinement

/-!
# What a failed confirmation leaves behind

A confirmation takes the queues slot by slot and changes the live tables update by update.
When an update fails it stops there: the updates before it stay applied, the queues up to its
slot are gone, and the confirmed slot is not raised. Nothing is undone, because the session
is given up and readers are refused until a new one is established.
-/

namespace AltCache

open Std (ExtTreeMap)
open AltCache.Replay

section Apply

variable {deserialize : Deserialize}

/-- A queue that fails is applied up to its first failing update. -/
theorem applyQueue_error {queue : List SubscribeUpdateAccount} {tables tables' : Tables}
    {error : String} (h : applyQueue deserialize tables queue = (.error error, tables')) :
    ∃ before update after, queue = before ++ update :: after ∧
      before.foldlM (applyUpdate deserialize) tables = .ok tables' ∧
      applyUpdate deserialize tables' update = .error error := by
  induction queue generalizing tables with
  | nil => cases h
  | cons update queue ih =>
    rw [applyQueue] at h
    cases hupdate : applyUpdate deserialize tables update with
    | error error' =>
      rw [hupdate] at h
      cases h
      exact ⟨[], update, queue, rfl, rfl, hupdate⟩
    | ok tables₁ =>
      rw [hupdate] at h
      obtain ⟨before, failing, after, rfl, hbefore, hfailing⟩ := ih h
      refine ⟨update :: before, failing, after, rfl, ?_, hfailing⟩
      rw [List.foldlM_cons, hupdate]
      exact hbefore

end Apply

namespace Session

/-- The updates queued below a slot, in the order in which they are released. -/
def stagedBelow (session : Session) (slot : ℕ) : List SubscribeUpdateAccount :=
  (session.pending.keys.filter (· < slot)).flatMap (session.pending.getD · [])

variable {deserialize : Deserialize} {session session' : Session}

/-- A visit that fails stops inside the queue of one of the slots. -/
theorem applySlots_error {slots : List ℕ} (hslots : slots.Nodup) {error : String}
    (h : session.applySlots deserialize slots = (.error error, session')) :
    ∃ earlier failing later before update after, slots = earlier ++ failing :: later ∧
      session.pending.getD failing [] = before ++ update :: after ∧
      (earlier.flatMap (session.pending.getD · []) ++ before).foldlM (applyUpdate deserialize)
        session.tables = .ok session'.tables ∧
      applyUpdate deserialize session'.tables update = .error error ∧
      session' = { session with
        tables := session'.tables
        pending := (earlier ++ [failing]).foldl ExtTreeMap.erase session.pending } := by
  induction slots generalizing session with
  | nil => cases h
  | cons s slots ih =>
    obtain ⟨hs, hrest⟩ := List.nodup_cons.mp hslots
    have hothers (t : ℕ) (ht : t ∈ slots) :
        (session.pending.erase s).getD t [] = session.pending.getD t [] :=
      Buckets.getD_erase_of_ne session.pending fun heq => hs (heq ▸ ht)
    rw [applySlots] at h
    rcases hqueue : applyQueue deserialize session.tables (session.pending.getD s []) with
      ⟨error' | ⟨⟩, tables⟩
    · rw [hqueue] at h
      cases h
      obtain ⟨before, update, after, hsplit, hbefore, hupdate⟩ := applyQueue_error hqueue
      exact ⟨[], s, slots, before, update, after, rfl, hsplit, hbefore, hupdate, rfl⟩
    · rw [hqueue] at h
      obtain ⟨earlier, failing, later, before, update, after, rfl, hsplit, hbefore, hupdate, hrest⟩ :=
        ih hrest h
      refine ⟨s :: earlier, failing, later, before, update, after, rfl, ?_, ?_, hupdate, hrest⟩
      · rw [← hsplit]
        exact (hothers failing (List.mem_append_right _ List.mem_cons_self)).symm
      · have hearlier : earlier.flatMap ((session.pending.erase s).getD · []) =
            earlier.flatMap (session.pending.getD · []) :=
          List.flatMap_congr fun t ht => hothers t (List.mem_append_left _ ht)
        have hfirst := applyQueue_ok_iff.mp hqueue
        rw [hearlier] at hbefore
        rw [List.flatMap_cons, List.append_assoc, List.foldlM_append, hfirst]
        exact hbefore

/-- The slots visited before one of them are the queued slots below it. -/
theorem slotsThrough_split {pending : Buckets SubscribeUpdateAccount} {slot failing : ℕ}
    {earlier later : List ℕ} (h : pending.slotsThrough slot = earlier ++ failing :: later) :
    failing ≤ slot ∧ earlier = pending.keys.filter (· < failing) := by
  have hle : failing ≤ slot := by
    have hmem : failing ∈ pending.slotsThrough slot := by simp [h]
    exact (Buckets.mem_slotsThrough.mp hmem).2
  refine ⟨hle, ?_⟩
  have hsorted := pending.slotsThrough_pairwise slot
  rw [h, List.pairwise_append, List.pairwise_cons] at hsorted
  obtain ⟨-, ⟨hlater, -⟩, hcross⟩ := hsorted
  have hcut : (pending.slotsThrough slot).filter (· < failing) =
      pending.keys.filter (· < failing) := by
    rw [Buckets.slotsThrough, List.filter_filter]
    apply List.filter_congr
    intro s _
    simp only [← Bool.decide_and, decide_eq_decide]
    omega
  rw [← hcut, h, List.filter_append, List.filter_cons, if_neg (by simp)]
  have hkept : earlier.filter (· < failing) = earlier :=
    List.filter_eq_self.mpr fun s hs => decide_eq_true (hcross s hs failing List.mem_cons_self)
  have hdropped : later.filter (· < failing) = [] :=
    List.filter_eq_nil_iff.mpr fun s hs => by simpa using (hlater s hs).le
  rw [hkept, hdropped, List.append_nil]

/-- Taking the queues of the slots visited so far takes everything up to the last of them. -/
theorem foldl_erase_eq_dropThrough (pending : Buckets SubscribeUpdateAccount) (failing : ℕ) :
    (pending.keys.filter (· < failing) ++ [failing]).foldl ExtTreeMap.erase pending =
      pending.dropThrough failing := by
  apply ExtTreeMap.ext_getElem?
  intro s
  rw [Buckets.getElem?_foldl_erase, Buckets.getElem?_dropThrough]
  by_cases hs : s ∈ pending
  · have hiff : s ∈ pending.keys.filter (· < failing) ++ [failing] ↔ s ≤ failing := by
      simp [hs, Nat.le_iff_lt_or_eq]
    rw [if_congr hiff rfl rfl]
  · simp [hs]

/-- A failed confirmation stops at one update: it has applied the queued updates before that
one, in slot order, has taken the queues up to its slot, and has raised nothing. The live
stream ends there, and the slot shown to readers stays. -/
theorem confirm_error {slot : ℕ} {error : String}
    (h : session.confirm deserialize slot = (.error error, session')) :
    (∃ failing before update after, failing ≤ slot ∧
      session.pending.getD failing [] = before ++ update :: after ∧
      (session.stagedBelow failing ++ before).foldlM (applyUpdate deserialize) session.tables =
        .ok session'.tables ∧
      applyUpdate deserialize session'.tables update = .error error ∧
      session'.pending = session.pending.dropThrough failing) ∧
    session'.confirmedSlot = session.confirmedSlot ∧
    session'.bootstrapSlot = session.bootstrapSlot ∧
    ∀ shown rest, follow deserialize session shown (.slot slot slotConfirmed :: rest) =
      (.error error, session', shown) := by
  have hfollow (shown : ℕ) (rest : List UpdateOneof) :
      follow deserialize session shown (.slot slot slotConfirmed :: rest) =
        (.error error, session', shown) := by
    rw [follow, if_pos rfl, h]
  unfold confirm at h
  split at h
  · cases h
  · rcases hpending : session.applyPendingThrough deserialize slot with ⟨error' | ⟨⟩, session₁⟩
    · rw [hpending] at h
      cases h
      obtain ⟨earlier, failing, later, before, update, after, hsplit, hqueue, happlied, hfails,
        hstopped⟩ := applySlots_error ((session.pending.slotsThrough_pairwise slot).imp ne_of_lt)
          hpending
      obtain ⟨hle, rfl⟩ := slotsThrough_split hsplit
      refine ⟨⟨failing, before, update, after, hle, hqueue, happlied, hfails, ?_⟩, ?_, ?_, hfollow⟩
      · rw [hstopped]
        exact foldl_erase_eq_dropThrough session.pending failing
      · rw [hstopped]
      · rw [hstopped]
    · rw [hpending] at h
      cases h

/-- Slot 11 holds an update that opens a table and one without a body. -/
def halfSlot : Session :=
  { start 0 10 ∅ with
    pending := (Buckets.push (Buckets.push ∅ 11 (.sample (.filled 1) 11 1 1)) 11
      { account := none, slot := 11, isStartup := false }) }

/-- Confirming slot 11 fails and leaves the first of its updates in the tables. -/
theorem halfSlot_changed :
    ¬ ∀ error session', halfSlot.confirm (fun _ => some []) 11 = (.error error, session') →
      session'.tables = halfSlot.tables ∧ session'.pending = halfSlot.pending ∧
        session'.confirmedSlot = halfSlot.confirmedSlot := by
  intro hunchanged
  have hfails : (halfSlot.confirm (fun _ => some []) 11).1 =
      .error "Yellowstone account body missing" := by
    decide +kernel
  have hsame := (hunchanged _ _ (Prod.ext hfails rfl)).1
  have hserved : (halfSlot.confirm (fun _ => some []) 11).2.tables[Key.filled 1]? ≠
      halfSlot.tables[Key.filled 1]? := by
    decide +kernel
  exact hserved (congrArg (fun tables : Tables => tables[Key.filled 1]?) hsame)

/-- The half-applied slot is taken and the confirmed slot stays at 10. -/
theorem confirm_error_halfSlot :
    (∃ failing ≤ 11, (halfSlot.confirm (fun _ => some []) 11).2.pending =
      halfSlot.pending.dropThrough failing) ∧
    (halfSlot.confirm (fun _ => some []) 11).2.confirmedSlot = 10 := by
  have hfails : (halfSlot.confirm (fun _ => some []) 11).1 =
      .error "Yellowstone account body missing" := by
    decide +kernel
  obtain ⟨⟨failing, -, -, -, hle, -, -, -, hpending⟩, hconfirmed, -⟩ :=
    confirm_error (Prod.ext hfails rfl)
  exact ⟨⟨failing, hle, hpending⟩, hconfirmed⟩

end Session

end AltCache
