import AltCache.Replay.Staging

/-!
# Arrival order without versions

An engine that keeps no versions applies whatever it stages, slot by slot and in arrival
order inside a slot. It never puts a key back to an older write exactly when every write
arrives before a newer one of its key was applied or was staged in the same slot. Then the
last applied write of a key is a newest one.
-/

namespace AltCache.Replay.Staging

variable {κ β : Type*}

/-- Everything kept, in the order in which it is applied if nothing more arrives. -/
def release (st : Staging κ β) : List (Write κ β) := st.applied ++ bySlot Write.slot st.staged

/-- The writes of each key are applied oldest first. -/
def Ordered (st : Staging κ β) : Prop :=
  st.release.Pairwise fun a b => a.key = b.key → a.tag ≤ b.tag

/-- A write arrives in time: nothing newer of its key is applied, nor staged in its slot. -/
def Timely (st : Staging κ β) (w : Write κ β) : Prop :=
  (∀ v ∈ st.applied, v.key = w.key → v.tag ≤ w.tag) ∧
    ∀ v ∈ st.staged, v.key = w.key → v.slot = w.slot → v.tag ≤ w.tag

/-- Advancing applies the next part of the release order. -/
theorem release_advance (st : Staging κ β) (s : ℕ) (h : st.confirmed ≤ s) :
    (st.advance s h).release = st.release := by
  change (st.applied ++ bySlot Write.slot (st.staged.filter (·.slot ≤ s))) ++
    bySlot Write.slot (st.staged.filter (s < ·.slot)) = st.applied ++ bySlot Write.slot st.staged
  rw [List.append_assoc, ← filter_bySlot, ← filter_bySlot,
    filter_le_append_filter_gt (bySlot_pairwise Write.slot st.staged)]

/-- Inserting an element that is related to everything after it. -/
theorem pairwise_insert {R : β → β → Prop} {before after : List β} {x : β}
    (hafter : ∀ b ∈ after, R x b) :
    (before ++ x :: after).Pairwise R ↔
      (before ++ after).Pairwise R ∧ ∀ a ∈ before, R a x := by
  rw [List.pairwise_append, List.pairwise_append, List.pairwise_cons]
  constructor
  · rintro ⟨hbefore, ⟨-, hrest⟩, hcross⟩
    exact ⟨⟨hbefore, hrest, fun a ha b hb => hcross a ha b (List.mem_cons_of_mem _ hb)⟩,
      fun a ha => hcross a ha x List.mem_cons_self⟩
  · rintro ⟨⟨hbefore, hrest, hcross⟩, hx⟩
    refine ⟨hbefore, ⟨hafter, hrest⟩, fun a ha b hb => ?_⟩
    rcases List.mem_cons.mp hb with rfl | hb
    · exact hx a ha
    · exact hcross a ha b hb

/-- Staging a write keeps the order exactly when the write arrives in time. -/
theorem ordered_push_iff {st : Staging κ β} {w : Write κ β} (h : st.floor ≤ w.slot) :
    (st.push w h).Ordered ↔ st.Ordered ∧ st.Timely w := by
  have hsorted := filter_le_append_filter_gt (bySlot_pairwise Write.slot st.staged) w.slot
  have hearlier (v : Write κ β) :
      v ∈ (bySlot Write.slot st.staged).filter (·.slot ≤ w.slot) ↔
        v ∈ st.staged ∧ v.slot ≤ w.slot := by
    simp
  have hlater : ∀ v ∈ (bySlot Write.slot st.staged).filter (w.slot < ·.slot),
      w.key = v.key → w.tag ≤ v.tag := fun v hv _ =>
    (Write.tag_lt_of_slot_lt (of_decide_eq_true (List.mem_filter.mp hv).2)).le
  have htimely : st.Timely w ↔ ∀ v ∈ st.applied ++
      (bySlot Write.slot st.staged).filter (·.slot ≤ w.slot), v.key = w.key → v.tag ≤ w.tag := by
    refine ⟨?_, fun hall => ⟨fun v hv => ?_, fun v hv hk hs => ?_⟩⟩
    · rintro ⟨happlied, hstaged⟩ v hv hk
      rcases List.mem_append.mp hv with hv | hv
      · exact happlied v hv hk
      · obtain ⟨hv, hle⟩ := (hearlier v).mp hv
        rcases hle.eq_or_lt with heq | hlt
        · exact hstaged v hv hk heq
        · exact (Write.tag_lt_of_slot_lt hlt).le
    · exact hall v (List.mem_append_left _ hv)
    · exact hall v (List.mem_append_right _ ((hearlier v).mpr ⟨hv, hs.le⟩)) hk
  have hnew : (st.push w h).release =
      (st.applied ++ (bySlot Write.slot st.staged).filter (·.slot ≤ w.slot)) ++
        w :: (bySlot Write.slot st.staged).filter (w.slot < ·.slot) := by
    rw [List.append_assoc, ← bySlot_concat]
    rfl
  have hold : st.release =
      (st.applied ++ (bySlot Write.slot st.staged).filter (·.slot ≤ w.slot)) ++
        (bySlot Write.slot st.staged).filter (w.slot < ·.slot) := by
    rw [List.append_assoc, hsorted]
    rfl
  rw [Ordered, Ordered, hnew, hold, htimely]
  exact pairwise_insert hlater

/-- A call keeps the order exactly when the write it stages arrives in time. -/
theorem ordered_call_iff {st : Staging κ β} {c : Call κ β} :
    (st.call c).Ordered ↔
      st.Ordered ∧ ∀ w, c = .queue w → st.floor ≤ w.slot → st.Timely w := by
  cases c with
  | queue w =>
    change (st.queue w).Ordered ↔ _
    unfold queue
    split
    · next h => simp [ordered_push_iff, h]
    · next h => simp [h]
  | confirm s =>
    change (st.confirm s).Ordered ↔ _
    unfold confirm Ordered
    split
    · simp [release_advance]
    · simp
  | settle =>
    change (st.advance st.confirmed le_rfl).Ordered ↔ _
    simp [Ordered, release_advance]

/-- A run keeps the order exactly when every write it stages arrives in time. -/
theorem ordered_run_iff {st : Staging κ β} {calls : List (Call κ β)} :
    (st.run calls).Ordered ↔ st.Ordered ∧ ∀ first w rest, calls = first ++ .queue w :: rest →
      st.floor ≤ w.slot → (st.run first).Timely w := by
  induction calls using List.reverseRecOn with
  | nil => simp
  | append_singleton calls c ih =>
    rw [run_append, run_singleton, ordered_call_iff, ih, floor_run, and_assoc]
    refine and_congr_right fun _ => ⟨?_, fun hall => ?_⟩
    · rintro ⟨hcalls, hlast⟩ first w rest heq
      rcases List.eq_nil_or_concat' rest with rfl | ⟨rest, d, rfl⟩
      · obtain ⟨rfl, hc⟩ := List.append_inj' heq rfl
        exact hlast w (List.singleton_inj.mp hc)
      · rw [← List.cons_append, ← List.append_assoc] at heq
        exact hcalls first w rest (List.append_inj' heq rfl).1
    · exact ⟨fun first w rest heq => hall first w (rest ++ [c]) (by simp [heq]),
        fun w hc => hall calls w [] (by rw [hc])⟩

/-- In order, and with nothing confirmed staged, a key that was written up to the confirmed
slot has the value of a newest such write. -/
theorem Ordered.latest [DecidableEq κ] {st : Staging κ β} (h : st.Ordered) (hswept : st.Swept)
    {w : Write κ β} (hw : w ∈ st.accepted) (hs : w.slot ≤ st.confirmed) :
    ∃ v ∈ st.accepted, st.latest w.key = some v ∧ v.key = w.key ∧ v.slot ≤ st.confirmed ∧
      ∀ a ∈ st.accepted, a.key = w.key → a.slot ≤ st.confirmed → a.tag ≤ v.tag := by
  have happlied {a : Write κ β} (ha : a ∈ st.accepted) (has : a.slot ≤ st.confirmed) :
      a ∈ st.applied :=
    (List.mem_append.mp ha).resolve_right fun hstaged => not_lt.mpr has (hswept a hstaged)
  have hmem : w ∈ ofKey w.key st.applied := mem_ofKey.mpr ⟨happlied hw hs, rfl⟩
  obtain ⟨init, v, hinit⟩ := (List.eq_nil_or_concat' (ofKey w.key st.applied)).resolve_left
    (List.ne_nil_of_mem hmem)
  have hlast : st.latest w.key = some v := by rw [Staging.latest, hinit, List.getLast?_concat]
  obtain ⟨hv, hvk⟩ := mem_ofKey.mp (List.mem_of_getLast? hlast)
  refine ⟨v, List.mem_append_left _ hv, hlast, hvk, st.applied_le v hv, fun a ha hak has => ?_⟩
  have hordered : (ofKey w.key st.applied).Pairwise fun a b => a.key = b.key → a.tag ≤ b.tag :=
    ((List.pairwise_append.mp h).1).sublist List.filter_sublist
  have hain : a ∈ ofKey w.key st.applied := mem_ofKey.mpr ⟨happlied ha has, hak⟩
  rw [hinit] at hordered hain
  rcases List.mem_append.mp hain with hain | hain
  · exact (List.pairwise_append.mp hordered).2.2 a hain v List.mem_cons_self (hak.trans hvk.symm)
  · rw [List.mem_singleton.mp hain]

end AltCache.Replay.Staging
