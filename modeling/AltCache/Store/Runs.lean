import AltCache.Store.Paging

/-!
# Runs of the store

What is retained under a slot is changed by page requests only: a continuation drops what
has expired and renews the snapshot it is served from, and a page with a successor retains
its snapshot unless its slot has one. In a run whose published slots never fall every slot
has one snapshot, so a snapshot that is paged stays what its slot stands for.
-/

namespace AltCache

open Std (ExtTreeMap)

/-- An entry was touched within the retention window. -/
def RetainedSnapshot.Fresh (now : ℕ) (entry : RetainedSnapshot) : Prop :=
  now - entry.touched < retention

instance (now : ℕ) (entry : RetainedSnapshot) : Decidable (entry.Fresh now) :=
  inferInstanceAs (Decidable (_ < _))

namespace Store

/-- Perform an operation. -/
def perform (store : Store) : Op → Store
  | .publish activeYellowstoneUrl slot accounts => store.publish activeYellowstoneUrl slot accounts
  | .invalidate => store.invalidate
  | .snapshotPage now snapshotSlot after limit =>
    (store.snapshotPage now snapshotSlot after limit).2

/-- Perform operations in order. -/
def performAll (store : Store) (ops : List Op) : Store := ops.foldl perform store

variable {store : Store} {now limit slot : ℕ} {snapshotSlot : Option ℕ} {after : Option Key}

/-- What a continuation leaves retained: the fresh entries, that of its slot renewed. -/
theorem getElem?_pageSource (now : ℕ) (store : Store) (slot other : ℕ) :
    (pageSource now store (some slot)).2.retained[other]? =
      (store.retained[other]?.filter (decide <| RetainedSnapshot.Fresh now ·)).map fun entry =>
        if slot = other then { entry with touched := now } else entry := by
  have hunexpired (key : ℕ) : (unexpired now store.retained)[key]? =
      store.retained[key]?.filter (decide <| RetainedSnapshot.Fresh now ·) := by
    rw [unexpired, ExtTreeMap.getElem?_filter']
    rfl
  unfold pageSource
  dsimp only
  split
  · next hnone =>
    rw [hunexpired] at hnone ⊢
    by_cases hsame : slot = other
    · rw [← hsame, hnone]
      rfl
    · simp [hsame]
  · next entry hsome =>
    rw [hunexpired] at hsome
    rw [ExtTreeMap.getElem?_insert, hunexpired]
    by_cases hsame : slot = other
    · subst hsame
      simp [hsome]
    · simp [hsame]

/-- What a page with a successor leaves retained: its snapshot, if its slot had none. -/
theorem getElem?_retain (now : ℕ) (snapshot : ServerSnapshot) (store : Store) (other : ℕ) :
    (retain now snapshot store).retained[other]? =
      store.retained[other]?.or (if snapshot.slot = other then some ⟨snapshot, now⟩ else none) := by
  unfold retain
  split
  · next hcontains =>
    by_cases hsame : snapshot.slot = other
    · obtain ⟨entry, hentry⟩ :=
        Option.isSome_iff_exists.mp (ExtTreeMap.contains_eq_isSome_getElem?.symm.trans hcontains)
      rw [← hsame, hentry]
      rfl
    · simp [hsame]
  · next hcontains =>
    have hnone : store.retained[snapshot.slot]? = none := by simpa using hcontains
    rw [ExtTreeMap.getElem?_insert]
    by_cases hsame : snapshot.slot = other
    · subst hsame
      simp [hnone]
    · simp [hsame]

/-- A request changes nothing but what is retained. -/
theorem snapshotPage_frame (now : ℕ) (store : Store) (snapshotSlot : Option ℕ)
    (after : Option Key) (limit : ℕ) :
    (store.snapshotPage now snapshotSlot after limit).2.current = store.current ∧
      (store.snapshotPage now snapshotSlot after limit).2.ready = store.ready := by
  have hsource : (pageSource now store snapshotSlot).2.current = store.current ∧
      (pageSource now store snapshotSlot).2.ready = store.ready := by
    cases snapshotSlot with
    | none => exact ⟨rfl, rfl⟩
    | some slot =>
      unfold pageSource
      dsimp only
      split <;> exact ⟨rfl, rfl⟩
  cases hpage : (store.snapshotPage now snapshotSlot after limit).1 with
  | error error =>
    rcases snapshotPage_error hpage with hstore | hstore
    · rw [hstore]
      exact ⟨rfl, rfl⟩
    · rw [hstore]
      exact hsource
  | ok page =>
    obtain ⟨snapshot, -, -, hstore⟩ := snapshotPage_ok hpage
    rw [hstore]
    split
    · unfold retain
      split <;> exact hsource
    · exact hsource

/-- A publication is of a slot after the initial one and not below the slot being served. -/
def Op.Ascends (store : Store) : Op → Prop
  | .publish _ slot _ => slot ≠ 0 ∧ store.current.slot ≤ slot
  | _ => True

/-- The stores reached by runs whose published slots are nonzero and never fall. -/
inductive Ascending : Store → Prop where
  | new : Ascending .new
  | perform {store : Store} (h : Ascending store) {op : Op} (hop : op.Ascends store) :
      Ascending (store.perform op)

/-- A snapshot is what its slot stands for: it is served and retained under its slot, if
anything is. Entries are retained under their own slots, none above the slot being served. -/
structure Pins (snapshot : ServerSnapshot) (store : Store) : Prop where
  keyed : ∀ (slot : ℕ) entry, store.retained[slot]? = some entry →
    entry.snapshot.slot = slot ∧ slot ≤ store.current.slot
  le : snapshot.slot ≤ store.current.slot
  current : store.current.slot = snapshot.slot → store.current = snapshot
  retained : ∀ entry, store.retained[snapshot.slot]? = some entry → entry.snapshot = snapshot

section Pins

variable {snapshot : ServerSnapshot}

/-- What is retained after a page request was retained before, or is the served snapshot. -/
theorem retained_snapshotPage {entry : RetainedSnapshot}
    (h : (store.snapshotPage now snapshotSlot after limit).2.retained[slot]? = some entry) :
    (∃ old : RetainedSnapshot, store.retained[slot]? = some old ∧
        old.snapshot = entry.snapshot) ∨
      (slot = store.current.slot ∧ entry.snapshot = store.current) ∨
      ∃ (key : ℕ) (old : RetainedSnapshot), store.retained[key]? = some old ∧
        old.snapshot = entry.snapshot ∧ old.snapshot.slot = slot := by
  cases hpage : (store.snapshotPage now snapshotSlot after limit).1 with
  | error error =>
    rcases snapshotPage_error hpage with hstore | hstore
    · exact Or.inl ⟨entry, hstore ▸ h, rfl⟩
    · exact Or.inl (retained_pageSource (hstore ▸ h))
  | ok page =>
    obtain ⟨snapshot, hsource, -, hstore⟩ := snapshotPage_ok hpage
    rw [hstore] at h
    split at h
    · rcases retained_retain h with hold | ⟨rfl, hsnapshot⟩
      · exact Or.inl (retained_pageSource hold)
      · cases snapshotSlot with
        | none =>
          obtain rfl := Except.ok.inj hsource
          exact Or.inr (Or.inl ⟨rfl, hsnapshot⟩)
        | some requested =>
          obtain ⟨old, hold, rfl⟩ := pageSource_some hsource
          exact Or.inr (Or.inr ⟨requested, old, hold, hsnapshot.symm, rfl⟩)
    · exact Or.inl (retained_pageSource h)

/-- A page request keeps a pinned snapshot pinned. -/
theorem Pins.snapshotPage (h : Pins snapshot store) (now : ℕ) (snapshotSlot : Option ℕ)
    (after : Option Key) (limit : ℕ) :
    Pins snapshot (store.snapshotPage now snapshotSlot after limit).2 := by
  obtain ⟨hcurrent, -⟩ := snapshotPage_frame now store snapshotSlot after limit
  refine ⟨fun slot entry hentry => ?_, hcurrent.symm ▸ h.le, hcurrent.symm ▸ h.current,
    fun entry hentry => ?_⟩
  · rw [hcurrent]
    rcases retained_snapshotPage hentry with ⟨old, hold, hsame⟩ | ⟨rfl, hserved⟩ |
      ⟨key, old, hold, hsame, rfl⟩
    · exact hsame ▸ h.keyed slot old hold
    · exact ⟨by rw [hserved], le_rfl⟩
    · obtain ⟨hkey, hle⟩ := h.keyed key old hold
      exact ⟨by rw [hsame], hkey ▸ hle⟩
  · rcases retained_snapshotPage hentry with ⟨old, hold, hsame⟩ | ⟨hslot, hserved⟩ |
      ⟨key, old, hold, hsame, hslot⟩
    · exact hsame ▸ h.retained old hold
    · exact hserved.trans (h.current hslot.symm)
    · obtain rfl := (h.keyed key old hold).1.symm.trans hslot
      exact hsame ▸ h.retained old hold

/-- An operation of an ascending run keeps a pinned snapshot pinned. -/
theorem Pins.perform (h : Pins snapshot store) {op : Op} (hop : op.Ascends store) :
    Pins snapshot (store.perform op) := by
  cases op with
  | publish url slot accounts =>
    obtain ⟨hslot, hle⟩ := hop
    have hpublished := slot_publish store url slot accounts
    refine ⟨fun key entry hentry => ?_, ?_, fun hsame => ?_, h.retained⟩
    · obtain ⟨hkeyed, hbound⟩ := h.keyed key entry hentry
      exact ⟨hkeyed, hbound.trans (hle.trans hpublished.ge)⟩
    · exact h.le.trans (hle.trans hpublished.ge)
    · have hunchanged : store.current.slot = slot :=
        le_antisymm hle ((hpublished.symm.trans hsame).trans_le h.le)
      have hkept : (store.publish url slot accounts).current = store.current := by
        unfold publish
        rw [if_neg]
        omega
      change (store.publish url slot accounts).current = snapshot
      rw [hkept]
      exact h.current (hunchanged.trans (hpublished.symm.trans hsame))
  | invalidate => exact ⟨h.keyed, h.le, h.current, h.retained⟩
  | snapshotPage now snapshotSlot after limit => exact h.snapshotPage now snapshotSlot after limit

/-- In an ascending run the served snapshot is always pinned. -/
theorem Ascending.pins (h : Ascending store) : Pins store.current store := by
  induction h with
  | new => exact ⟨fun slot entry hentry => by simp [Store.new] at hentry, le_rfl, fun _ => rfl,
      fun entry hentry => by simp [Store.new] at hentry⟩
  | @perform store _ op hop ih =>
    cases op with
    | publish url slot accounts =>
      by_cases hsame : (store.publish url slot accounts).current = store.current
      · change Pins (store.publish url slot accounts).current (store.publish url slot accounts)
        rw [hsame]
        exact ih.perform hop
      · have hpublished := slot_publish store url slot accounts
        have hraised : store.current.slot < slot := by
          refine lt_of_le_of_ne hop.2 fun heq => hsame ?_
          unfold publish
          rw [if_neg]
          exact fun hor => hor.elim (fun hne => hne heq) fun hzero => hop.1 (heq.symm.trans hzero)
        refine ⟨(ih.perform hop).keyed, le_rfl, fun _ => rfl, fun entry hentry => ?_⟩
        obtain ⟨-, hbound⟩ := ih.keyed _ entry hentry
        exact absurd (hpublished.symm.trans_le hbound) (not_le.mpr hraised)
    | invalidate => exact ih.perform hop
    | snapshotPage now snapshotSlot after limit =>
      have hcurrent := (snapshotPage_frame now store snapshotSlot after limit).1
      change Pins (store.snapshotPage now snapshotSlot after limit).2.current _
      rw [hcurrent]
      exact ih.perform hop

end Pins

end Store

end AltCache
