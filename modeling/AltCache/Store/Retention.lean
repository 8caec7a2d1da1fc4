import AltCache.Store.Enumeration

/-!
# How long snapshots stay retained

Expiry runs on continuations only, and a first page neither sweeps the map nor renews the
entry that its slot already has. So first pages alone keep every snapshot they were cut from,
and a cursor of a slot that was paged before may expire before its window is over. Both laws
hold exactly when first pages do not meet such entries.
-/

namespace AltCache.Store

open Std (ExtTreeMap)

/-- Every retained snapshot was touched within the retention window. -/
def AllFresh (now : ℕ) (store : Store) : Prop :=
  ∀ (slot : ℕ) entry, store.retained[slot]? = some entry → entry.Fresh now

/-- A page was served. -/
def Answers (now : ℕ) (store : Store) (snapshotSlot : Option ℕ) (after : Option Key)
    (limit : ℕ) : Prop :=
  ∃ page, (store.snapshotPage now snapshotSlot after limit).1 = .ok page

/-- The clock reading of an operation that takes one. -/
def Op.now? : Op → Option ℕ
  | .snapshotPage now _ _ _ => some now
  | _ => none

/-- A cursor of a slot handed out at a time is good for the whole window: whatever happens,
every continuation within it that finds the store ready is served. -/
def GoodCursor (issued slot : ℕ) (key : Key) (store : Store) : Prop :=
  ∀ ops now limit, (issued :: (ops.filterMap Op.now? ++ [now])).Pairwise (· ≤ ·) →
    now < issued + retention → (store.performAll ops).ready = true → 0 < limit →
      Answers now (store.performAll ops) (some slot) (some key) limit

variable {store : Store} {now limit slot : ℕ} {snapshotSlot : Option ℕ} {after : Option Key}

section Bounded

/-- An entry just touched is fresh. -/
theorem fresh_touched (now : ℕ) (snapshot : ServerSnapshot) :
    RetainedSnapshot.Fresh now ⟨snapshot, now⟩ := by
  simp [RetainedSnapshot.Fresh, retention]

/-- An entry touched since a time is fresh for a whole window from it. -/
theorem fresh_of_window {entry : RetainedSnapshot} {issued : ℕ} (htouched : issued ≤ entry.touched)
    (hwindow : now < issued + retention) : entry.Fresh now := by
  have hretention : 0 < retention := by decide
  unfold RetainedSnapshot.Fresh
  omega

/-- Retaining a snapshot leaves only fresh entries exactly if there were no others. -/
theorem allFresh_retain_iff (snapshot : ServerSnapshot) :
    (retain now snapshot store).AllFresh now ↔ store.AllFresh now := by
  constructor
  · intro h slot entry hentry
    exact h slot entry (by rw [getElem?_retain, hentry, Option.some_or])
  · intro h slot entry hentry
    rw [getElem?_retain, Option.or_eq_some_iff] at hentry
    rcases hentry with hentry | ⟨-, hentry⟩
    · exact h slot entry hentry
    · split at hentry
      · obtain rfl := Option.some.inj hentry
        exact fresh_touched now snapshot
      · cases hentry

/-- A continuation sweeps. -/
theorem allFresh_pageSource (now : ℕ) (store : Store) (slot : ℕ) :
    (pageSource now store (some slot)).2.AllFresh now := by
  intro other entry hentry
  rw [getElem?_pageSource] at hentry
  obtain ⟨old, hold, rfl⟩ := Option.map_eq_some_iff.mp hentry
  split
  · exact fresh_touched now old.snapshot
  · exact of_decide_eq_true (Option.filter_eq_some_iff.mp hold).2

/-- After a served page everything retained is fresh, if the page was a continuation or
everything was fresh before, and only then. -/
theorem allFresh_snapshotPage_iff (h : Answers now store snapshotSlot after limit) :
    (store.snapshotPage now snapshotSlot after limit).2.AllFresh now ↔
      snapshotSlot.isSome ∨ store.AllFresh now := by
  obtain ⟨page, hpage⟩ := h
  obtain ⟨snapshot, -, -, hstore⟩ := snapshotPage_ok hpage
  have hsource : (store.snapshotPage now snapshotSlot after limit).2.AllFresh now ↔
      (pageSource now store snapshotSlot).2.AllFresh now := by
    rw [hstore]
    split
    · exact allFresh_retain_iff snapshot
    · exact Iff.rfl
  rw [hsource]
  cases snapshotSlot with
  | none => simp [pageSource]
  | some slot => simp [allFresh_pageSource]

/-- In every run, what is retained is fresh after every page served if and only if every first
page served finds what is retained fresh. -/
theorem retained_fresh_iff (ops : List Op) :
    (∀ first now snapshotSlot after limit rest,
      ops = first ++ .snapshotPage now snapshotSlot after limit :: rest →
      Answers now (new.performAll first) snapshotSlot after limit →
      ((new.performAll first).snapshotPage now snapshotSlot after limit).2.AllFresh now) ↔
    ∀ first now after limit rest, ops = first ++ .snapshotPage now none after limit :: rest →
      Answers now (new.performAll first) none after limit →
      (new.performAll first).AllFresh now := by
  constructor
  · intro h first now after limit rest hops hanswers
    exact ((allFresh_snapshotPage_iff hanswers).mp
      (h first now none after limit rest hops hanswers)).resolve_left Bool.false_ne_true
  · intro h first now snapshotSlot after limit rest hops hanswers
    apply (allFresh_snapshotPage_iff hanswers).mpr
    cases snapshotSlot with
    | none => exact Or.inr (h first now after limit rest hops hanswers)
    | some slot => exact Or.inl rfl

/-- A snapshot of two tables in a slot. -/
def publishPair (slot : ℕ) : Op :=
  .publish "rpc" slot (sampleAccounts [.filled 1, .filled 2])

/-- A client takes first pages of slot 10 and, a whole window later, of slot 11. -/
def firstPagesOnly : List Op :=
  [publishPair 10, .snapshotPage 0 none none 1, publishPair 11,
    .snapshotPage retention none none 1]

/-- Then the snapshot of slot 10 is still retained, untouched for the whole window. -/
theorem firstPagesOnly_not_fresh :
    ¬ ∀ first now snapshotSlot after limit rest,
      firstPagesOnly = first ++ .snapshotPage now snapshotSlot after limit :: rest →
      Answers now (new.performAll first) snapshotSlot after limit →
      ((new.performAll first).snapshotPage now snapshotSlot after limit).2.AllFresh now := by
  intro h
  have hserved : ((new.performAll (firstPagesOnly.take 3)).snapshotPage retention none none 1).1 =
      .ok ⟨11, [.sample (.filled 1)], some (.filled 1)⟩ := by decide +kernel
  have hfresh := h (firstPagesOnly.take 3) retention none none 1 [] rfl ⟨_, hserved⟩ 10
  have hexpired : ((new.performAll firstPagesOnly).retained[10]?.any fun entry =>
      ¬ entry.Fresh retention) = true := by decide +kernel
  obtain ⟨entry, hentry, hstale⟩ := (Option.any_eq_true _ _).mp hexpired
  exact of_decide_eq_true hstale (hfresh entry hentry)

end Bounded

section Cursor

/-- Entries are retained under their own slots. -/
def Keyed (store : Store) : Prop :=
  ∀ (slot : ℕ) entry, store.retained[slot]? = some entry → entry.snapshot.slot = slot

/-- Every operation keeps entries under their own slots. -/
theorem Keyed.perform (h : store.Keyed) (op : Op) : (store.perform op).Keyed := by
  cases op with
  | publish url slot accounts => exact h
  | invalidate => exact h
  | snapshotPage now snapshotSlot after limit =>
    intro slot entry hentry
    rcases retained_snapshotPage hentry with ⟨old, hold, hsame⟩ | ⟨rfl, hserved⟩ |
      ⟨key, old, hold, hsame, rfl⟩
    · exact hsame ▸ h slot old hold
    · rw [hserved]
    · rw [hsame]

/-- In every run entries are retained under their own slots. -/
theorem keyed_performAll (ops : List Op) : (new.performAll ops).Keyed := by
  induction ops using List.reverseRecOn with
  | nil => exact fun slot entry hentry => by simp [performAll, new] at hentry
  | append_singleton ops op ih =>
    rw [performAll, List.foldl_concat]
    exact ih.perform op

/-- What is retained under a slot was touched no earlier than a time. -/
def TouchedSince (time slot : ℕ) (store : Store) : Prop :=
  ∃ entry, store.retained[slot]? = some entry ∧ time ≤ entry.touched

/-- An operation within the window keeps a touched entry retained. -/
theorem TouchedSince.perform {issued : ℕ} (h : TouchedSince issued slot store) {op : Op}
    (hop : ∀ time ∈ op.now?, issued ≤ time ∧ time < issued + retention) :
    TouchedSince issued slot (store.perform op) := by
  obtain ⟨entry, hentry, htouched⟩ := h
  cases op with
  | publish url slot accounts => exact ⟨entry, hentry, htouched⟩
  | invalidate => exact ⟨entry, hentry, htouched⟩
  | snapshotPage now snapshotSlot after limit =>
    obtain ⟨hissued, hwindow⟩ := hop now rfl
    have hsource : TouchedSince issued slot (pageSource now store snapshotSlot).2 := by
      cases snapshotSlot with
      | none => exact ⟨entry, hentry, htouched⟩
      | some requested =>
        have hfresh := fresh_of_window htouched hwindow
        have hkept : some entry = (some entry).filter (decide <| RetainedSnapshot.Fresh now ·) :=
          (Option.filter_some_pos (p := fun entry : RetainedSnapshot => decide (entry.Fresh now))
            (decide_eq_true hfresh)).symm
        refine ⟨if requested = slot then { entry with touched := now } else entry, ?_, ?_⟩
        · rw [getElem?_pageSource, hentry, ← hkept, Option.map_some]
        · split
          · exact hissued
          · exact htouched
    change TouchedSince issued slot (store.snapshotPage now snapshotSlot after limit).2
    cases hpage : (store.snapshotPage now snapshotSlot after limit).1 with
    | error error =>
      rcases snapshotPage_error hpage with hstore | hstore
      · exact hstore.symm ▸ ⟨entry, hentry, htouched⟩
      · exact hstore.symm ▸ hsource
    | ok page =>
      obtain ⟨snapshot, -, -, hstore⟩ := snapshotPage_ok hpage
      rw [hstore]
      split
      · obtain ⟨kept, hkept, hsince⟩ := hsource
        exact ⟨kept, by rw [getElem?_retain, hkept, Option.some_or], hsince⟩
      · exact hsource

/-- Operations within the window keep a touched entry retained. -/
theorem TouchedSince.performAll {issued : ℕ} (h : TouchedSince issued slot store) {ops : List Op}
    (hops : ∀ time ∈ ops.filterMap Op.now?, issued ≤ time ∧ time < issued + retention) :
    TouchedSince issued slot (store.performAll ops) := by
  induction ops generalizing store with
  | nil => exact h
  | cons op ops ih =>
    refine ih (h.perform fun time htime => hops time ?_) fun time htime => hops time ?_
    · exact List.mem_filterMap.mpr ⟨op, List.mem_cons_self, htime⟩
    · obtain ⟨other, hother, htime⟩ := List.mem_filterMap.mp htime
      exact List.mem_filterMap.mpr ⟨other, List.mem_cons_of_mem _ hother, htime⟩

/-- A cursor of a slot touched since it was issued is good. -/
theorem TouchedSince.goodCursor {issued : ℕ} (h : TouchedSince issued slot store) (key : Key) :
    GoodCursor issued slot key store := by
  intro ops now limit hclock hwindow hready hlimit
  obtain ⟨hissued, hclock⟩ := List.pairwise_cons.mp hclock
  have hlast : ∀ time ∈ ops.filterMap Op.now?, time ≤ now := fun time htime =>
    (List.pairwise_append.mp hclock).2.2 time htime now List.mem_cons_self
  obtain ⟨entry, hentry, htouched⟩ := h.performAll fun time htime =>
    ⟨hissued time (List.mem_append_left _ htime), (hlast time htime).trans_lt hwindow⟩
  have hfresh := fresh_of_window htouched hwindow
  exact ⟨_, snapshotPage_of_pageSource hready hlimit (pageSource_of_fresh hentry hfresh) _⟩

/-- A cursor of a slot touched only before it was issued expires too early. -/
theorem not_goodCursor {issued : ℕ} {entry : RetainedSnapshot} {key : Key}
    (hready : store.ready = true) (hentry : store.retained[slot]? = some entry)
    (htouched : entry.touched < issued) : ¬ GoodCursor issued slot key store := by
  intro hgood
  have hretention : 0 < retention := by decide
  obtain ⟨page, hpage⟩ := hgood [] (max issued (entry.touched + retention)) 1
    (List.pairwise_pair.mpr (le_max_left _ _)) (by omega) hready Nat.one_pos
  obtain ⟨snapshot, hsource, -⟩ := snapshotPage_ok hpage
  have hexpired : ¬ entry.Fresh (max issued (entry.touched + retention)) := by
    unfold RetainedSnapshot.Fresh
    omega
  have hswept : (unexpired (max issued (entry.touched + retention)) store.retained)[slot]? =
      none := by
    rw [unexpired, ExtTreeMap.getElem?_filter', hentry]
    exact Option.filter_some_neg (by simpa [RetainedSnapshot.Fresh] using hexpired)
  unfold pageSource at hsource
  dsimp only [performAll, List.foldl_nil] at hsource
  rw [hswept] at hsource
  cases hsource

/-- A page is served only when the store is ready. -/
theorem ready_of_snapshotPage {page : SnapshotPage}
    (hpage : (store.snapshotPage now snapshotSlot after limit).1 = .ok page) :
    store.ready = true := by
  unfold snapshotPage at hpage
  split at hpage
  · cases hpage
  · split at hpage
    · cases hpage
    · next hready => exact not_not.mp hready

/-- A continuation that is served has just renewed its slot. -/
theorem touchedSince_pageSource {snapshot : ServerSnapshot}
    (hsource : (pageSource now store (some slot)).1 = .ok snapshot) :
    TouchedSince now slot (pageSource now store (some slot)).2 := by
  unfold pageSource at hsource ⊢
  dsimp only at hsource ⊢
  split at hsource
  · cases hsource
  · next entry hentry =>
    exact ⟨{ entry with touched := now }, ExtTreeMap.getElem?_insert_self, le_rfl⟩

/-- A cursor is good for the whole window if and only if the page that hands it out is a
continuation, or its slot has no entry touched before. -/
theorem goodCursor_iff (ops : List Op) {page : SnapshotPage} {key : Key}
    (hpage : ((new.performAll ops).snapshotPage now snapshotSlot after limit).1 = .ok page)
    (hnext : page.next = some key) :
    GoodCursor now page.slot key
        ((new.performAll ops).snapshotPage now snapshotSlot after limit).2 ↔
      snapshotSlot.isSome ∨ ∀ entry, (new.performAll ops).retained[page.slot]? = some entry →
        now ≤ entry.touched := by
  obtain ⟨snapshot, hsource, hcut, hstore⟩ := snapshotPage_ok hpage
  rw [hnext, Option.isSome_some, if_pos rfl] at hstore
  have hslot : page.slot = snapshot.slot := by rw [hcut]
  have hready : ((new.performAll ops).snapshotPage now snapshotSlot after limit).2.ready = true :=
    (snapshotPage_frame ..).2.trans (ready_of_snapshotPage hpage)
  cases snapshotSlot with
  | none =>
    rw [or_iff_right (by simp)]
    constructor
    · intro hgood entry hentry
      refine not_lt.mp fun htouched => not_goodCursor hready ?_ htouched hgood
      rw [hstore, getElem?_retain, show (pageSource now (new.performAll ops) none).2 =
        new.performAll ops from rfl, hentry, Option.some_or]
    · intro hsince
      refine TouchedSince.goodCursor ?_ key
      rw [hstore, hslot]
      cases hentry : (new.performAll ops).retained[snapshot.slot]? with
      | none => exact ⟨⟨snapshot, now⟩, by rw [getElem?_retain]; simp [pageSource, hentry], le_rfl⟩
      | some entry =>
        exact ⟨entry, by rw [getElem?_retain]; simp [pageSource, hentry],
          hsince entry (hslot ▸ hentry)⟩
  | some slot =>
    refine iff_of_true ?_ (Or.inl rfl)
    obtain ⟨entry, hentry, rfl⟩ := pageSource_some hsource
    obtain rfl := keyed_performAll ops slot entry hentry
    obtain ⟨kept, hkept, hsince⟩ := touchedSince_pageSource hsource
    refine TouchedSince.goodCursor ⟨kept, ?_, hsince⟩ key
    rw [hstore, hslot, getElem?_retain, hkept, Option.some_or]

/-- A client takes the first page of slot 10, and 200 seconds later another one does. -/
def secondClient : List Op := [publishPair 10, .snapshotPage 0 none none 1]

/-- The first client's cursor is good. -/
theorem firstClient_goodCursor :
    GoodCursor 0 10 (.filled 1)
      ((new.performAll [publishPair 10]).snapshotPage 0 none none 1).2 := by
  have hpage : ((new.performAll [publishPair 10]).snapshotPage 0 none none 1).1 =
      .ok ⟨10, [.sample (.filled 1)], some (.filled 1)⟩ := by decide +kernel
  exact (goodCursor_iff [publishPair 10] hpage rfl).mpr
    (Or.inr fun entry hentry => Nat.zero_le entry.touched)

/-- The second client's cursor expires with the first client's page. -/
theorem secondClient_not_goodCursor :
    ((new.performAll secondClient).snapshotPage 200000000000 none none 1).1 =
        .ok ⟨10, [.sample (.filled 1)], some (.filled 1)⟩ ∧
      ¬ GoodCursor 200000000000 10 (.filled 1)
        ((new.performAll secondClient).snapshotPage 200000000000 none none 1).2 := by
  have hpage : ((new.performAll secondClient).snapshotPage 200000000000 none none 1).1 =
      .ok ⟨10, [.sample (.filled 1)], some (.filled 1)⟩ := by decide +kernel
  refine ⟨hpage, fun hgood => ?_⟩
  have htouched : (((new.performAll secondClient).snapshotPage 200000000000 none none
      1).2.retained[10]?.any fun entry => entry.touched < 200000000000) = true := by decide +kernel
  obtain ⟨entry, hentry, hbefore⟩ := (Option.any_eq_true _ _).mp htouched
  exact not_goodCursor (by decide +kernel) hentry (of_decide_eq_true hbefore) hgood

end Cursor

end AltCache.Store
