import AltCache.Store

/-!
# Pagination cursors and the snapshots they were cut from

A cursor names only a slot and a key, and snapshots are retained by slot, the first one of
a slot staying. A slot that is published again with other accounts can therefore hand out
cursors into a snapshot that is not the retained one. As long as no cursor is cut from
another snapshot of a slot that already has cursors, every cursor continues its own.
-/

namespace AltCache

open Std (ExtTreeMap)

namespace Store

/-- An operation on the store. -/
inductive Op where
  | publish (activeYellowstoneUrl : String) (slot : ℕ) (accounts : Accounts)
  | invalidate
  | snapshotPage (now : ℕ) (snapshotSlot : Option ℕ) (after : Option Key) (limit : ℕ)

/-- A cursor handed out, with the accounts of the snapshot it was cut from. -/
structure Cursor where
  slot : ℕ
  key : Key
  accounts : Accounts

/-- The cursor that a page request hands out. -/
def cursor (now : ℕ) (store : Store) (snapshotSlot : Option ℕ) (after : Option Key)
    (limit : ℕ) : Option Cursor :=
  match (store.snapshotPage now snapshotSlot after limit).1,
      (pageSource now store snapshotSlot).1 with
  | .ok page, .ok snapshot => page.next.map fun key => ⟨page.slot, key, snapshot.accounts⟩
  | _, _ => none

/-- A store with the cursors it has handed out. -/
structure Paging where
  store : Store
  issued : List Cursor

/-- Perform an operation and record the cursor it hands out. -/
def Paging.step (paging : Paging) : Op → Paging
  | .publish url slot accounts => { paging with store := paging.store.publish url slot accounts }
  | .invalidate => { paging with store := paging.store.invalidate }
  | .snapshotPage now snapshotSlot after limit =>
    { store := (paging.store.snapshotPage now snapshotSlot after limit).2
      issued := paging.issued ++ (paging.store.cursor now snapshotSlot after limit).toList }

/-- No cursor is cut from a snapshot whose slot has cursors into other accounts: a page that
does not exhaust its snapshot comes from the accounts of the earlier cursors of the slot. -/
def Paging.Admits (paging : Paging) : Op → Prop
  | .snapshotPage now snapshotSlot after limit => ∀ snapshot,
    (pageSource now paging.store snapshotSlot).1 = .ok snapshot →
      limit < (entriesAfter snapshot.accounts after).length →
        ∀ cursor ∈ paging.issued, cursor.slot = snapshot.slot →
          cursor.accounts = snapshot.accounts
  | _ => True

/-- The runs of a store whose operations satisfy a condition. -/
inductive Pages (admits : Paging → Op → Prop) : Paging → Prop where
  | new : Pages admits ⟨.new, []⟩
  | step {paging} (h : Pages admits paging) (op : Op) (hadmits : admits paging op) :
      Pages admits (paging.step op)

/-- What holds of a store and its cursors: every retained snapshot is kept under its slot and
was handed out a cursor, and cursors of one slot are cut from the same accounts. -/
structure Paging.Good (paging : Paging) : Prop where
  retained : ∀ (slot : ℕ) entry, paging.store.retained[slot]? = some entry →
    entry.snapshot.slot = slot ∧
      ∃ cursor ∈ paging.issued, cursor.slot = slot ∧ cursor.accounts = entry.snapshot.accounts
  issued : ∀ first ∈ paging.issued, ∀ second ∈ paging.issued, first.slot = second.slot →
    first.accounts = second.accounts

variable {now limit : ℕ} {store : Store} {snapshotSlot : Option ℕ} {after : Option Key}

/-- Renewing and dropping retained snapshots does not change any that stays. -/
theorem retained_pageSource {slot : ℕ} {entry : RetainedSnapshot}
    (h : (pageSource now store snapshotSlot).2.retained[slot]? = some entry) :
    ∃ old, store.retained[slot]? = some old ∧ old.snapshot = entry.snapshot := by
  have hunexpired {slot : ℕ} {entry : RetainedSnapshot}
      (h : (unexpired now store.retained)[slot]? = some entry) :
      store.retained[slot]? = some entry := by
    rw [unexpired, ExtTreeMap.getElem?_filter'] at h
    exact (Option.filter_eq_some_iff.mp h).1
  cases snapshotSlot with
  | none => exact ⟨entry, h, rfl⟩
  | some requested =>
    unfold pageSource at h
    dsimp only at h
    split at h
    · exact ⟨entry, hunexpired h, rfl⟩
    · next old hold =>
      rw [ExtTreeMap.getElem?_insert] at h
      split at h
      · next hsame =>
        obtain rfl := Nat.compare_eq_eq.mp hsame
        obtain rfl := Option.some.inj h
        exact ⟨old, hunexpired hold, rfl⟩
      · exact ⟨entry, hunexpired h, rfl⟩

/-- A continuation is served from the snapshot retained under its slot. -/
theorem pageSource_some {slot : ℕ} {snapshot : ServerSnapshot}
    (h : (pageSource now store (some slot)).1 = .ok snapshot) :
    ∃ entry, store.retained[slot]? = some entry ∧ entry.snapshot = snapshot := by
  unfold pageSource at h
  dsimp only at h
  split at h
  · cases h
  · next entry hentry =>
    rw [unexpired, ExtTreeMap.getElem?_filter'] at hentry
    exact ⟨entry, (Option.filter_eq_some_iff.mp hentry).1, Except.ok.inj h⟩

/-- A page is cut from its source, and its store is that of the source, with the source
retained if the page has a successor. -/
theorem snapshotPage_ok {page : SnapshotPage}
    (h : (store.snapshotPage now snapshotSlot after limit).1 = .ok page) :
    ∃ snapshot, (pageSource now store snapshotSlot).1 = .ok snapshot ∧
      page = ⟨snapshot.slot, (cutPage snapshot.accounts after limit).1.map Prod.snd,
        (cutPage snapshot.accounts after limit).2⟩ ∧
      (store.snapshotPage now snapshotSlot after limit).2 =
        if page.next.isSome then retain now snapshot (pageSource now store snapshotSlot).2
        else (pageSource now store snapshotSlot).2 := by
  unfold snapshotPage at h ⊢
  split at h
  · cases h
  · next hlimit =>
    rw [if_neg hlimit]
    split at h
    · cases h
    · next hready =>
      rw [if_neg hready]
      split at h
      · cases h
      · next snapshot source hsource =>
        rw [hsource]
        obtain rfl := Except.ok.inj h
        exact ⟨snapshot, rfl, rfl, rfl⟩

/-- A request that fails leaves at most its source's store behind. -/
theorem snapshotPage_error {error : String}
    (h : (store.snapshotPage now snapshotSlot after limit).1 = .error error) :
    (store.snapshotPage now snapshotSlot after limit).2 = store ∨
      (store.snapshotPage now snapshotSlot after limit).2 =
        (pageSource now store snapshotSlot).2 := by
  unfold snapshotPage at h ⊢
  split at h
  · next hlimit => exact Or.inl (by rw [if_pos hlimit])
  · next hlimit =>
    rw [if_neg hlimit]
    split at h
    · next hready => exact Or.inl (by rw [if_pos hready])
    · next hready =>
      rw [if_neg hready]
      split at h
      · next hsource =>
        rw [hsource]
        exact Or.inr rfl
      · cases h

/-- A page has a successor only if it does not exhaust its snapshot. -/
theorem lt_length_of_next {accounts : Accounts}
    (h : (cutPage accounts after limit).2.isSome) :
    limit < (entriesAfter accounts after).length := by
  unfold cutPage at h
  dsimp only at h
  split at h
  · next hlt => exact Nat.lt_of_lt_of_le hlt (List.length_take_le' ..)
  · cases h

/-- Unless the look-ahead wraps, a page is the first entries after its cursor. -/
theorem cutPage_entries (accounts : Accounts) (after : Option Key)
    (hlimit : limit + 1 < usizeCount) :
    (cutPage accounts after limit).1 = (entriesAfter accounts after).take limit := by
  have hadd : usizeAdd limit 1 = limit + 1 := Nat.mod_eq_of_lt hlimit
  simp [cutPage, hadd, List.take_take]

/-- Retaining a snapshot adds at most that snapshot. -/
theorem retained_retain {snapshot : ServerSnapshot} {slot : ℕ} {entry : RetainedSnapshot}
    (h : (retain now snapshot store).retained[slot]? = some entry) :
    store.retained[slot]? = some entry ∨ slot = snapshot.slot ∧ entry.snapshot = snapshot := by
  unfold retain at h
  split at h
  · exact Or.inl h
  · rw [ExtTreeMap.getElem?_insert] at h
    split at h
    · next hsame => exact Or.inr ⟨(Nat.compare_eq_eq.mp hsame).symm, (Option.some.inj h) ▸ rfl⟩
    · exact Or.inl h

/-- A store whose retained snapshots are those of a good one is good with more cursors of
agreeing accounts. -/
theorem Paging.Good.pageSource {paging : Paging} (h : paging.Good) :
    Paging.Good ⟨(Store.pageSource now paging.store snapshotSlot).2, paging.issued⟩ := by
  refine ⟨fun slot entry hentry => ?_, h.issued⟩
  obtain ⟨old, hold, hsame⟩ := retained_pageSource hentry
  exact hsame ▸ h.retained slot old hold

/-- Handing out a cursor and retaining its snapshot keeps the store good. -/
theorem Paging.Good.cut {paging : Paging} (h : paging.Good) {snapshot : ServerSnapshot}
    (hagree : ∀ cursor ∈ paging.issued, cursor.slot = snapshot.slot →
      cursor.accounts = snapshot.accounts) (key : Key) :
    Paging.Good ⟨retain now snapshot paging.store,
      paging.issued ++ [⟨snapshot.slot, key, snapshot.accounts⟩]⟩ := by
  refine ⟨fun slot entry hentry => ?_, fun first hfirst second hsecond hslot => ?_⟩
  · rcases retained_retain hentry with hold | ⟨rfl, hsnapshot⟩
    · obtain ⟨hslot, cursor, hcursor, hsame⟩ := h.retained slot entry hold
      exact ⟨hslot, cursor, List.mem_append_left _ hcursor, hsame⟩
    · exact ⟨hsnapshot ▸ rfl, _, List.mem_append_right _ List.mem_cons_self, rfl,
        hsnapshot ▸ rfl⟩
  · rcases List.mem_append.mp hfirst with hfirst | hfirst <;>
      rcases List.mem_append.mp hsecond with hsecond | hsecond
    · exact h.issued first hfirst second hsecond hslot
    · obtain rfl := List.mem_singleton.mp hsecond
      exact hagree first hfirst hslot
    · obtain rfl := List.mem_singleton.mp hfirst
      exact (hagree second hsecond hslot.symm).symm
    · rw [List.mem_singleton.mp hfirst, List.mem_singleton.mp hsecond]

/-- An operation that the condition admits keeps the store good. -/
theorem Paging.Good.step {paging : Paging} (h : paging.Good) {op : Op}
    (hadmits : paging.Admits op) : (paging.step op).Good := by
  cases op with
  | publish url slot accounts => exact ⟨h.retained, h.issued⟩
  | invalidate => exact ⟨h.retained, h.issued⟩
  | snapshotPage now snapshotSlot after limit =>
    cases hpage : (paging.store.snapshotPage now snapshotSlot after limit).1 with
    | error error =>
      have hcursor : paging.store.cursor now snapshotSlot after limit = none := by
        simp [cursor, hpage]
      simp only [Paging.step, hcursor, Option.toList_none, List.append_nil]
      rcases snapshotPage_error hpage with hstore | hstore
      · rw [hstore]
        exact h
      · rw [hstore]
        exact h.pageSource
    | ok page =>
      obtain ⟨snapshot, hsource, rfl, hstore⟩ := snapshotPage_ok hpage
      have hcursor : paging.store.cursor now snapshotSlot after limit =
          (cutPage snapshot.accounts after limit).2.map fun key =>
            ⟨snapshot.slot, key, snapshot.accounts⟩ := by
        simp [cursor, hpage, hsource]
      simp only [Paging.step, hcursor, hstore]
      cases hnext : (cutPage snapshot.accounts after limit).2 with
      | none => simpa using h.pageSource
      | some key =>
        have hagree := hadmits snapshot hsource (lt_length_of_next (by rw [hnext]; rfl))
        exact h.pageSource.cut hagree key

/-- In every run that the condition admits the store is good. -/
theorem Pages.good {paging : Paging} (h : Pages Paging.Admits paging) : paging.Good := by
  induction h with
  | new => exact ⟨fun slot entry hentry => by simp [Store.new] at hentry,
      fun first hfirst => absurd hfirst List.not_mem_nil⟩
  | step _ _ hadmits ih => exact ih.step hadmits

/-- In every run that the condition admits, a cursor continues the snapshot it was cut from:
a page requested with it that succeeds is the first entries of that snapshot after its key. -/
theorem cursor_continues {paging : Paging} (h : Pages Paging.Admits paging) {cursor : Cursor}
    (hcursor : cursor ∈ paging.issued) (now : ℕ) {limit : ℕ} (hlimit : limit + 1 < usizeCount)
    {page : SnapshotPage}
    (hpage : (paging.store.snapshotPage now (some cursor.slot) (some cursor.key) limit).1 =
      .ok page) :
    page.slot = cursor.slot ∧
      page.accounts =
        ((entriesAfter cursor.accounts (some cursor.key)).take limit).map Prod.snd := by
  obtain ⟨snapshot, hsource, rfl, -⟩ := snapshotPage_ok hpage
  obtain ⟨entry, hentry, rfl⟩ := pageSource_some hsource
  obtain ⟨hslot, other, hother, hsame, haccounts⟩ := h.good.retained _ entry hentry
  refine ⟨hslot, ?_⟩
  dsimp only
  rw [cutPage_entries _ _ hlimit, h.good.issued cursor hcursor other hother hsame.symm, haccounts]

/-- The accounts of some keys, as the unit tests build them. -/
def sampleAccounts (keys : List Key) : Accounts :=
  keys.foldl (fun accounts key => accounts.insert key (.sample key)) ∅

/-- A client takes one page of slot 10, and then slot 11 is published. -/
def pagedSlot : Paging :=
  (((⟨.new, []⟩ : Paging).step
    (.publish "rpc" 10 (sampleAccounts [.filled 3, .filled 1, .filled 2]))).step
    (.snapshotPage 0 none none 2)).step (.publish "rpc" 11 ∅)

/-- The cursor that the client holds. -/
def pagedSlotCursor : Cursor := pagedSlot.issued.head (by decide +kernel)

/-- The client's next page is the rest of slot 10. -/
theorem pagedSlot_continues :
    10 = pagedSlotCursor.slot ∧ [Account.sample (.filled 3)] =
      ((entriesAfter pagedSlotCursor.accounts (some pagedSlotCursor.key)).take 2).map Prod.snd :=
  cursor_continues
    (((Pages.new.step (.publish ..) trivial).step (.snapshotPage ..)
      fun _ _ _ _ h => absurd h List.not_mem_nil).step (.publish ..) trivial)
    (List.head_mem _) 1 (by decide)
    (show (pagedSlot.store.snapshotPage 1 (some pagedSlotCursor.slot) (some pagedSlotCursor.key)
      2).1 = .ok ⟨10, [Account.sample (.filled 3)], none⟩ by decide +kernel)

/-- Slot 10 is published with one table, left for slot 11, and published again with another;
a client takes a page each time. -/
def reusedSlot : Paging :=
  (((((⟨.new, []⟩ : Paging).step
    (.publish "rpc" 10 (sampleAccounts [.filled 1, .filled 2]))).step
    (.snapshotPage 0 none none 1)).step (.publish "rpc" 11 ∅)).step
    (.publish "rpc" 10 (sampleAccounts [.filled 1, .filled 3]))).step (.snapshotPage 0 none none 1)

/-- A cursor of the second snapshot continues with an account of the first. -/
theorem reusedSlot_mixes :
    Pages (fun _ _ => True) reusedSlot ∧
      ∃ cursor ∈ reusedSlot.issued,
        (reusedSlot.store.snapshotPage 1 (some cursor.slot) (some cursor.key) 1).1.toOption.map
          SnapshotPage.accounts = some [Account.sample (.filled 2)] ∧
        ((entriesAfter cursor.accounts (some cursor.key)).take 1).map Prod.snd =
          [Account.sample (.filled 3)] :=
  ⟨((((Pages.new.step _ trivial).step _ trivial).step _ trivial).step _ trivial).step _ trivial,
    by decide +kernel⟩

end Store

end AltCache
