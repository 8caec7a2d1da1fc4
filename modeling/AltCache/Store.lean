import AltCache.Account

/-!
# The snapshot store

The store serves one immutable snapshot at a time and retains snapshots that a client is
paging through, keyed by slot. Operations take the store and return the new one. Slots and
page limits are natural numbers; the one place where `usize` arithmetic can wrap, the
look-ahead `limit + 1`, wraps here as in a release build. Time is a clock reading in
nanoseconds that the caller supplies.
-/

namespace AltCache

open Std (ExtTreeMap)

/-- Served accounts by key. -/
abbrev Accounts := ExtTreeMap Key Account

/-- What a reader captures: a slot and the accounts as of that slot. -/
structure ReadSnapshot where
  slot : ℕ
  accounts : Accounts

/-- One page of a snapshot and the cursor after it. -/
structure SnapshotPage where
  slot : ℕ
  accounts : List Account
  next : Option Key
  deriving DecidableEq

/-- The immutable snapshot being served. -/
structure ServerSnapshot where
  slot : ℕ
  accounts : Accounts

/-- A snapshot kept for paging, and when a page was last taken from it. -/
structure RetainedSnapshot where
  snapshot : ServerSnapshot
  touched : ℕ

/-- The shared store. -/
structure Store where
  current : ServerSnapshot
  ready : Bool
  activeYellowstoneUrl : Option String
  retained : ExtTreeMap ℕ RetainedSnapshot

/-- How long an untouched snapshot stays retained: 300 seconds. -/
def retention : ℕ := 300 * 1000000000

/-- The number of `usize` values. -/
def usizeCount : ℕ := 2 ^ 64

/-- `usize` addition in a release build. -/
def usizeAdd (a b : ℕ) : ℕ := (a + b) % usizeCount

namespace Store

/-- An empty, unready store. -/
def new : Store where
  current := ⟨0, ∅⟩
  ready := false
  activeYellowstoneUrl := none
  retained := ∅

/-- Capture the served snapshot. -/
def readSnapshot (store : Store) : Except String ReadSnapshot :=
  if store.ready then .ok ⟨store.current.slot, store.current.accounts⟩
  else .error "cache is not ready"

/-- The entries of a snapshot above an exclusive lower bound, in key order. -/
def entriesAfter (accounts : Accounts) (after : Option Key) : List (Key × Account) :=
  accounts.toList.filter fun entry => after.all fun key => compare key entry.1 = .lt

/-- The retained snapshots last touched within the retention window. -/
def unexpired (now : ℕ) (retained : ExtTreeMap ℕ RetainedSnapshot) :
    ExtTreeMap ℕ RetainedSnapshot :=
  retained.filter fun _ value => now - value.touched < retention

/-- Find the snapshot a page request is served from, renewing its retention. -/
def pageSource (now : ℕ) (store : Store) :
    Option ℕ → Except String ServerSnapshot × Store
  | none => (.ok store.current, store)
  | some slot =>
    let retained := unexpired now store.retained
    match retained[slot]? with
    | none => (.error "snapshot expired; restart pagination", { store with retained })
    | some entry =>
      (.ok entry.snapshot,
        { store with retained := retained.insert slot { entry with touched := now } })

/-- Cut the page after a cursor: its entries, and the cursor of the next page if any. -/
def cutPage (accounts : Accounts) (after : Option Key) (limit : ℕ) :
    List (Key × Account) × Option Key :=
  let entries := (entriesAfter accounts after).take (usizeAdd limit 1)
  let next := if limit < entries.length then entries[limit - 1]?.map Prod.fst else none
  (entries.take limit, next)

/-- Retain a snapshot that has a further page, unless its slot is already retained. -/
def retain (now : ℕ) (snapshot : ServerSnapshot) (store : Store) : Store :=
  if store.retained.contains snapshot.slot then store
  else { store with retained := store.retained.insert snapshot.slot ⟨snapshot, now⟩ }

/-- Serve one page, either the first page of the current snapshot or a continuation. -/
def snapshotPage (now : ℕ) (store : Store) (snapshotSlot : Option ℕ) (after : Option Key)
    (limit : ℕ) : Except String SnapshotPage × Store :=
  if limit = 0 then (.error "snapshot page limit must be positive", store)
  else if ¬ store.ready then (.error "cache is not ready", store)
  else
    match pageSource now store snapshotSlot with
    | (.error error, store) => (.error error, store)
    | (.ok snapshot, store) =>
      let (entries, next) := cutPage snapshot.accounts after limit
      let store := if next.isSome then retain now snapshot store else store
      (.ok ⟨snapshot.slot, entries.map Prod.snd, next⟩, store)

/-- Refuse readers until the next publication. -/
def invalidate (store : Store) : Store := { store with ready := false }

/-- Publish a snapshot and become ready. A snapshot of the slot already served is not
replaced, except at slot 0. -/
def publish (store : Store) (activeYellowstoneUrl : String) (slot : ℕ) (accounts : Accounts) :
    Store :=
  { store with
    current :=
      if store.current.slot ≠ slot ∨ store.current.slot = 0 then ⟨slot, accounts⟩
      else store.current
    activeYellowstoneUrl := some activeYellowstoneUrl
    ready := true }

@[simp] theorem ready_invalidate (store : Store) : store.invalidate.ready = false := rfl

@[simp] theorem current_invalidate (store : Store) : store.invalidate.current = store.current := rfl

@[simp] theorem retained_invalidate (store : Store) :
    store.invalidate.retained = store.retained := rfl

@[simp] theorem ready_publish (store : Store) (url : String) (slot : ℕ) (accounts : Accounts) :
    (store.publish url slot accounts).ready = true := rfl

@[simp] theorem retained_publish (store : Store) (url : String) (slot : ℕ) (accounts : Accounts) :
    (store.publish url slot accounts).retained = store.retained := rfl

/-- The served slot after a publication is the published one. -/
@[simp] theorem slot_publish (store : Store) (url : String) (slot : ℕ) (accounts : Accounts) :
    (store.publish url slot accounts).current.slot = slot := by
  unfold publish
  split
  · rfl
  · next h => exact not_not.mp fun hne => h (Or.inl hne)

end Store

end AltCache
