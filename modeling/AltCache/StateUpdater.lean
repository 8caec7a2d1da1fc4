import AltCache.Store
import AltCache.Replay.Buckets
import AltCache.Replay.Write

/-!
# The state updater

Account writes are staged by slot and enter the accounts map when their slot is confirmed.
A write is dropped if it lies below the bootstrap slot or is not newer than the last write
of its key. Once recovery has finished every confirmation publishes the accounts map. The
updater shares the store, so operations that publish take it and return it.
-/

namespace AltCache

open Std (ExtTreeMap)
open AltCache.Replay (Buckets)

/-- A full state read from the bootstrap RPC. -/
structure FetchedAltState where
  contextSlot : ℕ
  accounts : Accounts

/-- A staged change of one key; no account means removal. -/
structure Mutation where
  key : Key
  account : Option Account
  deriving DecidableEq

/-- The replay engine of the server. -/
structure StateUpdater where
  bootstrapSlot : ℕ
  confirmedSlot : ℕ
  activeYellowstoneUrl : String
  accounts : Accounts
  pending : Buckets Mutation
  versions : ExtTreeMap Key (ℕ ×ₗ ℕ)
  recovering : Bool

/-- Insert or remove one account. -/
def applyMutation (accounts : Accounts) (mutation : Mutation) : Accounts :=
  match mutation.account with
  | some account => accounts.insert mutation.key account
  | none => accounts.erase mutation.key

namespace StateUpdater

/-- The updater before the first bootstrap. -/
def new : StateUpdater where
  bootstrapSlot := 0
  confirmedSlot := 0
  activeYellowstoneUrl := ""
  accounts := ∅
  pending := ∅
  versions := ∅
  recovering := true

/-- Start recovering from a fetched state. -/
def fromFetchedAltState (activeYellowstoneUrl : String) (fetched : FetchedAltState) :
    StateUpdater where
  bootstrapSlot := fetched.contextSlot
  confirmedSlot := fetched.contextSlot
  activeYellowstoneUrl := activeYellowstoneUrl
  accounts := fetched.accounts
  pending := ∅
  versions := ∅
  recovering := true

/-- Apply the mutations staged for one slot and drop its queue. -/
def applySlot (updater : StateUpdater) (slot : ℕ) : StateUpdater :=
  { updater with
    accounts := (updater.pending.getD slot []).foldl applyMutation updater.accounts
    pending := updater.pending.erase slot }

/-- Apply everything staged up to a slot, slot by slot in ascending order. -/
def applyPendingThrough (updater : StateUpdater) (slot : ℕ) : StateUpdater :=
  (updater.pending.slotsThrough slot).foldl applySlot updater

/-- Publish the recovered state and leave recovery. -/
def finishRecovery (updater : StateUpdater) (store : Store) : StateUpdater × Store :=
  let updater := updater.applyPendingThrough updater.confirmedSlot
  ({ updater with recovering := false },
    store.publish updater.activeYellowstoneUrl updater.confirmedSlot updater.accounts)

/-- Stage an account write; the flag tells whether it was accepted. -/
def queue (updater : StateUpdater) (key : Key) (slot version : ℕ) (account : Option Account) :
    Bool × StateUpdater :=
  if slot < updater.bootstrapSlot ∨
      (updater.versions[key]?).any (fun old => decide (toLex (slot, version) ≤ old)) then
    (false, updater)
  else
    (true,
      { updater with
        versions := updater.versions.insert key (toLex (slot, version))
        pending := updater.pending.push slot ⟨key, account⟩ })

/-- Confirm a slot; the flag tells whether the confirmed slot rose. -/
def confirm (updater : StateUpdater) (store : Store) (slot : ℕ) :
    Bool × StateUpdater × Store :=
  if slot ≤ updater.confirmedSlot then (false, updater, store)
  else
    let updater := { updater.applyPendingThrough slot with confirmedSlot := slot }
    (true, updater,
      if updater.recovering then store
      else store.publish updater.activeYellowstoneUrl slot updater.accounts)

@[simp] theorem accounts_queue (updater : StateUpdater) (key : Key) (slot version : ℕ)
    (account : Option Account) :
    (updater.queue key slot version account).2.accounts = updater.accounts := by
  unfold queue; split <;> rfl

@[simp] theorem confirmedSlot_queue (updater : StateUpdater) (key : Key) (slot version : ℕ)
    (account : Option Account) :
    (updater.queue key slot version account).2.confirmedSlot = updater.confirmedSlot := by
  unfold queue; split <;> rfl

/-- The accounts after an update of one key. -/
theorem getElem?_applyMutation (accounts : Accounts) (mutation : Mutation) (k : Key) :
    (applyMutation accounts mutation)[k]? =
      if mutation.key = k then mutation.account else accounts[k]? := by
  unfold applyMutation
  cases mutation.account with
  | none => simp [ExtTreeMap.getElem?_erase]
  | some account => simp [ExtTreeMap.getElem?_insert]

/-- The accounts after a list of updates: the last update of a key decides. -/
theorem getElem?_foldl_applyMutation (mutations : List Mutation) (accounts : Accounts) (k : Key) :
    (mutations.foldl applyMutation accounts)[k]? =
      ((mutations.filter (·.key = k)).getLast?).elim accounts[k]? Mutation.account := by
  induction mutations using List.reverseRecOn with
  | nil => rfl
  | append_singleton mutations m ih =>
    rw [List.foldl_concat, getElem?_applyMutation, List.filter_append]
    by_cases hk : m.key = k
    · simp [hk]
    · simp [hk, ih]

/-- Visiting a list of distinct slots applies their queues in turn and erases them. -/
theorem foldl_applySlot (slots : List ℕ) (hslots : slots.Nodup) (updater : StateUpdater) :
    slots.foldl applySlot updater =
      { updater with
        accounts := (slots.flatMap (updater.pending.getD · [])).foldl applyMutation updater.accounts
        pending := slots.foldl ExtTreeMap.erase updater.pending } := by
  induction slots generalizing updater with
  | nil => rfl
  | cons s slots ih =>
    obtain ⟨hs, hrest⟩ := List.nodup_cons.mp hslots
    have hothers : slots.flatMap ((updater.pending.erase s).getD · []) =
        slots.flatMap (updater.pending.getD · []) :=
      List.flatMap_congr fun t ht =>
        Buckets.getD_erase_of_ne updater.pending fun heq => hs (heq ▸ ht)
    rw [List.foldl_cons, ih hrest, List.flatMap_cons, List.foldl_append, List.foldl_cons,
      applySlot, hothers]

/-- Applying everything up to a slot drains the queues up to it into the accounts. -/
theorem applyPendingThrough_eq (updater : StateUpdater) (slot : ℕ) :
    updater.applyPendingThrough slot =
      { updater with
        accounts := (updater.pending.through slot).foldl applyMutation updater.accounts
        pending := updater.pending.dropThrough slot } :=
  foldl_applySlot _ ((updater.pending.slotsThrough_pairwise slot).imp ne_of_lt) updater

end StateUpdater

end AltCache
