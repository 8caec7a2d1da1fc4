import AltCache.Api.Grpc
import AltCache.Blocks
import AltCache.Client.Agreement

/-!
# Downloading a snapshot

The client collects the chunks of a snapshot stream. It checks that all chunks name one slot
and one number of accounts, decodes each table, and in the end compares the number of tables
with the announced one. The accumulated map, not the number of messages, decides, so chunks
may be repeated or reordered, and none may be lost.
-/

namespace AltCache

open Std (ExtTreeMap)

/-- What has been downloaded so far. -/
structure SnapshotDownload where
  slot : Option ℕ
  totalAccounts : Option ℕ
  tables : Option Tables
  chunks : ℕ
  payloadBytes : ℕ

/-- A complete snapshot. -/
structure CompletedSnapshot where
  slot : ℕ
  tables : Tables
  chunks : ℕ
  payloadBytes : ℕ

/-- Decode one account and count its bytes. -/
def insertAccount (deserialize : Deserialize) (state : Tables × ℕ) (account : AltAccount) :
    Except String (Tables × ℕ) :=
  let payloadBytes := state.2 + (account.pubkey.length + account.data.length)
  match Key.ofBytes? account.pubkey with
  | none => .error "could not convert slice to array"
  | some key =>
    match deserialize account.data with
    | none => .error "invalid ALT account"
    | some addresses => .ok (state.1.insert key ⟨key, addresses⟩, payloadBytes)

namespace SnapshotDownload

/-- `SnapshotDownload::default`. -/
def new : SnapshotDownload where
  slot := none
  totalAccounts := none
  tables := none
  chunks := 0
  payloadBytes := 0

/-- A chunk makes `push` panic: the first chunk that is not refused allocates the map for the
announced number of accounts, and `DashMap::with_capacity` panics on a number for which no map
can be allocated. -/
def pushPanics (allocates : ℕ → Bool) (download : SnapshotDownload) (chunk : SnapshotChunk) :
    Bool :=
  chunk.confirmedSlot = download.slot.getD chunk.confirmedSlot &&
    chunk.totalAccounts = download.totalAccounts.getD chunk.totalAccounts &&
    download.tables.isNone && !allocates chunk.totalAccounts

/-- Take one chunk that does not make it panic. The number of accounts always fits a 64-bit
`usize`. -/
def push (deserialize : Deserialize) (download : SnapshotDownload) (chunk : SnapshotChunk) :
    Except String SnapshotDownload :=
  let slot := chunk.confirmedSlot
  let firstSlot := download.slot.getD slot
  if slot ≠ firstSlot then .error s!"snapshot slot changed from {firstSlot} to {slot}"
  else
    let count := chunk.totalAccounts
    let expected := download.totalAccounts.getD count
    if count ≠ expected then
      .error s!"snapshot account count changed from {expected} to {count}"
    else
      let tables := download.tables.getD ∅
      match chunk.accounts.foldlM (insertAccount deserialize) (tables, download.payloadBytes) with
      | .error error => .error error
      | .ok (tables, payloadBytes) =>
        .ok
          { slot := some firstSlot
            totalAccounts := some expected
            tables := some tables
            chunks := download.chunks + 1
            payloadBytes }

/-- Check that nothing is missing. The count and the tables are set with the slot. -/
def finish (download : SnapshotDownload) : Except String CompletedSnapshot :=
  match download.slot, download.totalAccounts, download.tables with
  | some slot, some expected, some tables =>
    let count := tables.size
    if count ≠ expected then .error s!"snapshot ended after {count} of {expected} accounts"
    else .ok ⟨slot, tables, download.chunks, download.payloadBytes⟩
  | _, _, _ => .error "snapshot gRPC stream was empty"

/-- Take chunks in order. -/
def pushAll (deserialize : Deserialize) (download : SnapshotDownload)
    (received : List SnapshotChunk) : Except String SnapshotDownload :=
  received.foldlM (push deserialize) download

end SnapshotDownload

/-- `fetch_snapshot`: collect a stream of chunks until it ends. -/
def fetchSnapshot (deserialize : Deserialize) (stream : List SnapshotChunk) :
    Except String CompletedSnapshot :=
  (SnapshotDownload.new.pushAll deserialize stream).bind SnapshotDownload.finish

/-- The keys a chunk carries. -/
def SnapshotChunk.keys (chunk : SnapshotChunk) : List Key :=
  chunk.accounts.filterMap fun account => Key.ofBytes? account.pubkey

section Download

variable {deserialize : Deserialize} {snapshot : ReadSnapshot} {tables : Tables} {keys : List Key}

/-- Every table of a snapshot can be decoded. -/
def Decodable (deserialize : Deserialize) (accounts : Accounts) : Prop :=
  ∀ entry ∈ accounts.toList, (deserialize entry.2.value.data).isSome

/-- The tables decoded from those accounts whose keys were received. -/
def Collected (deserialize : Deserialize) (accounts : Accounts) (keys : List Key)
    (tables : Tables) : Prop :=
  ∀ k : Key, tables[k]? =
    if k ∈ keys then
      accounts[k]?.bind fun account =>
        (deserialize account.value.data).map (AddressLookupTableAccount.mk k)
    else none

/-- A key is read back from a streamed entry. -/
@[simp] theorem ofBytes?_pubkey_ofEntry (entry : Key × Account) :
    Key.ofBytes? (AltAccount.ofEntry entry).pubkey = some entry.1 :=
  Key.ofBytes?_eq_some.mpr rfl

/-- Decoding one served account adds its table. -/
theorem Collected.insertAccount {accounts : Accounts} {entry : Key × Account}
    (h : Collected deserialize accounts keys tables) (hdecodable : Decodable deserialize accounts)
    (hentry : entry ∈ accounts.toList) (payloadBytes : ℕ) :
    ∃ state, insertAccount deserialize (tables, payloadBytes) (.ofEntry entry) = .ok state ∧
      Collected deserialize accounts (keys ++ [entry.1]) state.1 := by
  obtain ⟨addresses, haddresses⟩ := Option.isSome_iff_exists.mp (hdecodable entry hentry)
  have hserved : accounts[entry.1]? = some entry.2 :=
    ExtTreeMap.mem_toList_iff_getElem?_eq_some.mp hentry
  have hdata : (AltAccount.ofEntry entry).data = entry.2.value.data := rfl
  unfold AltCache.insertAccount
  rw [ofBytes?_pubkey_ofEntry, hdata, haddresses]
  refine ⟨_, rfl, fun k => ?_⟩
  rw [ExtTreeMap.getElem?_insert]
  by_cases hk : entry.1 = k
  · subst hk
    simp [hserved, haddresses]
  · rw [if_neg (by simpa using hk), h k]
    simp [Ne.symm hk]

/-- Decoding served accounts adds their tables. -/
theorem Collected.insertAccounts {accounts : Accounts} {sent : List AltAccount}
    (h : Collected deserialize accounts keys tables) (hdecodable : Decodable deserialize accounts)
    (hsent : ∀ account ∈ sent, ∃ entry ∈ accounts.toList, account = .ofEntry entry)
    (payloadBytes : ℕ) :
    ∃ state, sent.foldlM (AltCache.insertAccount deserialize) (tables, payloadBytes) = .ok state ∧
      Collected deserialize accounts
        (keys ++ sent.filterMap fun account => Key.ofBytes? account.pubkey) state.1 := by
  induction sent generalizing tables keys payloadBytes with
  | nil => exact ⟨_, rfl, by simpa using h⟩
  | cons account sent ih =>
    obtain ⟨entry, hentry, rfl⟩ := hsent account List.mem_cons_self
    obtain ⟨state, hstate, hcollected⟩ := h.insertAccount hdecodable hentry payloadBytes
    obtain ⟨state', hstate', hcollected'⟩ :=
      ih hcollected (fun other hother => hsent other (List.mem_cons_of_mem _ hother)) state.2
    refine ⟨state', ?_, by simpa using hcollected'⟩
    rw [List.foldlM_cons, hstate]
    exact hstate'

/-- A chunk of a snapshot: the header of the snapshot, and some of its accounts. -/
structure SnapshotChunk.Of (snapshot : ReadSnapshot) (chunk : SnapshotChunk) : Prop where
  confirmedSlot : chunk.confirmedSlot = snapshot.slot
  totalAccounts : chunk.totalAccounts = snapshot.accounts.size
  accounts : ∀ account ∈ chunk.accounts, ∃ entry ∈ snapshot.accounts.toList,
    account = .ofEntry entry

/-- What a download holds after some chunks of a snapshot. -/
structure Received (deserialize : Deserialize) (snapshot : ReadSnapshot)
    (received : List SnapshotChunk) (download : SnapshotDownload) : Prop where
  slot : download.slot.getD snapshot.slot = snapshot.slot
  totalAccounts : download.totalAccounts.getD snapshot.accounts.size = snapshot.accounts.size
  tables : Collected deserialize snapshot.accounts (received.flatMap SnapshotChunk.keys)
    (download.tables.getD ∅)
  fresh : received = [] → download.slot = none
  begun : received ≠ [] →
    download.slot.isSome ∧ download.totalAccounts.isSome ∧ download.tables.isSome

/-- A chunk of the snapshot is taken without an error. -/
theorem Received.push {received : List SnapshotChunk} {download : SnapshotDownload}
    {chunk : SnapshotChunk} (h : Received deserialize snapshot received download)
    (hdecodable : Decodable deserialize snapshot.accounts) (hchunk : chunk.Of snapshot) :
    ∃ download', download.push deserialize chunk = .ok download' ∧
      Received deserialize snapshot (received ++ [chunk]) download' := by
  obtain ⟨state, hstate, hcollected⟩ :=
    h.tables.insertAccounts hdecodable hchunk.accounts download.payloadBytes
  unfold SnapshotDownload.push
  dsimp only
  rw [hchunk.confirmedSlot, hchunk.totalAccounts, h.slot, h.totalAccounts, if_neg (by simp),
    if_neg (by simp), hstate]
  refine ⟨_, rfl, rfl, rfl, ?_, by simp, by simp⟩
  simpa [List.flatMap_append, SnapshotChunk.keys] using hcollected

/-- Chunks of the snapshot are taken without an error. -/
theorem received_pushAll (hdecodable : Decodable deserialize snapshot.accounts)
    {received : List SnapshotChunk} (hreceived : ∀ chunk ∈ received, chunk.Of snapshot) :
    ∃ download, SnapshotDownload.new.pushAll deserialize received = .ok download ∧
      Received deserialize snapshot received download := by
  induction received using List.reverseRecOn with
  | nil =>
    exact ⟨_, rfl, rfl, rfl, fun k => by simp [SnapshotDownload.new], fun _ => rfl,
      fun h => absurd rfl h⟩
  | append_singleton received chunk ih =>
    obtain ⟨download, hdownload, hheld⟩ :=
      ih fun other hother => hreceived other (List.mem_append_left _ hother)
    obtain ⟨download', hpush, hheld'⟩ :=
      hheld.push hdecodable (hreceived chunk (List.mem_append_right _ (List.mem_singleton_self _)))
    refine ⟨download', ?_, hheld'⟩
    unfold SnapshotDownload.pushAll at hdownload ⊢
    rw [List.foldlM_append, hdownload]
    change (List.foldlM _ download [chunk] : Except String _) = _
    rw [List.foldlM_cons, hpush]
    rfl

/-- The keys of the tables are the keys received. -/
theorem Collected.size {accounts : Accounts} (h : Collected deserialize accounts keys tables)
    (hdecodable : Decodable deserialize accounts) (hkeys : ∀ k ∈ keys, k ∈ accounts.keys) :
    tables.size = keys.toFinset.card := by
  have hmem (k : Key) : k ∈ tables.keys ↔ k ∈ keys := by
    rw [ExtTreeMap.mem_keys, ExtTreeMap.mem_iff_isSome_getElem?, h k]
    constructor
    · intro hsome
      by_contra hnot
      rw [if_neg hnot] at hsome
      cases hsome
    · intro hk
      obtain ⟨account, hserved⟩ := Option.isSome_iff_exists.mp
        (ExtTreeMap.mem_iff_isSome_getElem?.mp (ExtTreeMap.mem_keys.mp (hkeys k hk)))
      obtain ⟨addresses, haddresses⟩ := Option.isSome_iff_exists.mp
        (hdecodable (k, account) (ExtTreeMap.mem_toList_iff_getElem?_eq_some.mpr hserved))
      simp [hk, hserved, haddresses]
  rw [← ExtTreeMap.length_keys, ← List.toFinset_card_of_nodup ExtTreeMap.nodup_keys]
  congr 1
  ext k
  simp [hmem k]

/-- A download ends well exactly if chunks came and every table was among them. -/
theorem Received.finish {received : List SnapshotChunk} {download : SnapshotDownload}
    (h : Received deserialize snapshot received download) :
    (∃ completed, download.finish = .ok completed) ↔
      received ≠ [] ∧ (download.tables.getD ∅).size = snapshot.accounts.size := by
  obtain ⟨slot, count, tables, chunks, payloadBytes⟩ := download
  by_cases hreceived : received = []
  · obtain rfl : slot = none := h.fresh hreceived
    simp [SnapshotDownload.finish, hreceived]
  · obtain ⟨hslot, hcount, htables⟩ := h.begun hreceived
    obtain ⟨slot, rfl⟩ := Option.isSome_iff_exists.mp hslot
    obtain ⟨count, rfl⟩ := Option.isSome_iff_exists.mp hcount
    obtain ⟨tables, rfl⟩ := Option.isSome_iff_exists.mp htables
    obtain rfl : count = snapshot.accounts.size := h.totalAccounts
    by_cases hsize : tables.size = snapshot.accounts.size
    · simp [SnapshotDownload.finish, hreceived, hsize]
    · simp [SnapshotDownload.finish, hsize]

/-- A complete download has the slot and the tables collected. -/
theorem Received.completed {received : List SnapshotChunk} {download : SnapshotDownload}
    {completed : CompletedSnapshot} (h : Received deserialize snapshot received download)
    (hfinish : download.finish = .ok completed) :
    completed.slot = snapshot.slot ∧
      Collected deserialize snapshot.accounts (received.flatMap SnapshotChunk.keys)
        completed.tables := by
  have hslot := h.slot
  have htables := h.tables
  unfold SnapshotDownload.finish at hfinish
  split at hfinish
  · next slot expected tables hfound _ hcollected =>
    dsimp only at hfinish
    rw [hfound] at hslot
    rw [hcollected] at htables
    split at hfinish
    · cases hfinish
    · cases hfinish
      exact ⟨hslot, htables⟩
  · cases hfinish

/-- Tables collected for all keys agree with the accounts. -/
theorem Collected.agrees {accounts : Accounts} (h : Collected deserialize accounts keys tables)
    (hdecodable : Decodable deserialize accounts) (hkeys : ∀ k ∈ accounts.keys, k ∈ keys) :
    Agrees deserialize accounts tables := by
  intro k
  rw [h k]
  cases hserved : accounts[k]? with
  | none => simp
  | some account =>
    have hk : k ∈ keys := hkeys k (ExtTreeMap.mem_keys.mpr
      (ExtTreeMap.mem_iff_isSome_getElem?.mpr (by rw [hserved]; rfl)))
    obtain ⟨addresses, haddresses⟩ := Option.isSome_iff_exists.mp
      (hdecodable (k, account) (ExtTreeMap.mem_toList_iff_getElem?_eq_some.mpr hserved))
    simp [hk, haddresses]

end Download

section Stream

variable {encodedLen : SnapshotChunk → ℕ} {snapshot : ReadSnapshot} {chunks : List SnapshotChunk}

/-- Every chunk sent is one of the snapshot. -/
theorem of_mem_snapshotChunks {chunk : SnapshotChunk}
    (h : chunk ∈ snapshotChunks encodedLen snapshot) : chunk.Of snapshot := by
  obtain ⟨hslot, hcount⟩ := header_sendChunks h
  refine ⟨hslot, hcount, fun account haccount => ?_⟩
  have hsent : account ∈ (snapshotChunks encodedLen snapshot).flatMap SnapshotChunk.accounts :=
    List.mem_flatMap.mpr ⟨chunk, h, haccount⟩
  rw [snapshotChunks, flatMap_sendChunks, List.nil_append] at hsent
  obtain ⟨entry, hentry, rfl⟩ := List.mem_map.mp hsent
  exact ⟨entry, hentry, rfl⟩

/-- The chunks carry each key of the snapshot once. -/
theorem flatMap_keys_snapshotChunks (encodedLen : SnapshotChunk → ℕ) (snapshot : ReadSnapshot) :
    (snapshotChunks encodedLen snapshot).flatMap SnapshotChunk.keys = snapshot.accounts.keys := by
  have hkeys : (snapshotChunks encodedLen snapshot).flatMap SnapshotChunk.keys =
      ((snapshotChunks encodedLen snapshot).flatMap SnapshotChunk.accounts).filterMap
        fun account => Key.ofBytes? account.pubkey := by
    rw [List.filterMap_flatMap]
    rfl
  rw [hkeys, snapshotChunks, flatMap_sendChunks, List.nil_append, List.filterMap_map]
  simp

/-- A chunk of a nonempty snapshot carries keys. -/
theorem keys_ne_nil_of_mem_snapshotChunks {chunk : SnapshotChunk}
    (h : chunk ∈ snapshotChunks encodedLen snapshot) (hcount : snapshot.accounts.size ≠ 0) :
    chunk.keys ≠ [] := by
  obtain ⟨account, haccount⟩ :=
    List.exists_mem_of_ne_nil _ (accounts_ne_nil_of_mem_sendChunks h hcount)
  obtain ⟨entry, -, rfl⟩ := (of_mem_snapshotChunks h).accounts account haccount
  exact List.ne_nil_of_mem (List.mem_filterMap.mpr ⟨_, haccount, ofBytes?_pubkey_ofEntry entry⟩)

/-- An empty snapshot is sent as one chunk. -/
theorem snapshotChunks_of_empty (encodedLen : SnapshotChunk → ℕ)
    (hcount : snapshot.accounts.size = 0) :
    snapshotChunks encodedLen snapshot = [⟨snapshot.slot, 0, []⟩] := by
  have hentries : snapshot.accounts.toList = [] :=
    List.length_eq_zero_iff.mp (ExtTreeMap.length_toList.trans hcount)
  rw [snapshotChunks, hentries, hcount]
  rfl

/-- No two chunks of a snapshot are equal. -/
theorem nodup_snapshotChunks (encodedLen : SnapshotChunk → ℕ) (snapshot : ReadSnapshot) :
    (snapshotChunks encodedLen snapshot).Nodup := by
  by_cases hcount : snapshot.accounts.size = 0
  · rw [snapshotChunks_of_empty encodedLen hcount]
    exact List.nodup_singleton _
  · have hkeys := flatMap_keys_snapshotChunks encodedLen snapshot
    exact Blocks.nodup (hkeys ▸ ExtTreeMap.nodup_keys) fun chunk hchunk =>
      keys_ne_nil_of_mem_snapshotChunks hchunk hcount

/-- All keys were received exactly if all chunks were. -/
theorem card_received_iff {received : List SnapshotChunk} (hsome : received ≠ [])
    (hreceived : received ⊆ snapshotChunks encodedLen snapshot) :
    (received.flatMap SnapshotChunk.keys).toFinset.card = snapshot.accounts.size ↔
      snapshotChunks encodedLen snapshot ⊆ received := by
  have hkeys := flatMap_keys_snapshotChunks encodedLen snapshot
  by_cases hcount : snapshot.accounts.size = 0
  · have hsingle := snapshotChunks_of_empty encodedLen hcount
    obtain ⟨chunk, hchunk⟩ := List.exists_mem_of_ne_nil _ hsome
    have hall : snapshotChunks encodedLen snapshot ⊆ received := by
      rw [hsingle] at hreceived ⊢
      obtain rfl := List.mem_singleton.mp (hreceived hchunk)
      exact fun _ hother => List.mem_singleton.mp hother ▸ hchunk
    refine iff_of_true ?_ hall
    rw [(Blocks.toFinset_subset _ hreceived).antisymm (Blocks.toFinset_subset _ hall), hkeys,
      List.toFinset_card_of_nodup ExtTreeMap.nodup_keys, ExtTreeMap.length_keys]
  · rw [← Blocks.card_eq_length_iff (hkeys ▸ ExtTreeMap.nodup_keys)
      (fun chunk hchunk => keys_ne_nil_of_mem_snapshotChunks hchunk hcount) hreceived, hkeys,
      ExtTreeMap.length_keys]

/-- Chunks of a snapshot, in any order and however often, are taken without an error, and they
complete the download exactly if every chunk is among them. -/
theorem download_iff {received : List SnapshotChunk}
    (hreceived : received ⊆ snapshotChunks encodedLen snapshot)
    (hdecodable : Decodable deserialize snapshot.accounts) :
    ∃ download, SnapshotDownload.new.pushAll deserialize received = .ok download ∧
      ((∃ completed, download.finish = .ok completed) ↔
        received ≠ [] ∧ snapshotChunks encodedLen snapshot ⊆ received) ∧
      ∀ completed, download.finish = .ok completed →
        completed.slot = snapshot.slot ∧ Agrees deserialize snapshot.accounts completed.tables := by
  obtain ⟨download, hdownload, hheld⟩ :=
    received_pushAll hdecodable fun chunk hchunk => of_mem_snapshotChunks (hreceived hchunk)
  have hkeys := flatMap_keys_snapshotChunks encodedLen snapshot
  have hserved : ∀ k ∈ received.flatMap SnapshotChunk.keys, k ∈ snapshot.accounts.keys := by
    intro k hk
    obtain ⟨chunk, hchunk, hmem⟩ := List.mem_flatMap.mp hk
    exact hkeys ▸ List.mem_flatMap.mpr ⟨chunk, hreceived hchunk, hmem⟩
  have hiff : (∃ completed, download.finish = .ok completed) ↔
      received ≠ [] ∧ snapshotChunks encodedLen snapshot ⊆ received := by
    rw [hheld.finish, hheld.tables.size hdecodable hserved]
    exact and_congr_right fun hsome => card_received_iff hsome hreceived
  refine ⟨download, hdownload, hiff, fun completed hcompleted => ?_⟩
  obtain ⟨hslot, hcollected⟩ := hheld.completed hcompleted
  have hall := (hiff.mp ⟨completed, hcompleted⟩).2
  refine ⟨hslot, hcollected.agrees hdecodable fun k hk => ?_⟩
  obtain ⟨chunk, hchunk, hmem⟩ := List.mem_flatMap.mp (hkeys ▸ hk)
  exact List.mem_flatMap.mpr ⟨chunk, hall hchunk, hmem⟩

/-- At least one chunk is sent. -/
theorem snapshotChunks_ne_nil (encodedLen : SnapshotChunk → ℕ) (snapshot : ReadSnapshot) :
    snapshotChunks encodedLen snapshot ≠ [] := by
  intro hnil
  by_cases hcount : snapshot.accounts.size = 0
  · simp [snapshotChunks_of_empty encodedLen hcount] at hnil
  · have hkeys := flatMap_keys_snapshotChunks encodedLen snapshot
    rw [hnil, List.flatMap_nil] at hkeys
    exact hcount (ExtTreeMap.length_keys.symm.trans (by rw [← hkeys]; rfl))

/-- A stream that ends early misses a chunk. -/
theorem not_subset_of_truncated {truncated : List SnapshotChunk}
    (htruncated : truncated <+: snapshotChunks encodedLen snapshot)
    (hne : truncated ≠ snapshotChunks encodedLen snapshot) :
    ¬ snapshotChunks encodedLen snapshot ⊆ truncated := by
  have hnodup := nodup_snapshotChunks encodedLen snapshot
  intro hall
  have hlength := hnodup.length_le_of_subset hall
  exact hne (htruncated.eq_of_length_le hlength)

end Stream

/-- The chunked stream round-trips, tolerates reordering and repetition, and detects every
loss. -/
theorem snapshot_stream_round_trip {deserialize : Deserialize} {encodedLen : SnapshotChunk → ℕ}
    {store : Store} {chunks : List SnapshotChunk}
    (hchunks : streamSnapshot encodedLen store = .ok chunks)
    (hdecodable : Decodable deserialize store.current.accounts) :
    (∀ received : List SnapshotChunk, received ⊆ chunks →
      ∃ download, SnapshotDownload.new.pushAll deserialize received = .ok download ∧
        ((∃ completed, download.finish = .ok completed) ↔ received ≠ [] ∧ chunks ⊆ received) ∧
        ∀ completed, download.finish = .ok completed →
          completed.slot = store.current.slot ∧
            Agrees deserialize store.current.accounts completed.tables) ∧
      (∃ completed, fetchSnapshot deserialize chunks = .ok completed) ∧
      ∀ truncated, truncated <+: chunks → truncated ≠ chunks →
        ∃ error, fetchSnapshot deserialize truncated = .error error := by
  have hready : store.readSnapshot = .ok ⟨store.current.slot, store.current.accounts⟩ := by
    unfold streamSnapshot at hchunks
    cases hread : store.readSnapshot with
    | error error => simp [hread] at hchunks
    | ok snapshot =>
      unfold Store.readSnapshot at hread
      split at hread
      · exact hread.symm
      · cases hread
  obtain rfl : snapshotChunks encodedLen ⟨store.current.slot, store.current.accounts⟩ = chunks := by
    unfold streamSnapshot at hchunks
    rw [hready] at hchunks
    exact Except.ok.inj hchunks
  refine ⟨fun received hreceived => download_iff hreceived hdecodable, ?_,
    fun truncated htruncated hne => ?_⟩
  · have hself : snapshotChunks encodedLen ⟨store.current.slot, store.current.accounts⟩ ⊆
        snapshotChunks encodedLen ⟨store.current.slot, store.current.accounts⟩ :=
      List.Subset.refl _
    obtain ⟨download, hdownload, hiff, -⟩ := download_iff hself hdecodable
    obtain ⟨completed, hcompleted⟩ := hiff.mpr ⟨snapshotChunks_ne_nil _ _, List.Subset.refl _⟩
    exact ⟨completed, by rw [fetchSnapshot, hdownload]; exact hcompleted⟩
  · obtain ⟨download, hdownload, hiff, -⟩ := download_iff htruncated.subset hdecodable
    rw [fetchSnapshot, hdownload]
    cases hfinish : download.finish with
    | error error => exact ⟨error, hfinish⟩
    | ok completed =>
      exact absurd (hiff.mp ⟨completed, hfinish⟩).2 (not_subset_of_truncated htruncated hne)

/-- A store that serves two tables in slot 7. -/
def twoTables : Store :=
  Store.new.publish "rpc" 7
    (((∅ : Accounts).insert (.filled 1) (.sample (.filled 1))).insert (.filled 2)
      (.sample (.filled 2)))

/-- Where each account fills a chunk, one chunk of the two is not a snapshot. -/
theorem twoTables_truncated :
    ∃ first second, streamSnapshot (fun _ => targetChunkBytes) twoTables = .ok [first, second] ∧
      ∃ error, fetchSnapshot (fun _ => some []) [first] = .error error := by
  have hchunks : streamSnapshot (fun _ => targetChunkBytes) twoTables =
      .ok [⟨7, 2, [⟨List.replicate 32 1, []⟩]⟩, ⟨7, 2, [⟨List.replicate 32 2, []⟩]⟩] := by
    decide +kernel
  have hdecodable : Decodable (fun _ => some []) twoTables.current.accounts := fun _ _ => rfl
  obtain ⟨-, -, htruncated⟩ := snapshot_stream_round_trip hchunks hdecodable
  exact ⟨_, _, hchunks, htruncated [⟨7, 2, [⟨List.replicate 32 1, []⟩]⟩] ⟨_, rfl⟩
    (by decide)⟩

end AltCache
