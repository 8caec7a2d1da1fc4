import AltCache.Api.Grpc
import AltCache.Wire

/-!
# Chunk sizes on the wire

With the length of a message taken from the protobuf encoding of `alt_snapshot.proto`, the
chunks of a snapshot partition its accounts, all but the last reach the target size, and none
goes beyond it by more than the account that made it reach the target.
-/

namespace AltCache

open Wire

/-- `AltAccount` on the wire. -/
def AltAccount.encode (account : AltAccount) : List UInt8 :=
  bytesField 1 account.pubkey ++ bytesField 2 account.data

namespace SnapshotChunk

/-- `SnapshotChunk` on the wire. -/
def encode (chunk : SnapshotChunk) : List UInt8 :=
  numberField 1 chunk.confirmedSlot ++ numberField 2 chunk.totalAccounts ++
    repeatedField 3 AltAccount.encode chunk.accounts

/-- `Message::encoded_len` of a chunk. -/
def encodedLen (chunk : SnapshotChunk) : ℕ := chunk.encode.length

/-- A chunk before its last account was added. -/
def withoutLast (chunk : SnapshotChunk) : SnapshotChunk :=
  { chunk with accounts := chunk.accounts.dropLast }

/-- Putting the last account back. -/
theorem withoutLast_concat {chunk : SnapshotChunk} {accounts : List AltAccount}
    {account : AltAccount} (h : chunk.accounts = accounts ++ [account]) :
    { chunk.withoutLast with accounts := chunk.withoutLast.accounts ++ [account] } = chunk := by
  cases chunk with
  | mk confirmedSlot totalAccounts held =>
    subst h
    simp [withoutLast]

/-- A chunk without accounts has none to lose. -/
theorem withoutLast_nil {chunk : SnapshotChunk} (h : chunk.accounts = []) :
    chunk.withoutLast = chunk := by
  cases chunk with
  | mk confirmedSlot totalAccounts held =>
    subst h
    rfl

/-- One more account adds its field. -/
theorem encodedLen_concat (chunk : SnapshotChunk) (account : AltAccount) :
    encodedLen { chunk with accounts := chunk.accounts ++ [account] } =
      chunk.encodedLen + (lengthDelimited 3 account.encode).length := by
  simp only [encodedLen, encode, repeatedField_append, List.length_append]
  simp only [repeatedField, List.flatMap_singleton]
  omega

/-- A chunk of one account, byte by byte. -/
example : encode ⟨7, 300, [⟨[1], [2, 3]⟩]⟩ =
    [8, 7, 16, 172, 2, 26, 7, 10, 1, 1, 18, 2, 2, 3] := by decide +kernel

/-- The headers of a chunk stay far below the target size. -/
theorem encodedLen_header (chunk : SnapshotChunk) (hslot : chunk.confirmedSlot < 2 ^ 64)
    (hcount : chunk.totalAccounts < 2 ^ 64) :
    encodedLen { chunk with accounts := [] } < targetChunkBytes := by
  have hfirst := length_numberField_le (show 1 < 16 by decide) hslot
  have hsecond := length_numberField_le (show 2 < 16 by decide) hcount
  simp only [encodedLen, encode, repeatedField, List.flatMap_nil, List.append_nil,
    List.length_append, targetChunkBytes]
  omega

end SnapshotChunk

section Bounds

variable {encodedLen : SnapshotChunk → ℕ} {chunk sent : SnapshotChunk}
  {entries : List (Key × Account)}

/-- All chunks but the last are sent because they reach the target size. -/
theorem le_of_mem_dropLast_sendChunks
    (h : sent ∈ (sendChunks encodedLen chunk entries).dropLast) :
    targetChunkBytes ≤ encodedLen sent := by
  induction entries generalizing chunk with
  | nil =>
    unfold sendChunks at h
    split at h <;> cases h
  | cons entry entries ih =>
    unfold sendChunks at h
    dsimp only at h
    split at h
    · next hfull =>
      cases hrest : sendChunks encodedLen { chunk with accounts := [] } entries with
      | nil =>
        rw [hrest] at h
        cases h
      | cons second rest =>
        rw [hrest, List.dropLast_cons_cons] at h
        rcases List.mem_cons.mp h with rfl | h
        · exact hfull
        · rw [← hrest] at h
          exact ih h
    · exact ih h

/-- A chunk was below the target size before its last account, if lengths grow with accounts
and headers are below it. -/
theorem withoutLast_lt_of_mem_sendChunks
    (hgrows : ∀ (chunk : SnapshotChunk) account,
      encodedLen chunk ≤ encodedLen { chunk with accounts := chunk.accounts ++ [account] })
    (hheader : encodedLen { chunk with accounts := [] } < targetChunkBytes)
    (hchunk : encodedLen chunk < targetChunkBytes)
    (h : sent ∈ sendChunks encodedLen chunk entries) :
    encodedLen sent.withoutLast < targetChunkBytes := by
  induction entries generalizing chunk with
  | nil =>
    unfold sendChunks at h
    split at h
    · rw [List.mem_singleton.mp h]
      refine lt_of_le_of_lt ?_ hchunk
      rcases List.eq_nil_or_concat' chunk.accounts with hnil | ⟨accounts, account, hconcat⟩
      · rw [SnapshotChunk.withoutLast_nil hnil]
      · have hgrown := hgrows chunk.withoutLast account
        rwa [SnapshotChunk.withoutLast_concat hconcat] at hgrown
    · cases h
  | cons entry entries ih =>
    unfold sendChunks at h
    dsimp only at h
    split at h
    · rcases List.mem_cons.mp h with rfl | h
      · -- the chunk had not reached the target before this entry
        have hbefore : SnapshotChunk.withoutLast
            { chunk with accounts := chunk.accounts ++ [.ofEntry entry] } = chunk := by
          simp [SnapshotChunk.withoutLast]
        rwa [hbefore]
      · refine ih ?_ ?_ h
        · exact hheader
        · exact hheader
    · next hsmall =>
      refine ih ?_ ?_ h
      · exact hheader
      · exact not_le.mp hsmall

end Bounds

/-- Chunks partition a snapshot, and their sizes on the wire are bounded. -/
structure Partitions (snapshot : ReadSnapshot) (chunks : List SnapshotChunk) : Prop where
  accounts : chunks.flatMap SnapshotChunk.accounts =
    snapshot.accounts.toList.map AltAccount.ofEntry
  ascending : snapshot.accounts.toList.Pairwise fun a b => compare a.1 b.1 = .lt
  header : ∀ chunk ∈ chunks, chunk.confirmedSlot = snapshot.slot ∧
    chunk.totalAccounts = snapshot.accounts.size
  nonempty : snapshot.accounts.size ≠ 0 → ∀ chunk ∈ chunks, chunk.accounts ≠ []
  empty : snapshot.accounts.size = 0 → chunks = [⟨snapshot.slot, 0, []⟩]
  full : ∀ chunk ∈ chunks.dropLast, targetChunkBytes ≤ chunk.encode.length
  bounded : ∀ chunk ∈ chunks, chunk.accounts ≠ [] →
    chunk.withoutLast.encode.length < targetChunkBytes
  overshoot : ∀ chunk ∈ chunks, ∀ account, chunk.accounts.getLast? = some account →
    chunk.encode.length < targetChunkBytes + (lengthDelimited 3 account.encode).length

/-- The chunks of a snapshot partition its accounts in ascending key order, name its slot and
count, reach the target size but for the last, and exceed it by less than one account. -/
theorem snapshotChunks_partition (snapshot : ReadSnapshot) (hslot : snapshot.slot < 2 ^ 64)
    (hcount : snapshot.accounts.size < 2 ^ 64) :
    Partitions snapshot (snapshotChunks SnapshotChunk.encodedLen snapshot) := by
  have hheader := SnapshotChunk.encodedLen_header ⟨snapshot.slot, snapshot.accounts.size, []⟩
    hslot hcount
  have hbounded (chunk : SnapshotChunk)
      (hchunk : chunk ∈ snapshotChunks SnapshotChunk.encodedLen snapshot) :
      chunk.withoutLast.encodedLen < targetChunkBytes := by
    refine withoutLast_lt_of_mem_sendChunks ?_ hheader hheader hchunk
    intro chunk account
    rw [SnapshotChunk.encodedLen_concat]
    exact Nat.le_add_right _ _
  constructor
  · exact flatMap_sendChunks ..
  · exact Std.ExtTreeMap.ordered_keys_toList
  · intro chunk hchunk
    exact header_sendChunks hchunk
  · intro hsize chunk hchunk
    exact accounts_ne_nil_of_mem_sendChunks hchunk hsize
  · intro hsize
    have hnone : snapshot.accounts.toList = [] := by
      apply List.length_eq_zero_iff.mp
      rw [Std.ExtTreeMap.length_toList, hsize]
    rw [snapshotChunks, hnone, hsize]
    rfl
  · intro chunk hchunk
    exact le_of_mem_dropLast_sendChunks hchunk
  · intro chunk hchunk _
    exact hbounded chunk hchunk
  · intro chunk hchunk account hlast
    obtain ⟨accounts, hconcat⟩ := List.getLast?_eq_some_iff.mp hlast
    have hgrown := SnapshotChunk.encodedLen_concat chunk.withoutLast account
    rw [SnapshotChunk.withoutLast_concat hconcat] at hgrown
    have hbefore := hbounded chunk hchunk
    change chunk.encode.length = chunk.withoutLast.encode.length + _ at hgrown
    change chunk.withoutLast.encode.length < _ at hbefore
    omega

/-- Data of the target size. -/
@[irreducible] def largeData : List UInt8 := List.replicate targetChunkBytes 0

/-- A table of the target size. -/
def largeTable (key : Key) : Account := ⟨{ (Account.sample key).value with data := largeData }⟩

/-- Two of them in slot 7. -/
def largeTables : ReadSnapshot where
  slot := 7
  accounts := ((∅ : Accounts).insert (.filled 1) (largeTable (.filled 1))).insert (.filled 2)
    (largeTable (.filled 2))

/-- Each of the two is of the target size. -/
theorem data_largeTables {entry : Key × Account} (h : entry ∈ largeTables.accounts.toList) :
    entry.2.value.data = largeData := by
  have hserved := Std.ExtTreeMap.mem_toList_iff_getElem?_eq_some.mp h
  rw [largeTables, Std.ExtTreeMap.getElem?_insert] at hserved
  split at hserved
  · rw [← Option.some.inj hserved]
    rfl
  · rw [Std.ExtTreeMap.getElem?_insert] at hserved
    split at hserved
    · rw [← Option.some.inj hserved]
      rfl
    · simp at hserved

/-- There are two. -/
theorem size_largeTables : largeTables.accounts.size = 2 := by
  have hother : ¬ Key.filled 1 = Key.filled 2 := by decide
  simp [largeTables, Std.ExtTreeMap.size_insert, hother]

/-- Chunks with size bounds hold one of them each. -/
theorem Partitions.of_largeTables {chunks : List SnapshotChunk}
    (h : Partitions largeTables chunks) :
    chunks.length = 2 ∧ ∀ chunk ∈ chunks, chunk.accounts.length = 1 := by
  have hlarge {account : AltAccount} {chunk : SnapshotChunk} (hchunk : chunk ∈ chunks)
      (haccount : account ∈ chunk.accounts) : targetChunkBytes ≤ account.encode.length := by
    have hsent := List.mem_flatMap.mpr ⟨chunk, hchunk, haccount⟩
    rw [h.accounts] at hsent
    obtain ⟨entry, hentry, rfl⟩ := List.mem_map.mp hsent
    have hdata : (AltAccount.ofEntry entry).data.length = targetChunkBytes := by
      rw [AltAccount.ofEntry, data_largeTables hentry, largeData, List.length_replicate]
    rw [AltAccount.encode, List.length_append, ← hdata]
    exact (length_le_bytesField 2 _).trans (Nat.le_add_left _ _)
  have hsingle : ∀ chunk ∈ chunks, chunk.accounts.length = 1 := by
    intro chunk hchunk
    have hsome := h.nonempty (by rw [size_largeTables]; decide) chunk hchunk
    rcases List.eq_nil_or_concat' chunk.accounts.dropLast with hnone | ⟨rest, account, hheld⟩
    · have hlength := List.length_pos_iff.mpr hsome
      have hdrop := congrArg List.length hnone
      rw [List.length_dropLast, List.length_nil] at hdrop
      omega
    · -- a second table would have left the chunk below the target without its last one
      have haccount : account ∈ chunk.accounts.dropLast := by simp [hheld]
      have hbelow := h.bounded chunk hchunk hsome
      have hfull := hlarge hchunk (List.mem_of_mem_dropLast haccount)
      have hpart := length_le_repeatedField 3 AltAccount.encode haccount
      rw [SnapshotChunk.encode, List.length_append] at hbelow
      change _ + (repeatedField 3 AltAccount.encode chunk.accounts.dropLast).length < _ at hbelow
      omega
  refine ⟨?_, hsingle⟩
  have hcount := congrArg List.length h.accounts
  rw [List.length_flatMap, List.length_map, Std.ExtTreeMap.length_toList, size_largeTables,
    List.map_congr_left hsingle, List.map_const', List.sum_replicate] at hcount
  simpa using hcount

/-- Each of the two is sent as a chunk of its own. -/
theorem largeTables_partition :
    (snapshotChunks SnapshotChunk.encodedLen largeTables).length = 2 ∧
      ∀ chunk ∈ snapshotChunks SnapshotChunk.encodedLen largeTables,
        chunk.accounts.length = 1 :=
  (snapshotChunks_partition largeTables (by decide)
    (by rw [size_largeTables]; decide)).of_largeTables

end AltCache
