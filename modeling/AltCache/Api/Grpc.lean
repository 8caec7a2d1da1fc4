import AltCache.Store

/-!
# The snapshot stream

A client downloads a snapshot as a stream of chunks. The accounts are sent in key order, each
under the key of the map; a chunk is sent once its encoding reaches the target size, and what
is left at the end goes into a last chunk. Every chunk names the slot and the number of all
accounts. The length of a message's encoding is computed by generated code: it is a parameter
`encodedLen`.
-/

namespace AltCache

/-- One table of the snapshot stream. -/
structure AltAccount where
  pubkey : List UInt8
  data : List UInt8
  deriving DecidableEq

/-- One message of the snapshot stream. -/
structure SnapshotChunk where
  confirmedSlot : ℕ
  totalAccounts : ℕ
  accounts : List AltAccount
  deriving DecidableEq

/-- The size from which a chunk is sent: 2 MiB. -/
def targetChunkBytes : ℕ := 2 * 1024 * 1024

/-- An entry of the served map as it is streamed. -/
def AltAccount.ofEntry (entry : Key × Account) : AltAccount where
  pubkey := entry.1.toList
  data := entry.2.value.data

/-- The chunks sent for the remaining entries, when a chunk has been begun. -/
def sendChunks (encodedLen : SnapshotChunk → ℕ) (chunk : SnapshotChunk) :
    List (Key × Account) → List SnapshotChunk
  | [] => if chunk.accounts ≠ [] ∨ chunk.totalAccounts = 0 then [chunk] else []
  | entry :: entries =>
    let chunk := { chunk with accounts := chunk.accounts ++ [.ofEntry entry] }
    if targetChunkBytes ≤ encodedLen chunk then
      chunk :: sendChunks encodedLen { chunk with accounts := [] } entries
    else sendChunks encodedLen chunk entries

/-- The chunks sent for a captured snapshot. -/
def snapshotChunks (encodedLen : SnapshotChunk → ℕ) (snapshot : ReadSnapshot) :
    List SnapshotChunk :=
  sendChunks encodedLen ⟨snapshot.slot, snapshot.accounts.size, []⟩ snapshot.accounts.toList

/-- `SnapshotService::stream_snapshot`: stream the snapshot captured at the request. -/
def streamSnapshot (encodedLen : SnapshotChunk → ℕ) (store : Store) :
    Except String (List SnapshotChunk) :=
  match store.readSnapshot with
  | .error _ => .error "cache not ready; retry after recovery"
  | .ok snapshot => .ok (snapshotChunks encodedLen snapshot)

section Chunks

variable {encodedLen : SnapshotChunk → ℕ} {chunk sent : SnapshotChunk}
  {entries : List (Key × Account)}

/-- The chunks carry the entries in order, none twice. -/
theorem flatMap_sendChunks (encodedLen : SnapshotChunk → ℕ) (chunk : SnapshotChunk)
    (entries : List (Key × Account)) :
    (sendChunks encodedLen chunk entries).flatMap SnapshotChunk.accounts =
      chunk.accounts ++ entries.map AltAccount.ofEntry := by
  induction entries generalizing chunk with
  | nil =>
    unfold sendChunks
    split
    · simp
    · next hempty => simp [not_not.mp (not_or.mp hempty).1]
  | cons entry entries ih =>
    unfold sendChunks
    dsimp only
    split
    · simp [ih]
    · simp [ih]

/-- Every chunk has the header of the first. -/
theorem header_sendChunks (h : sent ∈ sendChunks encodedLen chunk entries) :
    sent.confirmedSlot = chunk.confirmedSlot ∧ sent.totalAccounts = chunk.totalAccounts := by
  induction entries generalizing chunk with
  | nil =>
    unfold sendChunks at h
    split at h
    · rw [List.mem_singleton.mp h]
      exact ⟨rfl, rfl⟩
    · cases h
  | cons entry entries ih =>
    unfold sendChunks at h
    dsimp only at h
    split at h
    · rcases List.mem_cons.mp h with rfl | h
      · exact ⟨rfl, rfl⟩
      · have hheader := ih h
        exact hheader
    · have hheader := ih h
      exact hheader

/-- A chunk of a nonempty snapshot is not empty. -/
theorem accounts_ne_nil_of_mem_sendChunks (h : sent ∈ sendChunks encodedLen chunk entries)
    (hcount : chunk.totalAccounts ≠ 0) : sent.accounts ≠ [] := by
  induction entries generalizing chunk with
  | nil =>
    unfold sendChunks at h
    split at h
    · next hsent =>
      rw [List.mem_singleton.mp h]
      exact hsent.resolve_right hcount
    · cases h
  | cons entry entries ih =>
    unfold sendChunks at h
    dsimp only at h
    split at h
    · rcases List.mem_cons.mp h with rfl | h
      · simp
      · exact ih h hcount
    · exact ih h hcount

end Chunks

end AltCache
