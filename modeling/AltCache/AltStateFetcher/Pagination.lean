import AltCache.AltStateFetcher.Exchange
import AltCache.Store.Enumeration

/-!
# Fetching what a server serves

The fetcher undoes the server: its page loop, run against a server whose store keeps being
published to, ends with the snapshot that was served at its first request. While the loop
runs, what it has gathered is the snapshot without the entries its cursor has yet to reach,
and the cursors it has seen are those of keys it has passed.
-/

namespace AltCache.AltStateFetcher

open Std (ExtTreeMap)
open Store (Round Steady ServedFrom entriesAfter)

/-- When a request of the fetcher reaches the server: after what others did, at a time. -/
structure Call where
  others : List Store.Op
  now : ℕ

/-- Each request of the fetcher is for a page of its size. -/
def Call.round (call : Call) : Round := ⟨call.others, call.now, pageSize⟩

/-- The server's replies to the requests of the page loop, until the loop ends. -/
def replies (codecs : Codecs) (deserialize : Deserialize) (maxPageSize : ℕ)
    (minimumContextSlot : Option ℕ) (store : Store) (progress : Progress) :
    List Call → List (Except String ContextResponse)
  | [] => []
  | call :: calls =>
    let (reply, store) := exchange codecs maxPageSize call.now (store.performAll call.others)
      (progress.request minimumContextSlot)
    reply ::
      match reply with
      | .error _ => []
      | .ok response =>
        match progress.receive codecs deserialize minimumContextSlot response with
        | .ok (.inr progress) =>
          replies codecs deserialize maxPageSize minimumContextSlot store progress calls
        | _ => []

/-- Accounts are those of a snapshot as they are received, without the entries that are left. -/
structure Gathered (snapshot : Accounts) (left : List (Key × Account)) (accounts : Accounts) :
    Prop where
  absent : ∀ k ∈ left.map Prod.fst, accounts[k]? = none
  passed : ∀ k : Key, k ∉ left.map Prod.fst → accounts[k]? = snapshot[k]?.map Account.received

/-- The page loop has followed its cursors through a snapshot up to a key. -/
structure Follows (codecs : Codecs) (snapshot : ServerSnapshot) (after : Option Key)
    (progress : Progress) : Prop where
  contextSlot : progress.contextSlot.getD snapshot.slot = snapshot.slot
  cursor : progress.cursor = after.map (JsonRpc.formatCursor codecs snapshot.slot)
  seen : ∀ text ∈ progress.seen, ∃ key, text = JsonRpc.formatCursor codecs snapshot.slot key ∧
    key ∉ (entriesAfter snapshot.accounts after).map Prod.fst
  gathered : Gathered snapshot.accounts (entriesAfter snapshot.accounts after) progress.accounts

section Gathered

variable {codecs : Codecs} {deserialize : Deserialize} {snapshot accounts : Accounts}
  {left served : List (Key × Account)} {sent : List KeyedUiAccount}

/-- Nothing has been gathered while everything is left. -/
theorem gathered_empty (snapshot : Accounts) : Gathered snapshot snapshot.toList ∅ where
  absent k _ := ExtTreeMap.getElem?_empty
  passed k hmem := by
    rw [ExtTreeMap.getElem?_empty]
    cases haccount : snapshot[k]? with
    | none => rfl
    | some account =>
      have hentry := ExtTreeMap.mem_toList_iff_getElem?_eq_some.mpr haccount
      exact absurd (List.mem_map_of_mem hentry) hmem

/-- An entry that is no longer left is gathered. -/
theorem Gathered.insert {entry : Key × Account} (h : Gathered snapshot (entry :: left) accounts)
    (hentry : snapshot[entry.1]? = some entry.2) (hfresh : entry.1 ∉ left.map Prod.fst) :
    Gathered snapshot left (accounts.insert entry.1 entry.2.received) := by
  refine ⟨fun k hleft => ?_, fun k hpassed => ?_⟩
  · have hother : entry.1 ≠ k := fun hsame => hfresh (hsame ▸ hleft)
    rw [ExtTreeMap.getElem?_insert, if_neg (by simpa using hother)]
    exact h.absent k (List.mem_cons_of_mem _ hleft)
  · rw [ExtTreeMap.getElem?_insert]
    by_cases hsame : entry.1 = k
    · subst hsame
      rw [if_pos Std.ReflCmp.compare_self, hentry]
      rfl
    · rw [if_neg (by simpa using hsame)]
      exact h.passed k (List.not_mem_cons_of_ne_of_not_mem (Ne.symm hsame) hpassed)

/-- A page of what is sent is gathered. -/
theorem Gathered.foldlM (hlawful : codecs.Lawful)
    (hsent : List.Forall₂ (Sent codecs deserialize) served sent)
    (h : Gathered snapshot (served ++ left) accounts)
    (hserved : ∀ entry ∈ served, snapshot[entry.1]? = some entry.2)
    (hdistinct : ((served ++ left).map Prod.fst).Nodup) :
    ∃ accounts', sent.foldlM (insertEntry codecs deserialize) accounts = .ok accounts' ∧
      Gathered snapshot left accounts' := by
  induction hsent generalizing accounts with
  | nil => exact ⟨accounts, rfl, h⟩
  | @cons table entry served sent htable _ ih =>
    rw [List.cons_append, List.map_cons, List.nodup_cons] at hdistinct
    have hinsert : insertEntry codecs deserialize accounts entry =
        .ok (accounts.insert table.1 table.2.received) := by
      unfold insertEntry
      rw [if_neg htable.lamports, htable.received, htable.pubkey, parseKey_encode hlawful]
    rw [List.foldlM_cons, hinsert]
    exact ih (h.insert (hserved table List.mem_cons_self) hdistinct.1)
      (fun other hother => hserved other (List.mem_cons_of_mem _ hother)) hdistinct.2

end Gathered

section Follows

variable {codecs : Codecs} {deserialize : Deserialize} {minimumContextSlot : Option ℕ}
  {snapshot : ServerSnapshot} {after : Option Key} {progress : Progress}
  {served : List (Key × Account)} {sent : List KeyedUiAccount} {key : Key}

/-- The entries after a key are the snapshot's. -/
theorem getElem?_of_mem_entriesAfter {entry : Key × Account}
    (h : entry ∈ entriesAfter snapshot.accounts after) :
    snapshot.accounts[entry.1]? = some entry.2 :=
  ExtTreeMap.mem_toList_iff_getElem?_eq_some.mp (List.mem_of_mem_filter h)

/-- They have different keys. -/
theorem nodup_entriesAfter (accounts : Accounts) (after : Option Key) :
    ((entriesAfter accounts after).map Prod.fst).Nodup := by
  refine List.pairwise_map.mpr ((Store.entriesAfter_pairwise accounts after).imp ?_)
  intro entry other hlt hsame
  rw [hsame] at hlt
  exact absurd hlt (by simp)

/-- A key is not after itself. -/
theorem notMem_entriesAfter_self (accounts : Accounts) (key : Key) :
    key ∉ (entriesAfter accounts (some key)).map Prod.fst := by
  intro hmem
  obtain ⟨entry, hentry, rfl⟩ := List.mem_map.mp hmem
  have hlt := (List.mem_filter.mp hentry).2
  simp at hlt

/-- The loop starts before the first key. -/
theorem follows_new (codecs : Codecs) (snapshot : ServerSnapshot) :
    Follows codecs snapshot none .new where
  contextSlot := rfl
  cursor := rfl
  seen text htext := by cases htext
  gathered := by
    rw [Store.entriesAfter_none]
    exact gathered_empty snapshot.accounts

/-- When all that is left is sent, the loop ends with the snapshot. -/
theorem Follows.receive_last (h : Follows codecs snapshot after progress) (hlawful : codecs.Lawful)
    (hminimum : minimumContextSlot.getD 0 ≤ snapshot.slot)
    (hsent : List.Forall₂ (Sent codecs deserialize) (entriesAfter snapshot.accounts after) sent) :
    ∃ accounts, progress.receive codecs deserialize minimumContextSlot
        ⟨snapshot.slot, sent, none⟩ = .ok (.inl ⟨snapshot.slot, accounts⟩) ∧
      Gathered snapshot.accounts [] accounts := by
  have hall : Gathered snapshot.accounts (entriesAfter snapshot.accounts after ++ [])
      progress.accounts := by
    rw [List.append_nil]
    exact h.gathered
  obtain ⟨accounts, hfold, hgathered⟩ := Gathered.foldlM hlawful hsent hall
    (fun _ => getElem?_of_mem_entriesAfter)
    (by rw [List.append_nil]; exact nodup_entriesAfter snapshot.accounts after)
  refine ⟨accounts, ?_, hgathered⟩
  unfold Progress.receive
  dsimp only
  rw [h.contextSlot, if_neg (not_lt.mpr hminimum), if_neg (lt_irrefl _), hfold]

/-- When part of what is left is sent with a cursor to the rest, the loop follows it. -/
theorem Follows.receive_next (h : Follows codecs snapshot after progress) (hlawful : codecs.Lawful)
    (hslot : snapshot.slot < Decimal.u64Count)
    (hminimum : minimumContextSlot.getD 0 ≤ snapshot.slot)
    (hkey : key ∈ (entriesAfter snapshot.accounts after).map Prod.fst)
    (hsplit : entriesAfter snapshot.accounts after =
      served ++ entriesAfter snapshot.accounts (some key))
    (hsent : List.Forall₂ (Sent codecs deserialize) served sent) :
    ∃ next, progress.receive codecs deserialize minimumContextSlot
        ⟨snapshot.slot, sent, some (JsonRpc.formatCursor codecs snapshot.slot key)⟩ =
          .ok (.inr next) ∧
      Follows codecs snapshot (some key) next := by
  have hmem (entry : Key × Account) (hentry : entry ∈ served) :
      entry ∈ entriesAfter snapshot.accounts after := by
    rw [hsplit]
    exact List.mem_append_left _ hentry
  obtain ⟨accounts, hfold, hgathered⟩ := Gathered.foldlM hlawful hsent (hsplit ▸ h.gathered)
    (fun entry hentry => getElem?_of_mem_entriesAfter (hmem entry hentry))
    (hsplit ▸ nodup_entriesAfter snapshot.accounts after)
  have hfresh : JsonRpc.formatCursor codecs snapshot.slot key ∉ progress.seen := by
    intro hseen
    obtain ⟨old, hsame, hpassed⟩ := h.seen _ hseen
    exact hpassed (JsonRpc.formatCursor_injective hlawful hslot hsame ▸ hkey)
  refine ⟨⟨some snapshot.slot, some (JsonRpc.formatCursor codecs snapshot.slot key),
    JsonRpc.formatCursor codecs snapshot.slot key :: progress.seen, accounts⟩, ?_, ?_⟩
  · unfold Progress.receive
    dsimp only
    rw [h.contextSlot, if_neg (not_lt.mpr hminimum), if_neg (lt_irrefl _), hfold]
    dsimp only
    rw [if_neg hfresh]
  · refine ⟨rfl, rfl, fun text htext => ?_, hgathered⟩
    rcases List.mem_cons.mp htext with rfl | hold
    · exact ⟨key, rfl, notMem_entriesAfter_self snapshot.accounts key⟩
    · obtain ⟨old, hsame, hpassed⟩ := h.seen text hold
      refine ⟨old, hsame, fun hleft => hpassed ?_⟩
      rw [hsplit, List.map_append]
      exact List.mem_append_right _ hleft

end Follows

section Fetch

variable {codecs : Codecs} {deserialize : Deserialize} {minimumContextSlot : Option ℕ}
  {maxPageSize : ℕ} {snapshot : ServerSnapshot} {store : Store} {after : Option Key}
  {progress : Progress} {calls : List Call}

/-- The loop goes on with the replies that follow. -/
theorem fetchFullAltState_replies {call : Call} {response : ContextResponse} {rest : Store}
    (hexchange : exchange codecs maxPageSize call.now (store.performAll call.others)
      (progress.request minimumContextSlot) = (.ok response, rest)) :
    fetchFullAltState codecs deserialize minimumContextSlot progress
        (replies codecs deserialize maxPageSize minimumContextSlot store progress
          (call :: calls)) =
      match progress.receive codecs deserialize minimumContextSlot response with
      | .error error => some (.error error)
      | .ok (.inl fetched) => some (.ok fetched)
      | .ok (.inr next) =>
        fetchFullAltState codecs deserialize minimumContextSlot next
          (replies codecs deserialize maxPageSize minimumContextSlot rest next calls) := by
  rw [replies, hexchange]
  dsimp only
  rw [fetchFullAltState]
  rcases progress.receive codecs deserialize minimumContextSlot response with
    error | fetched | next <;> rfl

/-- From where it is, the loop ends with the snapshot, if enough requests are left. -/
theorem Follows.fetchFullAltState (h : Follows codecs snapshot after progress)
    (hlawful : codecs.Lawful) (hsize : pageSize ≤ maxPageSize)
    (hslot : snapshot.slot < Decimal.u64Count)
    (hminimum : ∀ minimum, minimumContextSlot = some minimum → minimum ≤ snapshot.slot)
    (hwellFormed : WellFormedAccounts deserialize snapshot.accounts) (hcalls : calls ≠ [])
    (hsteady : Steady snapshot.slot store (after.map fun _ => snapshot.slot) after
      (calls.map Call.round))
    (hserved : ServedFrom snapshot store (after.map fun _ => snapshot.slot)
      (calls.map Call.round))
    (hlong : (entriesAfter snapshot.accounts after).length ≤ pageSize * calls.length) :
    ∃ accounts, AltStateFetcher.fetchFullAltState codecs deserialize minimumContextSlot progress
        (replies codecs deserialize maxPageSize minimumContextSlot store progress calls) =
          some (.ok ⟨snapshot.slot, accounts⟩) ∧
      Gathered snapshot.accounts [] accounts := by
  have hreached : minimumContextSlot.getD 0 ≤ snapshot.slot := by
    cases minimumContextSlot with
    | none => exact Nat.zero_le _
    | some minimum => exact hminimum minimum rfl
  have hleft (entry : Key × Account) (hentry : entry ∈ entriesAfter snapshot.accounts after) :
      entry.2.WellFormed deserialize entry.1 :=
    hwellFormed _ _ (getElem?_of_mem_entriesAfter hentry)
  induction calls generalizing store after progress with
  | nil => exact absurd rfl hcalls
  | cons call calls ih =>
    rw [List.map_cons] at hsteady hserved
    rcases hsteady.serve hserved with hpage | ⟨key, hpage, hmore, hkey, hafter, hrest, hnext⟩
    · obtain ⟨sent, hexchange, hsent⟩ := exchange_request hlawful hsize hminimum hslot h.cursor
        hpage hleft
      obtain ⟨accounts, hreceive, hgathered⟩ := h.receive_last hlawful hreached hsent
      refine ⟨accounts, ?_, hgathered⟩
      rw [fetchFullAltState_replies hexchange]
      dsimp only [Option.map_none]
      rw [hreceive]
    · dsimp only [Call.round] at hmore hafter
      obtain ⟨sent, hexchange, hsent⟩ := exchange_request hlawful hsize hminimum hslot h.cursor
        hpage fun entry hentry => hleft entry (List.mem_of_mem_take hentry)
      have hsplit : entriesAfter snapshot.accounts after =
          (entriesAfter snapshot.accounts after).take pageSize ++
            entriesAfter snapshot.accounts (some key) := by
        rw [hafter]
        exact (List.take_append_drop pageSize _).symm
      obtain ⟨next, hreceive, hfollows⟩ := h.receive_next hlawful hslot hreached hkey hsplit hsent
      have hremaining : (entriesAfter snapshot.accounts (some key)).length ≤
          pageSize * calls.length := by
        rw [List.length_cons, Nat.mul_succ] at hlong
        rw [hafter, List.length_drop]
        omega
      have hagain : calls ≠ [] := by
        rintro rfl
        rw [List.length_singleton, Nat.mul_one] at hlong
        omega
      obtain ⟨accounts, hfetched, hgathered⟩ := ih hfollows hagain hrest hnext hremaining
        fun entry hentry => hleft entry (hsplit ▸ List.mem_append_right _ hentry)
      refine ⟨accounts, ?_, hgathered⟩
      rw [fetchFullAltState_replies hexchange]
      dsimp only [Option.map_some]
      rw [hreceive]
      exact hfetched

/-- The fetcher undoes the server. In an ascending run, a fetch that makes its first request
while a snapshot of well-formed tables is served, and goes on while the store stays ready and
the retained snapshot does not expire, succeeds when it makes enough requests: it returns the
slot of the snapshot and its accounts, as they are received. -/
theorem fetch_undoes_server (h : store.Ascending) (hlawful : codecs.Lawful)
    (hsize : pageSize ≤ maxPageSize) (hslot : store.current.slot < Decimal.u64Count)
    (hminimum : ∀ minimum, minimumContextSlot = some minimum → minimum ≤ store.current.slot)
    (hwellFormed : WellFormedAccounts deserialize store.current.accounts) {now : ℕ}
    (hsteady : Steady store.current.slot store none none
      (((⟨[], now⟩ : Call) :: calls).map Call.round))
    (hlong : store.current.accounts.size ≤ pageSize * (calls.length + 1)) :
    ∃ fetched, fetchFullAltState codecs deserialize minimumContextSlot .new
        (replies codecs deserialize maxPageSize minimumContextSlot store .new
          (⟨[], now⟩ :: calls)) = some (.ok fetched) ∧
      fetched.contextSlot = store.current.slot ∧
      ∀ k : Key, fetched.accounts[k]? = store.current.accounts[k]?.map Account.received := by
  have hserved : ServedFrom store.current store none
      (((⟨[], now⟩ : Call) :: calls).map Call.round) := ⟨h.pins, rfl⟩
  have hentries : (entriesAfter store.current.accounts none).length ≤
      pageSize * ((⟨[], now⟩ : Call) :: calls).length := by
    rw [Store.entriesAfter_none, ExtTreeMap.length_toList]
    exact hlong
  obtain ⟨accounts, hfetched, hgathered⟩ := (follows_new codecs store.current).fetchFullAltState
    hlawful hsize hslot hminimum hwellFormed (List.cons_ne_nil _ _) hsteady hserved hentries
  exact ⟨⟨store.current.slot, accounts⟩, hfetched, rfl,
    fun k => hgathered.passed k List.not_mem_nil⟩

end Fetch

section Samples

variable {keys : List Key} {key : Key}

/-- The sample tables are those of the keys. -/
theorem getElem?_sampleAccounts (keys : List Key) (key : Key) :
    (Store.sampleAccounts keys)[key]? = if key ∈ keys then some (.sample key) else none := by
  unfold Store.sampleAccounts
  induction keys using List.reverseRecOn with
  | nil => rw [List.foldl_nil, ExtTreeMap.getElem?_empty, if_neg List.not_mem_nil]
  | append_singleton keys other ih =>
    rw [List.foldl_concat, ExtTreeMap.getElem?_insert, ih]
    by_cases hsame : other = key
    · simp [hsame]
    · have hother : key ≠ other := Ne.symm hsame
      simp [hsame, hother]

/-- They are well formed. -/
theorem wellFormed_sampleAccounts (keys : List Key) :
    WellFormedAccounts acceptAll (Store.sampleAccounts keys) := by
  intro key account haccount
  rw [getElem?_sampleAccounts] at haccount
  split at haccount
  · obtain rfl := Option.some.inj haccount
    exact ⟨rfl, rfl, Nat.one_pos, rfl⟩
  · cases haccount

/-- There are as many as there are keys. -/
theorem size_sampleAccounts (h : keys.Nodup) : (Store.sampleAccounts keys).size = keys.length := by
  induction keys using List.reverseRecOn with
  | nil => rfl
  | append_singleton keys key ih =>
    have hnodup := List.nodup_append.mp h
    have hfresh : key ∉ keys := fun hmem => hnodup.2.2 key hmem key List.mem_cons_self rfl
    have hnone : ¬ (Store.sampleAccounts keys).contains key = true := by
      rw [ExtTreeMap.contains_eq_isSome_getElem?, getElem?_sampleAccounts, if_neg hfresh]
      simp
    have hinsert : Store.sampleAccounts (keys ++ [key]) =
        (Store.sampleAccounts keys).insert key (.sample key) := List.foldl_concat ..
    rw [hinsert, ExtTreeMap.size_insert, if_neg hnone, ih hnodup.1, List.length_append,
      List.length_singleton]

/-- What the first page of all retains was touched then. -/
theorem touched_firstPage {store : Store} (hnone : store.retained = ∅) {now limit slot : ℕ}
    {entry : RetainedSnapshot}
    (h : (store.snapshotPage now none none limit).2.retained[slot]? = some entry) :
    entry.touched = now := by
  have hempty {slot : ℕ} : store.retained[slot]? = none := by
    rw [hnone, ExtTreeMap.getElem?_empty]
  unfold Store.snapshotPage at h
  split at h
  · rw [hempty] at h
    cases h
  · split at h
    · rw [hempty] at h
      cases h
    · dsimp only [Store.pageSource] at h
      split at h
      · unfold Store.retain at h
        split at h
        · rw [hempty] at h
          cases h
        · rw [ExtTreeMap.getElem?_insert] at h
          split at h
          · obtain rfl := Option.some.inj h
            rfl
          · rw [hempty] at h
            cases h
      · rw [hempty] at h
        cases h

end Samples

/-- A key for each number of two bytes. -/
def numbered (n : ℕ) : Key :=
  Vector.ofFn fun i : Fin 32 => if i = 0 then UInt8.ofNat (n / 256) else UInt8.ofNat n

/-- They differ. -/
theorem numbered_injOn {n m : ℕ} (hn : n < 65536) (hm : m < 65536) (h : numbered n = numbered m) :
    n = m := by
  have hhigh : UInt8.ofNat (n / 256) = UInt8.ofNat (m / 256) := by
    have hfirst := congrArg (fun key : Key => key[0]) h
    simpa [numbered] using hfirst
  have hlow : UInt8.ofNat n = UInt8.ofNat m := by
    have hsecond := congrArg (fun key : Key => key[1]) h
    simpa [numbered] using hsecond
  have hhigh := congrArg UInt8.toNat hhigh
  have hlow := congrArg UInt8.toNat hlow
  rw [UInt8.toNat_ofNat', UInt8.toNat_ofNat'] at hhigh hlow
  omega

/-- So many keys. -/
def numberedKeys (count : ℕ) : List Key := (List.range count).map numbered

/-- They are different. -/
theorem nodup_numberedKeys {count : ℕ} (h : count ≤ 65536) : (numberedKeys count).Nodup := by
  have hlt {n : ℕ} (hn : n ∈ List.range count) : n < 65536 :=
    (List.mem_range.mp hn).trans_le h
  exact List.nodup_range.map_on fun n hn m hm hsame => numbered_injOn (hlt hn) (hlt hm) hsame

/-- A store that has served nothing else serves a table under each of them in slot 10. -/
def numberedTables (count : ℕ) : Store :=
  Store.new.publish "rpc" 10 (Store.sampleAccounts (numberedKeys count))

/-- A client takes two pages of slot 10, between which slot 11 is published. -/
theorem steady_twoPages {store : Store} (hslot : store.current.slot = 10)
    (hready : store.ready = true) (hnone : store.retained = ∅) :
    Steady 10 store none none
      ([(⟨[], 0⟩ : Call), ⟨[.publish "rpc" 11 ∅], 1⟩].map Call.round) := by
  have hframe := Store.snapshotPage_frame 0 store none none pageSize
  refine ⟨trivial, hready, by decide, by decide, trivial, fun page key _ _ => ?_⟩
  refine ⟨⟨⟨by decide, ?_⟩, trivial, trivial⟩, rfl, by decide, by decide, fun entry hentry => ?_,
    fun _ _ _ _ => trivial⟩
  · change (store.snapshotPage 0 none none pageSize).2.current.slot ≤ 11
    rw [hframe.1, hslot]
    decide
  · have htouched : entry.touched = 0 := touched_firstPage hnone hentry
    unfold RetainedSnapshot.Fresh
    rw [htouched]
    decide

/-- A fetch that requires slot 9 gets all of one table more than fit on a page, though slot 11 is
published before the second page. -/
theorem numberedTables_fetched :
    ∃ fetched, fetchFullAltState .plain acceptAll (some 9) .new
        (replies .plain acceptAll pageSize (some 9) (numberedTables (pageSize + 1)) .new
          [⟨[], 0⟩, ⟨[.publish "rpc" 11 ∅], 1⟩]) = some (.ok fetched) ∧
      fetched.contextSlot = 10 ∧
      (∀ k : Key, fetched.accounts[k]? =
        (numberedTables (pageSize + 1)).current.accounts[k]?.map Account.received) ∧
      (numberedTables (pageSize + 1)).current.accounts.size = pageSize + 1 := by
  have hcount : pageSize + 1 ≤ 65536 := by decide
  have hcapacity : pageSize + 1 ≤ pageSize * (1 + 1) := by decide
  generalize pageSize + 1 = count at hcount hcapacity ⊢
  have hsize : (numberedTables count).current.accounts.size = count := by
    change (Store.sampleAccounts (numberedKeys count)).size = count
    rw [size_sampleAccounts (nodup_numberedKeys hcount), numberedKeys, List.length_map,
      List.length_range]
  have hascends : (Store.Op.publish "rpc" 10
      (Store.sampleAccounts (numberedKeys count))).Ascends .new := ⟨by decide, by decide⟩
  have hascending : (numberedTables count).Ascending := .perform .new hascends
  have hminimum (minimum : ℕ) (h : some 9 = some minimum) : minimum ≤ 10 := by
    obtain rfl := Option.some.inj h
    decide
  obtain ⟨fetched, hfetched, hslot, haccounts⟩ := fetch_undoes_server hascending
    Codecs.plain_lawful le_rfl (show 10 < Decimal.u64Count by decide) hminimum
    (wellFormed_sampleAccounts _) (steady_twoPages rfl rfl rfl) (hsize.trans_le hcapacity)
  exact ⟨fetched, hfetched, hslot, haccounts, hsize⟩

end AltCache.AltStateFetcher
