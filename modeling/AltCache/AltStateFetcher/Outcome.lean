import AltCache.AltStateFetcher.Termination

/-!
# What a fetch makes of its pages

The page loop checks page after page and inserts what it keeps. Over a whole fetch this comes to
a condition on the replies: they begin with pages chained by keys that do not repeat, none of
them too old and every nonempty account under a legible key. What is fetched then has, under
each key, the last valid account of these pages.
-/

namespace AltCache.AltStateFetcher

open Std (ExtTreeMap)

/-- The account of an entry, if it is kept. -/
def kept? (codecs : Codecs) (deserialize : Deserialize) (entry : KeyedUiAccount) :
    Option (Key × Account) :=
  if entry.account.lamports = 0 then none
  else do
    let key ← (parseKey codecs entry.pubkey).toOption
    let account ← (Account.fromRpc codecs deserialize entry.pubkey entry.account).toOption
    return (key, account)

/-- An entry that does not stop the fetch: if it is not empty, its key can be read. -/
def Legible (codecs : Codecs) (entry : KeyedUiAccount) : Prop :=
  entry.account.lamports ≠ 0 → ∃ key, parseKey codecs entry.pubkey = .ok key

/-- The last account that is kept under a key. -/
def lastKept (codecs : Codecs) (deserialize : Deserialize) (entries : List KeyedUiAccount)
    (key : Key) : Option Account :=
  ((entries.filterMap (kept? codecs deserialize)).filter (·.1 = key)).getLast?.map Prod.snd

/-- The accounts with an entry's own, if it is kept. -/
def keep (codecs : Codecs) (deserialize : Deserialize) (accounts : Accounts)
    (entry : KeyedUiAccount) : Accounts :=
  match kept? codecs deserialize entry with
  | none => accounts
  | some (key, account) => accounts.insert key account

/-- The entries of some pages, in order. -/
def entriesOf (pages : List ContextResponse) : List KeyedUiAccount :=
  pages.flatMap (·.value.accounts)

/-- Pages that make up a whole fetch: each but the last has a key, no key comes twice, no page is
older than the first or than the required slot, and no entry stops the fetch. -/
structure Complete (codecs : Codecs) (minimumContextSlot : Option ℕ) (firstSlot : ℕ)
    (pages : List ContextResponse) : Prop where
  keys : ∃ texts : List String,
    texts.Nodup ∧ pages.map (·.value.paginationKey) = texts.map some ++ [none]
  slots : ∀ page ∈ pages, firstSlot ≤ page.slot ∧
    ∀ minimum, minimumContextSlot = some minimum → minimum ≤ page.slot
  legible : ∀ entry ∈ entriesOf pages, Legible codecs entry

section Entries

variable {codecs : Codecs} {deserialize : Deserialize} {accounts accounts' : Accounts}

/-- An entry is inserted exactly if it does not stop the fetch. -/
theorem insertEntry_eq_ok {entry : KeyedUiAccount} :
    insertEntry codecs deserialize accounts entry = .ok accounts' ↔
      Legible codecs entry ∧ accounts' = keep codecs deserialize accounts entry := by
  unfold insertEntry Legible keep kept?
  by_cases hempty : entry.account.lamports = 0
  · rw [if_pos hempty, if_pos hempty, Except.ok.injEq]
    exact ⟨fun h => ⟨fun hnot => absurd hempty hnot, h.symm⟩, fun h => h.2.symm⟩
  · rw [if_neg hempty, if_neg hempty]
    cases hkey : parseKey codecs entry.pubkey with
    | error error => simp [hempty]
    | ok key =>
      cases haccount : Account.fromRpc codecs deserialize entry.pubkey entry.account with
      | error error => simp [Except.toOption, eq_comm]
      | ok account => simp [Except.toOption, eq_comm]

/-- The entries of a page are inserted exactly if none of them stops the fetch. -/
theorem foldlM_insertEntry_eq_ok {entries : List KeyedUiAccount} :
    entries.foldlM (insertEntry codecs deserialize) accounts = .ok accounts' ↔
      (∀ entry ∈ entries, Legible codecs entry) ∧
        accounts' = entries.foldl (keep codecs deserialize) accounts := by
  induction entries generalizing accounts with
  | nil =>
    rw [List.foldlM_nil, List.foldl_nil]
    change (Except.ok accounts : Except String Accounts) = _ ↔ _
    rw [Except.ok.injEq]
    exact ⟨fun h => ⟨fun _ hentry => absurd hentry List.not_mem_nil, h.symm⟩, fun h => h.2.symm⟩
  | cons entry entries ih =>
    rw [List.foldlM_cons, List.foldl_cons, List.forall_mem_cons]
    cases hinsert : insertEntry codecs deserialize accounts entry with
    | error error =>
      have hstops : ¬ Legible codecs entry := fun hlegible => by
        rw [insertEntry_eq_ok.mpr ⟨hlegible, rfl⟩] at hinsert
        cases hinsert
      exact ⟨fun h => (by cases h), fun h => absurd h.1.1 hstops⟩
    | ok kept =>
      obtain ⟨hlegible, rfl⟩ := insertEntry_eq_ok.mp hinsert
      exact ih.trans ⟨fun h => ⟨⟨hlegible, h.1⟩, h.2⟩, fun h => ⟨h.1.2, h.2⟩⟩

/-- One more entry is the last that counts, if it is kept under the key. -/
theorem lastKept_concat (entries : List KeyedUiAccount) (entry : KeyedUiAccount) (key : Key) :
    lastKept codecs deserialize (entries ++ [entry]) key =
      match kept? codecs deserialize entry with
      | none => lastKept codecs deserialize entries key
      | some (other, account) =>
        if other = key then some account else lastKept codecs deserialize entries key := by
  unfold lastKept
  rw [List.filterMap_append, List.filter_append]
  cases hkept : kept? codecs deserialize entry with
  | none => simp [hkept]
  | some found =>
    by_cases hkey : found.1 = key
    · simp [hkept, hkey]
    · simp [hkept, hkey]

/-- Under each key, the last account that is kept counts. -/
theorem getElem?_foldl_keep (entries : List KeyedUiAccount) (key : Key) :
    (entries.foldl (keep codecs deserialize) accounts)[key]? =
      (lastKept codecs deserialize entries key).or accounts[key]? := by
  induction entries using List.reverseRecOn with
  | nil => rfl
  | append_singleton entries entry ih =>
    rw [List.foldl_append, List.foldl_cons, List.foldl_nil, lastKept_concat, keep]
    cases hkept : kept? codecs deserialize entry with
    | none => exact ih
    | some found =>
      dsimp only
      rw [ExtTreeMap.getElem?_insert]
      by_cases hkey : found.1 = key
      · simp [hkey]
      · simp [hkey, ih]

end Entries

section Loop

variable {codecs : Codecs} {deserialize : Deserialize} {minimumContextSlot : Option ℕ}
  {progress next : Progress} {response : ContextResponse} {pages : List ContextResponse}
  {texts : List String} {fetched : FetchedAltState}

/-- A page is taken if it is not too old and all its entries are inserted. -/
theorem receive_of_ok {accounts : Accounts}
    (hminimum : minimumContextSlot.getD 0 ≤ response.slot)
    (hfirst : progress.contextSlot.getD response.slot ≤ response.slot)
    (haccounts : response.value.accounts.foldlM (insertEntry codecs deserialize)
      progress.accounts = .ok accounts) :
    progress.receive codecs deserialize minimumContextSlot response =
      match response.value.paginationKey with
      | none => .ok (.inl ⟨progress.contextSlot.getD response.slot, accounts⟩)
      | some text =>
        if text ∈ progress.seen then .error "RPC repeated its pagination key"
        else .ok (.inr ⟨some (progress.contextSlot.getD response.slot), some text,
          text :: progress.seen, accounts⟩) := by
  unfold Progress.receive
  dsimp only
  rewrite [if_neg (not_lt.mpr hminimum), if_neg (not_lt.mpr hfirst), haccounts]
  rfl

/-- The pages a loop takes are recent enough. -/
theorem Consumed.slots_head
    (h : Consumed minimumContextSlot progress fetched (response :: pages) texts) :
    minimumContextSlot.getD 0 ≤ response.slot ∧
      progress.contextSlot.getD response.slot ≤ response.slot := by
  obtain ⟨hminimum, hfirst⟩ := h.slots response List.mem_cons_self
  exact ⟨hminimum, h.first response rfl ▸ hfirst⟩

/-- A loop that takes a page without a key ends with it. -/
theorem Consumed.last
    (h : Consumed minimumContextSlot progress fetched (response :: pages) [])
    (accounts : Accounts) (haccounts : fetched.accounts = accounts) :
    response.value.paginationKey = none ∧
      fetched = ⟨progress.contextSlot.getD response.slot, accounts⟩ := by
  obtain ⟨hkey, -⟩ := List.cons.inj h.keys
  refine ⟨hkey, ?_⟩
  obtain ⟨slot, fetchedAccounts⟩ := fetched
  exact congrArg₂ FetchedAltState.mk (h.first response rfl) haccounts

/-- A loop that takes a page with a key goes on with the other pages. -/
theorem Consumed.tail {text : String}
    (h : Consumed minimumContextSlot progress fetched (response :: pages) (text :: texts))
    (accounts : Accounts) :
    response.value.paginationKey = some text ∧ text ∉ progress.seen ∧
      Consumed minimumContextSlot
        ⟨some (progress.contextSlot.getD response.slot), some text, text :: progress.seen, accounts⟩
        fetched pages texts := by
  obtain ⟨hkey, hkeys⟩ := List.cons.inj h.keys
  obtain ⟨hnew, hdistinct⟩ := List.nodup_cons.mp h.distinct
  refine ⟨hkey, h.fresh text List.mem_cons_self, hkeys, hdistinct, fun other hother hseen => ?_,
    fun page _ => h.first response rfl,
    fun page hpage => h.slots page (List.mem_cons_of_mem _ hpage)⟩
  rcases List.mem_cons.mp hseen with rfl | hold
  · exact hnew hother
  · exact h.fresh other (List.mem_cons_of_mem _ hother) hold

/-- Pages that take the loop to its end are at least one. -/
theorem Consumed.ne_nil {pages : List ContextResponse} {texts : List String}
    (h : Consumed minimumContextSlot progress fetched pages texts) : pages ≠ [] := by
  rintro rfl
  exact absurd h.keys (by simp)

/-- The entries of pages are those of the first and those of the others. -/
theorem entriesOf_cons (response : ContextResponse) (pages : List ContextResponse) :
    entriesOf (response :: pages) = response.value.accounts ++ entriesOf pages := rfl

/-- A fetch that succeeds has consumed the first of its replies, no entry of which stopped it. -/
theorem consumed_of_fetch {replies : List (Except String ContextResponse)}
    (h : fetchFullAltState codecs deserialize minimumContextSlot progress replies =
      some (.ok fetched)) :
    ∃ pages texts rest, replies = pages.map .ok ++ rest ∧
      Consumed minimumContextSlot progress fetched pages texts ∧
      (∀ entry ∈ entriesOf pages, Legible codecs entry) ∧
      fetched.accounts = (entriesOf pages).foldl (keep codecs deserialize) progress.accounts := by
  induction replies generalizing progress with
  | nil => cases h
  | cons reply replies ih =>
    cases reply with
    | error error => cases h
    | ok response =>
      rw [fetchFullAltState] at h
      cases hreceive : progress.receive codecs deserialize minimumContextSlot response with
      | error error =>
        rw [hreceive] at h
        cases h
      | ok outcome =>
        rw [hreceive] at h
        obtain ⟨-, -, accounts, haccounts, houtcome⟩ := receive_ok hreceive
        obtain ⟨hlegible, rfl⟩ := foldlM_insertEntry_eq_ok.mp haccounts
        rcases houtcome with ⟨-, rfl⟩ | ⟨text, -, -, rfl⟩
        · obtain rfl := Except.ok.inj (Option.some.inj h)
          refine ⟨[response], [], replies, rfl, consumed_last hreceive, ?_, ?_⟩
          · rwa [entriesOf_cons, entriesOf, List.flatMap_nil, List.append_nil]
          · rw [entriesOf_cons, entriesOf, List.flatMap_nil, List.append_nil]
        · obtain ⟨pages, texts, rest, hreplies, hconsumed, hothers, hfetched⟩ := ih h
          obtain ⟨text, hall⟩ := hconsumed.cons hreceive
          refine ⟨response :: pages, text :: texts, rest, ?_, hall, ?_, ?_⟩
          · rw [hreplies, List.map_cons, List.cons_append]
          · rw [entriesOf_cons]
            exact List.forall_mem_append.mpr ⟨hlegible, hothers⟩
          · rw [entriesOf_cons, List.foldl_append]
            exact hfetched

/-- Pages that take the loop to its end, none of whose entries stops it, make the fetch succeed. -/
theorem Consumed.fetch {pages : List ContextResponse} {texts : List String}
    (h : Consumed minimumContextSlot progress fetched pages texts)
    (hlegible : ∀ entry ∈ entriesOf pages, Legible codecs entry)
    (hfetched : fetched.accounts =
      (entriesOf pages).foldl (keep codecs deserialize) progress.accounts)
    (rest : List (Except String ContextResponse)) :
    fetchFullAltState codecs deserialize minimumContextSlot progress (pages.map .ok ++ rest) =
      some (.ok fetched) := by
  induction pages generalizing progress texts with
  | nil => exact absurd rfl h.ne_nil
  | cons response pages ih =>
    rw [entriesOf_cons] at hlegible hfetched
    obtain ⟨hown, hothers⟩ := List.forall_mem_append.mp hlegible
    rw [List.foldl_append] at hfetched
    obtain ⟨hminimum, hfirst⟩ := h.slots_head
    rw [List.map_cons, List.cons_append, fetchFullAltState,
      receive_of_ok hminimum hfirst (foldlM_insertEntry_eq_ok.mpr ⟨hown, rfl⟩)]
    cases texts with
    | nil =>
      have hlast : pages = [] := by
        have hkeys := (List.cons.inj h.keys).2
        exact List.map_eq_nil_iff.mp hkeys
      subst hlast
      obtain ⟨hkey, rfl⟩ := h.last _ hfetched
      rewrite [hkey]
      rfl
    | cons text texts =>
      obtain ⟨hkey, hfresh, htail⟩ := h.tail _
      rw [hkey]
      dsimp only
      rw [if_neg hfresh]
      exact ih htail hothers hfetched

/-- The fetch succeeds exactly if its replies begin with pages that take the loop to its end and
no entry of them stops it. -/
theorem fetchFullAltState_eq_ok {replies : List (Except String ContextResponse)} :
    fetchFullAltState codecs deserialize minimumContextSlot progress replies =
        some (.ok fetched) ↔
      ∃ pages texts rest, replies = pages.map .ok ++ rest ∧
        Consumed minimumContextSlot progress fetched pages texts ∧
        (∀ entry ∈ entriesOf pages, Legible codecs entry) ∧
        fetched.accounts = (entriesOf pages).foldl (keep codecs deserialize) progress.accounts := by
  refine ⟨consumed_of_fetch, ?_⟩
  rintro ⟨pages, texts, rest, rfl, hconsumed, hlegible, hfetched⟩
  exact hconsumed.fetch hlegible hfetched rest

end Loop

/-- A fetch succeeds exactly if its replies begin with a complete sequence of pages. It then has
the slot of the first page and, under each key, the last valid account of the pages. -/
theorem fetch_ok_iff (codecs : Codecs) (deserialize : Deserialize)
    (minimumContextSlot : Option ℕ) (replies : List (Except String ContextResponse))
    (fetched : FetchedAltState) :
    fetchFullAltState codecs deserialize minimumContextSlot .new replies = some (.ok fetched) ↔
      ∃ first pages rest, replies = (first :: pages).map .ok ++ rest ∧
        Complete codecs minimumContextSlot first.slot (first :: pages) ∧
        fetched.contextSlot = first.slot ∧
        ∀ key : Key, fetched.accounts[key]? =
          lastKept codecs deserialize (entriesOf (first :: pages)) key := by
  have hminimum (slot : ℕ) : minimumContextSlot.getD 0 ≤ slot ↔
      ∀ minimum, minimumContextSlot = some minimum → minimum ≤ slot := by
    cases minimumContextSlot with
    | none => simp
    | some minimum => simp
  have hlookup (entries : List KeyedUiAccount) (key : Key) :
      (entries.foldl (keep codecs deserialize) (∅ : Accounts))[key]? =
        lastKept codecs deserialize entries key := by
    rw [getElem?_foldl_keep, ExtTreeMap.getElem?_empty, Option.or_none]
  rw [fetchFullAltState_eq_ok]
  constructor
  · rintro ⟨pages, texts, rest, hreplies, hconsumed, hlegible, hfetched⟩
    cases pages with
    | nil => exact absurd rfl hconsumed.ne_nil
    | cons first pages =>
      have hslot : fetched.contextSlot = first.slot := hconsumed.first first rfl
      refine ⟨first, pages, rest, hreplies, ⟨⟨texts, hconsumed.distinct, hconsumed.keys⟩,
        fun page hpage => ?_, hlegible⟩, hslot, fun key => ?_⟩
      · obtain ⟨hrequired, hfirst⟩ := hconsumed.slots page hpage
        exact ⟨hslot ▸ hfirst, (hminimum page.slot).mp hrequired⟩
      · rw [hfetched]
        exact hlookup _ key
  · rintro ⟨first, pages, rest, hreplies, hcomplete, hslot, haccounts⟩
    obtain ⟨texts, hdistinct, hkeys⟩ := hcomplete.keys
    refine ⟨first :: pages, texts, rest, hreplies, ⟨hkeys, hdistinct, ?_, ?_, ?_⟩,
      hcomplete.legible, ?_⟩
    · exact fun text _ hseen => absurd hseen List.not_mem_nil
    · intro page hpage
      obtain rfl := Option.some.inj hpage
      exact hslot
    · intro page hpage
      obtain ⟨hfirst, hrequired⟩ := hcomplete.slots page hpage
      exact ⟨(hminimum page.slot).mpr hrequired, hslot ▸ hfirst⟩
    · apply ExtTreeMap.ext_getElem?
      intro key
      rw [haccounts]
      exact (hlookup _ key).symm

end AltCache.AltStateFetcher
