import AltCache.Api.JsonRpc
import AltCache.Store.Runs

/-!
# What an error code tells a client

An unready store asks the client to retry, an expired snapshot to restart its pagination, and
a snapshot below the minimum slot to wait. Whole-state requests and first pages keep the three
apart. A continuation does not: whatever the store's error is, it is reported as expiry, so an
unready store tells a paging client to restart.
-/

namespace AltCache.JsonRpc

open AltCache.Store (cutPage pageSource)

/-- The answer to a continuation that cannot be served. -/
def expired : ErrorObject := ⟨-32002, "snapshot expired; restart pagination"⟩

/-- The snapshot a request is served from: the current one, or the one retained under the slot
that is continued. -/
def asked (now : ℕ) (store : Store) : Option (ℕ × Key) → Option ServerSnapshot
  | none => some store.current
  | some (slot, _) =>
    (store.retained[slot]?.filter (decide <| RetainedSnapshot.Fresh now ·)).map
      RetainedSnapshot.snapshot

/-- A reply is an error with a code. -/
def ErrorsWith {α : Type} (reply : Except ErrorObject α) (code : ℤ) : Prop :=
  ∃ error, reply = .error error ∧ error.code = code

/-- The minimum slot of a request is above a snapshot's slot. -/
def Early (config : ProgramAccountsConfig) (snapshot : ServerSnapshot) : Prop :=
  ∃ minimum, config.minContextSlot = some minimum ∧ snapshot.slot < minimum

/-- A reply tells unreadiness, expiry and a lagging snapshot apart, and otherwise carries the
snapshot asked for. -/
structure Classified {α : Type} (store : Store) (source : Option ServerSnapshot)
    (config : ProgramAccountsConfig) (carries : ServerSnapshot → α → Prop)
    (reply : Except ErrorObject α) : Prop where
  unready : ErrorsWith reply (-32001) ↔ store.ready = false
  expired : ErrorsWith reply (-32002) ↔ store.ready = true ∧ source = none
  early : ErrorsWith reply (-32016) ↔
    store.ready = true ∧ ∃ snapshot, source = some snapshot ∧ Early config snapshot
  success : store.ready = true → ∀ snapshot, source = some snapshot → ¬ Early config snapshot →
    ∃ response, reply = .ok response ∧ carries snapshot response

/-- An answer of `getProgramAccounts` carries the accounts of a snapshot. -/
def CarriesAll (codecs : Codecs) (config : ProgramAccountsConfig) (snapshot : ServerSnapshot)
    (response : ProgramAccountsResponse) : Prop :=
  ∃ accounts, encodeAccounts codecs (snapshot.accounts.toList.map Prod.snd) config = .ok accounts ∧
    response =
      if config.withContext.getD false then .context ⟨snapshot.slot, accounts⟩
      else .accounts accounts

/-- An answer of `getProgramAccountsV2` carries the page of a snapshot after a cursor. -/
def CarriesPage (codecs : Codecs) (config : ProgramAccountsConfig) (after : Option Key)
    (snapshot : ServerSnapshot) (response : ProgramAccountsV2Response) : Prop :=
  ∃ accounts,
    encodeAccounts codecs
      ((cutPage snapshot.accounts after (config.limit.getD 1000)).1.map Prod.snd) config =
        .ok accounts ∧
    response =
      let page := ⟨accounts, (cutPage snapshot.accounts after (config.limit.getD 1000)).2.map
        (formatCursor codecs snapshot.slot)⟩
      if config.withContext.getD false then .context ⟨snapshot.slot, page⟩ else .page page

/-- The reply of a server that keeps the errors apart. -/
def classify {α : Type} (store : Store) (source : Option ServerSnapshot)
    (config : ProgramAccountsConfig) (respond : ServerSnapshot → Except ErrorObject α) :
    Except ErrorObject α :=
  if store.ready then
    match source with
    | none => .error expired
    | some snapshot => do
      validateMinContextSlot config snapshot.slot
      respond snapshot
  else .error unavailable

section Classify

variable {α : Type} {config : ProgramAccountsConfig} {snapshot : ServerSnapshot}

/-- An error has one code. -/
theorem errorsWith_error {error : ErrorObject} {code : ℤ} :
    ErrorsWith (.error error : Except ErrorObject α) code ↔ error.code = code := by
  constructor
  · rintro ⟨found, hfound, hcode⟩
    cases hfound
    exact hcode
  · intro hcode
    exact ⟨error, rfl, hcode⟩

/-- A success is no error. -/
theorem not_errorsWith_ok {response : α} {code : ℤ} :
    ¬ ErrorsWith (.ok response : Except ErrorObject α) code := by
  rintro ⟨error, herror, -⟩
  cases herror

/-- The slot check fails exactly for an early snapshot. -/
theorem validateMinContextSlot_eq (config : ProgramAccountsConfig) (snapshot : ServerSnapshot) :
    (Early config snapshot ∧ validateMinContextSlot config snapshot.slot =
      .error ⟨-32016, "minimum context slot has not been reached"⟩) ∨
    (¬ Early config snapshot ∧ validateMinContextSlot config snapshot.slot = .ok ()) := by
  unfold validateMinContextSlot Early
  cases config.minContextSlot with
  | none => simp
  | some minimum =>
    by_cases hlt : snapshot.slot < minimum
    · simp [hlt]
    · simp [hlt]

/-- Replies kept apart are classified, if the snapshot asked for can be written. -/
theorem classified_classify {store : Store} {source : Option ServerSnapshot}
    {carries : ServerSnapshot → α → Prop} {respond : ServerSnapshot → Except ErrorObject α}
    (hrespond : ∀ snapshot, ∃ response, respond snapshot = .ok response ∧
      carries snapshot response) :
    Classified store source config carries (classify store source config respond) := by
  unfold classify
  cases hready : store.ready with
  | false =>
    rw [if_neg Bool.false_ne_true]
    constructor <;> simp [errorsWith_error, unavailable, hready]
  | true =>
    rw [if_pos rfl]
    cases source with
    | none => constructor <;> simp [errorsWith_error, expired, hready]
    | some snapshot =>
      obtain ⟨response, hresponse, hcarries⟩ := hrespond snapshot
      rcases validateMinContextSlot_eq config snapshot with ⟨hearly, hcheck⟩ | ⟨hearly, hcheck⟩
      · simp only [hcheck, bind, Except.bind]
        constructor <;> simp [errorsWith_error, hready, hearly]
      · simp only [hcheck, hresponse, bind, Except.bind]
        constructor <;> simp [not_errorsWith_ok, hready, hearly, hcarries]

end Classify

section Requests

variable {codecs : Codecs} {maxPageSize now : ℕ} {store : Store}
  {config : ProgramAccountsConfig}

/-- Accounts are written in every accepted encoding if compression does not fail. -/
theorem encodeAccounts_ok (hzstd : ∀ data, (codecs.zstdEncode data).isSome)
    (hencoding : config.encoding ≠ some .jsonParsed) (accounts : List Account) :
    ∃ entries, encodeAccounts codecs accounts config = .ok entries := by
  have hdata (data : List UInt8) :
      ∃ written, encodeData codecs data (config.encoding.getD .base64Zstd) = .ok written := by
    obtain ⟨compressed, hcompressed⟩ := Option.isSome_iff_exists.mp (hzstd data)
    cases hgiven : config.encoding with
    | none => simp [encodeData, hcompressed]
    | some encoding =>
      cases encoding with
      | jsonParsed => exact (hencoding hgiven).elim
      | base64Zstd => simp [encodeData, hcompressed]
      | binary => exact ⟨_, rfl⟩
      | base58 => exact ⟨_, rfl⟩
      | base64 => exact ⟨_, rfl⟩
  have hentry (account : Account) : ∃ entry, (account.toKeyedUiAccountWithConfig codecs
      (config.encoding.getD .base64Zstd) config.dataSlice).toOption = some entry := by
    obtain ⟨written, hwritten⟩ := hdata (sliceData account.value.data config.dataSlice)
    exact ⟨_, by rw [Account.toKeyedUiAccountWithConfig, hwritten]; rfl⟩
  have hall : ∃ entries, accounts.mapM (fun account => (account.toKeyedUiAccountWithConfig codecs
      (config.encoding.getD .base64Zstd) config.dataSlice).toOption) = some entries := by
    induction accounts with
    | nil => exact ⟨[], rfl⟩
    | cons account accounts ih =>
      obtain ⟨entry, hentry⟩ := hentry account
      obtain ⟨entries, hentries⟩ := ih
      exact ⟨entry :: entries, by simp [List.mapM_cons, hentry, hentries]⟩
  obtain ⟨entries, hentries⟩ := hall
  exact ⟨entries, by rw [encodeAccounts, hentries]⟩

/-- A checked configuration asks for no parsed data. -/
theorem encoding_of_validateConfig {paginated : Bool}
    (h : validateConfig config paginated maxPageSize = .ok ()) :
    config.encoding ≠ some .jsonParsed := by
  intro hencoding
  unfold validateConfig at h
  dsimp only at h
  split_ifs at h

/-- A checked configuration of a page request asks for at least one account. -/
theorem limit_of_validateConfig (h : validateConfig config true maxPageSize = .ok ()) :
    config.limit.getD 1000 ≠ 0 := by
  intro hlimit
  unfold validateConfig at h
  dsimp only at h
  rw [hlimit] at h
  split_ifs at h
  simp_all

/-- A page request's snapshot, as the store finds it. -/
theorem pageSource_fst (now : ℕ) (store : Store) (cursor : Option (ℕ × Key)) :
    (pageSource now store (cursor.map Prod.fst)).1 =
      match asked now store cursor with
      | none => .error "snapshot expired; restart pagination"
      | some snapshot => .ok snapshot := by
  cases cursor with
  | none => rfl
  | some cursor =>
    obtain ⟨slot, key⟩ := cursor
    have hunexpired : (Store.unexpired now store.retained)[slot]? =
        store.retained[slot]?.filter (decide <| RetainedSnapshot.Fresh now ·) := by
      rw [Store.unexpired, Std.ExtTreeMap.getElem?_filter']
      rfl
    simp only [Option.map_some, pageSource, asked, hunexpired]
    cases store.retained[slot]?.filter (decide <| RetainedSnapshot.Fresh now ·) <;> rfl

/-- A whole-state request keeps the errors apart. -/
theorem programAccounts_eq (hvalid : validateConfig config false maxPageSize = .ok ()) :
    programAccounts codecs maxPageSize store programIdText (some config) =
      classify store (some store.current) config fun snapshot => do
        let accounts ← encodeAccounts codecs (snapshot.accounts.toList.map Prod.snd) config
        if config.withContext.getD false then return .context ⟨snapshot.slot, accounts⟩
        else return .accounts accounts := by
  simp only [programAccounts, validateProgram, Option.getD_some, hvalid, classify]
  cases hready : store.ready with
  | false => simp [Store.readSnapshot, hready, Except.mapError, bind, Except.bind]
  | true => simp [Store.readSnapshot, hready, Except.mapError, bind, Except.bind]

/-- The page of a snapshot that a request is answered with. -/
def pageOf (config : ProgramAccountsConfig) (after : Option Key) (snapshot : ServerSnapshot) :
    SnapshotPage :=
  ⟨snapshot.slot, (cutPage snapshot.accounts after (config.limit.getD 1000)).1.map Prod.snd,
    (cutPage snapshot.accounts after (config.limit.getD 1000)).2⟩

/-- The store's answer to a checked page request. -/
theorem snapshotPage_fst (now : ℕ) (store : Store) (cursor : Option (ℕ × Key))
    (hlimit : config.limit.getD 1000 ≠ 0) :
    (store.snapshotPage now (cursor.map Prod.fst) (cursor.map Prod.snd)
        (config.limit.getD 1000)).1 =
      if store.ready then
        match asked now store cursor with
        | none => .error "snapshot expired; restart pagination"
        | some snapshot => .ok (pageOf config (cursor.map Prod.snd) snapshot)
      else .error "cache is not ready" := by
  have hsource := pageSource_fst now store cursor
  unfold Store.snapshotPage
  rw [if_neg hlimit]
  cases hready : store.ready with
  | false => simp
  | true =>
    simp only [not_true_eq_false, if_false, if_true]
    cases hasked : asked now store cursor with
    | none =>
      rw [hasked] at hsource
      rcases hpage : pageSource now store (cursor.map Prod.fst) with ⟨error | snapshot, source⟩
      · simpa [hpage] using hsource
      · simp [hpage] at hsource
    | some snapshot =>
      rw [hasked] at hsource
      rcases hpage : pageSource now store (cursor.map Prod.fst) with ⟨error | found, source⟩
      · simp [hpage] at hsource
      · obtain rfl : found = snapshot := by simpa [hpage] using hsource
        rfl

/-- A page request keeps the errors apart, except that a continuation of an unready store is
told that its snapshot has expired. -/
theorem programAccountsV2_fst {cursor : Option (ℕ × Key)}
    (hvalid : validateConfig config true maxPageSize = .ok ())
    (hcursor : requestCursor codecs config = .ok cursor) :
    (programAccountsV2 codecs maxPageSize now store programIdText (some config)).1 =
      if store.ready = false ∧ cursor.isSome then .error expired
      else classify store (asked now store cursor) config fun snapshot => do
        let page := pageOf config (cursor.map Prod.snd) snapshot
        let accounts ← encodeAccounts codecs page.accounts config
        let value := ⟨accounts, page.next.map (formatCursor codecs page.slot)⟩
        if config.withContext.getD false then return .context ⟨page.slot, value⟩
        else return .page value := by
  have hpage := snapshotPage_fst now store cursor (limit_of_validateConfig hvalid)
  simp only [programAccountsV2, validateProgram, Option.getD_some, hvalid, hcursor, bind,
    Except.bind, ne_eq, not_true_eq_false, if_false]
  rcases hresult : store.snapshotPage now (cursor.map Prod.fst) (cursor.map Prod.snd)
    (config.limit.getD 1000) with ⟨error | page, after⟩
  · rw [hresult] at hpage
    cases hready : store.ready with
    | false => cases cursor <;> simp [classify, hready, expired]
    | true =>
      simp only [hready, if_true] at hpage
      cases hasked : asked now store cursor with
      | none =>
        cases cursor with
        | none => cases hasked
        | some cursor => simp [classify, hready, expired]
      | some snapshot => simp [hasked] at hpage
  · rw [hresult] at hpage
    cases hready : store.ready with
    | false => simp [hready] at hpage
    | true =>
      simp only [hready, if_true] at hpage
      cases hasked : asked now store cursor with
      | none => simp [hasked] at hpage
      | some snapshot =>
        obtain rfl : page = pageOf config (cursor.map Prod.snd) snapshot := by
          simpa [hasked] using hpage
        simp [classify, hready, pageResponse, pageOf, bind, Except.bind]

/-- A request carries a cursor exactly when its configuration names one. -/
theorem requestCursor_eq_none {cursor : Option (ℕ × Key)}
    (h : requestCursor codecs config = .ok cursor) :
    cursor = none ↔ config.paginationKey = none := by
  unfold requestCursor at h
  cases hkey : config.paginationKey with
  | none =>
    rw [hkey] at h
    simp [Except.ok.inj h.symm]
  | some text =>
    simp only [hkey] at h
    split at h
    · cases h
    · simp [Except.ok.inj h.symm]

/-- Whole-state requests tell unreadiness, expiry and a lagging snapshot apart. Page requests do
so exactly when the store is ready or no cursor is given. -/
theorem classified_iff (hzstd : ∀ data, (codecs.zstdEncode data).isSome)
    (request : Option ProgramAccountsConfig) :
    (validateConfig (request.getD .default) false maxPageSize = .ok () →
      Classified store (some store.current) (request.getD .default)
        (CarriesAll codecs (request.getD .default))
        (programAccounts codecs maxPageSize store programIdText request)) ∧
    ∀ cursor, validateConfig (request.getD .default) true maxPageSize = .ok () →
      requestCursor codecs (request.getD .default) = .ok cursor →
      (Classified store (asked now store cursor) (request.getD .default)
          (CarriesPage codecs (request.getD .default) (cursor.map Prod.snd))
          (programAccountsV2 codecs maxPageSize now store programIdText request).1 ↔
        store.ready = true ∨ (request.getD .default).paginationKey = none) := by
  generalize hconfig : request.getD .default = config
  have hwhole : programAccounts codecs maxPageSize store programIdText request =
      programAccounts codecs maxPageSize store programIdText (some config) := by
    rw [← hconfig]
    cases request <;> rfl
  have hpaged : programAccountsV2 codecs maxPageSize now store programIdText request =
      programAccountsV2 codecs maxPageSize now store programIdText (some config) := by
    rw [← hconfig]
    cases request <;> rfl
  rw [hwhole, hpaged]
  constructor
  · intro hvalid
    rw [programAccounts_eq hvalid]
    apply classified_classify
    intro snapshot
    obtain ⟨entries, hentries⟩ := encodeAccounts_ok hzstd (encoding_of_validateConfig hvalid)
      (snapshot.accounts.toList.map Prod.snd)
    refine ⟨_, ?_, entries, hentries, rfl⟩
    rw [hentries]
    cases config.withContext.getD false <;> rfl
  · intro cursor hvalid hcursor
    rw [programAccountsV2_fst hvalid hcursor, ← requestCursor_eq_none hcursor]
    constructor
    · intro hclassified
      by_contra hneither
      obtain ⟨hready, hsome⟩ := not_or.mp hneither
      have hunready : store.ready = false := Bool.eq_false_iff.mpr hready
      rw [if_pos ⟨hunready, Option.isSome_iff_ne_none.mpr hsome⟩] at hclassified
      -- the reply says "expired", so it cannot say "not ready" as well
      have hcode := errorsWith_error.mp (hclassified.unready.mpr hunready)
      exact absurd hcode (by decide)
    · intro heither
      have hserved : ¬ (store.ready = false ∧ cursor.isSome) := by
        rintro ⟨hunready, hsome⟩
        rcases heither with hready | hnone
        · exact Bool.false_ne_true (hunready.symm.trans hready)
        · exact Option.isSome_iff_ne_none.mp hsome hnone
      rw [if_neg hserved]
      apply classified_classify
      intro snapshot
      obtain ⟨entries, hentries⟩ := encodeAccounts_ok hzstd (encoding_of_validateConfig hvalid)
        (pageOf config (cursor.map Prod.snd) snapshot).accounts
      refine ⟨_, ?_, entries, hentries, rfl⟩
      dsimp only
      rw [hentries]
      cases config.withContext.getD false <;> rfl

end Requests

/-- A request for the page after a cursor of slot 5. -/
def continuation : ProgramAccountsConfig :=
  { ProgramAccountsConfig.default with
    paginationKey := some (formatCursor Codecs.plain 5 (.filled 1)) }

/-- An unready store tells a paging client that its snapshot has expired. -/
theorem continuation_misclassified :
    ¬ Classified Store.new (asked 0 Store.new (some (5, .filled 1))) continuation
      (CarriesPage Codecs.plain continuation (some (.filled 1)))
      (programAccountsV2 Codecs.plain 1000 0 Store.new programIdText (some continuation)).1 := by
  have hcursor : requestCursor Codecs.plain continuation = .ok (some (5, .filled 1)) := by
    simp [requestCursor, continuation,
      parseCursor_formatCursor Codecs.plain_lawful (show 5 < Decimal.u64Count by decide)]
  have hvalid : validateConfig continuation true 1000 = .ok () := by
    simp [validateConfig, continuation, ProgramAccountsConfig.default]
  rw [programAccountsV2_fst hvalid hcursor, if_pos ⟨rfl, rfl⟩]
  intro hclassified
  exact absurd (errorsWith_error.mp (hclassified.unready.mpr rfl)) (by decide)

/-- A request for the page after the second table of a slot, with a minimum slot. -/
def continued (slot : ℕ) (minContextSlot : Option ℕ) : ProgramAccountsConfig :=
  { ProgramAccountsConfig.default with
    minContextSlot
    paginationKey := some (formatCursor Codecs.plain slot (.filled 2)) }

/-- A client that has taken a page of slot 10, of which slot 11 has been published since, goes on
with that slot or with another that is not retained, and may require slot 11. -/
theorem classified_iff_continued :
    (asked 1 Store.pagedSlot.store (some (10, .filled 2))).map ServerSnapshot.slot = some 10 ∧
      (asked 1 Store.pagedSlot.store (some (9, .filled 2))).map ServerSnapshot.slot = none ∧
      ∀ slot ∈ [9, 10], ∀ minimum ∈ [none, some 11],
        Classified Store.pagedSlot.store (asked 1 Store.pagedSlot.store (some (slot, .filled 2)))
          (continued slot minimum)
          (CarriesPage Codecs.plain (continued slot minimum) (some (.filled 2)))
          (programAccountsV2 Codecs.plain 1000 1 Store.pagedSlot.store programIdText
            (some (continued slot minimum))).1 := by
  refine ⟨by decide +kernel, by decide +kernel, fun slot hslot minimum _ => ?_⟩
  have hcursor : requestCursor Codecs.plain (continued slot minimum) =
      .ok (some (slot, .filled 2)) := by
    have hlt : slot < Decimal.u64Count := by
      rcases List.mem_pair.mp hslot with rfl | rfl <;> decide
    simp [requestCursor, continued, parseCursor_formatCursor Codecs.plain_lawful hlt]
  have hvalid : validateConfig (continued slot minimum) true 1000 = .ok () := by
    simp [validateConfig, continued, ProgramAccountsConfig.default]
  exact ((classified_iff (fun _ => rfl) (some (continued slot minimum))).2 _ hvalid hcursor).mpr
    (Or.inl rfl)

end AltCache.JsonRpc
