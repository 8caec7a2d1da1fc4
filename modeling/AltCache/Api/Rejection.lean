import AltCache.Api.Errors

/-!
# What a rejected page request leaves behind

The address, the configuration and the cursor are checked before the store is asked; the
minimum slot and the encoding can be checked only once the page is there. By then the store
has renewed or retained the page's snapshot, as for a page that is delivered. A rejected
request therefore leaves either nothing new, or the traces of the one page it took.
-/

namespace AltCache.JsonRpc

open AltCache.Store (pageSource retain)

/-- A page request passes the checks made before the store is asked, and the store has the
snapshot it asks for. -/
structure TakesPage (codecs : Codecs) (maxPageSize now : ℕ) (store : Store) (address : String)
    (config : ProgramAccountsConfig) (cursor : Option (ℕ × Key)) (snapshot : ServerSnapshot) :
    Prop where
  validProgram : validateProgram address = .ok ()
  validConfig : validateConfig config true maxPageSize = .ok ()
  parses : requestCursor codecs config = .ok cursor
  ready : store.ready = true
  found : asked now store cursor = some snapshot

/-- Nothing is retained, and no timestamp renewed, that was not there before; what is served
stays. -/
structure RetainsNothing (store after : Store) : Prop where
  retained : ∀ (slot : ℕ) entry, after.retained[slot]? = some entry →
    store.retained[slot]? = some entry
  current : after.current = store.current
  ready : after.ready = store.ready

variable {codecs : Codecs} {maxPageSize now : ℕ} {store : Store} {address : String}
  {config : ProgramAccountsConfig} {cursor : Option (ℕ × Key)}

/-- Looking up a page's snapshot renews that snapshot only. -/
theorem retained_pageSource_cursor {slot : ℕ} {entry : RetainedSnapshot}
    (h : (pageSource now store (cursor.map Prod.fst)).2.retained[slot]? = some entry) :
    store.retained[slot]? = some entry ∨
      ∃ snapshot, asked now store cursor = some snapshot ∧ entry = ⟨snapshot, now⟩ ∧
        cursor.map Prod.fst = some slot := by
  cases cursor with
  | none => exact Or.inl h
  | some cursor =>
    obtain ⟨requested, key⟩ := cursor
    rw [Option.map_some, Store.getElem?_pageSource] at h
    obtain ⟨old, hold, hentry⟩ := Option.map_eq_some_iff.mp h
    split at hentry
    · next hsame =>
      subst hsame
      refine Or.inr ⟨old.snapshot, ?_, hentry.symm, rfl⟩
      simp only [asked, hold, Option.map_some]
    · exact Or.inl (hentry ▸ (Option.filter_eq_some_iff.mp hold).1)

/-- An unready store answers no page request and stays as it is. -/
theorem snapshotPage_unready (now : ℕ) (hready : store.ready = false)
    (snapshotSlot : Option ℕ) (after : Option Key) (limit : ℕ) :
    (store.snapshotPage now snapshotSlot after limit).2 = store := by
  unfold Store.snapshotPage
  split
  · rfl
  · rw [if_pos (by simp [hready])]

/-- A page that is taken leaves its snapshot behind, renewed or retained, and nothing else new. -/
theorem retained_snapshotPage_cursor {snapshot : ServerSnapshot} {slot : ℕ}
    {entry : RetainedSnapshot} (hlimit : config.limit.getD 1000 ≠ 0) (hready : store.ready = true)
    (hasked : asked now store cursor = some snapshot)
    (h : (store.snapshotPage now (cursor.map Prod.fst) (cursor.map Prod.snd)
      (config.limit.getD 1000)).2.retained[slot]? = some entry) :
    store.retained[slot]? = some entry ∨
      entry = ⟨snapshot, now⟩ ∧ (cursor.map Prod.fst = some slot ∨
        slot = snapshot.slot ∧ (pageOf config (cursor.map Prod.snd) snapshot).next.isSome) := by
  have hpage := snapshotPage_fst now store cursor hlimit
  simp only [hready, if_true, hasked] at hpage
  obtain ⟨found, hfound, -, hstore⟩ := Store.snapshotPage_ok hpage
  obtain rfl : found = snapshot := by
    rw [pageSource_fst, hasked] at hfound
    exact (Except.ok.inj hfound).symm
  have hsource {entry : RetainedSnapshot}
      (h : (pageSource now store (cursor.map Prod.fst)).2.retained[slot]? = some entry) :
      store.retained[slot]? = some entry ∨
        entry = ⟨found, now⟩ ∧ cursor.map Prod.fst = some slot := by
    apply (retained_pageSource_cursor h).imp_right
    rintro ⟨other, hother, hentry, hslot⟩
    rw [hasked] at hother
    exact ⟨Option.some.inj hother ▸ hentry, hslot⟩
  rw [hstore] at h
  split at h
  · next hnext =>
    rw [Store.getElem?_retain, Option.or_eq_some_iff] at h
    rcases h with h | ⟨-, h⟩
    · exact (hsource h).imp_right fun ⟨hentry, hslot⟩ => ⟨hentry, Or.inl hslot⟩
    · split at h
      · next hslot => exact Or.inr ⟨(Option.some.inj h).symm, Or.inr ⟨hslot.symm, hnext⟩⟩
      · cases h
  · exact (hsource h).imp_right fun ⟨hentry, hslot⟩ => ⟨hentry, Or.inl hslot⟩

/-- A continuation that finds nothing leaves nothing new behind. -/
theorem retained_snapshotPage_none {slot : ℕ} {entry : RetainedSnapshot} {error : String}
    {after : Option Key} {limit : ℕ} (hasked : asked now store cursor = none)
    (hpage : (store.snapshotPage now (cursor.map Prod.fst) after limit).1 = .error error)
    (h : (store.snapshotPage now (cursor.map Prod.fst) after limit).2.retained[slot]? =
      some entry) :
    store.retained[slot]? = some entry := by
  rcases Store.snapshotPage_error hpage with hstore | hstore
  · rwa [hstore] at h
  · rw [hstore] at h
    rcases retained_pageSource_cursor h with hold | ⟨snapshot, hfound, -⟩
    · exact hold
    · cases hasked.symm.trans hfound

/-- The store either refuses a checked page request, and retains nothing new, or it takes the
page of the snapshot asked for, whose traces are all that is new. -/
theorem snapshotPage_cases (now : ℕ) (store : Store) (cursor : Option (ℕ × Key))
    (hlimit : config.limit.getD 1000 ≠ 0) :
    let taken := store.snapshotPage now (cursor.map Prod.fst) (cursor.map Prod.snd)
      (config.limit.getD 1000)
    (∃ failure, taken.1 = .error failure ∧ RetainsNothing store taken.2) ∨
    ∃ snapshot, taken.1 = .ok (pageOf config (cursor.map Prod.snd) snapshot) ∧
      store.ready = true ∧ asked now store cursor = some snapshot ∧
      taken.2.current = store.current ∧ taken.2.ready = store.ready ∧
      ∀ (slot : ℕ) entry, taken.2.retained[slot]? = some entry →
        store.retained[slot]? = some entry ∨
          entry = ⟨snapshot, now⟩ ∧ (cursor.map Prod.fst = some slot ∨
            slot = snapshot.slot ∧ (pageOf config (cursor.map Prod.snd) snapshot).next.isSome) := by
  intro taken
  have hpage : taken.1 = _ := snapshotPage_fst now store cursor hlimit
  obtain ⟨hcurrent, hready⟩ := Store.snapshotPage_frame now store (cursor.map Prod.fst)
    (cursor.map Prod.snd) (config.limit.getD 1000)
  cases hserving : store.ready with
  | false =>
    have hsame : taken.2 = store := snapshotPage_unready now hserving _ _ _
    rw [hserving, if_neg Bool.false_ne_true] at hpage
    exact Or.inl ⟨_, hpage, fun slot entry hentry => hsame ▸ hentry, hcurrent, hready⟩
  | true =>
    rw [if_pos hserving] at hpage
    cases hasked : asked now store cursor with
    | none =>
      rw [hasked] at hpage
      refine Or.inl ⟨_, hpage, fun slot entry hentry => ?_, hcurrent, hready⟩
      exact retained_snapshotPage_none hasked hpage hentry
    | some snapshot =>
      rw [hasked] at hpage
      refine Or.inr ⟨snapshot, hpage, rfl, rfl, hcurrent, hready.trans hserving, ?_⟩
      intro slot entry hentry
      exact retained_snapshotPage_cursor hlimit hserving hasked hentry

/-- A request that fails its checks is refused before the store is asked; the others are
answered from the store's page. -/
theorem programAccountsV2_cases (codecs : Codecs) (maxPageSize now : ℕ) (store : Store)
    (address : String) (request : Option ProgramAccountsConfig) :
    let config := request.getD .default
    (∃ error, programAccountsV2 codecs maxPageSize now store address request =
      (.error error, store)) ∨
    ∃ cursor, validateProgram address = .ok () ∧ validateConfig config true maxPageSize = .ok () ∧
      requestCursor codecs config = .ok cursor ∧
      programAccountsV2 codecs maxPageSize now store address request =
        match store.snapshotPage now (cursor.map Prod.fst) (cursor.map Prod.snd)
            (config.limit.getD 1000) with
        | (.error _, after) => (.error (if cursor.isSome then expired else unavailable), after)
        | (.ok page, after) => (pageResponse codecs config page, after) := by
  unfold programAccountsV2
  simp only [bind, Except.bind]
  cases hprogram : validateProgram address with
  | error error => exact Or.inl ⟨error, rfl⟩
  | ok checked =>
    cases hconfig : validateConfig (request.getD .default) true maxPageSize with
    | error error => exact Or.inl ⟨error, rfl⟩
    | ok checked =>
      cases hcursor : requestCursor codecs (request.getD .default) with
      | error error => exact Or.inl ⟨error, rfl⟩
      | ok cursor => exact Or.inr ⟨cursor, rfl, rfl, rfl, rfl⟩

/-- A rejected page request leaves what is served alone. Whatever it leaves newly retained or
renewed is the snapshot of the one page it took before its answer was refused. -/
theorem rejected_request {request : Option ProgramAccountsConfig} {error : ErrorObject}
    (h : (programAccountsV2 codecs maxPageSize now store address request).1 = .error error) :
    let config := request.getD .default
    let after := (programAccountsV2 codecs maxPageSize now store address request).2
    RetainsNothing store after ∨
      after.current = store.current ∧ after.ready = store.ready ∧
      ∃ cursor snapshot, TakesPage codecs maxPageSize now store address config cursor snapshot ∧
        pageResponse codecs config (pageOf config (cursor.map Prod.snd) snapshot) = .error error ∧
        ∀ (slot : ℕ) entry, after.retained[slot]? = some entry →
          store.retained[slot]? = some entry ∨
            entry = ⟨snapshot, now⟩ ∧ (cursor.map Prod.fst = some slot ∨
              slot = snapshot.slot ∧ (pageOf config (cursor.map Prod.snd) snapshot).next.isSome) := by
  have hcases := programAccountsV2_cases codecs maxPageSize now store address request
  dsimp only at hcases ⊢
  generalize request.getD .default = config at hcases ⊢
  generalize programAccountsV2 codecs maxPageSize now store address request = reply at *
  rcases hcases with ⟨refused, rfl⟩ | ⟨cursor, hprogram, hconfig, hcursor, hanswer⟩
  · exact Or.inl ⟨fun _ _ hentry => hentry, rfl, rfl⟩
  · have hpage := snapshotPage_cases now store cursor (limit_of_validateConfig hconfig)
    generalize store.snapshotPage now (cursor.map Prod.fst) (cursor.map Prod.snd)
      (config.limit.getD 1000) = taken at hanswer hpage
    obtain ⟨result, after⟩ := taken
    rcases hpage with ⟨failure, hresult, hnothing⟩ |
      ⟨snapshot, hresult, hserving, hasked, hcurrent, hready, hretained⟩
    · obtain rfl : result = .error failure := hresult
      obtain rfl := hanswer
      exact Or.inl hnothing
    · obtain rfl : result = .ok _ := hresult
      obtain rfl := hanswer
      exact Or.inr ⟨hcurrent, hready, cursor, snapshot,
        ⟨hprogram, hconfig, hcursor, hserving, hasked⟩, h, hretained⟩

/-- Two tables served at slot 10. -/
def servingTen : Store := Store.new.publish "rpc" 10 (Store.sampleAccounts [.filled 1, .filled 2])

/-- A first page of one table, not before slot 11. -/
def notBeforeEleven : ProgramAccountsConfig :=
  { ProgramAccountsConfig.default with limit := some 1, minContextSlot := some 11 }

/-- The request is rejected: slot 11 is not reached. -/
theorem notBeforeEleven_rejected :
    ∃ error, (programAccountsV2 Codecs.plain 1000 0 servingTen programIdText
      (some notBeforeEleven)).1 = .error error := by
  have hrejected : (programAccountsV2 Codecs.plain 1000 0 servingTen programIdText
      (some notBeforeEleven)).1.toOption.isNone := by
    decide +kernel
  cases hreply : (programAccountsV2 Codecs.plain 1000 0 servingTen programIdText
      (some notBeforeEleven)).1 with
  | error error => exact ⟨error, rfl⟩
  | ok response => simp [hreply, Except.toOption] at hrejected

/-- The request is rejected and the snapshot of slot 10 is retained all the same. -/
theorem notBeforeEleven_retains :
    (∃ error, (programAccountsV2 Codecs.plain 1000 0 servingTen programIdText
      (some notBeforeEleven)).1 = .error error) ∧
    ¬ RetainsNothing servingTen (programAccountsV2 Codecs.plain 1000 0 servingTen programIdText
      (some notBeforeEleven)).2 := by
  refine ⟨notBeforeEleven_rejected, fun hnothing => ?_⟩
  have hretained : ((programAccountsV2 Codecs.plain 1000 0 servingTen programIdText
      (some notBeforeEleven)).2.retained[10]?).isSome := by
    decide +kernel
  obtain ⟨entry, hentry⟩ := Option.isSome_iff_exists.mp hretained
  have hbefore : servingTen.retained[10]? = none := by
    decide +kernel
  cases hbefore.symm.trans (hnothing.retained 10 entry hentry)

/-- The rejected request leaves the served snapshot alone. -/
theorem rejected_request_notBeforeEleven :
    (programAccountsV2 Codecs.plain 1000 0 servingTen programIdText
      (some notBeforeEleven)).2.current = servingTen.current := by
  obtain ⟨error, herror⟩ := notBeforeEleven_rejected
  rcases rejected_request herror with hnothing | ⟨hcurrent, -⟩
  · exact hnothing.current
  · exact hcurrent

end AltCache.JsonRpc
