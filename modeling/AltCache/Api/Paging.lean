import AltCache.Api.Cursor
import AltCache.Api.Errors
import AltCache.Api.Rejection
import AltCache.Store.Enumeration

/-!
# Pages and the whole

`getProgramAccountsV2` answers with a page and a cursor as text, `getProgramAccounts` with
everything. A client that follows the cursors, while others page and the store is published to,
invalidated and recovered, either meets an error or gets what one whole request would have
given it at its first page, in whatever encoding and slice it asks for.
-/

namespace AltCache.JsonRpc

open Std (ExtTreeMap)
open AltCache.Store (Round Pins Steady ServedFrom cutPage entriesAfter)

/-- The accounts of a whole answer. -/
def ProgramAccountsResponse.value : ProgramAccountsResponse → List KeyedUiAccount
  | .accounts served => served
  | .context response => response.value

/-- The slot that a whole answer names, if it does. -/
def ProgramAccountsResponse.slot? : ProgramAccountsResponse → Option ℕ
  | .accounts _ => none
  | .context response => some response.slot

/-- The page of an answer. -/
def ProgramAccountsV2Response.value : ProgramAccountsV2Response → ProgramAccountsPage
  | .page served => served
  | .context response => response.value

/-- The slot that the answer names, if it does. -/
def ProgramAccountsV2Response.slot? : ProgramAccountsV2Response → Option ℕ
  | .page _ => none
  | .context response => some response.slot

/-- Ask for a page of as many accounts, from a cursor on. -/
def ProgramAccountsConfig.from (config : ProgramAccountsConfig) (limit : Option ℕ)
    (cursor : Option String) : ProgramAccountsConfig :=
  { config with limit, paginationKey := cursor }

/-- A client's request for a page. -/
def ask (codecs : Codecs) (maxPageSize : ℕ) (config : ProgramAccountsConfig) (store : Store)
    (cursor : Option String) (round : Round) :
    Except ErrorObject ProgramAccountsV2Response × Store :=
  programAccountsV2 codecs maxPageSize round.now store programIdText
    (some (config.from (some round.limit) cursor))

/-- Every operation is one of an ascending run. -/
def AscendsAll (store : Store) : List Store.Op → Prop
  | [] => True
  | op :: ops => op.Ascends store ∧ AscendsAll (store.perform op) ops

/-- The answers that a client gets that asks the store for a page and follows its cursors to the
end. Between two requests others do what an ascending run allows. -/
inductive Followed (codecs : Codecs) (maxPageSize : ℕ) (config : ProgramAccountsConfig) :
    Store → Option String → List Round → List ProgramAccountsV2Response → Prop where
  | last {store cursor round rounds response}
      (hreply : (ask codecs maxPageSize config store cursor round).1 = .ok response)
      (hcursor : response.value.paginationKey = none) :
      Followed codecs maxPageSize config store cursor (round :: rounds) [response]
  | next {store cursor round next rounds response text responses}
      (hreply : (ask codecs maxPageSize config store cursor round).1 = .ok response)
      (hcursor : response.value.paginationKey = some text)
      (hothers : AscendsAll (ask codecs maxPageSize config store cursor round).2 next.others)
      (hrest : Followed codecs maxPageSize config
        ((ask codecs maxPageSize config store cursor round).2.performAll next.others) (some text)
        (next :: rounds) responses) :
      Followed codecs maxPageSize config store cursor (round :: next :: rounds)
        (response :: responses)

section Config

variable {codecs : Codecs} {maxPageSize : ℕ} {config : ProgramAccountsConfig} {limit : Option ℕ}
  {cursor : Option String}

/-- A page may be asked for exactly if the whole may be and the page is not too long. -/
theorem validateConfig_from {count : ℕ} :
    validateConfig (config.from (some count) cursor) true maxPageSize = .ok () ↔
      validateConfig (config.from none none) false maxPageSize = .ok () ∧
        1 ≤ count ∧ count ≤ maxPageSize := by
  unfold validateConfig ProgramAccountsConfig.from
  dsimp only
  rw [Option.getD_some]
  grind

/-- Two lists that can be written can be written in a row. -/
theorem encodeAccounts_append {first second : List Account} {firstSent secondSent}
    (hfirst : encodeAccounts codecs first config = .ok firstSent)
    (hsecond : encodeAccounts codecs second config = .ok secondSent) :
    encodeAccounts codecs (first ++ second) config = .ok (firstSent ++ secondSent) := by
  unfold encodeAccounts at *
  dsimp only at hfirst hsecond ⊢
  rw [List.mapM_append]
  split at hfirst
  · cases hfirst
  · next hsent =>
    cases hfirst
    split at hsecond
    · cases hsecond
    · next hrest =>
      cases hsecond
      rw [hsent, hrest]
      rfl

/-- A cursor that the server wrote is read back, if it can be read at all. -/
theorem parseCursor_of_format (hlawful : codecs.Lawful) {slot : ℕ} {key : Key}
    {found : ℕ × Key} (h : parseCursor codecs (formatCursor codecs slot key) = some found) :
    found = (slot, key) := by
  have hcolon : ':' ∉ (toString slot).toList := fun hmem =>
    absurd (Decimal.isDigit_of_mem_toString hmem) (by decide)
  obtain ⟨foundSlot, foundKey⟩ := found
  obtain ⟨hslot, -, hkey⟩ := (parseCursor_join hcolon).mp h
  have hpadded := Decimal.numeral?_padded slot 0 (Or.inl rfl)
  rw [List.replicate_zero, String.ofList_nil, String.empty_append, String.empty_append] at hpadded
  rw [hlawful.bs58] at hkey
  obtain rfl := Option.some.inj (hpadded.symm.trans hslot)
  rw [Vector.toList_inj.mp (Option.some.inj hkey)]

end Config

section Answers

variable {codecs : Codecs} {maxPageSize now : ℕ} {config : ProgramAccountsConfig} {store : Store}
  {cursor : Option String} {round : Round} {response : ProgramAccountsV2Response}
  {snapshot : ServerSnapshot} {after : Option Key}

/-- An answer is the page of the snapshot that was asked for. -/
theorem carries_of_reply
    (h : (programAccountsV2 codecs maxPageSize now store programIdText (some config)).1 =
      .ok response) :
    ∃ read snapshot, validateConfig config true maxPageSize = .ok () ∧
      requestCursor codecs config = .ok read ∧ store.ready = true ∧
      asked now store read = some snapshot ∧
      validateMinContextSlot config snapshot.slot = .ok () ∧
      CarriesPage codecs config (read.map Prod.snd) snapshot response := by
  rcases programAccountsV2_cases codecs maxPageSize now store programIdText (some config) with
    ⟨error, hrefused⟩ | ⟨read, -, hvalid, hread, -⟩
  · rw [hrefused] at h
    cases h
  · rw [Option.getD_some] at hvalid hread
    rw [programAccountsV2_fst hvalid hread] at h
    split at h
    · cases h
    · unfold classify at h
      split at h
      · next hready =>
        cases hasked : asked now store read with
        | none =>
          rw [hasked] at h
          cases h
        | some snapshot =>
          rw [hasked] at h
          dsimp only at h
          cases hminimum : validateMinContextSlot config snapshot.slot with
          | error error =>
            rw [hminimum] at h
            cases h
          | ok checked =>
            rw [hminimum] at h
            cases hsent : encodeAccounts codecs (pageOf config (read.map Prod.snd)
                snapshot).accounts config with
            | error error => simp [hsent, bind, Except.bind] at h
            | ok sent =>
              refine ⟨read, snapshot, hvalid, hread, hready, hasked, hminimum, sent, hsent, ?_⟩
              simp only [hsent, bind, Except.bind] at h
              cases hcontext : config.withContext.getD false with
              | false =>
                rw [hcontext] at h
                exact (Except.ok.inj h).symm
              | true =>
                rw [hcontext] at h
                exact (Except.ok.inj h).symm
      · cases h

/-- A page request keeps what a slot stands for. -/
theorem pins_ask (h : Pins snapshot store) :
    Pins snapshot (ask codecs maxPageSize config store cursor round).2 := by
  rcases programAccountsV2_cases codecs maxPageSize round.now store programIdText
    (some (config.from (some round.limit) cursor)) with ⟨error, hrefused⟩ | ⟨read, -, -, -, htaken⟩
  · rw [ask, hrefused]
    exact h
  · rw [ask, htaken]
    have hpage := h.snapshotPage round.now (read.map Prod.fst) (read.map Prod.snd) round.limit
    have hlimit : ((some (config.from (some round.limit) cursor)).getD .default).limit.getD 1000 =
        round.limit := rfl
    rw [hlimit]
    rcases hresult : store.snapshotPage round.now (read.map Prod.fst) (read.map Prod.snd)
      round.limit with ⟨error | page, next⟩
    · rwa [hresult] at hpage
    · rwa [hresult] at hpage

/-- So does what others do between two requests. -/
theorem pins_performAll {ops : List Store.Op} (h : Pins snapshot store)
    (hops : AscendsAll store ops) : Pins snapshot (store.performAll ops) := by
  induction ops generalizing store with
  | nil => exact h
  | cons op ops ih => exact ih (h.perform hops.1) hops.2

/-- A cursor stands for what is left of a snapshot: all of what is being served, or what comes
after a key. -/
def Continues (codecs : Codecs) (snapshot : ServerSnapshot) (store : Store)
    (cursor : Option String) : Option Key → Prop
  | none => cursor = none ∧ store.current = snapshot
  | some key => cursor = some (formatCursor codecs snapshot.slot key)

/-- What a request with such a cursor reads is the snapshot. -/
theorem Continues.asked (h : Continues codecs snapshot store cursor after)
    (hlawful : codecs.Lawful) (hpins : Pins snapshot store) {limit : Option ℕ}
    {read : Option (ℕ × Key)} {found : ServerSnapshot}
    (hread : requestCursor codecs (config.from limit cursor) = .ok read)
    (hasked : asked now store read = some found) :
    read.map Prod.snd = after ∧ found = snapshot := by
  cases after with
  | none =>
    obtain ⟨rfl, hcurrent⟩ := h
    obtain rfl := Except.ok.inj hread
    exact ⟨rfl, (Option.some.inj hasked).symm.trans hcurrent⟩
  | some key =>
    obtain rfl : cursor = _ := h
    unfold requestCursor ProgramAccountsConfig.from at hread
    dsimp only at hread
    cases hparse : parseCursor codecs (formatCursor codecs snapshot.slot key) with
    | none =>
      rw [hparse] at hread
      cases hread
    | some position =>
      rw [hparse] at hread
      obtain rfl := Except.ok.inj hread
      obtain rfl := parseCursor_of_format hlawful hparse
      obtain ⟨entry, hentry, rfl⟩ := Option.map_eq_some_iff.mp hasked
      exact ⟨rfl, hpins.retained entry (Option.filter_eq_some_iff.mp hentry).1⟩

/-- An answer carries all that is left, or a beginning of it with a cursor to the rest. -/
theorem Continues.reply (h : Continues codecs snapshot store cursor after)
    (hlawful : codecs.Lawful) (hmax : maxPageSize + 1 < usizeCount) (hpins : Pins snapshot store)
    (hreply : (ask codecs maxPageSize config store cursor round).1 = .ok response) :
    response.slot? = (if config.withContext.getD false then some snapshot.slot else none) ∧
      (response.value.paginationKey = none ∧
          encodeAccounts codecs ((entriesAfter snapshot.accounts after).map Prod.snd) config =
            .ok response.value.accounts ∨
        ∃ key, response.value.paginationKey = some (formatCursor codecs snapshot.slot key) ∧
          encodeAccounts codecs (((entriesAfter snapshot.accounts after).take round.limit).map
            Prod.snd) config = .ok response.value.accounts ∧
          entriesAfter snapshot.accounts (some key) =
            (entriesAfter snapshot.accounts after).drop round.limit) := by
  obtain ⟨read, found, hvalid, hread, -, hasked, -, sent, hsent, hresponse⟩ :=
    carries_of_reply hreply
  obtain ⟨rfl, rfl⟩ := h.asked hlawful hpins hread hasked
  obtain ⟨-, hlimit, hle⟩ := validateConfig_from.mp hvalid
  have hroom : round.limit + 1 < usizeCount := by omega
  change encodeAccounts codecs ((cutPage found.accounts (read.map Prod.snd) round.limit).1.map
    Prod.snd) config = .ok sent at hsent
  change response = (if config.withContext.getD false then
      .context ⟨found.slot, ⟨sent, (cutPage found.accounts (read.map Prod.snd) round.limit).2.map
        (formatCursor codecs found.slot)⟩⟩
    else .page ⟨sent, (cutPage found.accounts (read.map Prod.snd) round.limit).2.map
      (formatCursor codecs found.slot)⟩) at hresponse
  have hvalue : response.value = ⟨sent, (cutPage found.accounts (read.map Prod.snd)
      round.limit).2.map (formatCursor codecs found.slot)⟩ := by
    rw [hresponse]
    split <;> rfl
  refine ⟨by rw [hresponse]; split <;> rfl, ?_⟩
  rw [hvalue]
  dsimp only
  cases hnext : (cutPage found.accounts (read.map Prod.snd) round.limit).2 with
  | none =>
    rw [Store.cutPage_last hroom hnext] at hsent
    exact Or.inl ⟨rfl, hsent⟩
  | some key =>
    obtain ⟨-, -, hafter⟩ := Store.entriesAfter_next hlimit hroom hnext
    rw [Store.cutPage_entries _ _ hroom] at hsent
    exact Or.inr ⟨key, rfl, hsent, hafter⟩

/-- Followed pages carry all that was left of the snapshot. -/
theorem Followed.carries {rounds : List Round} {responses : List ProgramAccountsV2Response}
    (h : Followed codecs maxPageSize config store cursor rounds responses)
    (hlawful : codecs.Lawful) (hmax : maxPageSize + 1 < usizeCount) (hpins : Pins snapshot store)
    (hcursor : Continues codecs snapshot store cursor after) :
    (∀ response ∈ responses, response.slot? =
      if config.withContext.getD false then some snapshot.slot else none) ∧
    encodeAccounts codecs ((entriesAfter snapshot.accounts after).map Prod.snd) config =
      .ok (responses.flatMap fun response => response.value.accounts) := by
  induction h generalizing after with
  | @last store cursor round rounds response hreply hnone =>
    obtain ⟨hslot, ⟨-, hsent⟩ | ⟨key, hsome, -⟩⟩ := hcursor.reply hlawful hmax hpins hreply
    · exact ⟨fun other hother => List.mem_singleton.mp hother ▸ hslot, by simpa using hsent⟩
    · rw [hnone] at hsome
      cases hsome
  | @next store cursor round next rounds response text responses hreply htext hothers _ ih =>
    obtain ⟨hslot, ⟨hnone, -⟩ | ⟨key, hsome, hsent, hafter⟩⟩ :=
      hcursor.reply hlawful hmax hpins hreply
    · rw [htext] at hnone
      cases hnone
    · have hcontinues : Continues codecs snapshot
          ((ask codecs maxPageSize config store cursor round).2.performAll next.others) (some text)
          (some key) := htext.symm.trans hsome
      obtain ⟨hslots, hrest⟩ := ih (pins_performAll (pins_ask hpins) hothers) hcontinues
      rw [hafter] at hrest
      refine ⟨fun other hother => ?_, ?_⟩
      · rcases List.mem_cons.mp hother with rfl | hother
        · exact hslot
        · exact hslots other hother
      · rw [List.flatMap_cons, ← List.take_append_drop round.limit
          (entriesAfter snapshot.accounts after), List.map_append]
        exact encodeAccounts_append hsent hrest

/-- The first answer shows that a whole request would be answered. -/
theorem Followed.whole {rounds : List Round} {responses : List ProgramAccountsV2Response}
    (h : Followed codecs maxPageSize config store none rounds responses) :
    validateConfig (config.from none none) false maxPageSize = .ok () ∧ store.ready = true ∧
      validateMinContextSlot config store.current.slot = .ok () := by
  have hfirst {round : Round} {response : ProgramAccountsV2Response}
      (hreply : (ask codecs maxPageSize config store none round).1 = .ok response) :
      validateConfig (config.from none none) false maxPageSize = .ok () ∧ store.ready = true ∧
        validateMinContextSlot config store.current.slot = .ok () := by
    obtain ⟨read, found, hvalid, hread, hready, hasked, hminimum, -⟩ := carries_of_reply hreply
    obtain rfl := Except.ok.inj hread
    obtain rfl := Option.some.inj hasked
    exact ⟨(validateConfig_from.mp hvalid).1, hready, hminimum⟩
  cases h with
  | last hreply hcursor => exact hfirst hreply
  | next hreply hcursor hothers hrest => exact hfirst hreply

/-- A whole request that passes its checks is answered with everything. -/
theorem programAccounts_of_encoded (hvalid : validateConfig config false maxPageSize = .ok ())
    (hready : store.ready = true)
    (hminimum : validateMinContextSlot config store.current.slot = .ok ())
    {sent : List KeyedUiAccount}
    (hsent : encodeAccounts codecs (store.current.accounts.toList.map Prod.snd) config =
      .ok sent) :
    ∃ whole, programAccounts codecs maxPageSize store programIdText (some config) = .ok whole ∧
      whole.value = sent ∧ whole.slot? =
        if config.withContext.getD false then some store.current.slot else none := by
  rw [programAccounts_eq hvalid, classify, if_pos hready]
  simp only [hminimum, hsent, bind, Except.bind]
  cases config.withContext.getD false with
  | false => exact ⟨_, rfl, rfl, rfl⟩
  | true => exact ⟨_, rfl, rfl, rfl⟩

/-- A client that has followed the cursors to the end has the accounts that a whole request
would have got at its first page, and every page names the same slot. -/
theorem pages_eq_whole {rounds : List Round} {responses : List ProgramAccountsV2Response}
    (hlawful : codecs.Lawful) (hmax : maxPageSize + 1 < usizeCount) (hascending : store.Ascending)
    (h : Followed codecs maxPageSize config store none rounds responses) :
    ∃ whole, programAccounts codecs maxPageSize store programIdText
        (some (config.from none none)) = .ok whole ∧
      whole.value = responses.flatMap (fun response => response.value.accounts) ∧
      ∀ response ∈ responses, response.slot? = whole.slot? := by
  have hstart : Continues codecs store.current store none none := ⟨rfl, rfl⟩
  obtain ⟨hslots, hsent⟩ := h.carries hlawful hmax hascending.pins hstart
  obtain ⟨hvalid, hready, hminimum⟩ := h.whole
  rw [Store.entriesAfter_none] at hsent
  obtain ⟨whole, hwhole, hvalue, hslot⟩ :=
    programAccounts_of_encoded hvalid hready hminimum hsent
  refine ⟨whole, hwhole, hvalue, fun response hresponse => ?_⟩
  rw [hslot]
  exact hslots response hresponse

/-- A page that the store hands out is answered with its cursor, if it is recent enough and can be
written. -/
theorem ask_of_snapshotPage {read : Option (ℕ × Key)} {page : SnapshotPage}
    (hvalid : validateConfig (config.from (some round.limit) cursor) true maxPageSize = .ok ())
    (hread : requestCursor codecs (config.from (some round.limit) cursor) = .ok read)
    (hpage : (store.snapshotPage round.now (read.map Prod.fst) (read.map Prod.snd)
      round.limit).1 = .ok page)
    (hminimum : validateMinContextSlot config page.slot = .ok ()) {sent : List KeyedUiAccount}
    (hsent : encodeAccounts codecs page.accounts config = .ok sent) :
    ∃ response, ask codecs maxPageSize config store cursor round =
        (.ok response, (store.snapshotPage round.now (read.map Prod.fst) (read.map Prod.snd)
          round.limit).2) ∧
      response.value.paginationKey = page.next.map (formatCursor codecs page.slot) := by
  have hlimit : (config.from (some round.limit) cursor).limit.getD 1000 = round.limit := rfl
  have hwritten : encodeAccounts codecs page.accounts (config.from (some round.limit) cursor) = _ :=
    hsent
  have hrecent : validateMinContextSlot (config.from (some round.limit) cursor) page.slot = _ :=
    hminimum
  unfold ask
  generalize config.from (some round.limit) cursor = asked at *
  rcases hresult : store.snapshotPage round.now (read.map Prod.fst) (read.map Prod.snd)
    round.limit with ⟨error | found, next⟩
  · rw [hresult] at hpage
    cases hpage
  · rw [hresult] at hpage
    obtain rfl := Except.ok.inj hpage
    simp only [programAccountsV2, validateProgram, Option.getD_some, hvalid, hread, hlimit, hresult,
      bind, Except.bind, ne_eq, not_true_eq_false, if_false, pageResponse, hrecent, hwritten]
    by_cases hcontext : asked.withContext.getD false = true
    · rw [if_pos hcontext]
      exact ⟨_, rfl, rfl⟩
    · rw [if_neg hcontext]
      exact ⟨_, rfl, rfl⟩

/-- What leaves a slot undisturbed is part of an ascending run. -/
theorem ascendsAll_of_undisturbed {slot : ℕ} {ops : List Store.Op}
    (h : Store.Undisturbed slot store ops) : AscendsAll store ops := by
  induction ops generalizing store with
  | nil => trivial
  | cons op ops ih => exact ⟨h.1, ih h.2.2⟩

/-- The request of a steady client is answered with all that is left, or with a cursor from which
it goes on. -/
theorem reply_of_steady {rounds : List Round} {read : Option (ℕ × Key)} (hlawful : codecs.Lawful)
    (hvalid : validateConfig (config.from none none) false maxPageSize = .ok ())
    (hminimum : validateMinContextSlot config snapshot.slot = .ok ())
    (hread : requestCursor codecs (config.from (some round.limit) cursor) = .ok read)
    (hsteady : Steady snapshot.slot store (read.map Prod.fst) (read.map Prod.snd)
      (round :: rounds))
    (hserves : ServedFrom snapshot store (read.map Prod.fst) (round :: rounds))
    (hle : round.limit ≤ maxPageSize) :
    ∃ response next, ask codecs maxPageSize config (store.performAll round.others) cursor round =
        (.ok response, next) ∧
      (response.value.paginationKey = none ∨
        ∃ key, response.value.paginationKey = some (formatCursor codecs snapshot.slot key) ∧
          round.limit < (entriesAfter snapshot.accounts (read.map Prod.snd)).length ∧
          entriesAfter snapshot.accounts (some key) =
            (entriesAfter snapshot.accounts (read.map Prod.snd)).drop round.limit ∧
          Steady snapshot.slot next (some snapshot.slot) (some key) rounds ∧
          ServedFrom snapshot next (some snapshot.slot) rounds) := by
  have hencoding := encoding_of_validateConfig hvalid
  have hzstd (data : List UInt8) : (codecs.zstdEncode data).isSome := by
    obtain ⟨compressed, hcompressed, -⟩ := hlawful.zstd data
    rw [hcompressed]
    rfl
  have hlimit : 0 < round.limit := hsteady.2.2.1
  have hpaged : validateConfig (config.from (some round.limit) cursor) true maxPageSize = .ok () :=
    validateConfig_from.mpr ⟨hvalid, hlimit, hle⟩
  rcases hsteady.serve hserves with hpage | ⟨key, hpage, hleft, -, hafter, hrest, hnext⟩
  · obtain ⟨sent, hsent⟩ := encodeAccounts_ok hzstd hencoding
      ((entriesAfter snapshot.accounts (read.map Prod.snd)).map Prod.snd)
    obtain ⟨response, hask, hcursor⟩ := ask_of_snapshotPage hpaged hread hpage hminimum hsent
    exact ⟨response, _, hask, Or.inl hcursor⟩
  · obtain ⟨sent, hsent⟩ := encodeAccounts_ok hzstd hencoding
      (((entriesAfter snapshot.accounts (read.map Prod.snd)).take round.limit).map Prod.snd)
    obtain ⟨response, hask, hcursor⟩ := ask_of_snapshotPage hpaged hread hpage hminimum hsent
    exact ⟨response, _, hask, Or.inr ⟨key, hcursor, hleft, hafter, hrest, hnext⟩⟩

/-- A steady client can follow the cursors of a snapshot to the end, if its limits add up to what
is left. -/
theorem followed_of_steady {rounds : List Round} {read : Option (ℕ × Key)}
    (hlawful : codecs.Lawful) (hslot : snapshot.slot < Decimal.u64Count)
    (hvalid : validateConfig (config.from none none) false maxPageSize = .ok ())
    (hminimum : validateMinContextSlot config snapshot.slot = .ok ())
    (hread : requestCursor codecs (config.from (some round.limit) cursor) = .ok read)
    (hsteady : Steady snapshot.slot store (read.map Prod.fst) (read.map Prod.snd)
      (round :: rounds))
    (hserves : ServedFrom snapshot store (read.map Prod.fst) (round :: rounds))
    (hlimits : ∀ asked ∈ round :: rounds, asked.limit ≤ maxPageSize)
    (hlong : (entriesAfter snapshot.accounts (read.map Prod.snd)).length ≤
      ((round :: rounds).map Round.limit).sum) :
    ∃ responses, Followed codecs maxPageSize config (store.performAll round.others) cursor
      (round :: rounds) responses := by
  induction rounds generalizing store cursor read round with
  | nil =>
    obtain ⟨response, next, hask, hlast | ⟨key, -, hleft, -⟩⟩ := reply_of_steady hlawful hvalid
      hminimum hread hsteady hserves (hlimits round List.mem_cons_self)
    · exact ⟨[response], .last (congrArg Prod.fst hask) hlast⟩
    · rw [List.map_singleton, List.sum_singleton] at hlong
      omega
  | cons following rounds ih =>
    obtain ⟨response, next, hask, hlast | ⟨key, hcursor, hleft, hafter, hrest, hnext⟩⟩ :=
      reply_of_steady hlawful hvalid hminimum hread hsteady hserves
        (hlimits round List.mem_cons_self)
    · exact ⟨[response], .last (congrArg Prod.fst hask) hlast⟩
    · have hcontinued : requestCursor codecs (config.from (some following.limit)
          (some (formatCursor codecs snapshot.slot key))) = .ok (some (snapshot.slot, key)) := by
        simp only [requestCursor, ProgramAccountsConfig.from,
          parseCursor_formatCursor hlawful hslot]
      have hshort : (entriesAfter snapshot.accounts (some key)).length ≤
          ((following :: rounds).map Round.limit).sum := by
        rw [List.map_cons, List.sum_cons] at hlong
        rw [hafter, List.length_drop]
        omega
      obtain ⟨responses, hfollowed⟩ := ih hcontinued hrest hnext
        (fun asked hasked => hlimits asked (List.mem_cons_of_mem _ hasked)) hshort
      have hstore : (ask codecs maxPageSize config (store.performAll round.others) cursor
          round).2 = next := congrArg Prod.snd hask
      rw [← hstore] at hfollowed hrest
      exact ⟨response :: responses,
        .next (congrArg Prod.fst hask) hcursor (ascendsAll_of_undisturbed hrest.1) hfollowed⟩

/-- A whole answer shows that its request was valid and that the store has come far enough. -/
theorem valid_of_programAccounts {whole : ProgramAccountsResponse}
    (h : programAccounts codecs maxPageSize store programIdText (some config) = .ok whole) :
    validateConfig config false maxPageSize = .ok () ∧
      validateMinContextSlot config store.current.slot = .ok () := by
  cases hvalid : validateConfig config false maxPageSize with
  | error error => simp [programAccounts, validateProgram, hvalid, bind, Except.bind] at h
  | ok checked =>
    rw [programAccounts_eq hvalid, classify] at h
    refine ⟨rfl, ?_⟩
    split at h
    · cases hminimum : validateMinContextSlot config store.current.slot with
      | error error =>
        rw [hminimum] at h
        cases h
      | ok checked => rfl
    · cases h

/-- Where a whole request is answered, its answer can be paged: a client can follow the cursors to
the end, with any limits that add up to it, if no snapshot that it is in the middle of
expires. -/
theorem whole_paged {limit : ℕ} {rounds : List Round} {whole : ProgramAccountsResponse}
    (hlawful : codecs.Lawful) (hascending : store.Ascending)
    (hslot : store.current.slot < Decimal.u64Count)
    (hwhole : programAccounts codecs maxPageSize store programIdText
      (some (config.from none none)) = .ok whole)
    (hsteady : Steady store.current.slot store none none (⟨[], now, limit⟩ :: rounds))
    (hlimits : ∀ asked ∈ ⟨[], now, limit⟩ :: rounds, asked.limit ≤ maxPageSize)
    (hlong : store.current.accounts.size ≤ limit + (rounds.map Round.limit).sum) :
    ∃ responses, Followed codecs maxPageSize config store none (⟨[], now, limit⟩ :: rounds)
      responses := by
  obtain ⟨hvalid, hminimum⟩ := valid_of_programAccounts hwhole
  have hread : requestCursor codecs (config.from (some limit) none) = .ok none := rfl
  have hserves : ServedFrom store.current store none (⟨[], now, limit⟩ :: rounds) :=
    ⟨hascending.pins, rfl⟩
  apply followed_of_steady hlawful hslot hvalid hminimum hread hsteady hserves hlimits
  rw [Option.map_none, Store.entriesAfter_none, ExtTreeMap.length_toList, List.map_cons,
    List.sum_cons]
  exact hlong

end Answers

/-- The three tables are published in an ascending run. -/
theorem ascending_threeTables : Store.threeTables.Ascending := by
  apply Store.Ascending.perform .new
  exact ⟨by decide, by decide⟩

/-- A client that pages them is steady. -/
theorem steady_threeTables : Steady 10 Store.threeTables none none Store.threeTableRounds := by
  refine ⟨trivial, rfl, by decide, by decide, trivial, fun page key hpage hnext => ?_⟩
  have hfirst : (Store.threeTables.snapshotPage 0 none none 2).1 = .ok ⟨10,
      [.sample (.filled 1), .sample (.filled 2)], some (.filled 2)⟩ := by decide +kernel
  obtain rfl := Except.ok.inj (hfirst.symm.trans hpage)
  have hslot : (Store.threeTables.snapshotPage 0 none none 2).2.current.slot ≤ 11 := by
    decide +kernel
  have hready : ((Store.threeTables.snapshotPage 0 none none 2).2.perform
      (.publish "rpc" 11 ∅)).ready = true := rfl
  have hfresh : ((Store.threeTables.snapshotPage 0 none none 2).2.retained[10]?.all fun entry =>
      decide (entry.Fresh 1)) = true := by decide +kernel
  exact ⟨⟨⟨by decide, hslot⟩, trivial, trivial⟩, hready, by decide, by decide,
    fun entry hentry => of_decide_eq_true ((Option.all_eq_true _ _).mp hfresh entry hentry),
    fun _ _ _ _ => trivial⟩

/-- The tables are answered in one piece. -/
theorem programAccounts_threeTables :
    ∃ whole, programAccounts .plain 1000 Store.threeTables programIdText
      (some (ProgramAccountsConfig.default.from none none)) = .ok whole := by
  have hvalid : validateConfig (ProgramAccountsConfig.default.from none none) false 1000 = .ok () :=
    rfl
  have hzstd (data : List UInt8) : (Codecs.plain.zstdEncode data).isSome := rfl
  obtain ⟨sent, hsent⟩ := encodeAccounts_ok hzstd (encoding_of_validateConfig hvalid)
    (Store.threeTables.current.accounts.toList.map Prod.snd)
  obtain ⟨whole, hwhole, -⟩ := programAccounts_of_encoded hvalid rfl rfl hsent
  exact ⟨whole, hwhole⟩

/-- They can be paged. -/
theorem threeTables_paged :
    ∃ responses, Followed .plain 1000 .default Store.threeTables none Store.threeTableRounds
      responses := by
  obtain ⟨whole, hwhole⟩ := programAccounts_threeTables
  have hslot : Store.threeTables.current.slot < Decimal.u64Count := by decide
  have hlimits : ∀ asked ∈ Store.threeTableRounds, asked.limit ≤ 1000 := by
    simp [Store.threeTableRounds]
  have hsize : Store.threeTables.current.accounts.size ≤ 2 + 1 := by decide +kernel
  exact whole_paged Codecs.plain_lawful ascending_threeTables hslot hwhole steady_threeTables
    hlimits hsize

/-- A request whose answer names its slot. -/
def inContext : ProgramAccountsConfig :=
  { ProgramAccountsConfig.default with withContext := some true }

/-- Two of them are on the first page, and the third on one asked for after slot 11 is
published. -/
theorem followed_threeTables :
    ∃ first second, Followed .plain 1000 inContext Store.threeTables none Store.threeTableRounds
      [first, second] := by
  have hfirst : (ask .plain 1000 inContext Store.threeTables none ⟨[], 0, 2⟩).1.map
      (fun response => response.value.paginationKey) =
        .ok (some (formatCursor .plain 10 (.filled 2))) := by
    decide +kernel
  have hsecond : (ask .plain 1000 inContext
      ((ask .plain 1000 inContext Store.threeTables none ⟨[], 0, 2⟩).2.performAll
        [.publish "rpc" 11 ∅])
      (some (formatCursor .plain 10 (.filled 2))) ⟨[.publish "rpc" 11 ∅], 1, 1⟩).1.map
        (fun response => response.value.paginationKey) = .ok none := by
    decide +kernel
  have hslot : (ask .plain 1000 inContext Store.threeTables none ⟨[], 0, 2⟩).2.current.slot ≤
      11 := by
    decide +kernel
  cases hreply : (ask .plain 1000 inContext Store.threeTables none ⟨[], 0, 2⟩).1 with
  | error error =>
    rw [hreply] at hfirst
    cases hfirst
  | ok first =>
    rw [hreply] at hfirst
    have hcursor := Except.ok.inj hfirst
    cases hlast : (ask .plain 1000 inContext
        ((ask .plain 1000 inContext Store.threeTables none ⟨[], 0, 2⟩).2.performAll
          [.publish "rpc" 11 ∅])
        (some (formatCursor .plain 10 (.filled 2))) ⟨[.publish "rpc" 11 ∅], 1, 1⟩).1 with
    | error error =>
      rw [hlast] at hsecond
      cases hsecond
    | ok second =>
      rw [hlast] at hsecond
      exact ⟨first, second, .next hreply hcursor ⟨⟨by decide, hslot⟩, trivial⟩
        (.last hlast (Except.ok.inj hsecond))⟩

/-- The two pages are the whole. -/
theorem threeTables_whole :
    ∃ (first second : ProgramAccountsV2Response) (whole : ProgramAccountsResponse),
      Followed .plain 1000 inContext Store.threeTables none Store.threeTableRounds
        [first, second] ∧
      programAccounts .plain 1000 Store.threeTables programIdText
        (some (inContext.from none none)) = .ok whole ∧
      whole.value = first.value.accounts ++ second.value.accounts ∧
      first.slot? = whole.slot? ∧ second.slot? = whole.slot? := by
  obtain ⟨first, second, hfollowed⟩ := followed_threeTables
  obtain ⟨whole, hwhole, hvalue, hslots⟩ :=
    pages_eq_whole Codecs.plain_lawful (by decide) ascending_threeTables hfollowed
  refine ⟨first, second, whole, hfollowed, hwhole, ?_, hslots first (by simp),
    hslots second (by simp)⟩
  simpa using hvalue

end AltCache.JsonRpc
