import AltCache.Decimal
import AltCache.Store
import AltCache.UiAccount

/-!
# The JSON-RPC server

`getProgramAccounts` answers with a whole snapshot, `getProgramAccountsV2` with a page and a
cursor. A cursor is the slot of the snapshot and the key of the page's last account, as text.
A request is checked before the store is asked, and the minimum slot after it.
-/

namespace AltCache.JsonRpc

/-- An error answer. -/
structure ErrorObject where
  code : ℤ
  message : String
  deriving DecidableEq

/-- A request the server refuses. -/
def invalidParams (message : String) : ErrorObject := ⟨-32602, message⟩

/-- The answer of an unready store. -/
def unavailable : ErrorObject := ⟨-32001, "cache not ready; retry after recovery"⟩

/-- What a request may ask for. -/
structure ProgramAccountsConfig where
  commitment : Option String
  minContextSlot : Option ℕ
  withContext : Option Bool
  encoding : Option UiAccountEncoding
  dataSlice : Option UiDataSliceConfig
  filters : Option (List Json)
  sortResults : Option Bool
  limit : Option ℕ
  paginationKey : Option String
  changedSinceSlot : Option ℕ

/-- `ProgramAccountsConfig::default`: nothing is asked for. -/
def ProgramAccountsConfig.default : ProgramAccountsConfig where
  commitment := none
  minContextSlot := none
  withContext := none
  encoding := none
  dataSlice := none
  filters := none
  sortResults := none
  limit := none
  paginationKey := none
  changedSinceSlot := none

/-- The members a request may have. -/
def configMembers : List String :=
  ["commitment", "minContextSlot", "withContext", "encoding", "dataSlice", "filters",
    "sortResults", "limit", "paginationKey", "changedSinceSlot"]

/-- Read what a request asks for. Unknown members are refused. -/
def ProgramAccountsConfig.ofJson? (codecs : Codecs) (json : Json) :
    Option ProgramAccountsConfig := do
  let members ← json.members?
  guard (∀ member ∈ members, member.1 ∈ configMembers)
  let commitment ← json.optional? "commitment" Json.str?
  let minContextSlot ← json.optional? "minContextSlot" Json.u64?
  let withContext ← json.optional? "withContext" Json.bool?
  let encoding ← json.optional? "encoding" codecs.encodingOfJson
  let dataSlice ← json.optional? "dataSlice" codecs.dataSliceOfJson
  let filters ← json.optional? "filters" Json.arr?
  let sortResults ← json.optional? "sortResults" Json.bool?
  let limit ← json.optional? "limit" Json.u64?
  let paginationKey ← json.optional? "paginationKey" Json.str?
  let changedSinceSlot ← json.optional? "changedSinceSlot" Json.u64?
  return { commitment, minContextSlot, withContext, encoding, dataSlice, filters, sortResults,
           limit, paginationKey, changedSinceSlot }

/-- An answer with the slot it is of. -/
structure ContextResponse (α : Type) where
  slot : ℕ
  value : α

/-- A page of accounts and the cursor after it. -/
structure ProgramAccountsPage where
  accounts : List KeyedUiAccount
  paginationKey : Option String

/-- The answers of `getProgramAccounts`. -/
inductive ProgramAccountsResponse where
  | accounts (accounts : List KeyedUiAccount)
  | context (response : ContextResponse (List KeyedUiAccount))

/-- The answers of `getProgramAccountsV2`. -/
inductive ProgramAccountsV2Response where
  | page (page : ProgramAccountsPage)
  | context (response : ContextResponse ProgramAccountsPage)

/-- Write an account. -/
def keyedToJson (codecs : Codecs) (entry : KeyedUiAccount) : Json :=
  .obj [("pubkey", .str entry.pubkey), ("account", codecs.accountToJson entry.account)]

/-- Write a page. -/
def ProgramAccountsPage.toJson (codecs : Codecs) (page : ProgramAccountsPage) : Json :=
  .obj
    [("accounts", .arr (page.accounts.map (keyedToJson codecs))),
      ("paginationKey", Json.ofOption Json.str page.paginationKey)]

/-- Write an answer with its slot. -/
def ContextResponse.toJson {α : Type} (write : α → Json) (response : ContextResponse α) : Json :=
  .obj [("context", .obj [("slot", .num response.slot)]), ("value", write response.value)]

/-- Write an answer; the variants are told apart by their members only. -/
def ProgramAccountsV2Response.toJson (codecs : Codecs) : ProgramAccountsV2Response → Json
  | .page value => value.toJson codecs
  | .context response => response.toJson (ProgramAccountsPage.toJson codecs)

/-- Only the table program's accounts are served. -/
def validateProgram (address : String) : Except ErrorObject Unit :=
  if address ≠ programIdText then .error (invalidParams "only the ALT program is available")
  else .ok ()

/-- Check what a request asks for. -/
def validateConfig (config : ProgramAccountsConfig) (paginated : Bool) (maxPageSize : ℕ) :
    Except ErrorObject Unit :=
  let limit := config.limit.getD 1000
  if config.commitment.any (· ≠ "confirmed") then
    .error (invalidParams "only confirmed commitment is available")
  else if config.filters.any fun filters => !filters.isEmpty then
    .error (invalidParams "account filters are unsupported")
  else if config.changedSinceSlot.isSome then
    .error (invalidParams "changedSinceSlot is unsupported")
  else if ¬ paginated ∧ (config.limit.isSome ∨ config.paginationKey.isSome) then
    .error (invalidParams "limit and paginationKey require getProgramAccountsV2")
  else if paginated ∧ ¬ (1 ≤ limit ∧ limit ≤ maxPageSize) then
    .error (invalidParams "limit exceeds the configured maximum")
  else if config.encoding = some .jsonParsed then
    .error (invalidParams "jsonParsed encoding is unsupported")
  else .ok ()

/-- Check that the answer's slot is recent enough. -/
def validateMinContextSlot (config : ProgramAccountsConfig) (slot : ℕ) :
    Except ErrorObject Unit :=
  if config.minContextSlot.any (slot < ·) then
    .error ⟨-32016, "minimum context slot has not been reached"⟩
  else .ok ()

/-- Write accounts in the encoding asked for. -/
def encodeAccounts (codecs : Codecs) (accounts : List Account) (config : ProgramAccountsConfig) :
    Except ErrorObject (List KeyedUiAccount) :=
  let encoding := config.encoding.getD .base64Zstd
  match accounts.mapM fun account =>
      (account.toKeyedUiAccountWithConfig codecs encoding config.dataSlice).toOption with
  | none => .error ⟨-32603, "account encoding failed"⟩
  | some accounts => .ok accounts

/-- Read a cursor. -/
def parseCursor (codecs : Codecs) (cursor : String) : Option (ℕ × Key) := do
  let (slot, key) ← Decimal.splitOnce ':' cursor
  return (← Decimal.parseU64 slot, ← (parseKey codecs key).toOption)

/-- Write a cursor. -/
def formatCursor (codecs : Codecs) (slot : ℕ) (key : Key) : String :=
  toString slot ++ String.singleton ':' ++ codecs.bs58Encode key.toList

/-- `getProgramAccounts`. -/
def programAccounts (codecs : Codecs) (maxPageSize : ℕ) (store : Store) (address : String)
    (config : Option ProgramAccountsConfig) : Except ErrorObject ProgramAccountsResponse := do
  validateProgram address
  let config := config.getD .default
  validateConfig config false maxPageSize
  let snapshot ← store.readSnapshot.mapError fun _ => unavailable
  validateMinContextSlot config snapshot.slot
  let accounts ← encodeAccounts codecs (snapshot.accounts.toList.map Prod.snd) config
  if config.withContext.getD false then return .context ⟨snapshot.slot, accounts⟩
  else return .accounts accounts

/-- The answer made of a page. -/
def pageResponse (codecs : Codecs) (config : ProgramAccountsConfig) (page : SnapshotPage) :
    Except ErrorObject ProgramAccountsV2Response := do
  validateMinContextSlot config page.slot
  let accounts ← encodeAccounts codecs page.accounts config
  let value := ⟨accounts, page.next.map (formatCursor codecs page.slot)⟩
  if config.withContext.getD false then return .context ⟨page.slot, value⟩
  else return .page value

/-- The cursor a request continues from, if any. -/
def requestCursor (codecs : Codecs) (config : ProgramAccountsConfig) :
    Except ErrorObject (Option (ℕ × Key)) :=
  match config.paginationKey with
  | none => .ok none
  | some text =>
    match parseCursor codecs text with
    | none => .error (invalidParams "invalid paginationKey")
    | some cursor => .ok (some cursor)

/-- `getProgramAccountsV2`. The page is taken, and its snapshot renewed, before the answer is
checked. -/
def programAccountsV2 (codecs : Codecs) (maxPageSize now : ℕ) (store : Store) (address : String)
    (config : Option ProgramAccountsConfig) :
    Except ErrorObject ProgramAccountsV2Response × Store :=
  let config := config.getD .default
  let checked : Except ErrorObject (Option (ℕ × Key)) := do
    validateProgram address
    validateConfig config true maxPageSize
    requestCursor codecs config
  match checked with
  | .error error => (.error error, store)
  | .ok cursor =>
    match store.snapshotPage now (cursor.map Prod.fst) (cursor.map Prod.snd)
        (config.limit.getD 1000) with
    | (.error _, store) =>
      (.error (if cursor.isSome then ⟨-32002, "snapshot expired; restart pagination"⟩
        else unavailable), store)
    | (.ok page, store) => (pageResponse codecs config page, store)

/-- The answer on the wire: a result or an error. -/
def replyToJson (codecs : Codecs) : Except ErrorObject ProgramAccountsV2Response → Json
  | .ok response =>
    .obj [("jsonrpc", .str "2.0"), ("id", .num 1), ("result", response.toJson codecs)]
  | .error error =>
    .obj [("jsonrpc", .str "2.0"), ("id", .num 1),
      ("error", .obj [("code", .num error.code), ("message", .str error.message)])]

/-- Read the parameters of a request, by position or by name: an address, and what is asked for,
which may be left out or null. Whatever follows by position is not read. -/
def readParams (codecs : Codecs) : Json → Option (String × Option ProgramAccountsConfig)
  | .arr (.str address :: rest) =>
    match rest.head?.getD .null with
    | .null => some (address, none)
    | config =>
      (ProgramAccountsConfig.ofJson? codecs config).map fun config => (address, some config)
  | .obj members => do
    let address ← (Json.obj members).required? "address" Json.str?
    let config ← (Json.obj members).optional? "config" (ProgramAccountsConfig.ofJson? codecs)
    return (address, config)
  | _ => none

/-- Answer the parameters of a `getProgramAccountsV2` request. -/
def answer (codecs : Codecs) (maxPageSize now : ℕ) (store : Store) (params : Json) :
    Json × Store :=
  match readParams codecs params with
  | none => (replyToJson codecs (.error (invalidParams "Invalid params")), store)
  | some (address, config) =>
    let (reply, store) := programAccountsV2 codecs maxPageSize now store address config
    (replyToJson codecs reply, store)

section Cursor

variable {codecs : Codecs} {slot : ℕ}

/-- A cursor is read back. -/
theorem parseCursor_formatCursor (h : codecs.Lawful) (hslot : slot < Decimal.u64Count)
    (key : Key) : parseCursor codecs (formatCursor codecs slot key) = some (slot, key) := by
  have hcolon : ':' ∉ (toString slot).toList := fun hmem =>
    absurd (Decimal.isDigit_of_mem_toString hmem) (by decide)
  unfold parseCursor formatCursor
  rw [Decimal.splitOnce_join hcolon, Option.bind_eq_bind, Option.bind_some]
  dsimp only
  rw [Decimal.parseU64_toString hslot, parseKey_encode h]
  rfl

/-- Cursors of different keys differ. -/
theorem formatCursor_injective (h : codecs.Lawful) (hslot : slot < Decimal.u64Count) :
    Function.Injective (formatCursor codecs slot) := by
  intro key other hsame
  have hparsed := parseCursor_formatCursor h hslot key
  rw [hsame, parseCursor_formatCursor h hslot other] at hparsed
  exact (congrArg Prod.snd (Option.some.inj hparsed)).symm

end Cursor

end AltCache.JsonRpc
