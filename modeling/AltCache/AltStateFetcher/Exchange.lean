import AltCache.AltStateFetcher
import AltCache.Api.JsonRpc

/-!
# The fetcher's request and the server's answer

The fetcher and the server write and read the same JSON separately. A request of the fetcher
passes the server's checks and asks for a page in the default encoding; the answer is read
back with the slot, the cursor text and the accounts as the server wrote them.
-/

namespace AltCache.AltStateFetcher

/-- Send a request to the server and read the reply. -/
def exchange (codecs : Codecs) (maxPageSize now : ℕ) (store : Store)
    (config : ProgramAccountsConfig) : Except String ContextResponse × Store :=
  let (body, store) := JsonRpc.answer codecs maxPageSize now store (params config)
  (rpc codecs body, store)

/-- What the server understands of the fetcher's requests. -/
def understood (minimumContextSlot : Option ℕ) (cursor : Option String) :
    JsonRpc.ProgramAccountsConfig where
  commitment := some "confirmed"
  minContextSlot := minimumContextSlot
  withContext := some true
  encoding := some .base64Zstd
  dataSlice := none
  filters := none
  sortResults := none
  limit := some pageSize
  paginationKey := cursor
  changedSinceSlot := none

/-- A table as the server sends it: under its key's text, in the default encoding, as an
account that passes the fetcher's checks. -/
structure Sent (codecs : Codecs) (deserialize : Deserialize) (served : Key × Account)
    (entry : KeyedUiAccount) : Prop where
  pubkey : entry.pubkey = codecs.bs58Encode served.1.toList
  data : ∃ blob, entry.account.data = .binary blob .base64Zstd
  lamports : entry.account.lamports ≠ 0
  received : Account.fromRpc codecs deserialize entry.pubkey entry.account =
    .ok served.2.received

section Exchange

variable {codecs : Codecs} {deserialize : Deserialize} {minimumContextSlot : Option ℕ}
  {progress : Progress} {maxPageSize now slot : ℕ}

/-- The fetcher's requests are understood. -/
theorem ofJson?_toJson (h : codecs.Lawful)
    (hminimum : ∀ minimum, minimumContextSlot = some minimum → minimum < 2 ^ 64)
    (progress : Progress) :
    JsonRpc.ProgramAccountsConfig.ofJson? codecs (progress.request minimumContextSlot).toJson =
      some (understood minimumContextSlot progress.cursor) := by
  have hlimit : Json.u64? (.num (pageSize : ℕ)) = some pageSize := Json.u64?_num (by decide)
  obtain ⟨contextSlot, cursor, seen, accounts⟩ := progress
  cases minimumContextSlot with
  | none =>
    cases cursor <;>
      simp [JsonRpc.ProgramAccountsConfig.ofJson?, ProgramAccountsConfig.toJson, Progress.request,
        understood, givenMember, Json.optional?, Json.members?, JsonRpc.configMembers, Json.str?,
        Json.bool?, h.encoding, hlimit]
  | some minimum =>
    have hslot : Json.u64? (.num (minimum : ℕ)) = some minimum :=
      Json.u64?_num (hminimum minimum rfl)
    cases cursor <;>
      simp [JsonRpc.ProgramAccountsConfig.ofJson?, ProgramAccountsConfig.toJson, Progress.request,
        understood, givenMember, Json.optional?, Json.members?, JsonRpc.configMembers, Json.str?,
        Json.bool?, h.encoding, hlimit, hslot]

/-- An account that is written in the default encoding is read back. -/
theorem keyedOfJson?_keyedToJson (h : codecs.Lawful) {entry : KeyedUiAccount} {blob : String}
    (hblob : entry.account.data = .binary blob .base64Zstd) :
    keyedOfJson? codecs (JsonRpc.keyedToJson codecs entry) = some entry := by
  simp [keyedOfJson?, JsonRpc.keyedToJson, Json.required?, Json.str?, h.account _ _ hblob]

/-- A page is read back. -/
theorem pagedAccounts_ofJson? (h : codecs.Lawful) {entries : List KeyedUiAccount}
    (hentries : ∀ entry ∈ entries, ∃ blob, entry.account.data = .binary blob .base64Zstd)
    (cursor : Option String) :
    PagedAccounts.ofJson? codecs (JsonRpc.ProgramAccountsPage.toJson codecs ⟨entries, cursor⟩) =
      some ⟨entries, cursor⟩ := by
  have hitems : Json.items? (keyedOfJson? codecs)
      (.arr (entries.map (JsonRpc.keyedToJson codecs))) = some entries := by
    have hread : ∀ entry ∈ entries,
        keyedOfJson? codecs (JsonRpc.keyedToJson codecs entry) = some (id entry) := by
      intro entry hentry
      obtain ⟨blob, hblob⟩ := hentries entry hentry
      exact keyedOfJson?_keyedToJson h hblob
    rw [Json.items?_arr_map hread, List.map_id]
  cases cursor <;>
    simp [PagedAccounts.ofJson?, JsonRpc.ProgramAccountsPage.toJson, Json.required?,
      Json.optional?, Json.ofOption, Json.str?, hitems]

/-- A page with its slot is read back. -/
theorem contextResponse_ofJson? (h : codecs.Lawful) (hslot : slot < 2 ^ 64)
    {entries : List KeyedUiAccount}
    (hentries : ∀ entry ∈ entries, ∃ blob, entry.account.data = .binary blob .base64Zstd)
    (cursor : Option String) :
    ContextResponse.ofJson? codecs
      (JsonRpc.ContextResponse.toJson (JsonRpc.ProgramAccountsPage.toJson codecs)
        ⟨slot, ⟨entries, cursor⟩⟩) = some ⟨slot, entries, cursor⟩ := by
  have hcontext : (JsonRpc.ContextResponse.toJson (JsonRpc.ProgramAccountsPage.toJson codecs)
      ⟨slot, ⟨entries, cursor⟩⟩).member? "context" = some (.obj [("slot", .num slot)]) := by
    simp [JsonRpc.ContextResponse.toJson]
  have hvalue : (JsonRpc.ContextResponse.toJson (JsonRpc.ProgramAccountsPage.toJson codecs)
      ⟨slot, ⟨entries, cursor⟩⟩).member? "value" =
        some (JsonRpc.ProgramAccountsPage.toJson codecs ⟨entries, cursor⟩) := by
    simp [JsonRpc.ContextResponse.toJson]
  have hread : (Json.obj [("slot", .num slot)]).required? "slot" Json.u64? = some slot := by
    have hnumber : (Json.obj [("slot", .num slot)]).member? "slot" = some (.num slot) := by simp
    rw [Json.required?_eq hnumber, Json.u64?_num hslot]
  unfold ContextResponse.ofJson?
  rw [Json.required?_eq hcontext, hread, Json.required?_eq hvalue,
    pagedAccounts_ofJson? h hentries cursor]
  rfl

/-- A reply with a result and no error is taken. -/
theorem rpc_ok {body : Json} {members : List (String × Json)} {response : ContextResponse}
    (hmembers : body.members? = some members)
    (hresult : body.optional? "result" (ContextResponse.ofJson? codecs) = some (some response))
    (herror : body.optional? "error" readError? = some none) : rpc codecs body = .ok response := by
  unfold rpc
  rw [hmembers, hresult, herror]
  rfl

/-- A page's answer is read back. -/
theorem rpc_replyToJson (h : codecs.Lawful) (hslot : slot < 2 ^ 64)
    {entries : List KeyedUiAccount}
    (hentries : ∀ entry ∈ entries, ∃ blob, entry.account.data = .binary blob .base64Zstd)
    (cursor : Option String) :
    rpc codecs (JsonRpc.replyToJson codecs (.ok (.context ⟨slot, ⟨entries, cursor⟩⟩))) =
      .ok ⟨slot, entries, cursor⟩ := by
  have hresult : (JsonRpc.replyToJson codecs
      (.ok (.context ⟨slot, ⟨entries, cursor⟩⟩))).member? "result" =
        some (JsonRpc.ContextResponse.toJson (JsonRpc.ProgramAccountsPage.toJson codecs)
          ⟨slot, ⟨entries, cursor⟩⟩) := by
    simp [JsonRpc.replyToJson, JsonRpc.ProgramAccountsV2Response.toJson]
  have herror : (JsonRpc.replyToJson codecs
      (.ok (.context ⟨slot, ⟨entries, cursor⟩⟩))).member? "error" = none := by
    simp [JsonRpc.replyToJson]
  have hread := contextResponse_ofJson? h hslot hentries cursor
  unfold JsonRpc.ContextResponse.toJson at hresult hread
  refine rpc_ok rfl ?_ (Json.optional?_eq_none herror _)
  rw [Json.optional?_obj hresult, hread]
  rfl

/-- Well-formed tables are sent. -/
theorem mapM_sent (h : codecs.Lawful) {served : List (Key × Account)}
    (hserved : ∀ entry ∈ served, entry.2.WellFormed deserialize entry.1) :
    ∃ sent, (served.map Prod.snd).mapM (fun account =>
        (account.toKeyedUiAccountWithConfig codecs .base64Zstd none).toOption) = some sent ∧
      List.Forall₂ (Sent codecs deserialize) served sent := by
  induction served with
  | nil => exact ⟨[], rfl, .nil⟩
  | cons entry served ih =>
    obtain ⟨sent, hsent, hall⟩ :=
      ih fun other hother => hserved other (List.mem_cons_of_mem _ hother)
    have hwellFormed := hserved entry List.mem_cons_self
    obtain ⟨account, blob, hencoded, hdata, hlamports, hreceived⟩ := hwellFormed.fromRpc h
    refine ⟨⟨codecs.bs58Encode entry.1.toList, account⟩ :: sent, ?_, .cons ?_ hall⟩
    · rw [List.map_cons, List.mapM_cons, hencoded, hsent]
      rfl
    · exact ⟨rfl, ⟨blob, hdata⟩, hlamports ▸ hwellFormed.lamports.ne', hreceived⟩

/-- What is sent has data in the default encoding. -/
theorem data_of_sent {served : List (Key × Account)} {sent : List KeyedUiAccount}
    (h : List.Forall₂ (Sent codecs deserialize) served sent) :
    ∀ entry ∈ sent, ∃ blob, entry.account.data = .binary blob .base64Zstd := by
  induction h with
  | nil => simp
  | cons htable _ ih => exact List.forall_mem_cons.mpr ⟨htable.data, ih⟩

/-- The server's answer to a request of the fetcher is the page the store serves. -/
theorem programAccountsV2_understood (h : codecs.Lawful) (hsize : pageSize ≤ maxPageSize)
    {store : Store} {page : SnapshotPage} {after : Option Key} (hslot : slot < Decimal.u64Count)
    (hpage : (store.snapshotPage now (after.map fun _ => slot) after pageSize).1 = .ok page)
    (minimumContextSlot : Option ℕ) :
    JsonRpc.programAccountsV2 codecs maxPageSize now store programIdText
        (some (understood minimumContextSlot (after.map (JsonRpc.formatCursor codecs slot)))) =
      (JsonRpc.pageResponse codecs
          (understood minimumContextSlot (after.map (JsonRpc.formatCursor codecs slot))) page,
        (store.snapshotPage now (after.map fun _ => slot) after pageSize).2) := by
  have hparsed : JsonRpc.requestCursor codecs (understood minimumContextSlot
      (after.map (JsonRpc.formatCursor codecs slot))) = .ok (after.map fun key => (slot, key)) := by
    cases after with
    | none => rfl
    | some key =>
      unfold JsonRpc.requestCursor
      dsimp only [understood, Option.map_some]
      rw [JsonRpc.parseCursor_formatCursor h hslot]
  have hposition : (after.map fun key => (slot, key)).map Prod.fst = after.map fun _ => slot :=
    Option.map_map ..
  have hkey : (after.map fun key => (slot, key)).map Prod.snd = after := by
    rw [Option.map_map]
    exact Option.map_id'
  have hconfig (text : Option String) : JsonRpc.validateConfig (understood minimumContextSlot text)
      true maxPageSize = .ok () := by
    have hpositive : 1 ≤ pageSize := by decide
    simp [JsonRpc.validateConfig, understood, hsize, hpositive]
  have hprogram : JsonRpc.validateProgram programIdText = .ok () := if_neg (not_not.mpr rfl)
  unfold JsonRpc.programAccountsV2
  dsimp only [Option.getD_some]
  rw [hprogram, hconfig, hparsed]
  dsimp only [understood, Option.getD_some, bind, Except.bind]
  rw [hposition, hkey]
  rcases hresult : store.snapshotPage now (after.map fun _ => slot) after pageSize with
    ⟨error | found, rest⟩
  · rw [hresult] at hpage
    cases hpage
  · rw [hresult] at hpage
    obtain rfl := Except.ok.inj hpage
    rfl

/-- A request for a page of well-formed tables of a recent enough slot is answered with the
tables and the cursor after them. -/
theorem exchange_request (h : codecs.Lawful) (hsize : pageSize ≤ maxPageSize)
    {store : Store} {after next : Option Key} {served : List (Key × Account)}
    (hminimum : ∀ minimum, minimumContextSlot = some minimum → minimum ≤ slot)
    (hslot : slot < Decimal.u64Count)
    (hprogress : progress.cursor = after.map (JsonRpc.formatCursor codecs slot))
    (hpage : (store.snapshotPage now (after.map fun _ => slot) after pageSize).1 =
      .ok ⟨slot, served.map Prod.snd, next⟩)
    (hserved : ∀ entry ∈ served, entry.2.WellFormed deserialize entry.1) :
    ∃ sent, exchange codecs maxPageSize now store (progress.request minimumContextSlot) =
        (.ok ⟨slot, sent, next.map (JsonRpc.formatCursor codecs slot)⟩,
          (store.snapshotPage now (after.map fun _ => slot) after pageSize).2) ∧
      List.Forall₂ (Sent codecs deserialize) served sent := by
  obtain ⟨sent, hsent, hall⟩ := mapM_sent h hserved
  refine ⟨sent, ?_, hall⟩
  have hresponse (text : Option String) :
      JsonRpc.pageResponse codecs (understood minimumContextSlot text)
        ⟨slot, served.map Prod.snd, next⟩ =
        .ok (.context ⟨slot, ⟨sent, next.map (JsonRpc.formatCursor codecs slot)⟩⟩) := by
    have hrecent : JsonRpc.validateMinContextSlot (understood minimumContextSlot text) slot =
        .ok () := by
      apply if_neg
      cases minimumContextSlot with
      | none => simp [understood]
      | some minimum => simpa [understood] using hminimum minimum rfl
    have hencoded : JsonRpc.encodeAccounts codecs (served.map Prod.snd)
        (understood minimumContextSlot text) = .ok sent := by
      unfold JsonRpc.encodeAccounts
      dsimp only [understood, Option.getD_some]
      rw [hsent]
    unfold JsonRpc.pageResponse
    rw [hrecent, hencoded]
    rfl
  have hread := ofJson?_toJson h
    (fun minimum hgiven => (hminimum minimum hgiven).trans_lt hslot) progress
  have hanswer : JsonRpc.answer codecs maxPageSize now store
      (params (progress.request minimumContextSlot)) =
        (JsonRpc.replyToJson codecs (.ok (.context
          ⟨slot, ⟨sent, next.map (JsonRpc.formatCursor codecs slot)⟩⟩)),
          (store.snapshotPage now (after.map fun _ => slot) after pageSize).2) := by
    have hparams : JsonRpc.readParams codecs (params (progress.request minimumContextSlot)) =
        some (programIdText, some (understood minimumContextSlot progress.cursor)) := by
      change (JsonRpc.ProgramAccountsConfig.ofJson? codecs
        (progress.request minimumContextSlot).toJson).map _ = _
      rw [hread]
      rfl
    unfold JsonRpc.answer
    rw [hparams]
    dsimp only
    rw [hprogress, programAccountsV2_understood h hsize hslot hpage, hresponse]
  unfold exchange
  rw [hanswer]
  dsimp only
  rw [rpc_replyToJson h hslot (data_of_sent hall)]

end Exchange

end AltCache.AltStateFetcher
