import AltCache.StateUpdater
import AltCache.UiAccount

/-!
# Fetching a full state

The fetcher asks an RPC for page after page of the program's accounts and follows the
pagination keys until there is none. The first page's slot is the slot of the fetched state;
no page may be older, nor older than a required slot. Accounts that fail the checks are
skipped. What the RPC answers is a list of replies, so any RPC is covered; counters and
timings that are only logged are left out.
-/

namespace AltCache.AltStateFetcher

/-- The accounts asked for with each request. -/
def pageSize : ℕ := 10000

/-- What a request asks for. -/
structure ProgramAccountsConfig where
  commitment : String
  encoding : String
  withContext : Bool
  limit : ℕ
  minContextSlot : Option ℕ
  paginationKey : Option String

/-- A member that is left out if it is not given. -/
def givenMember {α : Type} (name : String) (write : α → Json) : Option α → List (String × Json)
  | none => []
  | some value => [(name, write value)]

/-- Write what a request asks for. -/
def ProgramAccountsConfig.toJson (config : ProgramAccountsConfig) : Json :=
  .obj
    ([("commitment", .str config.commitment), ("encoding", .str config.encoding),
        ("withContext", .bool config.withContext), ("limit", .num config.limit)] ++
      (givenMember "minContextSlot" (fun slot : ℕ => .num slot) config.minContextSlot ++
        givenMember "paginationKey" Json.str config.paginationKey))

/-- The parameters of a request. -/
def params (config : ProgramAccountsConfig) : Json := .arr [.str programIdText, config.toJson]

/-- A page of accounts and the key of the next one. -/
structure PagedAccounts where
  accounts : List KeyedUiAccount
  paginationKey : Option String

/-- A reply with the slot it is of. -/
structure ContextResponse where
  slot : ℕ
  value : PagedAccounts

/-- Read an account. -/
def keyedOfJson? (codecs : Codecs) (json : Json) : Option KeyedUiAccount := do
  return ⟨← json.required? "pubkey" Json.str?, ← json.required? "account" codecs.accountOfJson⟩

/-- Read a page. -/
def PagedAccounts.ofJson? (codecs : Codecs) (json : Json) : Option PagedAccounts := do
  return ⟨← json.required? "accounts" (Json.items? (keyedOfJson? codecs)),
    ← json.optional? "paginationKey" Json.str?⟩

/-- Read a reply's result. -/
def ContextResponse.ofJson? (codecs : Codecs) (json : Json) : Option ContextResponse := do
  return ⟨← json.required? "context" (Json.required? "slot" Json.u64?),
    ← json.required? "value" (PagedAccounts.ofJson? codecs)⟩

/-- Read a reply's error: its code and message. -/
def readError? (json : Json) : Option (ℤ × String) := do
  return ⟨← json.required? "code" Json.i64?, ← json.required? "message" Json.str?⟩

/-- `rpc`: take the result out of a reply. An error takes precedence. -/
def rpc (codecs : Codecs) (body : Json) : Except String ContextResponse :=
  let reply := do
    let _ ← body.members?
    return (← body.optional? "result" (ContextResponse.ofJson? codecs),
      ← body.optional? "error" readError?)
  match reply with
  | none => .error "invalid RPC reply"
  | some (_, some (code, message)) => .error s!"RPC error {code}: {message}"
  | some (none, none) => .error "RPC result missing"
  | some (some response, none) => .ok response

/-- The state of the page loop. -/
structure Progress where
  contextSlot : Option ℕ
  cursor : Option String
  seen : List String
  accounts : Accounts

/-- The loop before its first request. -/
def Progress.new : Progress where
  contextSlot := none
  cursor := none
  seen := []
  accounts := ∅

/-- The request the loop sends next. -/
def Progress.request (minimumContextSlot : Option ℕ) (progress : Progress) :
    ProgramAccountsConfig where
  commitment := "confirmed"
  encoding := "base64+zstd"
  withContext := true
  limit := pageSize
  minContextSlot := minimumContextSlot
  paginationKey := progress.cursor

/-- Keep an account of a page. Empty and invalid accounts are skipped, a bad key is an error. -/
def insertEntry (codecs : Codecs) (deserialize : Deserialize) (accounts : Accounts)
    (entry : KeyedUiAccount) : Except String Accounts :=
  if entry.account.lamports = 0 then .ok accounts
  else
    match parseKey codecs entry.pubkey with
    | .error error => .error error
    | .ok key =>
      match Account.fromRpc codecs deserialize entry.pubkey entry.account with
      | .error _ => .ok accounts
      | .ok account => .ok (accounts.insert key account)

/-- Take a reply: the loop is done, or goes on with the next request. -/
def Progress.receive (codecs : Codecs) (deserialize : Deserialize)
    (minimumContextSlot : Option ℕ) (progress : Progress) (response : ContextResponse) :
    Except String (FetchedAltState ⊕ Progress) :=
  let slot := response.slot
  let firstSlot := progress.contextSlot.getD slot
  let minimum := minimumContextSlot.getD 0
  if slot < minimum then .error s!"RPC context slot {slot} is below required slot {minimum}"
  else if slot < firstSlot then
    .error s!"RPC snapshot context regressed from slot {firstSlot} to {slot}"
  else
    match response.value.accounts.foldlM (insertEntry codecs deserialize) progress.accounts with
    | .error error => .error error
    | .ok accounts =>
      match response.value.paginationKey with
      | none => .ok (.inl ⟨firstSlot, accounts⟩)
      | some next =>
        if next ∈ progress.seen then .error "RPC repeated its pagination key"
        else
          .ok (.inr
            { contextSlot := some firstSlot
              cursor := some next
              seen := next :: progress.seen
              accounts })

/-- `fetch_full_alt_state`: the outcome of the loop against the replies of an RPC, if they are
enough to end it. -/
def fetchFullAltState (codecs : Codecs) (deserialize : Deserialize)
    (minimumContextSlot : Option ℕ) (progress : Progress) :
    List (Except String ContextResponse) → Option (Except String FetchedAltState)
  | [] => none
  | .error error :: _ => some (.error error)
  | .ok response :: replies =>
    match progress.receive codecs deserialize minimumContextSlot response with
    | .error error => some (.error error)
    | .ok (.inl fetched) => some (.ok fetched)
    | .ok (.inr progress) =>
      fetchFullAltState codecs deserialize minimumContextSlot progress replies

section Receive

variable {codecs : Codecs} {deserialize : Deserialize} {minimumContextSlot : Option ℕ}
  {progress : Progress} {response : ContextResponse}

/-- What a reply that is taken does: its slot is recent enough, and the kept accounts are those
of the finished state or of the loop that goes on. -/
theorem receive_ok {next : FetchedAltState ⊕ Progress}
    (h : progress.receive codecs deserialize minimumContextSlot response = .ok next) :
    minimumContextSlot.getD 0 ≤ response.slot ∧
      progress.contextSlot.getD response.slot ≤ response.slot ∧
      ∃ accounts, response.value.accounts.foldlM (insertEntry codecs deserialize)
          progress.accounts = .ok accounts ∧
        ((response.value.paginationKey = none ∧
            next = .inl ⟨progress.contextSlot.getD response.slot, accounts⟩) ∨
          ∃ text, response.value.paginationKey = some text ∧ text ∉ progress.seen ∧
            next = .inr ⟨some (progress.contextSlot.getD response.slot), some text,
              text :: progress.seen, accounts⟩) := by
  unfold Progress.receive at h
  dsimp only at h
  split at h
  · cases h
  · next hminimum =>
    split at h
    · cases h
    · next hfirst =>
      refine ⟨not_lt.mp hminimum, not_lt.mp hfirst, ?_⟩
      split at h
      · cases h
      · next accounts haccounts =>
        refine ⟨accounts, haccounts, ?_⟩
        split at h
        · next hlast => exact Or.inl ⟨hlast, (Except.ok.inj h).symm⟩
        · next text htext =>
          split at h
          · cases h
          · next hfresh => exact Or.inr ⟨text, htext, hfresh, (Except.ok.inj h).symm⟩

/-- Keeping an account of a page keeps well-formed accounts only. -/
theorem wellFormed_insertEntry {accounts accounts' : Accounts} {entry : KeyedUiAccount}
    (h : WellFormedAccounts deserialize accounts)
    (hinsert : insertEntry codecs deserialize accounts entry = .ok accounts') :
    WellFormedAccounts deserialize accounts' := by
  unfold insertEntry at hinsert
  split at hinsert
  · obtain rfl := Except.ok.inj hinsert
    exact h
  · next hlamports =>
    split at hinsert
    · cases hinsert
    · next key hkey =>
      split at hinsert
      · obtain rfl := Except.ok.inj hinsert
        exact h
      · next kept hkept =>
        obtain rfl := Except.ok.inj hinsert
        exact h.insert (Account.fromRpc_ok hkept hkey hlamports)

/-- Keeping the accounts of a page keeps well-formed accounts only. -/
theorem wellFormed_foldlM_insertEntry {entries : List KeyedUiAccount}
    {accounts accounts' : Accounts} (h : WellFormedAccounts deserialize accounts)
    (hinsert : entries.foldlM (insertEntry codecs deserialize) accounts = .ok accounts') :
    WellFormedAccounts deserialize accounts' := by
  induction entries generalizing accounts with
  | nil =>
    obtain rfl := Except.ok.inj hinsert
    exact h
  | cons entry entries ih =>
    rw [List.foldlM_cons] at hinsert
    cases hentry : insertEntry codecs deserialize accounts entry with
    | error error =>
      rw [hentry] at hinsert
      cases hinsert
    | ok kept =>
      rw [hentry] at hinsert
      exact ih (wellFormed_insertEntry h hentry) hinsert

/-- Whatever the RPC answers, a fetch that succeeds reaches the required slot and keeps
well-formed accounts only. -/
theorem fetchFullAltState_invariant {replies : List (Except String ContextResponse)}
    {fetched : FetchedAltState}
    (hslot : ∀ slot, progress.contextSlot = some slot → minimumContextSlot.getD 0 ≤ slot)
    (haccounts : WellFormedAccounts deserialize progress.accounts)
    (h : fetchFullAltState codecs deserialize minimumContextSlot progress replies =
      some (.ok fetched)) :
    minimumContextSlot.getD 0 ≤ fetched.contextSlot ∧
      WellFormedAccounts deserialize fetched.accounts := by
  induction replies generalizing progress with
  | nil => cases h
  | cons reply replies ih =>
    cases reply with
    | error error => cases h
    | ok response =>
      have hfirst (hminimum : minimumContextSlot.getD 0 ≤ response.slot) :
          minimumContextSlot.getD 0 ≤ progress.contextSlot.getD response.slot := by
        cases hcontext : progress.contextSlot with
        | none => exact hminimum
        | some slot => exact hslot slot hcontext
      rw [fetchFullAltState] at h
      cases hreceive : progress.receive codecs deserialize minimumContextSlot response with
      | error error =>
        rw [hreceive] at h
        cases h
      | ok next =>
        rw [hreceive] at h
        obtain ⟨hminimum, -, accounts, hkept, hnext⟩ := receive_ok hreceive
        have hwellFormed := wellFormed_foldlM_insertEntry haccounts hkept
        rcases hnext with ⟨-, rfl⟩ | ⟨text, -, -, rfl⟩
        · obtain rfl := Except.ok.inj (Option.some.inj h)
          exact ⟨hfirst hminimum, hwellFormed⟩
        · refine ih (fun slot hcontext => ?_) hwellFormed h
          obtain rfl := Option.some.inj hcontext
          exact hfirst hminimum

/-- So does a fetch from the beginning. -/
theorem fetchFullAltState_ok {replies : List (Except String ContextResponse)}
    {fetched : FetchedAltState}
    (h : fetchFullAltState codecs deserialize minimumContextSlot .new replies =
      some (.ok fetched)) :
    minimumContextSlot.getD 0 ≤ fetched.contextSlot ∧
      WellFormedAccounts deserialize fetched.accounts :=
  fetchFullAltState_invariant (fun _ hslot => by cases hslot)
    (fun k account haccount => by simp [Progress.new] at haccount) h

end Receive

end AltCache.AltStateFetcher
