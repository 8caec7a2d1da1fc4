import AltCache.Json
import AltCache.Store

/-!
# Accounts on the JSON-RPC wire

The server encodes the accounts it serves, the fetcher decodes the accounts it receives. Text
encodings, compression and the JSON form of an account are third-party code: they are the
fields of `Codecs`, and what is relied on about them is `Codecs.Lawful`.
-/

namespace AltCache

open Std (ExtTreeMap)

/-- How account data is written. -/
inductive UiAccountEncoding where
  | binary
  | base58
  | base64
  | jsonParsed
  | base64Zstd
  deriving DecidableEq

/-- Account data on the wire. -/
inductive UiAccountData where
  | legacyBinary (blob : String)
  | json (parsed : Json)
  | binary (blob : String) (encoding : UiAccountEncoding)

/-- An account on the wire. -/
structure UiAccount where
  lamports : ℕ
  data : UiAccountData
  owner : String
  executable : Bool
  rentEpoch : ℕ
  space : Option ℕ

/-- A part of the account data. -/
structure UiDataSliceConfig where
  offset : ℕ
  length : ℕ

/-- An account on the wire with its key. -/
structure KeyedUiAccount where
  pubkey : String
  account : UiAccount

/-- Third-party encoders and decoders. Decoding is undefined where the real one fails. -/
structure Codecs where
  bs58Encode : List UInt8 → String
  bs58Decode : String → Option (List UInt8)
  base64Encode : List UInt8 → String
  base64Decode : String → Option (List UInt8)
  zstdEncode : List UInt8 → Option (List UInt8)
  zstdDecode : List UInt8 → Option (List UInt8)
  /-- `UiAccountData::decode` -/
  decodeData : UiAccountData → Option (List UInt8)
  accountToJson : UiAccount → Json
  accountOfJson : Json → Option UiAccount
  encodingOfJson : Json → Option UiAccountEncoding
  dataSliceOfJson : Json → Option UiDataSliceConfig

/-- Decoding undoes encoding, and the wire form of an account means what it says. -/
structure Codecs.Lawful (codecs : Codecs) : Prop where
  bs58 : ∀ bytes, codecs.bs58Decode (codecs.bs58Encode bytes) = some bytes
  base64 : ∀ bytes, codecs.base64Decode (codecs.base64Encode bytes) = some bytes
  zstd : ∀ bytes, ∃ compressed, codecs.zstdEncode bytes = some compressed ∧
    codecs.zstdDecode compressed = some bytes
  base64Zstd : ∀ blob, codecs.decodeData (.binary blob .base64Zstd) =
    (codecs.base64Decode blob).bind codecs.zstdDecode
  account : ∀ account blob, account.data = .binary blob .base64Zstd →
    codecs.accountOfJson (codecs.accountToJson account) = some account
  encoding : codecs.encodingOfJson (.str "base64+zstd") = some .base64Zstd

namespace Codecs

/-- Text with one character a byte. -/
def plainText (bytes : List UInt8) : String :=
  .ofList (bytes.map fun byte => Char.ofNat byte.toNat)

/-- Read such text. -/
def plainBytes (text : String) : Option (List UInt8) :=
  some (text.toList.map fun c => UInt8.ofNat c.toNat)

/-- The members of an account whose data is text in the default encoding. -/
def plainAccountToJson (account : UiAccount) : Json :=
  .obj
    [("lamports", .num account.lamports),
      ("data", match account.data with
        | .binary blob .base64Zstd => .arr [.str blob, .str "base64+zstd"]
        | _ => .null),
      ("owner", .str account.owner), ("executable", .bool account.executable),
      ("rentEpoch", .num account.rentEpoch),
      ("space", Json.ofOption (fun n : ℕ => .num n) account.space)]

/-- Read such an account. -/
def plainAccountOfJson : Json → Option UiAccount
  | .obj
      [("lamports", .num lamports), ("data", .arr [.str blob, .str "base64+zstd"]),
        ("owner", .str owner), ("executable", .bool executable), ("rentEpoch", .num rentEpoch),
        ("space", space)] =>
    some
      { lamports := lamports.toNat
        data := .binary blob .base64Zstd
        owner
        executable
        rentEpoch := rentEpoch.toNat
        space := match space with
          | .num n => some n.toNat
          | _ => none }
  | _ => none

/-- Encoders that write one character a byte and compress nothing. -/
def plain : Codecs where
  bs58Encode := plainText
  bs58Decode := plainBytes
  base64Encode := plainText
  base64Decode := plainBytes
  zstdEncode := some
  zstdDecode := some
  decodeData
    | .binary blob .base64Zstd => plainBytes blob
    | _ => none
  accountToJson := plainAccountToJson
  accountOfJson := plainAccountOfJson
  encodingOfJson
    | .str "base64+zstd" => some .base64Zstd
    | _ => none
  dataSliceOfJson _ := none

/-- One character a byte is read back. -/
theorem plainBytes_plainText (bytes : List UInt8) : plainBytes (plainText bytes) = some bytes := by
  have hbyte (byte : UInt8) : UInt8.ofNat (Char.ofNat byte.toNat).toNat = byte := by
    have hvalid : byte.toNat.isValidChar := Or.inl (byte.toNat_lt.trans (by decide))
    rw [Char.toNat_ofNat, if_pos hvalid, UInt8.ofNat_toNat]
  simp [plainBytes, plainText, Function.comp_def, hbyte]

/-- They are lawful. -/
theorem plain_lawful : plain.Lawful where
  bs58 := plainBytes_plainText
  base64 := plainBytes_plainText
  zstd bytes := ⟨bytes, rfl, rfl⟩
  base64Zstd blob := rfl
  account account blob hdata := by
    obtain ⟨lamports, data, owner, executable, rentEpoch, space⟩ := account
    obtain rfl : data = .binary blob .base64Zstd := hdata
    cases space with
    | none => simp [plain, plainAccountToJson, plainAccountOfJson, Json.ofOption]
    | some space => simp [plain, plainAccountToJson, plainAccountOfJson, Json.ofOption]
  encoding := rfl

end Codecs

/-- The text of the program's key. -/
def programIdText : String := "AddressLookupTab1e1111111111111111111111111"

/-- Read the text of a key. -/
def parseKey (codecs : Codecs) (text : String) : Except String Key :=
  match codecs.bs58Decode text with
  | none => .error "invalid base58 text"
  | some bytes =>
    match Key.ofBytes? bytes with
    | none => .error "expected a 32-byte key"
    | some key => .ok key

/-- Check an account received over RPC before keeping it. It has no write version. -/
def Account.fromRpc (codecs : Codecs) (deserialize : Deserialize) (pubkey : String)
    (account : UiAccount) : Except String Account :=
  match codecs.decodeData account.data with
  | none => .error "invalid RPC account data"
  | some data =>
    match parseKey codecs pubkey with
    | .error error => .error error
    | .ok pubkey =>
      match parseKey codecs account.owner with
      | .error error => .error error
      | .ok owner =>
        fromYellowstone deserialize
          { pubkey := pubkey.toList
            lamports := account.lamports
            owner := owner.toList
            executable := account.executable
            rentEpoch := account.rentEpoch
            data
            writeVersion := 0
            txnSignature := none }

/-- The requested part of account data; `usize` addition saturates. -/
def sliceData (data : List UInt8) : Option UiDataSliceConfig → List UInt8
  | none => data
  | some slice =>
    let start := min slice.offset data.length
    let stop := min (min (start + slice.length) (usizeCount - 1)) data.length
    (data.take stop).drop start

/-- Write account data in an encoding. -/
def encodeData (codecs : Codecs) (data : List UInt8) :
    UiAccountEncoding → Except String UiAccountData
  | .binary => .ok (.legacyBinary (codecs.bs58Encode data))
  | .base58 => .ok (.binary (codecs.bs58Encode data) .base58)
  | .base64 => .ok (.binary (codecs.base64Encode data) .base64)
  | .base64Zstd =>
    match codecs.zstdEncode data with
    | none => .error "zstd compression failed"
    | some compressed => .ok (.binary (codecs.base64Encode compressed) .base64Zstd)
  | .jsonParsed => .error "jsonParsed account encoding is unsupported"

/-- Write an account for the wire. -/
def Account.toKeyedUiAccountWithConfig (codecs : Codecs) (account : Account)
    (encoding : UiAccountEncoding) (dataSlice : Option UiDataSliceConfig) :
    Except String KeyedUiAccount :=
  match encodeData codecs (sliceData account.value.data dataSlice) encoding with
  | .error error => .error error
  | .ok data =>
    .ok
      { pubkey := codecs.bs58Encode account.value.pubkey
        account :=
          { lamports := account.value.lamports
            data
            owner := codecs.bs58Encode account.value.owner
            executable := account.value.executable
            rentEpoch := account.value.rentEpoch
            space := some account.value.data.length } }

/-- An open table of the program under its own key, with data the decoder accepts. -/
structure Account.WellFormed (deserialize : Deserialize) (key : Key) (account : Account) :
    Prop where
  pubkey : account.value.pubkey = key.toList
  owner : account.value.owner = programId.toList
  lamports : 0 < account.value.lamports
  decodable : (deserialize account.value.data).isSome

/-- Every entry is a well-formed table filed under its own key. -/
def WellFormedAccounts (deserialize : Deserialize) (accounts : Accounts) : Prop :=
  ∀ (k : Key) account, accounts[k]? = some account → account.WellFormed deserialize k

/-- An account as it is received over RPC. -/
def Account.received (account : Account) : Account :=
  ⟨{ account.value with writeVersion := 0, txnSignature := none }⟩

section RoundTrip

variable {codecs : Codecs} {deserialize : Deserialize} {key : Key} {account : Account}

/-- Filing a well-formed account under its key keeps the accounts well-formed. -/
theorem WellFormedAccounts.insert {accounts : Accounts}
    (h : WellFormedAccounts deserialize accounts)
    (haccount : account.WellFormed deserialize key) :
    WellFormedAccounts deserialize (accounts.insert key account) := by
  intro k other hother
  rw [ExtTreeMap.getElem?_insert] at hother
  by_cases hsame : key = k
  · subst hsame
    rw [if_pos Std.ReflCmp.compare_self] at hother
    obtain rfl := Option.some.inj hother
    exact haccount
  · rw [if_neg (by simpa using hsame)] at hother
    exact h k other hother

/-- The text of a key is read back. -/
theorem parseKey_encode (h : codecs.Lawful) (key : Key) :
    parseKey codecs (codecs.bs58Encode key.toList) = .ok key := by
  unfold parseKey
  rw [h.bs58]
  dsimp only
  rw [Key.ofBytes?_eq_some.mpr rfl]

/-- What passes the checks of an RPC account is a table of the program under the parsed key. -/
theorem Account.fromRpc_ok {pubkey : String} {uiAccount : UiAccount}
    (h : fromRpc codecs deserialize pubkey uiAccount = .ok account)
    (hkey : parseKey codecs pubkey = .ok key) (hlamports : uiAccount.lamports ≠ 0) :
    account.WellFormed deserialize key := by
  unfold fromRpc at h
  split at h
  · cases h
  · next data hdata =>
    rw [hkey] at h
    dsimp only at h
    split at h
    · cases h
    · next owner howner =>
      unfold fromYellowstone at h
      split at h
      · cases h
      · next hprogram =>
        split at h
        · cases h
        · split at h
          · cases h
          · next addresses hdecoded =>
            obtain rfl := Except.ok.inj h
            exact ⟨rfl, not_not.mp hprogram, Nat.pos_of_ne_zero hlamports,
              Option.isSome_iff_exists.mpr ⟨addresses, hdecoded⟩⟩

/-- A well-formed account is written in the default encoding and read back as received. -/
theorem Account.WellFormed.fromRpc (h : account.WellFormed deserialize key)
    (hlawful : codecs.Lawful) :
    ∃ uiAccount blob,
      account.toKeyedUiAccountWithConfig codecs .base64Zstd none =
        .ok ⟨codecs.bs58Encode key.toList, uiAccount⟩ ∧
      uiAccount.data = .binary blob .base64Zstd ∧
      uiAccount.lamports = account.value.lamports ∧
      Account.fromRpc codecs deserialize (codecs.bs58Encode key.toList) uiAccount =
        .ok account.received := by
  obtain ⟨compressed, hcompressed, hdecompressed⟩ := hlawful.zstd account.value.data
  obtain ⟨addresses, haddresses⟩ := Option.isSome_iff_exists.mp h.decodable
  unfold toKeyedUiAccountWithConfig encodeData sliceData
  dsimp only
  rw [hcompressed, h.pubkey]
  refine ⟨_, _, rfl, rfl, rfl, ?_⟩
  unfold Account.fromRpc
  dsimp only
  rw [hlawful.base64Zstd, hlawful.base64, Option.bind_some, hdecompressed]
  dsimp only
  rw [parseKey_encode hlawful, h.owner, parseKey_encode hlawful]
  unfold fromYellowstone received
  dsimp only
  rw [if_neg (not_not.mpr rfl), if_neg (by simp), haddresses, ← h.pubkey, ← h.owner]

end RoundTrip

end AltCache
