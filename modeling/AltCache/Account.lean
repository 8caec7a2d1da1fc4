import Mathlib

/-!
# Accounts and Yellowstone updates

The account record a Yellowstone source delivers, and the account value the cache keeps
after checking it. The address-lookup-table decoder is third-party code: it is a parameter
`deserialize` from account data to the table's addresses, undefined on data it rejects.
-/

namespace AltCache

/-- A 32-byte public key, ordered bytewise. -/
abbrev Key := Vector UInt8 32

/-- The key that repeats one byte, as the unit tests write keys. -/
def Key.filled (byte : UInt8) : Key := Vector.replicate 32 byte

instance Key.transCmp : Std.TransCmp (compare : Key → Key → Ordering) := inferInstance

/-- The client library's name for a key. -/
abbrev Address := Key

/-- The third-party table decoder, reduced to the addresses it returns. -/
abbrev Deserialize := List UInt8 → Option (List Address)

/-- The account body of a Yellowstone account update. -/
structure SubscribeUpdateAccountInfo where
  pubkey : List UInt8
  lamports : ℕ
  owner : List UInt8
  executable : Bool
  rentEpoch : ℕ
  data : List UInt8
  writeVersion : ℕ
  txnSignature : Option (List UInt8)
  deriving DecidableEq, Repr, Inhabited

/-- A Yellowstone account update; the body is absent in malformed messages. -/
structure SubscribeUpdateAccount where
  account : Option SubscribeUpdateAccountInfo
  slot : ℕ
  isStartup : Bool
  deriving DecidableEq, Repr, Inhabited

/-- An account value as the cache stores it. -/
structure Account where
  value : SubscribeUpdateAccountInfo
  deriving DecidableEq, Repr, Inhabited

/-- `AddressLookupTab1e1111111111111111111111111`, the owner of every lookup table. -/
def programId : Key :=
  ⟨#[2, 119, 166, 175, 151, 51, 155, 122, 200, 141, 24, 146, 201, 4, 70, 245,
    0, 2, 48, 146, 102, 246, 46, 83, 193, 24, 36, 73, 130, 0, 0, 0], rfl⟩

/-- Read 32 bytes as a key; `try_into` on any other length fails. -/
def Key.ofBytes? (bytes : List UInt8) : Option Key :=
  if h : bytes.length = 32 then some ⟨bytes.toArray, h⟩ else none

/-- Reading 32 bytes as a key loses nothing. -/
theorem Key.ofBytes?_eq_some {bytes : List UInt8} {key : Key} :
    Key.ofBytes? bytes = some key ↔ bytes = key.toList := by
  unfold Key.ofBytes?
  constructor
  · intro h
    split at h
    · cases h
      rfl
    · cases h
  · rintro rfl
    rw [dif_pos (show key.toList.length = 32 from key.size_toArray)]
    rfl

/-- Check an account body before keeping it. -/
def Account.fromYellowstone (deserialize : Deserialize) (value : SubscribeUpdateAccountInfo) :
    Except String Account :=
  if value.owner ≠ programId.toList then
    .error "account owner is not ALT program"
  else if value.pubkey.length ≠ 32 then
    .error "invalid account pubkey"
  else
    match deserialize value.data with
    | none => .error "invalid ALT data"
    | some _ => .ok ⟨value⟩

/-- The account the unit tests store under a key. -/
def Account.sample (key : Key) : Account where
  value :=
    { pubkey := key.toList
      lamports := 1
      owner := programId.toList
      executable := false
      rentEpoch := 0
      data := []
      writeVersion := 1
      txnSignature := none }

/-- An update of such an account, as the unit tests send them; no lamports close it. -/
def SubscribeUpdateAccount.sample (key : Key) (slot writeVersion lamports : ℕ) :
    SubscribeUpdateAccount where
  account := some { (Account.sample key).value with lamports, writeVersion }
  slot := slot
  isStartup := false

/-- A decoder that accepts all data. -/
def acceptAll : Deserialize := fun _ => some []

end AltCache
