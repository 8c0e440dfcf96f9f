import Buyback.Codec.Hex
import Buyback.Source.Keys

/-!
# Master keys and keyrings

The sealing half of `keys.rs`: a master key from its hex text, a keyring from a spec
string, and what they seal, open and seal again.  The cipher is third party, so it is
a parameter; the random nonce is an argument.
-/

namespace Buyback

/-- XChaCha20-Poly1305, on the bytes of a key, a nonce, the associated data and a text. -/
class Aead where
  /-- The ciphertext, if the text is not too long. -/
  encrypt : List UInt8 → List UInt8 → List UInt8 → List UInt8 → Option (List UInt8)
  /-- The plaintext, if the ciphertext is authentic. -/
  decrypt : List UInt8 → List UInt8 → List UInt8 → List UInt8 → Option (List UInt8)
  /-- What opens, is exactly what was sealed under the same key and associated data. -/
  decrypt_iff : ∀ key nonce aad msg ct,
    decrypt key nonce aad ct = some msg ↔ encrypt key nonce aad msg = some ct
  /-- No key and no nonce makes a text too long. -/
  encrypt_isSome : ∀ key nonce key' nonce' aad msg,
    (encrypt key nonce aad msg).isSome = (encrypt key' nonce' aad msg).isSome

/-- 256-bit master key. -/
structure MasterKey where
  bytes : List UInt8
  length_eq : bytes.length = 32
deriving DecidableEq

/-- The nonce of one sealing. -/
structure Nonce where
  bytes : List UInt8
  length_eq : bytes.length = 24
deriving DecidableEq

/-- `trim_start_matches("0x")`. -/
def stripZeroX : List Char → List Char
  | '0' :: 'x' :: rest => stripZeroX rest
  | cs => cs

/-- Parse 64 hex characters. -/
def MasterKey.fromHex (s : String) : Result MasterKey :=
  match Hex.decode (stripZeroX (trim s).toList) with
  | none => .error (.config "master key must be 32 bytes of hex")
  | some bytes =>
      if h : bytes.length = 32 then .ok ⟨bytes, h⟩
      else .error (.config "master key must be 32 bytes of hex")

/-- Seal a text, with a nonce from the operating system. -/
def MasterKey.seal [Aead] (key : MasterKey) (nonce : Nonce) (plaintext aad : List UInt8) :
    Result SealedSecret :=
  match Aead.encrypt key.bytes nonce.bytes aad plaintext with
  | none => .error (.crypto "encryption failed")
  | some ct =>
      .ok
        { v := 1
          nonce := String.ofList (Hex.encode nonce.bytes)
          ct := String.ofList (Hex.encode ct)
          kid := none }

def MasterKey.open [Aead] (key : MasterKey) (s : SealedSecret) (aad : List UInt8) :
    Result (List UInt8) :=
  if s.v ≠ 1 then .error (.crypto ("unknown sealed version " ++ toString s.v.toNat))
  else
    match Hex.decode s.nonce.toList with
    | none => .error (.crypto "corrupt sealed secret")
    | some nonce =>
        if nonce.length ≠ 24 then .error (.crypto "corrupt sealed secret")
        else
          match Hex.decode s.ct.toList with
          | none => .error (.crypto "corrupt sealed secret")
          | some ct =>
              match Aead.decrypt key.bytes nonce aad ct with
              | none => .error (.crypto "decryption failed (wrong key or tampered data)")
              | some plaintext => .ok plaintext

/-- Key id given to a bare master key and assumed for a sealed secret without one. -/
def defaultKeyId : String := "k0"

/-- The id of the key that a secret is sealed under. -/
def SealedSecret.keyId (s : SealedSecret) : String := s.kid.getD defaultKeyId

/-- Versioned data keys.  The active one is there. -/
structure Keyring where
  active : String
  keys : String → Option MasterKey
  present : (keys active).isSome

/-- Key ids are `[A-Za-z0-9_-]+`. -/
def validKeyId (id : String) : Bool :=
  id ≠ "" && id.toList.all fun c => c.isAlphanum || c == '-' || c == '_'

/-- Inserting an entry into a map of keys. -/
def insertKey (keys : String → Option MasterKey) (e : String × MasterKey) :
    String → Option MasterKey := Function.update keys e.1 (some e.2)

/-- The map of the listed keys, in which a later entry replaces an earlier one. -/
def collectKeys (entries : List (String × MasterKey)) : String → Option MasterKey :=
  entries.foldl insertKey fun _ => none

/-- The parts of a spec that are not blank, trimmed. -/
def specParts (spec : String) : List String :=
  ((spec.toList.splitOn ',').map fun part => trim (String.ofList part)).filter (· ≠ "")

/-- One `id:hex` of a spec. -/
def parseEntry (part : String) : Result (String × MasterKey) :=
  match part.toList.span (· ≠ ':') with
  | (_, []) => .error (.config "keyring entries are id:hex")
  | (id, _ :: hex) => do
      let key ← MasterKey.fromHex (String.ofList hex)
      .ok (trim (String.ofList id), key)

/-- The entries that a spec lists. -/
def specEntries (spec : String) : Result (List (String × MasterKey)) :=
  (specParts spec).mapM parseEntry

def Keyring.new [StdTexts] (active : String) (entries : List (String × MasterKey)) :
    Result Keyring :=
  if h : (collectKeys entries active).isSome then
    if entries.any fun e => ! validKeyId e.1 then .error (.config "key ids are [A-Za-z0-9_-]+")
    else .ok ⟨active, collectKeys entries, h⟩
  else .error (.config ("active key id " ++ debugStr active ++ " is not in the keyring"))

/-- Parse `id:hex,id:hex`; the active id is given separately. -/
def Keyring.parse [StdTexts] (spec active : String) : Result Keyring := do
  let entries ← specEntries spec
  Keyring.new active entries

/-- The key under the active id. -/
def Keyring.activeKey (ring : Keyring) : MasterKey := (ring.keys ring.active).get ring.present

theorem Keyring.keys_active {ring : Keyring} : ring.keys ring.active = some ring.activeKey :=
  (Option.some_get _).symm

def Keyring.seal [Aead] (ring : Keyring) (nonce : Nonce) (plaintext aad : List UInt8) :
    Result SealedSecret := do
  let s ← ring.activeKey.seal nonce plaintext aad
  .ok { s with kid := some ring.active }

def Keyring.open [Aead] [StdTexts] (ring : Keyring) (s : SealedSecret) (aad : List UInt8) :
    Result (List UInt8) :=
  match ring.keys s.keyId with
  | none => .error (.crypto ("key id " ++ debugStr s.keyId ++ " is not in the keyring"))
  | some key => key.open s aad

/-- Seal again under the active key, unless it already is. -/
def Keyring.reseal [Aead] [StdTexts] (ring : Keyring) (nonce : Nonce) (s : SealedSecret)
    (aad : List UInt8) : Result (Option SealedSecret) :=
  if s.keyId = ring.active then .ok none
  else do
    let plain ← ring.open s aad
    let s ← ring.seal nonce plain aad
    .ok (some s)

end Buyback
