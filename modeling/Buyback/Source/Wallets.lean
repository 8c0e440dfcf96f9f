import Buyback.Source.Keyring
import Buyback.Source.Text

/-!
# Wallets and the treasury key

The wallet half of `keys.rs`: a payment wallet from a phrase or from a mini secret,
the sealed copy of its secret, and the places the treasury key may come from.  The
phrases, the key pairs and the JSON of a keystore are third party, so they are
parameters; the entropy of a new wallet is an argument.
-/

namespace Buyback

/-- 32 bytes: a mini secret, a chain code or the entropy of a phrase. -/
structure Bytes32 where
  bytes : List UInt8
  length_eq : bytes.length = 32

/-- `<[u8; 32]>::try_from`. -/
def Bytes32.ofBytes? (bytes : List UInt8) : Option Bytes32 :=
  if h : bytes.length = 32 then some ⟨bytes, h⟩ else none

/-- The phrases of `bip39`, the key pairs of `subxt_signer` and the JSON of a keystore. -/
class Signers where
  /-- A parsed BIP39 mnemonic. -/
  Mnemonic : Type
  /-- A parsed secret URI. -/
  SecretUri : Type
  /-- The mnemonic of 256 bits of entropy. -/
  fromEntropy : Bytes32 → Except String Mnemonic
  /-- The words of a mnemonic. -/
  phrase : Mnemonic → String
  parse : String → Except String Mnemonic
  /-- The key pair of a mnemonic without a password. -/
  fromPhrase : Mnemonic → Except String Keypair
  fromSecretKey : Bytes32 → Option Keypair
  parseUri : String → Option SecretUri
  fromUri : SecretUri → Option Keypair
  sealedFromJson : String → Option SealedSecret
  /-- Twelve words or more, and the blanks between them. -/
  parse_length : ∀ text m, parse text = .ok m → 32 < (utf8 text).length

/-- A payment wallet: its secret, a phrase or a mini secret, and its key pair. -/
structure PaymentWallet where
  secret : List UInt8
  keypair : Keypair

section

variable [Signers]

/-- sr25519 key pair of a mini secret. -/
def keypairFromMiniSecret (mini : Bytes32) : Result Keypair :=
  match Signers.fromSecretKey mini with
  | none => .error (.crypto "invalid mini secret")
  | some keypair => .ok keypair

namespace PaymentWallet

/-- Rebuild a wallet from a stored mnemonic. -/
def fromPhrase (phrase : String) : Result PaymentWallet := do
  let mnemonic ← (Signers.parse phrase).mapError Error.crypto
  let keypair ← (Signers.fromPhrase mnemonic).mapError Error.crypto
  .ok ⟨utf8 phrase, keypair⟩

/-- A wallet from a mini secret. -/
def fromMiniSecret (mini : Bytes32) : Result PaymentWallet := do
  let keypair ← keypairFromMiniSecret mini
  .ok ⟨mini.bytes, keypair⟩

/-- A new wallet from 256 bits of randomness. -/
def generate (entropy : Bytes32) : Result PaymentWallet := do
  let mnemonic ← (Signers.fromEntropy entropy).mapError Error.crypto
  fromPhrase (Signers.phrase mnemonic)

/-- Rebuild from sealed plaintext: 32 bytes is a mini secret, anything else a
mnemonic. -/
def fromSecretBytes (bytes : List UInt8) : Result PaymentWallet :=
  match Bytes32.ofBytes? bytes with
  | some mini => fromMiniSecret mini
  | none =>
      match fromUtf8 bytes with
      | none => .error (.crypto "sealed secret is not utf-8")
      | some phrase => fromPhrase phrase

def accountId (w : PaymentWallet) : AccountId32 := w.keypair

end PaymentWallet

/-- Seal the wallet secret for storage. -/
def PaymentWallet.seal [Aead] (w : PaymentWallet) (key : MasterKey) (nonce : Nonce)
    (aad : List UInt8) : Result SealedSecret := key.seal nonce w.secret aad

/-- Seal under the active key of the keyring. -/
def PaymentWallet.sealWith [Aead] (w : PaymentWallet) (ring : Keyring) (nonce : Nonce)
    (aad : List UInt8) : Result SealedSecret := ring.seal nonce w.secret aad

/-- Open a sealed wallet secret. -/
def PaymentWallet.unseal [Aead] (key : MasterKey) (s : SealedSecret) (aad : List UInt8) :
    Result PaymentWallet := do
  let bytes ← key.open s aad
  PaymentWallet.fromSecretBytes bytes

/-- Open a sealed wallet secret with whichever key of the keyring sealed it. -/
def PaymentWallet.unsealWith [Aead] [StdTexts] (ring : Keyring) (s : SealedSecret)
    (aad : List UInt8) : Result PaymentWallet := do
  let bytes ← ring.open s aad
  PaymentWallet.fromSecretBytes bytes

/-! ## The treasury key -/

/-- Associated data of the treasury keystore. -/
def treasuryAad : List UInt8 := utf8 "bittensor-buyback/v1/treasury"

/-- Where the treasury coldkey comes from. -/
inductive TreasuryKeySource where
  | envUri (var : String)
  | mnemonicFile (path : String)
  | encryptedKeystore (path : String)

/-- The variables and the files that a process finds. -/
structure Surroundings where
  env : String → Option String
  readFile : String → Except String String

/-- `std::fs::read_to_string`, with the error of the crate. -/
def Surroundings.read (sur : Surroundings) (path : String) : Result String :=
  (sur.readFile path).mapError fun e => .config ("read " ++ path ++ ": " ++ e)

/-- The key pair of a secret URI. -/
def keypairFromUri (uri : String) : Result Keypair :=
  match Signers.parseUri uri with
  | none => .error (.config "invalid secret uri")
  | some uri =>
      match Signers.fromUri uri with
      | none => .error (.config "invalid secret uri")
      | some keypair => .ok keypair

/-- The secret URI in the text of a keystore. -/
def openKeystore [Aead] (master : MasterKey) (raw : String) : Result String :=
  match Signers.sealedFromJson raw with
  | none => .error (.config "keystore is not a sealed secret")
  | some s => do
      let bytes ← master.open s treasuryAad
      match fromUtf8 bytes with
      | none => .error (.crypto "keystore is not utf-8")
      | some uri => .ok uri

/-- The secret URI of the treasury. -/
def TreasuryKeySource.uri [Aead] (sur : Surroundings) (master : Option MasterKey) :
    TreasuryKeySource → Result String
  | .envUri var =>
      match sur.env var with
      | none => .error (.config (var ++ " is not set"))
      | some uri => .ok uri
  | .mnemonicFile path => sur.read path
  | .encryptedKeystore path =>
      match master with
      | none => .error (.config "encrypted keystore needs a master key")
      | some master => do
          let raw ← sur.read path
          openKeystore master raw

def TreasuryKeySource.load [Aead] (sur : Surroundings) (master : Option MasterKey)
    (source : TreasuryKeySource) : Result Keypair := do
  let uri ← source.uri sur master
  keypairFromUri (trim uri)

end

end Buyback
