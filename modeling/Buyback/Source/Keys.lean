import Buyback.Source.Error
import Buyback.Source.Text

/-!
# Addresses and sealed secrets

The parts of `keys.rs` the engine reads: SS58 addresses, the sealed copy of a
wallet secret, and the associated data that binds it to its record.  The SS58
codec is third party, so it is a parameter.  A key pair is named by its public
account, since nothing the engine decides depends on more of it.
-/

namespace Buyback

/-- A 32-byte public account. -/
abbrev AccountId32 : Type := BitVec 256

/-- An sr25519 key pair, named by its account. -/
abbrev Keypair : Type := AccountId32

/-- The SS58 codec: an address is read back as the account it was written from.  Its errors
show the text that is not an address. -/
class Ss58 extends StdTexts where
  /-- The address of an account. -/
  encode : AccountId32 → String
  /-- The account of an address, or the codec's error text. -/
  decode : String → Except String AccountId32
  /-- Decoding inverts encoding. -/
  decode_encode : ∀ a, decode (encode a) = .ok a

/-- SS58 address of an account. -/
def ss58 [Ss58] (account : AccountId32) : String := Ss58.encode account

/-- Parse an SS58 address. -/
def parseSs58 [Ss58] (s : String) : Result AccountId32 :=
  match Ss58.decode s with
  | .ok a => .ok a
  | .error e => .error (.config ("bad ss58 address " ++ debugStr s ++ ": " ++ e))

@[simp] theorem parseSs58_ss58 [Ss58] (a : AccountId32) : parseSs58 (ss58 a) = .ok a := by
  simp [parseSs58, ss58, Ss58.decode_encode]

/-- An encrypted secret as stored with its record. -/
structure SealedSecret where
  v : UInt8
  nonce : String
  ct : String
  kid : Option String
deriving DecidableEq, Repr

/-- Associated data binding a sealed wallet secret to its payment record. -/
def walletAad (paymentId address : String) : String :=
  "bittensor-buyback/v1/" ++ paymentId ++ "/" ++ address

/-- Unicode white space, as `str::trim` strips it. -/
def isWhiteSpace (c : Char) : Bool :=
  let n := c.toNat
  (9 ≤ n && n ≤ 13) || n == 32 || n == 0x85 || n == 0xA0 || n == 0x1680 ||
    (0x2000 ≤ n && n ≤ 0x200A) || n == 0x2028 || n == 0x2029 || n == 0x202F || n == 0x205F ||
    n == 0x3000

/-- `str::trim`. -/
def trim (s : String) : String :=
  String.ofList (((s.toList.dropWhile isWhiteSpace).reverse.dropWhile isWhiteSpace).reverse)

theorem trim_ofList {cs : List Char} (h : ∀ c ∈ cs, isWhiteSpace c = false) :
    trim (String.ofList cs) = String.ofList cs := by
  have hkeep {l : List Char} (hl : ∀ c ∈ l, isWhiteSpace c = false) :
      l.dropWhile isWhiteSpace = l := by
    cases l with
    | nil => rfl
    | cons c l => rw [List.dropWhile_cons_of_neg (by rw [hl c (.head _)]; decide)]
  rw [trim, String.toList_ofList, hkeep h, hkeep fun c hc => h c (List.mem_reverse.mp hc),
    List.reverse_reverse]

end Buyback
