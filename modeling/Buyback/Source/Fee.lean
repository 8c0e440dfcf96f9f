import Buyback.Codec.LittleEndian
import Buyback.Source.Error

/-!
# Fee estimates

The fee of a call before it is sent (`estimate_fee` of `chain.rs`), which the node
answers as a `RuntimeDispatchInfo` in SCALE.  The codec of its two compact weights is
third party, so it is a parameter with its law: decoding takes exactly one encoding
off the front.
-/

namespace Buyback

/-- What precedes the fee: the two weights and the class. -/
abbrev DispatchHead : Type := UInt64 × UInt64 × UInt8

/-- The SCALE codec of `(Compact<u64>, Compact<u64>, u8)`. -/
class DispatchCodec where
  encode : DispatchHead → List UInt8
  decode : List UInt8 → Option (DispatchHead × List UInt8)
  decode_iff : ∀ {bytes head rest}, decode bytes = some (head, rest) ↔ encode head ++ rest = bytes

/-- The error of every answer that has no fee. -/
def badInfo : Error := .chain "cannot decode RuntimeDispatchInfo"

/-- A fixed number of bytes off the front, as a number. -/
def decodeFixed (w : ℕ) (bytes : List UInt8) : Option ℕ :=
  if w ≤ bytes.length then some (LittleEndian.value (bytes.take w)) else none

/-- `u64::decode`. -/
def decodeU64 (bytes : List UInt8) : Option UInt64 := (decodeFixed 8 bytes).map UInt64.ofNat

/-- `u128::decode`. -/
def decodeU128 (bytes : List UInt8) : Option ℕ := decodeFixed 16 bytes

/-- `u64::try_from`. -/
def u64TryFrom (n : ℕ) : Option UInt64 := if n < 2 ^ 64 then some (UInt64.ofNat n) else none

/-- The fee in what is left, of the width that is left. -/
def decodeFee (cur : List UInt8) : Result UInt64 :=
  if cur.length = 8 then okOr (decodeU64 cur) badInfo
  else if cur.length = 16 then do
    let fee ← okOr (decodeU128 cur) badInfo
    okOr (u64TryFrom fee) badInfo
  else .error badInfo

variable [DispatchCodec]

/-- Decode `partial_fee` from SCALE `RuntimeDispatchInfo` bytes (u64 or u128 balance). -/
def decodePartialFee (bytes : List UInt8) : Result UInt64 := do
  let (_, cur) ← okOr (DispatchCodec.decode bytes) badInfo
  decodeFee cur

/-- The parameters of an estimate: the signed transaction, then its length as a `u32`. -/
def feeParams (tx : List UInt8) : List UInt8 := tx ++ LittleEndian.bytes 4 tx.length

/-- Estimated fee of a call, from the transaction that the client signs for it and the
node's answer to a runtime call. -/
def estimateFee (createSigned : Result (List UInt8))
    (callRaw : String → List UInt8 → Result (List UInt8)) : Result UInt64 := do
  let tx ← createSigned
  let out ← callRaw "TransactionPaymentApi_query_info" (feeParams tx)
  decodePartialFee out

end Buyback
