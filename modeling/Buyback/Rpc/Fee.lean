import Buyback.Codec.Compact
import Buyback.Source.Fee

/-!
# Decoded fees

The width of a fee is what is left after two weights of varying length and a class.
Nothing but an encoding in one of the two widths has a fee, and it has the encoded one.
A cut or an extended answer has one only where it is itself an encoding: 16 bytes cut to
the low eight, and eight bytes extended by eight zeros.
-/

namespace Buyback

open LittleEndian

theorem u64TryFrom_some {n : ℕ} {v : UInt64} : u64TryFrom n = some v ↔ n = v.toNat := by
  have hlt := v.toNat_lt
  rw [u64TryFrom, Option.ite_none_right_eq_some, Option.some.injEq, ← UInt64.toNat_inj,
    UInt64.toNat_ofNat']
  omega

variable {w w' n n' : ℕ} {fee : UInt64} {head head' : DispatchHead} {bytes rest rest' : List UInt8}

/-- A number of a width, where nothing else is left. -/
theorem decodeFixed_iff : bytes.length = w ∧ decodeFixed w bytes = some n ↔
    n < 256 ^ w ∧ bytes = LittleEndian.bytes w n := by
  rw [decodeFixed, Option.ite_none_right_eq_some, Option.some.injEq]
  constructor
  · rintro ⟨rfl, -, rfl⟩
    rw [List.take_length, bytes_value]
    exact ⟨value_lt bytes, rfl⟩
  · rintro ⟨hlt, rfl⟩
    rw [length_bytes, List.take_of_length_le (length_bytes w n).le, value_bytes_of_lt hlt]
    exact ⟨rfl, le_refl w, rfl⟩

theorem decodeU64_iff : bytes.length = 8 ∧ decodeU64 bytes = some fee ↔
    bytes = LittleEndian.bytes 8 fee.toNat := by
  have hlt : fee.toNat < 256 ^ 8 := fee.toNat_lt
  rw [decodeU64, Option.map_eq_some_iff]
  constructor
  · rintro ⟨hlen, n, hn, rfl⟩
    obtain ⟨hfits, hbytes⟩ := decodeFixed_iff.mp ⟨hlen, hn⟩
    have hmod : n % 2 ^ 64 = n := Nat.mod_eq_of_lt hfits
    rw [hbytes, UInt64.toNat_ofNat', hmod]
  · intro h
    obtain ⟨hlen, hdecode⟩ := decodeFixed_iff.mpr ⟨hlt, h⟩
    exact ⟨hlen, _, hdecode, UInt64.ofNat_toNat⟩

theorem decodeU128_iff : bytes.length = 16 ∧ decodeU128 bytes = some fee.toNat ↔
    bytes = LittleEndian.bytes 16 fee.toNat := by
  have hlt : fee.toNat < 256 ^ 16 := fee.toNat_lt.trans (by norm_num)
  rw [decodeU128, decodeFixed_iff]
  exact and_iff_right hlt

/-- The fee of the width that is left. -/
theorem decodeFee_ok : decodeFee bytes = .ok fee ↔
    bytes = LittleEndian.bytes 8 fee.toNat ∨ bytes = LittleEndian.bytes 16 fee.toNat := by
  rw [← decodeU64_iff, ← decodeU128_iff, decodeFee]
  split_ifs with h8 h16
  · rw [okOr_ok]
    simp [h8]
  · simp only [Result.bind_eq_ok, okOr_ok, u64TryFrom_some]
    simp [h16]
  · simp [h8, h16]

theorem decodeFee_error {e : Error} (h : decodeFee bytes = .error e) : e = badInfo := by
  rw [decodeFee] at h
  split_ifs at h
  · exact okOr_error h
  · rcases Result.bind_error h with h | ⟨_, -, h⟩
    · exact okOr_error h
    · exact okOr_error h
  · cases h
    rfl

section

variable [DispatchCodec]

/-- A dispatch info with a fee of some width. -/
def infoBytes (head : DispatchHead) (w fee : ℕ) : List UInt8 :=
  DispatchCodec.encode head ++ LittleEndian.bytes w fee

theorem length_infoBytes (head : DispatchHead) (w fee : ℕ) :
    (infoBytes head w fee).length = (DispatchCodec.encode head).length + w := by
  rw [infoBytes, List.length_append, length_bytes]

/-- The head delimits itself. -/
theorem encode_append_inj
    (h : DispatchCodec.encode head ++ rest = DispatchCodec.encode head' ++ rest') :
    head = head' ∧ rest = rest' := by
  have hsome := (DispatchCodec.decode_iff.mpr h).symm.trans (DispatchCodec.decode_iff.mpr rfl)
  cases hsome
  exact ⟨rfl, rfl⟩

/-- An encoding that begins with another, in the numbers of both. -/
theorem infoBytes_append (h : infoBytes head w n ++ rest = infoBytes head' w' n') :
    head = head' ∧ w + rest.length = w' ∧
      n % 256 ^ w + 256 ^ w * value rest = n' % 256 ^ w' := by
  rw [infoBytes, infoBytes, List.append_assoc] at h
  obtain ⟨hhead, htail⟩ := encode_append_inj h
  have hlen := congrArg List.length htail
  have hvalue := congrArg value htail
  rw [List.length_append, length_bytes, length_bytes] at hlen
  rw [value_append, value_bytes, value_bytes, length_bytes] at hvalue
  exact ⟨hhead, hlen, hvalue⟩

/-- An encoding is of one width and one number. -/
theorem infoBytes_eq (h : infoBytes head w n = infoBytes head' w' n') :
    w = w' ∧ n % 256 ^ w = n' % 256 ^ w' := by
  obtain ⟨-, hlen, hvalue⟩ := infoBytes_append ((List.append_nil _).trans h)
  exact ⟨hlen, hvalue⟩

/-- Only the encodings in the two widths have a fee. -/
theorem decodePartialFee_ok : decodePartialFee bytes = .ok fee ↔
    ∃ head, bytes = infoBytes head 8 fee.toNat ∨ bytes = infoBytes head 16 fee.toNat := by
  simp only [decodePartialFee, Result.bind_eq_ok, okOr_ok, infoBytes]
  constructor
  · rintro ⟨⟨head, cur⟩, hdecode, hfee⟩
    rw [← DispatchCodec.decode_iff.mp hdecode]
    exact ⟨head, (decodeFee_ok.mp hfee).imp (congrArg _) (congrArg _)⟩
  · rintro ⟨head, rfl | rfl⟩
    · exact ⟨(head, _), DispatchCodec.decode_iff.mpr rfl, decodeFee_ok.mpr (.inl rfl)⟩
    · exact ⟨(head, _), DispatchCodec.decode_iff.mpr rfl, decodeFee_ok.mpr (.inr rfl)⟩

/-- Every refusal has the one error. -/
theorem decodePartialFee_error {e : Error} (h : decodePartialFee bytes = .error e) :
    e = badInfo := by
  rcases Result.bind_error h with h | ⟨⟨_, cur⟩, -, h⟩
  · exact okOr_error h
  · exact decodeFee_error h

/-- A fee that a `u64` does not hold is refused. -/
theorem decodePartialFee_large (head : DispatchHead) (hmin : 2 ^ 64 ≤ n) (hmax : n < 2 ^ 128) :
    decodePartialFee (infoBytes head 16 n) = .error badInfo := by
  cases hdecode : decodePartialFee (infoBytes head 16 n) with
  | error e => rw [decodePartialFee_error hdecode]
  | ok fee =>
      have hlt := fee.toNat_lt
      obtain ⟨_, heq | heq⟩ := decodePartialFee_ok.mp hdecode
      · have hwidth := (infoBytes_eq heq).1
        omega
      · have hvalue := (infoBytes_eq heq).2
        omega

/-- A cut encoding has a fee only where it is the low eight bytes of sixteen. -/
theorem decodePartialFee_cut {k : ℕ} (hw : w = 8 ∨ w = 16) (hk : k < (infoBytes head w n).length) :
    decodePartialFee ((infoBytes head w n).take k) = .ok fee ↔
      w = 16 ∧ k = (DispatchCodec.encode head).length + 8 ∧ fee.toNat = n % 2 ^ 64 := by
  have hlt := fee.toNat_lt
  rw [decodePartialFee_ok]
  constructor
  · rintro ⟨head', heq⟩
    have hjoin := List.take_append_drop k (infoBytes head w n)
    have htake := List.length_take_of_le hk.le
    have hdrop : ((infoBytes head w n).drop k).length = _ := List.length_drop
    have hlen := length_infoBytes head w n
    rcases heq with heq | heq
    · rw [heq] at hjoin htake
      rw [length_infoBytes] at htake
      obtain ⟨rfl, hwidth, hvalue⟩ := infoBytes_append hjoin
      have h16 : w = 16 := by omega
      rw [h16] at hvalue
      exact ⟨h16, htake.symm, by omega⟩
    · rw [heq] at hjoin
      obtain ⟨-, hwidth, -⟩ := infoBytes_append hjoin
      omega
  · rintro ⟨rfl, rfl, hfee⟩
    have hlow : LittleEndian.bytes 8 fee.toNat = LittleEndian.bytes 8 n := by
      rw [hfee]
      exact bytes_mod 8 n
    refine ⟨head, .inl ?_⟩
    rw [infoBytes, List.take_length_add_append, take_bytes (by omega), infoBytes, hlow]

/-- An extended encoding has a fee only where eight zeros widen eight bytes. -/
theorem decodePartialFee_extended (hw : w = 8 ∨ w = 16) (hn : n < 256 ^ w) (hrest : rest ≠ []) :
    decodePartialFee (infoBytes head w n ++ rest) = .ok fee ↔
      w = 8 ∧ rest = List.replicate 8 0 ∧ fee.toNat = n := by
  have hlt := fee.toNat_lt
  have hlen := List.length_pos_of_ne_nil hrest
  rw [decodePartialFee_ok]
  constructor
  · rintro ⟨head', heq | heq⟩
    · obtain ⟨-, hwidth, -⟩ := infoBytes_append heq
      omega
    · obtain ⟨-, hwidth, hvalue⟩ := infoBytes_append heq
      obtain rfl : w = 8 := by omega
      have height : rest.length = 8 := by omega
      have hzero : value rest = 0 := by omega
      rw [hzero] at hvalue
      exact ⟨rfl, height ▸ value_eq_zero_iff.mp hzero, by omega⟩
  · rintro ⟨rfl, rfl, rfl⟩
    exact ⟨head, .inr (by rw [infoBytes, List.append_assoc, bytes_append_zeros hn, infoBytes])⟩

/-- An estimate is the fee that the node's answer to the signed transaction encodes. -/
theorem estimateFee_ok {createSigned : Result (List UInt8)}
    {callRaw : String → List UInt8 → Result (List UInt8)} :
    estimateFee createSigned callRaw = .ok fee ↔
      ∃ tx head, createSigned = .ok tx ∧
        (callRaw "TransactionPaymentApi_query_info" (feeParams tx) =
            .ok (infoBytes head 8 fee.toNat) ∨
          callRaw "TransactionPaymentApi_query_info" (feeParams tx) =
            .ok (infoBytes head 16 fee.toNat)) := by
  simp only [estimateFee, Result.bind_eq_ok, decodePartialFee_ok]
  grind

/-- Fees are decoded exactly, in either width.  A fee that does not fit, and a cut or an
extended answer, is refused, unless the answer is still an encoding of one of the two
widths: it then has the fee that it encodes.  An estimate is such a fee. -/
theorem partialFee_exact :
    (∀ bytes fee, decodePartialFee bytes = .ok fee ↔
      ∃ head, bytes = infoBytes head 8 fee.toNat ∨ bytes = infoBytes head 16 fee.toNat) ∧
    (∀ bytes e, decodePartialFee bytes = .error e → e = badInfo) ∧
    (∀ head fee, decodePartialFee (infoBytes head 8 fee.toNat) = .ok fee ∧
      decodePartialFee (infoBytes head 16 fee.toNat) = .ok fee) ∧
    (∀ head n, 2 ^ 64 ≤ n → n < 2 ^ 128 →
      decodePartialFee (infoBytes head 16 n) = .error badInfo) ∧
    (∀ head w n k fee, w = 8 ∨ w = 16 → k < (infoBytes head w n).length →
      (decodePartialFee ((infoBytes head w n).take k) = .ok fee ↔
        w = 16 ∧ k = (DispatchCodec.encode head).length + 8 ∧ fee.toNat = n % 2 ^ 64)) ∧
    (∀ head w n rest fee, w = 8 ∨ w = 16 → n < 256 ^ w → rest ≠ [] →
      (decodePartialFee (infoBytes head w n ++ rest) = .ok fee ↔
        w = 8 ∧ rest = List.replicate 8 0 ∧ fee.toNat = n)) ∧
    ∀ createSigned callRaw fee, estimateFee createSigned callRaw = .ok fee ↔
      ∃ tx head, createSigned = .ok tx ∧
        (callRaw "TransactionPaymentApi_query_info" (feeParams tx) =
            .ok (infoBytes head 8 fee.toNat) ∨
          callRaw "TransactionPaymentApi_query_info" (feeParams tx) =
            .ok (infoBytes head 16 fee.toNat)) := by
  refine ⟨fun _ _ => decodePartialFee_ok, fun _ _ => decodePartialFee_error, fun head fee => ?_,
    fun head _ => decodePartialFee_large head, fun _ _ _ _ _ => decodePartialFee_cut,
    fun _ _ _ _ _ => decodePartialFee_extended, fun _ _ _ => estimateFee_ok⟩
  exact ⟨decodePartialFee_ok.mpr ⟨head, .inl rfl⟩, decodePartialFee_ok.mpr ⟨head, .inr rfl⟩⟩

end

/-- The codec with the compact integers of SCALE. -/
@[reducible] def scaleDispatch : DispatchCodec where
  encode head := Compact.encode head.1.toNat ++ (Compact.encode head.2.1.toNat ++ [head.2.2])
  decode bytes :=
    (Compact.decode bytes).bind fun (refTime, bytes) =>
      (Compact.decode bytes).bind fun (proofSize, bytes) =>
        bytes.head?.map fun b => ((UInt64.ofNat refTime, UInt64.ofNat proofSize, b), bytes.tail)
  decode_iff {bytes head rest} := by
    obtain ⟨refTime, proofSize, b⟩ := head
    simp only [Option.bind_eq_some_iff, Prod.exists, Compact.decode_iff, Option.map_eq_some_iff,
      Prod.mk.injEq, List.head?_eq_some_iff]
    constructor
    · rintro ⟨m, _, ⟨hm, rfl⟩, n, _, ⟨hn, rfl⟩, _, ⟨tail, rfl⟩, ⟨rfl, rfl, rfl⟩, rfl⟩
      rw [UInt64.toNat_ofNat', UInt64.toNat_ofNat', Nat.mod_eq_of_lt hm, Nat.mod_eq_of_lt hn,
        List.append_assoc, List.append_assoc]
      rfl
    · rintro rfl
      rw [List.append_assoc, List.append_assoc]
      exact ⟨_, _, ⟨refTime.toNat_lt, rfl⟩, _, _, ⟨proofSize.toNat_lt, rfl⟩, b, ⟨rest, rfl⟩,
        ⟨UInt64.ofNat_toNat, UInt64.ofNat_toNat, rfl⟩, rfl⟩

/-- A fee of 2^64 + 5 in 16 bytes, cut by eight, is decoded as a fee of 5. -/
theorem cutFee_accepted :
    @decodePartialFee scaleDispatch ((@infoBytes scaleDispatch (0, 0, 0) 16 (2 ^ 64 + 5)).take 11) =
      .ok 5 ∧
    ¬ ∀ head w n k, w = 8 ∨ w = 16 → k < (@infoBytes scaleDispatch head w n).length →
      ∃ e, @decodePartialFee scaleDispatch ((@infoBytes scaleDispatch head w n).take k) =
        .error e := by
  have hfee : @decodePartialFee scaleDispatch
      ((@infoBytes scaleDispatch (0, 0, 0) 16 (2 ^ 64 + 5)).take 11) = .ok 5 := by
    decide
  refine ⟨hfee, fun h => ?_⟩
  obtain ⟨e, he⟩ := h (0, 0, 0) 16 (2 ^ 64 + 5) 11 (.inr rfl) (by decide)
  rw [hfee] at he
  cases he

/-- The fee of 2^64 + 5 itself is refused. -/
theorem wideFee_refused :
    @decodePartialFee scaleDispatch (@infoBytes scaleDispatch (0, 0, 0) 16 (2 ^ 64 + 5)) =
      .error badInfo :=
  (@partialFee_exact scaleDispatch).2.2.2.1 (0, 0, 0) (2 ^ 64 + 5) (by norm_num) (by norm_num)

end Buyback
