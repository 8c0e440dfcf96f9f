import Buyback.Source.Archive
import Buyback.Source.Units

/-!
# Deposits of a block

`deposits_in_block` of `chain.rs`: the stake that landed on watched coldkeys in one
block, from the events of the block.  A pass over the events collects the stakes, a
pass over the extrinsics their hashes and signers, another pass over the events the
extrinsics that succeeded, and a last pass joins them with the prices.
-/

namespace Buyback

/-! ## The moving price -/

/-- A decoded storage value, as far as the moving price looks into it. -/
inductive ScaleValue where
  | i128 (bits : BitVec 128)
  | u128 (bits : BitVec 128)
  | composite (values : List ScaleValue)
  | other

namespace ScaleValue

mutual

/-- The first 128-bit integer in a value. -/
def find : ScaleValue → Option ℤ
  | .i128 bits => some bits.toInt
  | .u128 bits => if bits.toNat < 2 ^ 127 then some bits.toNat else none
  | .composite values => findIn values
  | .other => none

/-- The first value in which there is one. -/
def findIn : List ScaleValue → Option ℤ
  | [] => none
  | v :: vs => v.find.orElse fun _ => findIn vs

end

end ScaleValue

/-- The value of a `u128` operation that saturates. -/
def saturate128 (n : ℕ) : ℕ := min n (2 ^ 128 - 1)

/-- `bits / 2^frac` TAO per alpha, as rao, rounded down and saturating. -/
def fixedBitsToRao (bits frac : ℕ) : UInt64 :=
  let whole := bits >>> frac
  let part := bits % 2 ^ frac
  saturate (saturate128
    (saturate128 (whole * raoPerTao.toNat) + ((part * raoPerTao.toNat) % 2 ^ 128) >>> frac))

/-- `I96F32` TAO per alpha as rao of TAO per alpha. -/
def i96f32ToRao (v : ScaleValue) : Result UInt64 :=
  match v.find with
  | none => .error (.chain "cannot decode SubnetMovingPrice")
  | some bits => if bits ≤ 0 then .ok 0 else .ok (fixedBitsToRao bits.toNat 32)

/-! ## The block -/

/-- What a block was doing when it emitted an event. -/
inductive Phase where
  | applyExtrinsic (index : UInt32)
  | finalization
  | initialization
deriving DecidableEq, Repr

/-- An event of a block, with its position among the events of the block. -/
structure BlockEvent where
  index : UInt32
  phase : Phase
  event : RuntimeEvent
deriving DecidableEq, Repr

/-- What the node answers at one block.  An event that does not decode is there with the
text of its error. -/
structure AtBlock where
  hash : String
  events : List (Except String BlockEvent)
  extrinsics : List ArchiveExtrinsic
  /-- Runtime call `current_alpha_price`. -/
  spotPrice : UInt16 → Except String UInt64
  /-- Storage `SubnetMovingPrice`. -/
  movingPrice : UInt16 → Except String ScaleValue
  /-- The positions of the events are distinct. -/
  distinct : ((events.filterMap Except.toOption).map BlockEvent.index).Nodup

/-- One stake credited to a watched coldkey. -/
structure Deposit where
  blockNumber : UInt64
  blockHash : String
  extrinsicIndex : UInt32
  eventIndex : UInt32
  extrinsicHash : String
  /-- `from`: the signer of the extrinsic, when it is a plain account. -/
  signer : Option AccountId32
  coldkey : AccountId32
  hotkey : AccountId32
  netuid : UInt16
  /-- Alpha added to the position, rao. -/
  alpha : UInt64
  /-- TAO value the chain reported for it, rao. -/
  taoValue : UInt64
  spotPrice : UInt64
  movingPrice : UInt64
deriving DecidableEq, Repr

/-- Deposits found in one block. -/
structure BlockDeposits where
  number : UInt64
  blockHash : String
  deposits : List Deposit
deriving DecidableEq, Repr

/-- A stake of a watched coldkey, before it is known whether its extrinsic succeeded. -/
structure StakeHit where
  extrinsicIndex : UInt32
  eventIndex : UInt32
  coldkey : AccountId32
  hotkey : AccountId32
  tao : UInt64
  alpha : UInt64
  netuid : UInt16
deriving DecidableEq, Repr

/-- The stake an event of an extrinsic adds, if it is a `StakeAdded`. -/
def BlockEvent.stakeAdded (ev : BlockEvent) : Result (Option StakeHit) :=
  if ev.event.palletName ≠ pallet ∨ ev.event.eventName ≠ "StakeAdded" then .ok none
  else
    match ev.phase with
    | .applyExtrinsic xt =>
        match ev.event.fields with
        | [.account coldkey, .account hotkey, .u64 tao, .u64 alpha, .u16 netuid, .u64 _] =>
            .ok (some ⟨xt, ev.index, coldkey, hotkey, tao, alpha, netuid⟩)
        | _ => .error (.chain ev.event.fieldError)
    | _ => .ok none

/-- The extrinsic an event reports the success of. -/
def BlockEvent.succeeded (ev : BlockEvent) : Option UInt32 :=
  match ev.phase with
  | .applyExtrinsic i =>
      if ev.event.palletName = "System" ∧ ev.event.eventName = "ExtrinsicSuccess" then some i
      else none
  | _ => none

/-- The prices read so far, and the deposits. -/
structure DepositState where
  prices : UInt16 → Option (UInt64 × UInt64)
  deposits : List Deposit

namespace AtBlock

/-- `moving_price_at`. -/
def movingPriceAt (b : AtBlock) (netuid : UInt16) : Result UInt64 := do
  let v ← chainErr (b.movingPrice netuid)
  i96f32ToRao v

/-- The spot and the moving price of a subnet. -/
def prices (b : AtBlock) (netuid : UInt16) : Result (UInt64 × UInt64) := do
  let spot ← chainErr (b.spotPrice netuid)
  let moving ← b.movingPriceAt netuid
  .ok (spot, moving)

/-- The body of the first pass over the events. -/
def collectHit (watched : Finset AccountId32) (hits : List StakeHit)
    (ev : Except String BlockEvent) : Result (List StakeHit) := do
  let ev ← chainErr ev
  match ← ev.stakeAdded with
  | some hit => if hit.coldkey ∈ watched then .ok (hits ++ [hit]) else .ok hits
  | none => .ok hits

/-- The body of the second pass over the events. -/
def collectSuccess (ok : Finset UInt32) (ev : Except String BlockEvent) :
    Result (Finset UInt32) := do
  let ev ← chainErr ev
  match ev.succeeded with
  | some i => .ok (insert i ok)
  | none => .ok ok

/-- The hash and the address bytes of the extrinsics, by index. -/
def hashes (b : AtBlock) : UInt32 → Option (String × Option (List UInt8)) :=
  b.extrinsics.zipIdx.foldl
    (fun hashes x => Function.update hashes (UInt32.ofNat x.2) (some (x.1.hash, x.1.address)))
    fun _ => none

/-- The deposit of a stake, with the prices of its subnet. -/
def depositOf (b : AtBlock) (number : UInt64) (hit : StakeHit) (prices : UInt64 × UInt64) :
    Deposit :=
  let found := (b.hashes hit.extrinsicIndex).getD ("", none)
  { blockNumber := number
    blockHash := b.hash
    extrinsicIndex := hit.extrinsicIndex
    eventIndex := hit.eventIndex
    extrinsicHash := found.1
    signer := found.2.bind signerOf
    coldkey := hit.coldkey
    hotkey := hit.hotkey
    netuid := hit.netuid
    alpha := hit.alpha
    taoValue := hit.tao
    spotPrice := prices.1
    movingPrice := prices.2 }

/-- The body of the last pass. -/
def credit (b : AtBlock) (number : UInt64) (ok : Finset UInt32) (st : DepositState)
    (hit : StakeHit) : Result DepositState :=
  if hit.extrinsicIndex ∉ ok then .ok st
  else
    match st.prices hit.netuid with
    | some prices => .ok { st with deposits := st.deposits ++ [b.depositOf number hit prices] }
    | none => do
        let prices ← b.prices hit.netuid
        .ok
          { prices := Function.update st.prices hit.netuid (some prices)
            deposits := st.deposits ++ [b.depositOf number hit prices] }

/-- `deposits_in_block`, for the block `b` of the number. -/
def depositsInBlock (b : AtBlock) (number : UInt64) (watched : Finset AccountId32) :
    Result BlockDeposits :=
  if watched = ∅ then .ok ⟨number, b.hash, []⟩
  else do
    let hits ← b.events.foldlM (collectHit watched) []
    if hits = [] then .ok ⟨number, b.hash, []⟩
    else do
      let ok ← b.events.foldlM collectSuccess ∅
      let st ← hits.foldlM (b.credit number ok) ⟨fun _ => none, []⟩
      .ok ⟨number, b.hash, st.deposits⟩

end AtBlock

end Buyback
