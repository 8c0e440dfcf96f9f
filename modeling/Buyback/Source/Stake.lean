import Buyback.Source.Engine

/-!
# Stake positions

The reads of stake in `chain.rs`, through the runtime API of the node at one block:
`stake_positions`, `alpha_on` and `alpha_of` for one coldkey, and `stake_positions_many` for
the payments of a tick, which asks for 64 coldkeys at a time.
-/

namespace Buyback

/-- A position as the node reports it. -/
structure RawStakeInfo where
  hotkey : AccountId32
  netuid : UInt16
  stake : UInt64

/-- The two calls of `StakeInfoRuntimeApi`. -/
structure StakeInfoApi where
  /-- `get_stake_info_for_coldkey` -/
  forColdkey : AccountId32 → Result (List RawStakeInfo)
  /-- `get_stake_info_for_coldkeys` -/
  forColdkeys : List AccountId32 → Result (List (AccountId32 × List RawStakeInfo))

/-- The positions that hold something. -/
def stakePositionsOf (raw : List RawStakeInfo) : List StakePosition :=
  (raw.filter fun r => 0 < r.stake).map fun r =>
    { hotkey := r.hotkey, netuid := r.netuid, alpha := r.stake }

/-- `iter().map(|p| p.alpha).sum()`. -/
def totalAlpha (positions : List StakePosition) : UInt64 :=
  (positions.map StakePosition.alpha).foldl (· + ·) 0

/-- `[T]::chunks`. -/
def chunks {α : Type} (size : ℕ) : List α → List (List α)
  | [] => []
  | x :: xs => (x :: xs.take (size - 1)) :: chunks size (xs.drop (size - 1))
termination_by l => l.length

/-- `BTreeMap::insert`. -/
def Positions.insert (out : Positions) (coldkey : AccountId32) (positions : List StakePosition) :
    Positions :=
  (coldkey, positions) :: out.filter fun p => p.1 ≠ coldkey

namespace StakeInfoApi

variable (api : StakeInfoApi)

def stakePositions (coldkey : AccountId32) : Result (List StakePosition) := do
  let raw ← api.forColdkey coldkey
  return stakePositionsOf raw

def alphaOn (coldkey : AccountId32) (netuid : UInt16) : Result (UInt64 × List StakePosition) := do
  let positions ← api.stakePositions coldkey
  let positions := positions.filter fun p => p.netuid == netuid
  return (totalAlpha positions, positions)

def alphaOf (hotkey coldkey : AccountId32) (netuid : UInt16) : Result UInt64 := do
  let positions ← api.stakePositions coldkey
  return totalAlpha (positions.filter fun p => p.netuid == netuid && p.hotkey == hotkey)

/-- The loop of `stake_positions_many` over its chunks. -/
def readChunks : List (List AccountId32) → Positions → Result Positions
  | [], out => return out
  | chunk :: rest, out => do
      let answer ← api.forColdkeys chunk
      readChunks rest (answer.foldl (fun out p => out.insert p.1 (stakePositionsOf p.2)) out)

def stakePositionsMany (coldkeys : List AccountId32) : Result Positions :=
  api.readChunks (chunks 64 coldkeys) []

end StakeInfoApi

end Buyback
