import Buyback.Source.Chain
import Buyback.Source.Text

/-!
# Metadata

What a call is encoded from (`ChainCall::payload`), and `verify_metadata`, which compares
the names of the calls, of their arguments and of the events with the runtime's.

The node's answer is an argument.  Of the metadata the model has what is looked up in it.
-/

namespace Buyback

/-! ## Payloads -/

/-- `scale_value::Value`, as far as a payload uses it. -/
inductive CallValue where
  /-- `Value::from_bytes` -/
  | account (a : AccountId32)
  | u128 (n : ℕ)
  | bool (b : Bool)
  | unnamedVariant (name : String) (values : List CallValue)

namespace ChainCall

/-- The pallet and the arguments of `payload`.  The name is `name`. -/
def payload : ChainCall → String × List CallValue
  | .transferTao dest amount =>
      ("Balances", [.unnamedVariant "Id" [.account dest], .u128 amount.toNat])
  | .transferAll dest => ("Balances", [.unnamedVariant "Id" [.account dest], .bool false])
  | .transferStake destColdkey hotkey netuid alpha =>
      (pallet, [.account destColdkey, .account hotkey, .u128 netuid.toNat, .u128 netuid.toNat,
        .u128 alpha.toNat])
  | .moveStake fromHotkey toHotkey netuid alpha =>
      (pallet, [.account fromHotkey, .account toHotkey, .u128 netuid.toNat, .u128 netuid.toNat,
        .u128 alpha.toNat])
  | .addStakeLimit hotkey netuid tao limitPrice allowPartial =>
      (pallet, [.account hotkey, .u128 netuid.toNat, .u128 tao.toNat, .u128 limitPrice.toNat,
        .bool allowPartial])
  | .associateHotkey hotkey => (pallet, [.account hotkey])
  | .burnAlpha hotkey netuid alpha | .recycleAlpha hotkey netuid alpha =>
      (pallet, [.account hotkey, .u128 alpha.toNat, .u128 netuid.toNat])

end ChainCall

/-! ## The runtime -/

/-- A call of a pallet. -/
structure CallVariant where
  index : UInt8
  /-- The names of its fields, where they have one. -/
  fields : List (Option String)

/-- An event of a pallet. -/
structure EventVariant where
  name : String
  index : UInt8

structure PalletMetadata where
  callVariantByName : String → Option CallVariant
  eventVariants : Option (List EventVariant)

structure Metadata where
  specVersion : UInt32
  palletByName : String → Option PalletMetadata

/-- The names of the fields that have one. -/
def CallVariant.names (v : CallVariant) : List String := v.fields.filterMap id

/-! ## The check -/

/-- Calls this crate submits, with the argument names it expects. -/
def requiredCalls : List (String × String × List String) :=
  [("Balances", "transfer_keep_alive", ["dest", "value"]),
    ("Balances", "transfer_all", ["dest", "keep_alive"]),
    (pallet, "transfer_stake",
      ["destination_coldkey", "hotkey", "origin_netuid", "destination_netuid", "alpha_amount"]),
    (pallet, "move_stake",
      ["origin_hotkey", "destination_hotkey", "origin_netuid", "destination_netuid",
        "alpha_amount"]),
    (pallet, "add_stake_limit",
      ["hotkey", "netuid", "amount_staked", "limit_price", "allow_partial"]),
    (pallet, "burn_alpha", ["hotkey", "amount", "netuid"]),
    (pallet, "recycle_alpha", ["hotkey", "amount", "netuid"]),
    (pallet, "try_associate_hotkey", ["hotkey"])]

/-- Events this crate asserts on. -/
def requiredEvents : List (String × String) :=
  [("Balances", "Transfer"), (pallet, "StakeTransferred"), (pallet, "StakeMoved"),
    (pallet, "StakeAdded"), (pallet, "AlphaBurned"), (pallet, "AlphaRecycled")]

/-- The debug text of a slice of texts. -/
def debugStrs [StdTexts] (names : List String) : String :=
  "[" ++ ", ".intercalate (names.map debugStr) ++ "]"

namespace Metadata

def palletMissing (name : String) : Error := .chain ("pallet " ++ name ++ " missing")

def callMissing (palletName call : String) : Error :=
  .chain ("call " ++ palletName ++ "." ++ call ++ " missing from runtime")

def argsDiffer [StdTexts] (palletName call : String) (names args : List String) : Error :=
  .chain ("call " ++ palletName ++ "." ++ call ++ " has args " ++ debugStrs names ++
    ", expected " ++ debugStrs args)

def eventMissing (palletName event : String) : Error :=
  .chain ("event " ++ palletName ++ "." ++ event ++ " missing")

/-- One round of the loop over the calls: its line of evidence. -/
def verifyCall [StdTexts] (md : Metadata) (required : String × String × List String) :
    Result String := do
  let (palletName, call, args) := required
  let p ← okOr (md.palletByName palletName) (palletMissing palletName)
  let v ← okOr (p.callVariantByName call) (callMissing palletName call)
  if v.names ≠ args then
    .error (argsDiffer palletName call v.names args)
  else
    return "call " ++ palletName ++ "." ++ call ++ " #" ++ toString v.index ++ "(" ++
      ", ".intercalate v.names ++ ")"

/-- One round of the loop over the events. -/
def verifyEvent (md : Metadata) (required : String × String) : Result String := do
  let (palletName, event) := required
  let p ← okOr (md.palletByName palletName) (palletMissing palletName)
  let v ← okOr (p.eventVariants.bind fun vs => vs.find? fun v => v.name == event)
    (eventMissing palletName event)
  return "event " ++ palletName ++ "." ++ event ++ " #" ++ toString v.index

/-- A loop that pushes one line for each entry. -/
def pushLines {α : Type} (line : α → Result String) : List α → List String →
    Result (List String)
  | [], out => return out
  | x :: xs, out => do
      let l ← line x
      pushLines line xs (out ++ [l])

/-- `verify_metadata`. -/
def verifyMetadata [StdTexts] (md : Metadata) : Result (List String) := do
  let out ← pushLines md.verifyCall requiredCalls ["spec_version " ++ toString md.specVersion]
  pushLines md.verifyEvent requiredEvents out

end Metadata

end Buyback
