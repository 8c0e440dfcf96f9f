import Mathlib.Algebra.BigOperators.Group.List.Basic
import Buyback.Source.Engine

/-!
# The ledger of a job

The accounting fields of a record, apart from its state and its journal.  The
receipts of a ledger are those of the record without the receipt of a quarantined
extrinsic, since that one was kept without its effect.

`Balanced` says that the other fields are what the receipts make them.  There is
one lemma for each way a ledger changes: the six effects of `apply`, and the two
counters that are bumped without an extrinsic.
-/

namespace Buyback

/-- The receipts of one kind of extrinsic. -/
def named (ts : List TxRef) (name : String) : List TxRef := ts.filter fun t => t.action == name

theorem named_append (ts : List TxRef) (tx : TxRef) (name : String) :
    named (ts ++ [tx]) name = named ts name ++ if tx.action = name then [tx] else [] := by
  by_cases h : tx.action = name <;> simp [named, List.filter_append, h]

/-- Whether the purchase of a receipt is destroyed. -/
def purchaseDestroyed (b : Option BuybackReceipt) : Bool := b.any fun b => b.destroyTx.isSome

/-- The accounting fields of a record. -/
structure Ledger where
  receipts : List TxRef
  fundedTao : UInt64
  sweptAlpha : UInt64
  sweptPositions : List (String × UInt64)
  consolidated : ℕ
  dustReturned : Bool
  buyback : Option BuybackReceipt
deriving DecidableEq, Repr

/-- The ledger of a record. -/
def PaymentRecord.ledger (r : PaymentRecord) : Ledger where
  receipts := if r.quarantined.isSome then r.txs.dropLast else r.txs
  fundedTao := r.fundedTao
  sweptAlpha := r.sweptAlpha
  sweptPositions := r.sweptPositions
  consolidated := r.consolidated
  dustReturned := r.dustReturned
  buyback := r.buyback

namespace Ledger

variable {l : Ledger} {tx : TxRef}

/-- The fields of the ledger are what its receipts make them.  Sums of swept alpha
wrap, as `u64` addition does. -/
structure Balanced (l : Ledger) : Prop where
  funds : (named l.receipts "transfer_keep_alive").length ≤ 1
  fundedTao : l.fundedTao.toNat =
    ((named l.receipts "transfer_keep_alive").map fun t => t.amount.toNat).sum
  positions : (named l.receipts "transfer_stake").map TxRef.amount = l.sweptPositions.map Prod.snd
  hotkeys : (l.sweptPositions.map Prod.fst).Nodup
  sweptAlpha : l.sweptAlpha.toNat = (l.sweptPositions.map fun p => p.2.toNat).sum % 2 ^ 64
  moves : (named l.receipts "move_stake").length ≤ l.consolidated
  consolidated : l.consolidated ≤ l.sweptPositions.length
  returns : (named l.receipts "transfer_all").length ≤ l.dustReturned.toNat
  purchases : (named l.receipts "add_stake_limit").length = l.buyback.isSome.toNat
  destroys : (named l.receipts "burn_alpha").length + (named l.receipts "recycle_alpha").length =
    (purchaseDestroyed l.buyback).toNat

/-- A ledger with nothing in it is balanced. -/
theorem balanced_nil {dust : Bool} : Balanced ⟨[], 0, 0, [], 0, dust, none⟩ := by
  constructor <;> simp [named, purchaseDestroyed]

namespace Balanced

/-- The fees arrive. -/
theorem fund (hb : l.Balanced) (htx : tx.action = "transfer_keep_alive")
    (hnew : named l.receipts "transfer_keep_alive" = []) :
    { l with
      receipts := l.receipts ++ [tx], fundedTao := l.fundedTao + tx.amount : Ledger }.Balanced := by
  have hzero : l.fundedTao.toNat = 0 := by simpa [hnew] using hb.fundedTao
  have hlt := tx.amount.toNat_lt
  constructor
  · simp [named_append, htx, hnew]
  · simp [named_append, htx, hnew, UInt64.toNat_add, hzero, Nat.mod_eq_of_lt hlt]
  · simpa [named_append, htx] using hb.positions
  · exact hb.hotkeys
  · exact hb.sweptAlpha
  · simpa [named_append, htx] using hb.moves
  · exact hb.consolidated
  · simpa [named_append, htx] using hb.returns
  · simpa [named_append, htx] using hb.purchases
  · simpa [named_append, htx] using hb.destroys

/-- A position arrives at the treasury. -/
theorem sweep (hb : l.Balanced) {hotkey : String} (htx : tx.action = "transfer_stake")
    (hnew : hotkey ∉ l.sweptPositions.map Prod.fst) :
    { l with
      receipts := l.receipts ++ [tx]
      sweptAlpha := l.sweptAlpha + tx.amount
      sweptPositions := l.sweptPositions ++ [(hotkey, tx.amount)] : Ledger }.Balanced := by
  constructor
  · simpa [named_append, htx] using hb.funds
  · simpa [named_append, htx] using hb.fundedTao
  · simpa [named_append, htx] using hb.positions
  · simp only [List.map_append, List.map_cons, List.map_nil]
    refine List.nodup_append.mpr ⟨hb.hotkeys, List.nodup_singleton _, ?_⟩
    rintro a ha b hb' rfl
    rw [List.mem_singleton] at hb'
    exact hnew (hb' ▸ ha)
  · simp only [UInt64.toNat_add, hb.sweptAlpha, List.map_append, List.map_cons, List.map_nil,
      List.sum_append, List.sum_cons, List.sum_nil]
    omega
  · simpa [named_append, htx] using hb.moves
  · exact hb.consolidated.trans (by simp)
  · simpa [named_append, htx] using hb.returns
  · simpa [named_append, htx] using hb.purchases
  · simpa [named_append, htx] using hb.destroys

/-- A position is counted as consolidated without an extrinsic. -/
theorem skip (hb : l.Balanced) (hlt : l.consolidated < l.sweptPositions.length) :
    { l with consolidated := l.consolidated + 1 : Ledger }.Balanced :=
  { hb with moves := hb.moves.trans (Nat.le_succ _), consolidated := hlt }

/-- A position arrives on the treasury hotkey. -/
theorem consolidate (hb : l.Balanced) (htx : tx.action = "move_stake")
    (hlt : l.consolidated < l.sweptPositions.length) :
    { l with
      receipts := l.receipts ++ [tx], consolidated := l.consolidated + 1 : Ledger }.Balanced := by
  constructor
  · simpa [named_append, htx] using hb.funds
  · simpa [named_append, htx] using hb.fundedTao
  · simpa [named_append, htx] using hb.positions
  · exact hb.hotkeys
  · exact hb.sweptAlpha
  · simpa [named_append, htx] using hb.moves
  · exact hlt
  · simpa [named_append, htx] using hb.returns
  · simpa [named_append, htx] using hb.purchases
  · simpa [named_append, htx] using hb.destroys

/-- There is no dust to return. -/
theorem dust (hb : l.Balanced) {d : Bool} (hd : l.dustReturned = true → d = true) :
    { l with dustReturned := d : Ledger }.Balanced :=
  { hb with returns := hb.returns.trans (Bool.toNat_le_toNat hd) }

/-- The dust arrives at the treasury. -/
theorem returnDust (hb : l.Balanced) (htx : tx.action = "transfer_all")
    (hnew : l.dustReturned = false) :
    { l with receipts := l.receipts ++ [tx], dustReturned := true : Ledger }.Balanced := by
  have hzero : named l.receipts "transfer_all" = [] := by simpa [hnew] using hb.returns
  constructor
  · simpa [named_append, htx] using hb.funds
  · simpa [named_append, htx] using hb.fundedTao
  · simpa [named_append, htx] using hb.positions
  · exact hb.hotkeys
  · exact hb.sweptAlpha
  · simpa [named_append, htx] using hb.moves
  · exact hb.consolidated
  · simp [named_append, htx, hzero]
  · simpa [named_append, htx] using hb.purchases
  · simpa [named_append, htx] using hb.destroys

/-- The purchase arrives. -/
theorem buyStake (hb : l.Balanced) {b : BuybackReceipt} (htx : tx.action = "add_stake_limit")
    (hnew : l.buyback = none) (hopen : b.destroyTx = none) :
    { l with receipts := l.receipts ++ [tx], buyback := some b : Ledger }.Balanced := by
  have hzero := hb.purchases
  have hdestroys := hb.destroys
  simp only [hnew, Option.isSome_none, Bool.toNat_false, purchaseDestroyed, Option.any_none]
    at hzero hdestroys
  constructor
  · simpa [named_append, htx] using hb.funds
  · simpa [named_append, htx] using hb.fundedTao
  · simpa [named_append, htx] using hb.positions
  · exact hb.hotkeys
  · exact hb.sweptAlpha
  · simpa [named_append, htx] using hb.moves
  · exact hb.consolidated
  · simpa [named_append, htx] using hb.returns
  · simp [named_append, htx, hzero]
  · simpa [named_append, htx, purchaseDestroyed, hopen] using hdestroys

/-- What was bought is destroyed. -/
theorem destroy (hb : l.Balanced) {b b' : BuybackReceipt}
    (htx : tx.action = "burn_alpha" ∨ tx.action = "recycle_alpha") (hold : l.buyback = some b)
    (hopen : b.destroyTx = none) (hdone : b'.destroyTx = some tx) :
    { l with receipts := l.receipts ++ [tx], buyback := some b' : Ledger }.Balanced := by
  have hpurchases := hb.purchases
  have hdestroys := hb.destroys
  simp only [hold, Option.isSome_some, purchaseDestroyed, Option.any_some, hopen,
    Option.isSome_none, Bool.toNat_false] at hpurchases hdestroys
  obtain ⟨hburn, hrecycle⟩ := Nat.add_eq_zero_iff.mp hdestroys
  rcases htx with htx | htx
  all_goals
    constructor
    · simpa [named_append, htx] using hb.funds
    · simpa [named_append, htx] using hb.fundedTao
    · simpa [named_append, htx] using hb.positions
    · exact hb.hotkeys
    · exact hb.sweptAlpha
    · simpa [named_append, htx] using hb.moves
    · exact hb.consolidated
    · simpa [named_append, htx] using hb.returns
    · simpa [named_append, htx] using hpurchases
    · simp [named_append, htx, hburn, hrecycle, purchaseDestroyed, hdone]

end Balanced

end Ledger

end Buyback
