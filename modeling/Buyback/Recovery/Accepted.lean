import Buyback.Source.Recovery

/-!
# What an accepted recovery has checked

`validateManifest` and `replay` read backwards: the facts that hold of a record, a
manifest and an archive scan once they are accepted, and the record a recovery
writes.  Everything about recovered jobs is proved from these facts.
-/

namespace Buyback

variable {r next : PaymentRecord} {m : LegacyManifest}

/-! ## The manifest -/

/-- What one transaction of a manifest has been checked for. -/
structure LegacyTransaction.Explained (r : PaymentRecord) (m : LegacyManifest)
    (t : LegacyTransaction) : Prop where
  first : m.firstBlock ≤ t.block
  stopped : t.block ≤ m.stoppedAt
  signer : t.signer = m.treasury ∨ t.signer = r.address
  action : t.receipt.action = t.call.name
  amount : t.receipt.amount = t.call.amount

theorem validateTransactions_cons {last : Option (UInt64 × ℕ)} {hashes : List String}
    {nonces : List (String × UInt64)} {t : LegacyTransaction} {ts : List LegacyTransaction}
    {u : Unit} (h : validateTransactions r m last hashes nonces (t :: ts) = .ok u) :
    t.Explained r m ∧
      validateTransactions r m (some (t.block, t.index)) (t.receipt.txHash :: hashes)
        ((t.signer, t.nonce) :: nonces) ts = .ok u := by
  simp only [validateTransactions] at h
  split at h
  next => cases h
  next hno =>
    simp only [not_or, not_and_or, not_not, UInt64.not_lt] at hno
    obtain ⟨hfirst, hstopped, -, -, -, hsigner, haction, hamount⟩ := hno
    exact ⟨⟨hfirst, hstopped, hsigner, haction, hamount⟩, h⟩

theorem validateTransactions_ok {ts : List LegacyTransaction} {u : Unit} :
    ∀ {last : Option (UInt64 × ℕ)} {hashes : List String} {nonces : List (String × UInt64)},
      validateTransactions r m last hashes nonces ts = .ok u → ∀ t ∈ ts, t.Explained r m := by
  induction ts with
  | nil => intro _ _ _ _ t ht; cases ht
  | cons t ts ih =>
      intro _ _ _ h t' ht'
      obtain ⟨ht, hrest⟩ := validateTransactions_cons h
      cases ht' with
      | head => exact ht
      | tail _ hmem => exact ih hrest t' hmem

/-- What the check of a manifest has established, with the accounts it names. -/
structure ValidManifest [Ss58] (r : PaymentRecord) (m : LegacyManifest)
    (treasury deposit : AccountId32) : Prop where
  job : r.id = m.job
  version : r.version = m.version
  accepted : ¬ manifestRefused r m
  pristine : ¬ notPristine r m
  treasury_eq : m.treasury = ss58 treasury
  address_eq : r.address = ss58 deposit
  distinct : treasury ≠ deposit
  explained : ∀ t ∈ m.transactions, t.Explained r m
  receipts : m.transactions.map LegacyTransaction.receipt = r.txs

theorem validateManifest_valid [Ss58] {u : Unit} (h : validateManifest r m = .ok u) :
    ∃ treasury deposit, ValidManifest r m treasury deposit ∧
      parseSs58 m.treasury = .ok treasury ∧ parseSs58 r.address = .ok deposit := by
  unfold validateManifest at h
  split at h
  next => cases h
  next hid =>
    split at h
    next => cases h
    next hrefused =>
      split at h
      next => cases h
      next hpristine =>
        rw [not_or, not_not, not_not] at hid
        obtain ⟨treasury, htreasury, h⟩ := Result.bind_ok h
        obtain ⟨deposit, hdeposit, h⟩ := Result.bind_ok h
        obtain ⟨_, -, h⟩ := Result.bind_ok h
        split at h
        next => cases h
        next haccounts =>
          simp only [not_or, not_not] at haccounts
          obtain ⟨hne, htreasury_eq, haddress_eq⟩ := haccounts
          obtain ⟨_, -, h⟩ := Result.bind_ok h
          obtain ⟨_, hts, h⟩ := Result.bind_ok h
          split at h
          next => cases h
          next hreceipts =>
            rw [not_not] at hreceipts
            exact ⟨treasury, deposit, ⟨hid.1, hid.2, hrefused, hpristine, htreasury_eq.symm,
              haddress_eq.symm, hne, validateTransactions_ok hts, hreceipts⟩, htreasury, hdeposit⟩

namespace ValidManifest

variable [Ss58] {treasury deposit : AccountId32}

/-- A job with an identity is not recovered. -/
theorem identity (h : ValidManifest r m treasury deposit) : r.identity = none := by
  have := h.accepted
  simp only [manifestRefused, not_or, Option.not_isSome_iff_eq_none] at this
  exact this.1

/-- A policy that is there is the manifest's. -/
theorem policy (h : ValidManifest r m treasury deposit) {required : Bool}
    (hr : r.autoRequired = some required) :
    required = m.budget.isSome ∧ r.buybackBudget = m.budget := by
  have := h.accepted
  simp only [manifestRefused, not_or] at this
  have hpolicy := this.2.1
  simpa [hr] using hpolicy

theorem pending (h : ValidManifest r m treasury deposit) : r.pending = none := by
  have := h.accepted
  simp only [manifestRefused, not_or, Option.not_isSome_iff_eq_none] at this
  exact this.2.2.1

theorem quarantined (h : ValidManifest r m treasury deposit) : r.quarantined = none := by
  have := h.accepted
  simp only [manifestRefused, not_or, Option.not_isSome_iff_eq_none] at this
  exact this.2.2.2.1

theorem transactions_length_le (h : ValidManifest r m treasury deposit) :
    m.transactions.length ≤ 4096 := by
  have := h.accepted
  simp only [manifestRefused, not_or, Nat.not_lt] at this
  exact this.2.2.2.2.2.2.1

theorem firstBlock_ne_zero (h : ValidManifest r m treasury deposit) : m.firstBlock ≠ 0 := by
  have := h.accepted
  simp only [manifestRefused, not_or] at this
  exact this.2.2.2.2.2.2.2.1

theorem firstBlock_le (h : ValidManifest r m treasury deposit) : m.firstBlock ≤ m.stoppedAt := by
  have := h.accepted
  simp only [manifestRefused, not_or, UInt64.not_lt] at this
  exact this.2.2.2.2.2.2.2.2.1

/-- A job with a transaction has been funded: it is at one of the later stages. -/
theorem stage (h : ValidManifest r m treasury deposit) (hts : m.transactions ≠ []) :
    r.state = .funded ∨ r.state = .swept ∨
      r.state = .failed ∧ (r.failedFrom = some .funded ∨ r.failedFrom = some .swept) := by
  have haccepted := h.accepted
  have hpristine := h.pristine
  simp only [manifestRefused, not_or, not_and_or, not_not] at haccepted
  have hstate := haccepted.2.2.2.2.2.2.2.2.2.2.2.2.2.2
  rw [notPristine, not_and] at hpristine
  rcases hstate with ⟨hpending | hdetected | hfunded | hswept | hfailed, hfrom⟩
  · exact absurd (.inl hts) (hpristine (.inl hpending))
  · exact absurd (.inl hts) (hpristine (.inr hdetected))
  · exact .inl hfunded
  · exact .inr (.inl hswept)
  · exact .inr (.inr ⟨hfailed, hfrom.resolve_left fun hne => hne hfailed⟩)

end ValidManifest

/-! ## The replay -/

/-- The identity a manifest names. -/
def LegacyManifest.identity (m : LegacyManifest) : JobIdentity :=
  { genesisHash := m.genesisHash, treasury := m.treasury, treasuryHotkey := m.treasuryHotkey
    consolidate := m.consolidate, returnDust := m.returnDust }

/-- The record a recovery makes of `r`, before it is stamped. -/
def PaymentRecord.recovered (r : PaymentRecord) (m : LegacyManifest) : PaymentRecord :=
  { r with
    identity := some m.identity
    autoRequired := some m.budget.isSome
    buybackBudget := m.budget }

/-- What an accepted replay has checked, with the accounting it rebuilt. -/
structure Replays [Ss58] (r : PaymentRecord) (m : LegacyManifest) (summaries : List EventSummary)
    (treasury deposit hotkey : AccountId32) (st : Replayed) : Prop where
  valid : ValidManifest r m treasury deposit
  length : summaries.length = m.transactions.length
  hotkey_eq : parseSs58 m.treasuryHotkey = .ok hotkey
  loop : replayLoop r m treasury deposit hotkey {} (m.transactions.zip summaries) = .ok st
  total : checkedTotal st.positions = some r.sweptAlpha
  stage : r.stage = .funded →
    st.consolidated = 0 ∧ st.dust = false ∧ st.buyback = none ∧ r.buybackDone = false
  funded : st.funded = r.fundedTao
  positions : st.positions = r.sweptPositions
  consolidated : st.consolidated = r.consolidated
  dust : st.dust = r.dustReturned
  buyback : st.buyback = r.buyback
  done : r.buybackDone = true → st.complete m = true

theorem replay_accepted [Ss58] {scan : ArchiveScan} {report : RecoveryReport}
    (h : replay r m scan = .ok (next, report)) :
    next = r.recovered m ∧
      ∃ treasury deposit hotkey st, Replays r m scan.1 treasury deposit hotkey st := by
  unfold replay at h
  obtain ⟨_, hvalid, h⟩ := Result.bind_ok h
  obtain ⟨treasury, deposit, hvalid, htreasury, hdeposit⟩ := validateManifest_valid hvalid
  split at h
  next => cases h
  next hlength =>
    rw [not_not] at hlength
    rw [Result.ok_bind htreasury, Result.ok_bind hdeposit] at h
    obtain ⟨hotkey, hhotkey, h⟩ := Result.bind_ok h
    obtain ⟨st, hloop, h⟩ := Result.bind_ok h
    split at h
    next => cases h
    next total htotal =>
      split at h
      next => cases h
      next hno =>
        simp only [not_or, not_and, not_not, Bool.not_eq_true, Option.isSome_eq_false_iff,
          Option.isNone_iff_eq_none, Bool.not_eq_false] at hno
        obtain ⟨hstage, hfunded, hpositions, htotal', hconsolidated, hdust, hbuyback, hdone⟩ := hno
        cases h
        exact ⟨rfl, treasury, deposit, hotkey, st, hvalid, hlength, hhotkey, hloop,
          htotal' ▸ htotal, hstage, hfunded, hpositions, hconsolidated, hdust, hbuyback, hdone⟩

end Buyback
