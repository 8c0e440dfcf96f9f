import Buyback.Counters.Charged
import Buyback.Run.Books
import Buyback.Run.Sent

/-!
# Purchases stay within the budgets

What the engines have bought with the TAO of a treasury, and what they may still buy with
extrinsics that are out, is no more than the jobs of that treasury have set aside.  Each
purchase is charged to the job it was sent for.  It spends exactly the budget of that job,
and of two purchases of one job at most one has an effect.
-/

namespace Buyback

open Resumption

/-- The call spends TAO of its signer on alpha. -/
def ChainCall.buys : ChainCall → Bool
  | .addStakeLimit .. => true
  | _ => false

/-- The extrinsic has succeeded, or may still succeed. -/
def Finalized.Stands (c : Finalized) (tx : PreparedTx) : Prop := c.Succeeded tx.txHash ∨ c.Open tx

/-- What a job sets aside of the TAO of a treasury. -/
def PaymentRecord.setAside (treasury : String) (r : PaymentRecord) : ℕ :=
  if (r.identity.any fun j => j.treasury == treasury) = true then
    (r.buybackBudget.map fun b => b.amountRao.toNat).getD 0
  else 0

/-- The records of a store. -/
def SqliteStore.records (s : SqliteStore) : List PaymentRecord :=
  s.payments.entries.map fun row => row.2.record

theorem SqliteStore.mem_records {s : SqliteStore} {id : String} {r : PaymentRecord}
    (h : s.get id = some r) : r ∈ s.records := by
  obtain ⟨row, hrow, rfl⟩ := Option.map_eq_some_iff.mp h
  exact List.mem_map.mpr ⟨_, AList.mem_lookup_iff.mp hrow, rfl⟩

/-- What stands is not void. -/
theorem Finalized.Stands.not_void {c : Finalized} {tx : PreparedTx} {p : PendingTx}
    (hc : c.Consistent) (hp : c.Backs p) (hhash : p.txHash = tx.txHash)
    (hbirth : p.birthBlock = tx.birthBlock) (h : c.Stands tx) : ¬ c.Void p := by
  intro hvoid
  rcases h with hok | hopen
  · exact hvoid.not_succeeded hc hp (hhash ▸ hok)
  · rcases hvoid with hlost | ⟨evs, hin, -⟩
    · exact hopen.window (hbirth ▸ hlost.past)
    · exact hopen.absent evs (hhash ▸ hin)

section

variable [Ss58] {set : Setting}

/-- A purchase is journaled as one, and spends the budget of its job. -/
theorem Engine.Builds.purchase {E : Engine} {h : History rpc} {r r' : PaymentRecord}
    {action : Action} {call : ChainCall} {signer : Keypair}
    (hb : E.Builds h r r' action call signer) (hbuys : call.buys = true) :
    action.key = .buyStake ∧ signer = E.treasury ∧ ∃ budget, r.buybackBudget = some budget ∧
      call.amount = budget.amountRao := by
  cases hb with
  | buyStake _ _ _ _ _ hbudget _ _ _ _ => exact ⟨rfl, rfl, _, hbudget, rfl⟩
  | @destroy _ budget _ _ _ _ _ _ _ _ _ _ _ _ _ =>
      cases hd : budget.destroy <;> rw [hd] at hbuys <;> cases hbuys
  | _ => cases hbuys

/-- The purchase `tx` was sent for the job of the stored record `r`. -/
def Bought (v : View set) (tx : PreparedTx) (r : PaymentRecord) : Prop :=
  ∃ i p, Issued v.trace i r.id p ∧ p.txHash = tx.txHash ∧ p.birthBlock = tx.birthBlock ∧
    p.action.key = .buyStake

/-- A purchase was sent for a stored job, and spends what that job has set aside. -/
theorem Informed.bought {v : View set} (h : Informed set v) {tx : PreparedTx}
    (htx : tx ∈ v.state.chain.submitted) (hbuys : tx.call.buys = true) :
    ∃ r ∈ v.state.store.records, Bought v tx r ∧ tx.call.amount.toNat = r.setAside tx.signer := by
  have hr : Runs set v := Informed.runs h
  obtain ⟨i, E, past, r, r', action, signer, token, -, hseen, hd, hb, hsigner, hissued, -⟩ :=
    hr.journal htx
  obtain ⟨hkey, rfl, budget, hbudget, hamount⟩ := hb.purchase hbuys
  obtain ⟨cur, hget, hfixed⟩ := hr.fixed hseen
  have hid : cur.id = r.id := congrArg (·.request.id) hfixed.terms
  refine ⟨cur, SqliteStore.mem_records hget, ⟨i, _, hid ▸ hissued, rfl, rfl, hkey⟩, ?_⟩
  have hidentity := (PaymentRecord.identity_congr hfixed.terms).trans hd.identity
  have hbudget' : cur.buybackBudget = some budget :=
    (congrArg Terms.buybackBudget hfixed.terms).trans hbudget
  rw [PaymentRecord.setAside, hidentity, hbudget', hamount, hsigner]
  exact (if_pos (beq_self_eq_true _)).symm

/-- Of the purchases for one job, one stands. -/
theorem Runs.one_purchase (htruth : set.truthful) {v : View set} (h : Runs set v)
    {tx tx' : PreparedTx} {r : PaymentRecord} (htx : tx ∈ v.state.chain.submitted)
    (htx' : tx' ∈ v.state.chain.submitted) (hstands : v.state.chain.Stands tx)
    (hstands' : v.state.chain.Stands tx') (hb : Bought v tx r) (hb' : Bought v tx' r) :
    tx = tx' := by
  obtain ⟨i, p, hp, hhash, hbirth, hkey⟩ := hb
  obtain ⟨i', p', hp', hhash', hbirth', hkey'⟩ := hb'
  have hj := h.journals htruth
  have hc := (h.told htruth).consistent
  refine hc.hashes tx (h.submitted_signed htruth htx) tx' (h.submitted_signed htruth htx') ?_
  by_contra hne
  have hne : p.txHash ≠ p'.txHash := fun heq => hne (hhash.symm.trans (heq.trans hhash'))
  rcases (h.fates htruth).clash _ _ _ _ _ hp hp' hne (hkey.trans hkey'.symm) with hvoid | hvoid
  · exact hstands.not_void hc (hj.backs _ _ _ hp) hhash hbirth hvoid
  · exact hstands'.not_void hc (hj.backs _ _ _ hp') hhash' hbirth' hvoid

/-- All the purchases of a treasury that stand are covered by the budgets of its jobs. -/
theorem spent_within_budgets (htruth : set.truthful) {c : Resumption.Config (processes set)}
    (h : Resumption.Reachable (processes set) c) {treasury : String} {txs : List PreparedTx}
    (hnodup : txs.Nodup) (hbought : ∀ tx ∈ txs, tx ∈ c.state.chain.submitted ∧
      tx.call.buys = true ∧ tx.signer = treasury ∧ c.state.chain.Stands tx) :
    (txs.map fun tx => tx.call.amount.toNat).sum ≤
      (c.state.store.records.map (PaymentRecord.setAside treasury)).sum := by
  have hv := informed_view h
  refine Counters.sum_le_of_charged (R := Bought c.view) hnodup ?_ ?_
  · intro tx hmem
    obtain ⟨htx, hbuys, rfl, -⟩ := hbought tx hmem
    obtain ⟨r, hr, hb, hamount⟩ := Informed.bought hv htx hbuys
    exact ⟨r, hr, hb, hamount.le⟩
  · intro tx hmem tx' hmem' r hb hb'
    obtain ⟨htx, -, -, hstands⟩ := hbought tx hmem
    obtain ⟨htx', -, -, hstands'⟩ := hbought tx' hmem'
    exact (Informed.runs hv).one_purchase htruth htx htx' hstands hstands' hb hb'

end

/-- Whether the extrinsic `hash` is in a block, with success. -/
def succeeds (c : Finalized) (hash : String) : Bool :=
  c.blocks.any fun b => b.extrinsics.any fun x => x.1 == hash && !Events.failed x.2

theorem succeeded_of_succeeds {c : Finalized} {hash : String} (h : succeeds c hash = true) :
    c.Succeeded hash := by
  simp only [succeeds, List.any_eq_true, Bool.and_eq_true, beq_iff_eq, Bool.not_eq_true'] at h
  obtain ⟨b, hb, ⟨_, evs⟩, hin, rfl, hok⟩ := h
  exact ⟨evs, ⟨b, hb, hin⟩, hok⟩

theorem sampleSettled_spends : (playSample sampleSettled).any (fun c =>
    c.state.chain.submitted.any fun tx =>
      (tx.call.buys && tx.signer == "xx") &&
        (tx.call.amount == 6000000 && succeeds c.state.chain tx.txHash)) = true := by
  decide +kernel

/-- The purchase of the sample job is within the budgets of the treasury. -/
theorem sampleSettled_within : ∃ c : Resumption.Config (processes calm),
    6000000 ≤ (c.state.store.records.map (PaymentRecord.setAside "xx")).sum := by
  obtain ⟨c, hc, htest⟩ := playSample_any sampleSettled_spends
  simp only [List.any_eq_true, Bool.and_eq_true, beq_iff_eq] at htest
  obtain ⟨tx, htx, ⟨hbuys, hsigner⟩, hamount, hok⟩ := htest
  have hspent : ([tx].map fun tx => tx.call.amount.toNat).sum ≤
      (c.state.store.records.map (PaymentRecord.setAside "xx")).sum := by
    refine spent_within_budgets trivial hc (List.nodup_singleton tx) fun tx' h' => ?_
    cases List.mem_singleton.mp h'
    exact ⟨htx, hbuys, hsigner, .inl (succeeded_of_succeeds hok)⟩
  rw [List.map_singleton, List.sum_singleton, hamount] at hspent
  exact ⟨c, hspent⟩

end Buyback
