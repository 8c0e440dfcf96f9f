import Buyback.Run.Informed
import Buyback.System.Script

/-!
# Where the money goes

Every extrinsic the engines send is for a stored job, whose identity is that of the engine
that sends it.  It moves TAO or a position between the wallet of that job and the treasury
of the engine, or spends the budget of the job as it was set when the job was created.  A
swept position is moved on to the treasury hotkey.  There the engine moves the whole stake
the treasury has on that hotkey and netuid, as it has just read it, whatever else it holds.

This holds of any engines with any configurations, whatever the chain answers: an engine
for another treasury does not touch the job, and no version of a record names other
accounts.
-/

namespace Buyback

open Resumption

section

variable [Ss58]

/-- `r.Confined E h call signer`: what the engine may send for the job of `r` after the
history `h`, and the address that signs it. -/
inductive PaymentRecord.Confined (r : PaymentRecord) (E : Engine) (h : History rpc) :
    ChainCall → String → Prop where
  /-- Fees, to the wallet of the job. -/
  | fund {wallet : AccountId32} {need : UInt64} :
      ss58 wallet = r.address →
      r.Confined E h (.transferTao wallet need) (ss58 E.treasury)
  /-- A position that the wallet was seen to have on the netuid of the job, to the treasury. -/
  | sweep {wallet : AccountId32} {total : UInt64} {pos : List StakePosition}
      {p : StakePosition} :
      ss58 wallet = r.address →
      ⟨.chain (.alphaOn wallet r.netuid), .ok (total, pos)⟩ ∈ h →
      p ∈ pos →
      r.Confined E h (.transferStake E.treasury p.hotkey r.netuid p.alpha) r.address
  /-- What the treasury was seen to have on the hotkey of a swept position, to its own. -/
  | consolidate {position : String × UInt64} {hotkey : AccountId32} {live : UInt64} :
      position ∈ r.sweptPositions →
      parseSs58 position.1 = .ok hotkey →
      ⟨.chain (.alphaOf hotkey E.treasury r.netuid), .ok live⟩ ∈ h →
      r.Confined E h (.moveStake hotkey E.cfg.treasuryHotkey r.netuid live) (ss58 E.treasury)
  /-- What is left in the wallet, to the treasury. -/
  | returnDust : r.Confined E h (.transferAll E.treasury) r.address
  /-- The whole budget, and nothing less, for alpha on its hotkey and netuid. -/
  | buyStake {budget : BuybackBudget} {hotkey : AccountId32} {limitPrice : UInt64} :
      r.buybackBudget = some budget →
      parseSs58 budget.hotkey = .ok hotkey →
      r.Confined E h (.addStakeLimit hotkey budget.netuid budget.amountRao limitPrice false)
        (ss58 E.treasury)
  /-- The alpha that was bought, destroyed as the budget says. -/
  | destroy {budget : BuybackBudget} {hotkey : AccountId32} {b : BuybackReceipt} :
      r.buybackBudget = some budget →
      budget.destroy ≠ .keep →
      parseSs58 budget.hotkey = .ok hotkey →
      r.buyback = some b →
      r.Confined E h (destroyCall budget.destroy hotkey budget.netuid b.alphaBought)
        (ss58 E.treasury)

theorem Engine.wallet_address {E : Engine} {r : PaymentRecord} {wallet : Keypair}
    (h : E.wallet r = .ok wallet) : ss58 wallet = r.address := by
  unfold Engine.wallet at h
  split at h
  all_goals
    obtain ⟨w, -, hw⟩ := Result.bind_eq_ok.mp h
    dsimp only at hw
    split_ifs at hw with heq
    cases hw
    exact not_not.mp heq

/-- What an engine sends for a record, is confined to the job of any later version. -/
theorem Engine.Pays.confined {E : Engine} {h h' : History rpc} {r cur : PaymentRecord}
    {call : ChainCall} {signer : Keypair} (hp : E.Pays h r call signer) (hh : h <:+ h')
    (hterms : cur.terms = r.terms) (hprogress : r.Progress cur) :
    cur.Confined E h' call (ss58 signer) := by
  have haddress : cur.address = r.address := congrArg (·.request.address) hterms
  have hbudget : cur.buybackBudget = r.buybackBudget := congrArg Terms.buybackBudget hterms
  have hnetuid := PaymentRecord.netuid_congr hterms
  cases hp with
  | fund hw => exact .fund ((wallet_address hw).trans haddress.symm)
  | sweep hw halpha _ hmem _ =>
      have hwallet := (wallet_address hw).trans haddress.symm
      rw [← hnetuid] at halpha ⊢
      rw [hwallet]
      exact .sweep hwallet (hh.subset halpha) hmem
  | consolidate hmem hparse hlive =>
      rw [← hnetuid] at hlive ⊢
      exact .consolidate (hprogress.positions.subset hmem) hparse (hh.subset hlive)
  | returnDust hw _ _ =>
      rw [wallet_address hw, ← haddress]
      exact .returnDust
  | buyStake hb hparse _ => exact .buyStake (hbudget.trans hb) hparse
  | destroy hb hkeep hparse hbuyback =>
      obtain ⟨b', hb', hsame⟩ := hprogress.purchase _ hbuyback
      rw [← hsame.alphaBought]
      exact .destroy (hbudget.trans hb) hkeep hparse hb'

variable {set : Setting}

/-- In the run up to `v` an engine has sent the extrinsic for the job of `r`, which has the
identity of the engine, and it is confined to that job. -/
def PaymentRecord.Spends (r : PaymentRecord) (v : View set) (tx : PreparedTx) : Prop :=
  ∃ i E a past, v.entries[i]? = some (.tick E) ∧
    ⟨.chain (.submitAndWatch tx), a⟩ :: past <:+ historyOf v.trace i ∧
    r.identity = some E.jobIdentity ∧ r.Confined E past tx.call tx.signer

/-- Every extrinsic that was sent, was sent for a stored job and is confined to it. -/
theorem sent_confined {c : Resumption.Config (processes set)}
    (h : Resumption.Reachable (processes set) c) {tx : PreparedTx}
    (htx : tx ∈ c.state.chain.submitted) :
    ∃ id r, c.state.store.get id = some r ∧ r.Spends c.view tx := by
  have hv := informed_view h
  obtain ⟨i, E, a, past, start, r, signer, he, hsubmit, hstart, hs, hidentity, hsigner, hpays⟩ :=
    hv.pays htx
  have hs := hs.mono (hstart.trans ((List.suffix_cons _ _).trans hsubmit))
  obtain ⟨cur, hcur, hfixed⟩ := (Informed.runs hv).fixed hs
  obtain ⟨cur', hcur', hbefore⟩ := (Informed.runs hv).known.seen hs
  cases hcur.symm.trans hcur'
  refine ⟨r.id, cur, hcur, i, E, a, past, he, hsubmit, ?_,
    hsigner ▸ hpays.confined hstart hfixed.terms hbefore.progress⟩
  exact (PaymentRecord.identity_congr hfixed.terms).trans hidentity

end

theorem sampleFunded_sent : (playSample sampleFunded).any (fun c =>
    c.state.chain.submitted.map PreparedTx.call == [.transferTao 3 1500]) = true := by
  decide

/-- The fees of the sample job went from the treasury to its wallet. -/
theorem sampleFunded_confined : ∃ (c : Resumption.Config (processes calm)) (tx : PreparedTx),
    tx.call = .transferTao 3 1500 ∧
      ∃ id r, c.state.store.get id = some r ∧ r.Spends c.view tx := by
  obtain ⟨c, hc, htest⟩ := playSample_any sampleFunded_sent
  rw [beq_iff_eq] at htest
  obtain ⟨tx, htx, hcall⟩ : ∃ tx ∈ c.state.chain.submitted, tx.call = .transferTao 3 1500 :=
    List.mem_map.mp (htest ▸ .head _)
  exact ⟨c, tx, hcall, sent_confined hc htx⟩

end Buyback
