import Buyback.Run.ExactlyOnce
import Buyback.Run.Informed

/-!
# One extrinsic of an account at a time

An extrinsic that was sent and may still be included is the journal of a stored record, and
its signer is reserved for that job.  So of all the extrinsics that the engines have ever
sent from one account, whatever jobs they were for, at most one may still be included.  No
two of them compete for a nonce.
-/

namespace Buyback

open Resumption

/-- The extrinsic may still be included. -/
structure Finalized.Open (c : Finalized) (tx : PreparedTx) : Prop where
  absent : ∀ evs, ¬ c.Included tx.txHash evs
  window : ¬ c.PastMortality tx.birthBlock

section

variable [Ss58] {set : Setting}

/-- The only journal a process may store after it has prepared an extrinsic. -/
theorem Entry.Allows.journal_inv {E : Engine} {h : History rpc} {call : ChainCall}
    {signer : Keypair} {tx : PreparedTx} {new : PaymentRecord}
    (hg : (Entry.tick E).Allows (⟨.chain (.prepare call signer), .ok tx⟩ :: h)
      (.store (.update new))) :
    ∃ past r r' action token, Seen (⟨.chain (.prepare call signer), .ok tx⟩ :: h) r ∧
      E.Drives r ∧ E.Builds past r r' action call signer ∧ tx.call = call ∧
      tx.signer = ss58 signer ∧
      new = { r' with pending := some (tx.journal action call token) } := by
  obtain ⟨r, hseen, hw⟩ := hg.update_inv
  cases hw with
  | tick hi _ => exact hi.elim
  | journal hd hb hcall hsigner =>
      exact ⟨_, r, _, _, _, hseen, hd, hb, hcall, hsigner, rfl⟩

/-- What was sent was built for a job, and its journal was stored. -/
theorem Runs.journal {v : View set} (h : Runs set v) {tx : PreparedTx}
    (htx : tx ∈ v.state.chain.submitted) : ∃ i E past r r' action signer token,
      v.entries[i]? = some (.tick E) ∧ Seen (historyOf v.trace i) r ∧ E.Drives r ∧
      E.Builds past r r' action tx.call signer ∧ tx.signer = ss58 signer ∧
      Issued v.trace i r.id (tx.journal action tx.call token) ∧
      (i, ⟨.chain (.prepare tx.call signer), .ok tx⟩) ∈ v.trace := by
  obtain ⟨i, a, hmem⟩ := h.sent tx htx
  obtain ⟨e, he⟩ := h.entry hmem
  obtain ⟨later, past, heq⟩ := List.append_of_mem (mem_historyOf.mpr hmem)
  have hsubmit : _ :: past <:+ historyOf v.trace i := ⟨later, heq.symm⟩
  obtain ⟨hg, -⟩ := h.made he hsubmit
  cases hg with
  | plain _ hplain => cases hplain
  | @submit E _ r action call signer token _ t =>
      have hupdate := (List.suffix_cons _ _).trans hsubmit
      have hprepare := (List.suffix_cons _ _).trans hupdate
      obtain ⟨hjournal, -⟩ := h.made he hupdate
      obtain ⟨past', r₀, r', action', token', hseen, hd, hb, rfl, hsigner, hnew⟩ :=
        hjournal.journal_inv
      have hid := congrArg PaymentRecord.id hnew
      have hpending := congrArg PaymentRecord.pending hnew
      refine ⟨i, E, past', r₀, r', action', signer, token', he, hseen.mono hprepare, hd, hb,
        hsigner, ?_, mem_historyOf.mp (hprepare.subset (.head _))⟩
      exact ⟨_, mem_historyOf.mp (hupdate.subset (.head _)), _, t, rfl,
        hid.trans hb.keeps.1, hpending⟩

/-- What was prepared was signed. -/
theorem Runs.signed (htruth : set.truthful) {v : View set} (h : Runs set v) :
    ∀ i call signer tx, (i, ⟨.chain (.prepare call signer), .ok tx⟩) ∈ v.trace →
      tx ∈ v.state.chain.signed := by
  refine h.rule (P := fun v => ∀ i call signer tx,
    (i, ⟨.chain (.prepare call signer), .ok tx⟩) ∈ v.trace → tx ∈ v.state.chain.signed) ?_ ?_ ?_ ?_
  · exact fun w _ i call signer tx hmem => absurd hmem List.not_mem_nil
  · exact fun v e _ ih => ih
  · intro v i e ev w' _ ih _ _ he j call signer tx hmem
    obtain ⟨hsigned, hprepared⟩ := Journals.signed_cases htruth he
    rcases List.mem_cons.mp hmem with heq | hmem
    · cases heq
      exact (hprepared call signer tx rfl).1
    · exact hsigned (ih j call signer tx hmem)
  · exact fun v b free _ ih _ => ih

theorem Runs.submitted_signed (htruth : set.truthful) {v : View set} (h : Runs set v)
    {tx : PreparedTx} (htx : tx ∈ v.state.chain.submitted) : tx ∈ v.state.chain.signed := by
  obtain ⟨i, E, past, r, r', action, signer, token, -, -, -, -, -, -, hprepared⟩ := h.journal htx
  exact h.signed htruth i _ _ tx hprepared

/-- What may still be included is in flight. -/
theorem Runs.flying (htruth : set.truthful) {v : View set} (h : Runs set v) {i : ℕ} {j : String}
    {p : PendingTx} {tx : PreparedTx} (hp : Issued v.trace i j p)
    (hhash : p.txHash = tx.txHash) (hbirth : p.birthBlock = tx.birthBlock)
    (hopen : v.state.chain.Open tx) : ∃ r, v.state.store.get j = some r ∧ r.pending = some p := by
  obtain ⟨r, hget, hfate⟩ := (h.fates htruth).fate i j p hp
  cases hfate with
  | flying hpending _ => exact ⟨r, hget, hpending⟩
  | booked _ _ hok _ =>
      obtain ⟨evs, hin, -⟩ := hok
      exact absurd (hhash ▸ hin) (hopen.absent evs)
  | void _ _ hvoid =>
      rcases hvoid with hlost | ⟨evs, hin, -⟩
      · exact absurd (hbirth ▸ hlost.past) hopen.window
      · exact absurd (hhash ▸ hin) (hopen.absent evs)

/-- The extrinsics that were sent and may still be included, and the journals of the store. -/
structure OneOpen (w : World) : Prop where
  /-- It is the journal of a job, and its signer is reserved for that job. -/
  journaled : ∀ tx ∈ w.chain.submitted, w.chain.Open tx → ∃ id r p token,
    w.store.get id = some r ∧ r.pending = some p ∧ p.txHash = tx.txHash ∧ p.signer = tx.signer ∧
      w.store.signerReservations.lookup tx.signer = some ⟨id, token⟩
  /-- There is one for each account. -/
  alone : ∀ tx ∈ w.chain.submitted, ∀ tx' ∈ w.chain.submitted, tx.signer = tx'.signer →
    w.chain.Open tx → w.chain.Open tx' → tx = tx'

/-- At any time, at most one extrinsic of an account was sent and may still be included. -/
theorem one_open (htruth : set.truthful) {c : Resumption.Config (processes set)}
    (h : Resumption.Reachable (processes set) c) : OneOpen c.state := by
  have hr : Runs set c.view := runs_view h
  have hflying {tx : PreparedTx} (htx : tx ∈ c.state.chain.submitted)
      (hopen : c.state.chain.Open tx) : ∃ id r p, c.state.store.get id = some r ∧
        r.pending = some p ∧ p.txHash = tx.txHash ∧ p.signer = tx.signer ∧
        c.state.store.Owns id p := by
    obtain ⟨i, E, past, r, r', action, signer, token, -, -, -, -, -, hissued, -⟩ := hr.journal htx
    obtain ⟨cur, hget, hpending⟩ := hr.flying htruth hissued rfl rfl hopen
    exact ⟨_, cur, _, hget, hpending, rfl, rfl, hr.known.fenced.owns _ _ _ hget hpending⟩
  constructor
  case journaled =>
    intro tx htx hopen
    obtain ⟨id, r, p, hget, hp, hhash, hsigner, token, -, hrow⟩ := hflying htx hopen
    exact ⟨id, r, p, token, hget, hp, hhash, hsigner, hsigner ▸ hrow⟩
  case alone =>
    intro tx htx tx' htx' hsame hopen hopen'
    obtain ⟨id, r, p, hget, hp, hhash, hsigner, howns⟩ := hflying htx hopen
    obtain ⟨id', r', p', hget', hp', hhash', hsigner', howns'⟩ := hflying htx' hopen'
    obtain rfl := howns.job_eq howns' (hsigner.trans (hsame.trans hsigner'.symm))
    cases hget.symm.trans hget'
    cases hp.symm.trans hp'
    exact (hr.told htruth).consistent.hashes tx (hr.submitted_signed htruth htx) tx'
      (hr.submitted_signed htruth htx') (hhash.symm.trans hhash')

end

/-- The fees of the sample job are sent, and not yet finalized. -/
def sampleSent : List (Move (player calm)) := sampleJob ++ sampleTick 1 ++ serves 1 3

theorem sampleSent_sent : (playSample sampleSent).any (fun c =>
    c.state.chain.submitted.map PreparedTx.signer == ["xx"] &&
      (c.state.chain.blocks.length == 1 &&
        c.state.chain.blocks.all fun b => b.extrinsics.isEmpty)) = true := by
  decide

/-- The extrinsic of the sample job may still be included, and no other. -/
theorem sampleSent_open : ∃ (c : Resumption.Config (processes calm)) (tx : PreparedTx),
    tx ∈ c.state.chain.submitted ∧ c.state.chain.Open tx ∧ OneOpen c.state := by
  obtain ⟨c, hc, htest⟩ := playSample_any sampleSent_sent
  simp only [Bool.and_eq_true, beq_iff_eq, List.all_eq_true, List.isEmpty_iff] at htest
  obtain ⟨hsent, hlength, hempty⟩ := htest
  obtain ⟨tx, htx, -⟩ : ∃ tx ∈ c.state.chain.submitted, tx.signer = "xx" :=
    List.mem_map.mp (hsent ▸ .head _)
  refine ⟨c, tx, htx, ⟨?_, ?_⟩, one_open trivial hc⟩
  · rintro evs ⟨b, hb, hin⟩
    rw [hempty b hb] at hin
    cases hin
  · intro hpast
    rw [Finalized.PastMortality, hlength] at hpast
    have : mortality.toNat = 64 := rfl
    omega

end Buyback
