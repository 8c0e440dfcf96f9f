import Buyback.Run.ExactlyOnce
import Buyback.Run.Reserved

/-!
# The fee reserve

An engine reads the balance of the treasury, checks it against the reserve, and
only then reserves the signer.  From the grant on no extrinsic of the treasury can
land, so its balance does not fall.  But between the read and the grant another
engine may spend.  The reserve is kept in every run in which each grant finds the
balance that was read.
-/

namespace Buyback

open Resumption

section

variable [Ss58] {set : Setting}

/-- The process holds a reservation for which it has read the balance `free` of `who`. -/
inductive Purchasing : History rpc → AccountId32 → UInt64 → Prop where
  | reserved {r : PaymentRecord} {token : String} {netuid : UInt16} {price ed free : UInt64}
      {who : AccountId32} {rest : History rpc} :
      Purchasing (⟨.store (.reserveSignerForRecord (ss58 who) r), .ok token⟩ ::
        ⟨.chain (.alphaPrice netuid), .ok price⟩ :: ⟨.chain .existentialDeposit, .ok ed⟩ ::
        ⟨.chain (.freeBalance who), .ok free⟩ :: rest) who free
  | prepared {call : ChainCall} {signer : Keypair} {a : Result PreparedTx} {r : PaymentRecord}
      {token : String} {netuid : UInt16} {price ed free : UInt64} {who : AccountId32}
      {rest : History rpc} :
      Purchasing (⟨.chain (.prepare call signer), a⟩ ::
        ⟨.store (.reserveSignerForRecord (ss58 who) r), .ok token⟩ ::
        ⟨.chain (.alphaPrice netuid), .ok price⟩ :: ⟨.chain .existentialDeposit, .ok ed⟩ ::
        ⟨.chain (.freeBalance who), .ok free⟩ :: rest) who free

theorem Purchasing.holds {h : History rpc} {who : AccountId32} {free : UInt64}
    (hp : Purchasing h who free) : ∃ job token, Holds h (ss58 who) job token := by
  cases hp with
  | reserved => exact ⟨_, _, .reserved⟩
  | prepared => exact ⟨_, _, .prepared⟩

/-- A process that holds a reservation for a purchase has just got it, or held it. -/
theorem purchasing_cons {trace : List (Nat × Event rpc)} {i k : ℕ} {ev : Event rpc}
    {who : AccountId32} {free : UInt64}
    (h : Purchasing (historyOf ((k, ev) :: trace) i) who free) :
    (i = k ∧ ∃ r token netuid price ed rest,
      ev = ⟨.store (.reserveSignerForRecord (ss58 who) r), .ok token⟩ ∧
      historyOf trace i = ⟨.chain (.alphaPrice netuid), .ok price⟩ ::
        ⟨.chain .existentialDeposit, .ok ed⟩ :: ⟨.chain (.freeBalance who), .ok free⟩ :: rest) ∨
      Purchasing (historyOf trace i) who free := by
  by_cases hik : i = k
  · subst hik
    rw [historyOf_cons_self] at h
    generalize historyOf trace i = rest at h ⊢
    cases h with
    | reserved => exact .inl ⟨rfl, _, _, _, _, _, _, rfl, rfl⟩
    | prepared => exact .inr .reserved
  · rw [historyOf_cons_ne (Ne.symm hik)] at h
    exact .inr h

/-! ## Nothing lands while a reservation is held -/

/-- No block includes an extrinsic of a signer whose reservation is held. -/
theorem Runs.not_included (htruth : set.truthful) {v : View set} (hr : Runs set v) {i : ℕ}
    {signer job token : String} (hh : Holds (historyOf v.trace i) signer job token) {b : Block}
    {free : AccountId32 → UInt64} (ha : v.state.chain.Appends set.own b free) {tx : PreparedTx}
    (htx : tx ∈ v.state.chain.signed) (hsigner : tx.signer = signer) {evs : Events} :
    (tx.txHash, evs) ∉ b.extrinsics := by
  intro hin
  have hj := hr.journals htruth
  obtain ⟨k, j, p, hp, hhash⟩ := hj.sent tx (ha.submitted tx htx evs hin)
  obtain ⟨tx', htx', hhash', hbirth, hsigner'⟩ := hj.backs k j p hp
  cases (hr.told htruth).consistent.hashes tx' htx' tx htx (hhash'.trans hhash)
  obtain ⟨hnew, -⟩ := ha.once tx htx evs hin
  obtain ⟨r, hget, hfate⟩ := (hr.fates htruth).fate k j p hp
  cases hfate with
  | flying hpending _ =>
      exact hr.reserved.not_journaled hr.known hr.traced hh j r p hget hpending
        (hsigner'.symm.trans hsigner)
  | booked _ _ hok _ =>
      obtain ⟨evs', hin', -⟩ := hok
      exact hnew evs' (hhash ▸ hin')
  | void _ _ hvoid =>
      rcases hvoid with hlost | ⟨evs', hin', -⟩
      · exact (ha.window tx htx evs hin).2 (hbirth ▸ hlost.past)
      · exact hnew evs' (hhash ▸ hin')

/-- What the processes read of the existential deposit is the existential deposit. -/
theorem Runs.deposit (htruth : set.truthful) {v : View set} (h : Runs set v) :
    ∀ i ed, (i, ⟨.chain .existentialDeposit, .ok ed⟩) ∈ v.trace →
      ed = v.state.chain.existentialDeposit := by
  refine h.rule (P := fun v => ∀ i ed, (i, ⟨.chain .existentialDeposit, .ok ed⟩) ∈ v.trace →
    ed = v.state.chain.existentialDeposit) ?_ ?_ ?_ ?_
  · exact fun w _ i ed hmem => absurd hmem List.not_mem_nil
  · exact fun v e _ ih => ih
  · intro v i e ev w' _ ih _ _ he k ed hmem
    have hkept : w'.chain.existentialDeposit = v.state.chain.existentialDeposit := by
      cases he <;> rfl
    dsimp only
    rw [hkept]
    rcases List.mem_cons.mp hmem with heq | hmem
    · cases heq
      cases he with
      | silent hs _ =>
          cases hs with
          | answered ha => exact ha
          | claimed hfalse => exact absurd htruth hfalse
    · exact ih k ed hmem
  · exact fun v b free _ ih _ => ih

/-! ## The reserve -/

/-- If the step grants a reservation for a purchase, the balance has not fallen below
what the process has read. -/
def FreshRead (c c' : Resumption.Config (processes set)) : Prop :=
  ∀ i r token netuid price ed who free rest,
    c'.trace = (i, ⟨.store (.reserveSignerForRecord (ss58 who) r), .ok token⟩) :: c.trace →
    historyOf c.trace i = ⟨.chain (.alphaPrice netuid), .ok price⟩ ::
      ⟨.chain .existentialDeposit, .ok ed⟩ :: ⟨.chain (.freeBalance who), .ok free⟩ :: rest →
    free ≤ c.state.chain.free who

/-- If the step stores the journal of a purchase, the treasury can pay for it and keep
the reserve and the existential deposit. -/
def KeepsReserve (c c' : Resumption.Config (processes set)) : Prop :=
  ∀ i E new now p netuid limitPrice, c.view.entries[i]? = some (.tick E) → set.own E.treasury →
    c'.trace = (i, ⟨.store (.update new), .ok now⟩) :: c.trace →
    new.pending = some p → p.action = .buyStake netuid limitPrice →
    p.amount.toNat + E.cfg.feeReserve.toNat + c.state.chain.existentialDeposit.toNat ≤
      (c.state.chain.free E.treasury).toNat

/-- The balances that were read for the purchases in progress are still there. -/
def Solvent (c : Resumption.Config (processes set)) : Prop :=
  ∀ i who free, set.own who → Purchasing (historyOf c.trace i) who free →
    free ≤ c.state.chain.free who

theorem Solvent.step (htruth : set.truthful) {c c' : Resumption.Config (processes set)}
    (h : Resumption.Reachable (processes set) c) (hs : Step (processes set) c c')
    (hread : FreshRead c c') (hsolvent : Solvent c) : Solvent c' := by
  have hr : Runs set c.view := runs_view h
  intro i who free hown hp
  cases hs with
  | spawn e => exact hsolvent i who free hown hp
  | crash _ _ => exact hsolvent i who free hown hp
  | env hf =>
      cases hf with
      | block ha =>
          have hbefore := hsolvent i who free hown hp
          obtain ⟨job, token, hh⟩ := hp.holds
          by_contra hlt
          -- the balance falls only with an extrinsic of the treasury
          obtain ⟨tx, htx, hsigner, evs, hin⟩ := ha.spends who hown
            (UInt64.lt_of_lt_of_le (UInt64.not_le.mp hlt) hbefore)
          exact hr.not_included htruth hh ha htx hsigner hin
  | @exec k e o next a w' hproc hserve =>
      have hg := h.allowed (processes_meet set) hproc
      have he := hr.known.effect hg hserve
      have hfree : w'.chain.free = c.state.chain.free := by cases he <;> rfl
      rw [hfree]
      rcases purchasing_cons hp with ⟨rfl, r, token, netuid, price, ed, rest, hev, hhist⟩ | hold
      · exact hread i r token netuid price ed who free rest (by rw [hev]) hhist
      · exact hsolvent i who free hown hold

omit [Ss58] in
/-- The check of the engine, with the balance it has read. -/
theorem covers_of_strict {requested free feeReserve ed : UInt64}
    (h : strictBuybackAmount requested (spendable free feeReserve ed) = .ok requested) :
    requested.toNat + feeReserve.toNat + ed.toNat ≤ free.toNat := by
  unfold strictBuybackAmount at h
  split_ifs at h with hmin hless
  refine le_free_of_le_spendable ?_ (UInt64.not_lt.mp hless)
  have hmin := UInt64.le_iff_toNat_le.mp (UInt64.not_lt.mp hmin)
  exact Nat.lt_of_lt_of_le (by decide) hmin

/-- In every run whose grants find the balance that was read, the journal of a purchase
leaves the reserve. -/
theorem keeps_reserve (htruth : set.truthful) {w : World} (hw : w.Fresh)
    {c c' : Resumption.Config (processes set)}
    (hrun : RunIf (processes set) FreshRead ⟨w, [], []⟩ c) (hs : Step (processes set) c c') :
    KeepsReserve c c' := by
  have hinit : Resumption.Reachable (processes set) ⟨w, [], []⟩ := .init hw
  have h : Resumption.Reachable (processes set) c := hinit.run (RunIf.run hrun)
  have hr : Runs set c.view := runs_view h
  have hsolvent : Solvent c := by
    refine hrun.rule hinit ?_ fun a b ha ih hstep hread => ih.step htruth ha hstep hread
    intro i who free _ hp
    obtain ⟨job, token, hh⟩ := hp.holds
    cases hh
  intro i E new now p netuid limitPrice he hown htrace hp haction
  cases serving h hs with
  | quiet _ hsame => exact absurd (htrace.symm.trans hsame) (List.cons_ne_self _ _)
  | event hei hg heff hcons =>
      obtain ⟨heq, -⟩ := List.cons.inj (htrace.symm.trans hcons)
      cases heq
      cases hei.symm.trans he
      have hdeposit := hr.deposit htruth
      have hbalance := hsolvent i E.treasury
      obtain ⟨r, -, hw⟩ := hg.update_inv
      obtain ⟨call, signer, tx, token, r', action, rest, hhist, -⟩ :=
        (heff.launch ⟨new, now, rfl, rfl, hp⟩).prepared
      have hidle (hi : Idle (historyOf c.trace i)) : False := by
        rw [hhist] at hi
        exact hi
      have hmem {ev : Event rpc} (hev : ev ∈ historyOf c.trace i) : (i, ev) ∈ c.trace :=
        mem_historyOf.mp hev
      generalize historyOf c.trace i = hist at hw hidle hmem hbalance
      cases hw with
      | tick hi _ => exact (hidle hi).elim
      | journal _ hb hcall _ =>
          cases hp
          simp only [PreparedTx.journal] at haction
          subst haction
          cases hb with
          | buyStake _ _ _ _ _ _ _ _ hread hstrict =>
              subst hread
              have hfree := UInt64.le_iff_toNat_le.mp (hbalance _ hown .prepared)
              have hed : _ = c.state.chain.existentialDeposit :=
                hdeposit i _ (hmem (.tail _ (.tail _ (.tail _ (.head _)))))
              rw [← hed]
              exact (covers_of_strict hstrict).trans hfree

end

/-- Two jobs with a budget each, with nothing to fund or to sweep. -/
def twoJobs : List (Move (player calm)) :=
  start (.createSweepJob (sampleEngine (some sampleBudget)) "job'" "path" "xxx" none) ::
    serves 0 4 ++
    start (.createSweepJob (sampleEngine (some sampleBudget)) "job" "path" "xxx" none) ::
    serves 1 4 ++ budgetTick 2 20 ++ budgetTick 3 20

/-- One engine reads the balance for one job.  Another buys for the other job, and then
the first one reserves the treasury. -/
def staleRead : List (Move (player calm)) :=
  twoJobs ++ budgetTick 4 2 ++ serve 4 (.refuse (.chain "timeout")) :: serves 4 6 ++
    budgetTick 5 1 ++ serve 5 (.time 100) :: serves 5 7 ++
    finalize [("0x", sampleBought)] (some (2, 3999000)) :: serves 5 2 ++ serves 4 2

/-- Whether the event stores the journal of a purchase that breaks the reserve of `E`. -/
def breaks (E : Engine) (c : Finalized) (ev : Event rpc) : Bool :=
  match ev with
  | ⟨.store (.update new), .ok _⟩ =>
      new.pending.any fun p =>
        (match p.action with
          | .buyStake .. => true
          | _ => false) &&
        decide ((c.free E.treasury).toNat <
          p.amount.toNat + E.cfg.feeReserve.toNat + c.existentialDeposit.toNat)
  | _ => false

theorem of_breaks {E : Engine} {c : Finalized} {ev : Event rpc} (h : breaks E c ev = true) :
    ∃ new now p netuid limitPrice, ev = ⟨.store (.update new), .ok now⟩ ∧ new.pending = some p ∧
      p.action = .buyStake netuid limitPrice ∧ (c.free E.treasury).toNat <
        p.amount.toNat + E.cfg.feeReserve.toNat + c.existentialDeposit.toNat := by
  unfold breaks at h
  split at h
  next new now =>
    simp only [Option.any_eq_true, Bool.and_eq_true, decide_eq_true_eq] at h
    obtain ⟨p, hp, haction, hlt⟩ := h
    split at haction
    next netuid limitPrice ha => exact ⟨new, now, p, netuid, limitPrice, rfl, hp, ha, hlt⟩
    next => cases haction
  next => cases h

theorem staleRead_short : (playSample staleRead).any (fun c =>
    (Config.move (player calm) c (serve 4 .usual)).any fun c' =>
      decide (c.trace.length < c'.trace.length) &&
        match c.procs[4]?, c'.trace with
        | some (Entry.tick E, _), x :: _ => breaks E c.state.chain x.2
        | _, _ => false) = true := by
  decide +kernel

/-- The journal of the second purchase breaks the reserve. -/
theorem staleRead_breaks : ∃ c c' : Resumption.Config (processes calm),
    Resumption.Reachable (processes calm) c ∧ Step (processes calm) c c' ∧ ¬ KeepsReserve c c' := by
  obtain ⟨c, hc, htest⟩ := playSample_any staleRead_short
  simp only [Option.any_eq_true, Bool.and_eq_true, decide_eq_true_eq] at htest
  obtain ⟨c', hmove, hlt, htest⟩ := htest
  obtain ⟨hs, ev, htrace⟩ := Config.move_serve hmove hlt
  rw [htrace] at htest
  refine ⟨c, c', hc, hs, fun hkeeps => ?_⟩
  split at htest
  next E _ x _ hproc heq =>
    cases heq
    obtain ⟨new, now, p, netuid, limitPrice, rfl, hp, haction, hshort⟩ := of_breaks htest
    have he : c.view.entries[4]? = some (.tick E) := by simp [Resumption.Config.view, hproc]
    exact Nat.not_le.mpr hshort
      (hkeeps 4 E new now p netuid limitPrice he trivial htrace hp haction)
  next => cases htest

/-- Whether a step that grants a reservation for a purchase finds the balance that was read. -/
def freshRead (c c' : Resumption.Config (processes calm)) : Bool :=
  match c'.trace with
  | (i, ⟨.store (.reserveSignerForRecord ..), .ok _⟩) :: _ =>
      match historyOf c.trace i with
      | _ :: _ :: ⟨.chain (.freeBalance who), .ok free⟩ :: _ =>
          decide (free ≤ c.state.chain.free who)
      | _ => true
  | _ => true

theorem of_freshRead (c c' : Resumption.Config (processes calm)) (h : freshRead c c' = true) :
    FreshRead c c' := by
  intro i r token netuid price ed who free rest htrace hhist
  rw [freshRead, htrace] at h
  simp only [hhist, decide_eq_true_eq] at h
  exact h

/-- The journal of a purchase, by an engine that is alone. -/
def freshPurchase : List (Move (player calm)) := sampleSwept ++ budgetTick 3 7

theorem freshPurchase_pays :
    (Config.playIf (player calm) freshRead ⟨sampleWorld, [], []⟩ freshPurchase).any (fun c =>
      (Config.move (player calm) c (serve 3 .usual)).any fun c' =>
        decide (c.trace.length < c'.trace.length) &&
          (c'.state.store.get "job").any fun r => r.pending.any fun p => p.amount == 6000000) =
      true := by
  decide +kernel

/-- An engine that is alone keeps the reserve. -/
theorem freshPurchase_keeps : ∃ c c' : Resumption.Config (processes calm),
    (∃ r p, c'.state.store.get "job" = some r ∧ r.pending = some p ∧ p.amount = 6000000) ∧
      KeepsReserve c c' := by
  have h := freshPurchase_pays
  simp only [Option.any_eq_true, Bool.and_eq_true, beq_iff_eq, decide_eq_true_eq] at h
  obtain ⟨c, hplay, c', hmove, hlt, r, hget, p, hp, hamount⟩ := h
  obtain ⟨hs, -⟩ := Config.move_serve hmove hlt
  exact ⟨c, c', ⟨r, p, hget, hp, hamount⟩,
    keeps_reserve trivial sampleWorld_fresh (Config.playIf_run of_freshRead hplay) hs⟩

end Buyback
