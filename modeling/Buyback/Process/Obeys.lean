import Buyback.Process.Guarantee

/-!
# Every process keeps to its guarantee

Each program of the engine makes only requests its entry allows, and it never
stops, or passes to the next payment, while it holds a reservation it has not
journaled.  There is one lemma for each function, in the order of the source.
The rules below run a program one request at a time.
-/

namespace Buyback

open Resumption

section Rules

theorem Op.Plain.idle {h : History rpc} {o : Op} (ho : o.Plain) (a : o.Ans) :
    Idle (⟨o, a⟩ :: h) := by
  cases o with
  | store o => cases o <;> trivial
  | chain o => cases o <;> trivial
  | host o => trivial

variable [Ss58] {α β : Type} {e : Entry} {h : History rpc} {r : PaymentRecord}

/-- The program makes only requests the entry allows and ends with no
reservation to journal. -/
def Entry.Obeys (e : Entry) (h : History rpc) (p : Prog α) : Prop :=
  p.Sat Relies e.Allows h fun h' _ => Idle h'

namespace Entry.Obeys

theorem done {x : Result α} (hi : Idle h) : e.Obeys h (.done x : Prog α) := hi

/-- A fallible function in the middle of a program. -/
theorem lift {x : Result α} {f : α → Prog β} (hi : Idle h)
    (hf : ∀ a, x = .ok a → e.Obeys h (f a)) : e.Obeys h ((Program.done x).bind f) := by
  cases x with
  | ok a => exact hf a rfl
  | error err => exact hi

/-- A sequence of two programs. -/
theorem bind {p : Prog α} {f : α → Prog β} (hp : e.Obeys h p)
    (hf : ∀ h' a, h <:+ h' → Idle h' → e.Obeys h' (f a)) : e.Obeys h (p.bind f) :=
  Program.Sat.bind hp hf fun _ _ _ hi => hi

/-- A program whose error is handed on as a value. -/
theorem attempt {p : Prog α} {f : Result α → Prog β} (hp : e.Obeys h p)
    (hf : ∀ h' x, h <:+ h' → Idle h' → e.Obeys h' (f x)) :
    e.Obeys h (p.attempt.bind f) := by
  refine Program.Sat.bind (P := fun h' _ => Idle h') ?_ hf fun _ _ _ hi => hi
  rw [Program.sat_attempt]
  exact hp

/-- A request any process may make. -/
theorem plain {o : Op} {answer : o.Ans → Result α} {f : α → Prog β} (hi : Idle h) (ho : o.Plain)
    (hf : ∀ a x, Relies o a → answer a = .ok x → e.Obeys (⟨o, a⟩ :: h) (f x)) :
    e.Obeys h ((Program.request (I := rpc) o answer).bind f) := by
  rw [Entry.Obeys, Program.sat_request_bind]
  refine ⟨.plain hi ho, fun a ha => ?_⟩
  cases hx : answer a with
  | ok x => exact hf a x ha hx
  | error err => exact ho.idle a

theorem store {o : StoreOp} {f : o.Ret → Prog β} (hi : Idle h) (ho : (Op.store o).Plain)
    (hf : ∀ x, e.Obeys (⟨.store o, .ok x⟩ :: h) (f x)) : e.Obeys h ((Prog.store o).bind f) :=
  plain hi ho fun a x _ (hx : a = Except.ok x) => by subst hx; exact hf x

theorem chain {o : ChainOp} {f : o.Ret → Prog β} (hi : Idle h) (ho : (Op.chain o).Plain)
    (hf : ∀ x, Relies (.chain o) (.ok x) → e.Obeys (⟨.chain o, .ok x⟩ :: h) (f x)) :
    e.Obeys h ((Prog.chain o).bind f) :=
  plain hi ho fun a x ha (hx : a = Except.ok x) => by subst hx; exact hf x ha

/-- A request of the host whose answer the result does not depend on. -/
theorem host {o : HostOp} {answer : o.Ans → Result α} {f : α → Prog β} (hi : Idle h)
    (hf : ∀ a x, e.Obeys (⟨.host o, a⟩ :: h) (f x)) :
    e.Obeys h ((Program.request (I := rpc) (.host o) answer).bind f) :=
  plain hi trivial fun a x _ _ => hf a x

/-- The clock, where the result depends on it. -/
theorem now {f : UInt64 → Prog β} (hi : Idle h)
    (hf : ∀ t : UInt64, e.Obeys (⟨.host .now, t⟩ :: h) (f t)) : e.Obeys h (Prog.now.bind f) :=
  plain hi trivial fun a x _ (hx : Except.ok a = Except.ok x) => by cases hx; exact hf a

theorem ite {c : Prop} [Decidable c] {p q : Prog α} (hp : c → e.Obeys h p)
    (hq : ¬ c → e.Obeys h q) : e.Obeys h (if c then p else q) := by
  split
  next hc => exact hp hc
  next hc => exact hq hc

/-- A write to the record `r`. -/
theorem update {new : PaymentRecord} {f : PaymentRecord → Prog β} (hs : Seen h r)
    (hw : e.Writes h r new)
    (hf : ∀ t, e.Obeys (⟨.store (.update new), .ok t⟩ :: h) (f (new.stamped t))) :
    e.Obeys h ((Prog.update new).bind f) := by
  rw [Entry.Obeys, Prog.update, Program.sat_request_bind]
  refine ⟨.update hs hw, fun a _ => ?_⟩
  cases a with
  | ok t => exact hf t
  | error err => trivial

end Entry.Obeys

end Rules

theorem seen_written (r : PaymentRecord) (t : UInt64) (h : History rpc) :
    Seen (⟨.store (.update r), .ok t⟩ :: h) (r.stamped t) :=
  ⟨_, .head _, .update⟩

variable [Ss58] {E : Engine} {h : History rpc} {r r' : PaymentRecord} {action : Action}
  {call : ChainCall} {signer : Keypair}

/-! ## Journaled sending -/

namespace Engine.Builds

/-- The action names the call. -/
theorem name_eq (hb : E.Builds h r r' action call signer) : call.name = actionName action := by
  cases hb with
  | destroy _ _ _ _ _ _ hkeep => exact destroyCall_name hkeep
  | _ => rfl

theorem pending_eq (hb : E.Builds h r r' action call signer) : r'.pending = r.pending := by
  cases hb <;> rfl

end Engine.Builds

theorem deliver_obeys (hb : E.Builds h r r' action call signer) {tx : PreparedTx} {token : String}
    {t : UInt64} (hcall : tx.call = call) :
    (Entry.tick E).Obeys
      (⟨.store (.update { r' with pending := some (tx.journal action call token) }), .ok t⟩ ::
        ⟨.chain (.prepare call signer), .ok tx⟩ ::
        ⟨.store (.reserveSignerForRecord (ss58 signer) r'), .ok token⟩ :: h)
      (deliver ({ r' with pending := some (tx.journal action call token) }.stamped t) tx) := by
  unfold deliver Prog.broadcast
  simp only [Program.monad_bind_eq, Program.bind_assoc]
  rw [Entry.Obeys, Prog.chain, Program.sat_request_bind]
  refine ⟨.submit, fun a _ => ?_⟩
  cases a with
  | error err => trivial
  | ok u =>
    refine Entry.Obeys.chain trivial trivial fun landed hland => ?_
    refine .lift trivial fun fin hfin => ?_
    refine .lift trivial fun applied happlied => ?_
    obtain ⟨hsummary, htx, -⟩ := PreparedTx.finalized_ok hfin
    have hreceipt : fin.tx = (tx.journal action call token).receipt landed.1 := by
      rw [htx, hcall, hb.name_eq]
      rfl
    rw [hreceipt] at happlied
    have hfailed := (EventSummary.fromEvents_failed hsummary).trans hland.2
    refine .update ((seen_written _ t _).cons _ |>.cons _) (.tick trivial ?_) fun _ => .done trivial
    exact .applied rfl (.broadcast (.head _) rfl hsummary) hland.1 hfailed happlied

theorem sendJournaled_obeys (hi : Idle h) (hs : Seen h r) (hd : E.Drives r)
    (hb : E.Builds h r r' action call signer) :
    (Entry.tick E).Obeys h (sendJournaled r' action call signer) := by
  unfold sendJournaled
  simp only [Program.monad_bind_eq]
  split
  next => exact .done hi
  next =>
    rw [Entry.Obeys, Prog.store, Program.sat_request_bind]
    refine ⟨.reserve hi hs hd hb, fun a _ => ?_⟩
    cases a with
    | error err => trivial
    | ok token =>
      refine ⟨.prepare hb, fun a ha => ?_⟩
      cases a with
      | error err =>
        refine ⟨.cancel fun _ h => ?_, fun a _ => ?_⟩
        · cases h
        · cases a <;> trivial
      | ok tx =>
        have hcall : tx.call = call := ha
        change Entry.Obeys _ _ (if tx.signer ≠ ss58 signer then _ else _)
        split
        next hne =>
          refine ⟨.cancel fun _ h => ?_, fun a _ => ?_⟩
          · cases h; exact hne
          · cases a <;> trivial
        next heq =>
          refine .update (hs.cons _ |>.cons _) (.journal hd hb hcall (not_not.mp heq)) fun t => ?_
          exact deliver_obeys hb hcall

/-! ## Reconciliation and callbacks -/

/-- What `reconcile_journaled` makes of an extrinsic it found may be written. -/
theorem reconciled_sat (hi : Idle h) {p : PendingTx} {blockHash : String} {summary : EventSummary}
    (hp : r.pending = some p) (hl : Landed h p blockHash summary) (hne : blockHash ≠ "") :
    (r.reconciled p blockHash summary E.cfg.maxAttempts).Sat Relies (Entry.tick E).Allows h
      fun h' x => h <:+ h' ∧ Idle h' ∧ ∀ new, x = .ok new → (Entry.tick E).Writes h' r new := by
  have hl' (t : UInt64) : Landed (⟨.host .now, t⟩ :: h) p blockHash summary := by
    cases hl with
    | broadcast hmem htx hs => exact .broadcast (.tail _ hmem) htx hs
    | found hmem => exact .found (.tail _ hmem)
  unfold PaymentRecord.reconciled
  split
  next hfailed =>
    refine ⟨.plain hi trivial, fun t _ => ⟨List.suffix_cons _ _, trivial, ?_⟩⟩
    rintro new ⟨⟩
    exact .tick trivial (.failedOnChain hp (hl' t) hfailed)
  next hfailed =>
    rw [Bool.not_eq_true] at hfailed
    split
    next applied happlied =>
      refine ⟨List.suffix_refl h, hi, ?_⟩
      rintro new ⟨⟩
      exact .tick hi (.applied hp hl hne hfailed happlied)
    next err herr =>
      refine ⟨.plain hi trivial, fun t _ => ⟨List.suffix_cons _ _, trivial, ?_⟩⟩
      rintro new ⟨⟩
      exact .tick trivial (.quarantined hp (hl' t) hfailed herr)

theorem reconcileJournaled_obeys (hi : Idle h) (hs : Seen h r) {p : PendingTx}
    (hp : r.pending = some p) :
    (Entry.tick E).Obeys h (reconcileJournaled r p E.cfg.maxAttempts) := by
  unfold reconcileJournaled
  simp only [Program.monad_bind_eq]
  split
  next => exact .done hi
  next =>
    refine .chain hi trivial fun outcome hout => ?_
    cases outcome with
    | wait => exact .done trivial
    | dead =>
      exact .update (hs.cons _) (.tick trivial (.dead hp (.head _))) fun _ => .done trivial
    | included blockHash summary =>
      refine Program.Sat.bind (reconciled_sat (by trivial) hp (.found (.head _)) hout) ?_ ?_
      · rintro h' new hh ⟨-, -, hw⟩
        exact Entry.Obeys.update (hs.mono ((List.suffix_cons _ _).trans hh)) (hw new rfl)
          fun _ => .done trivial
      · rintro h' err - ⟨-, hi', -⟩
        exact hi'

theorem notify_obeys (hi : Idle h) (hs : Seen h r) (hstate : r.state = .settled) :
    (Entry.tick E).Obeys h (E.notify r) := by
  unfold Engine.notify
  simp only [Program.monad_bind_eq]
  refine .bind ?_ fun h' delivered hh hi' => ?_
  · split
    next url _ _ =>
      refine ⟨.plain hi trivial, fun a _ => trivial⟩
    next => exact .done hi
  · cases delivered with
    | error err =>
      refine .host hi' fun _ t => .update ((hs.mono hh).cons _) (.tick trivial ?_)
        fun _ => .done trivial
      exact .postponed hstate
    | ok u =>
      exact .update (hs.mono hh) (.tick hi' (.notified hstate)) fun _ => .done trivial

/-! ## The steps of a payment -/

theorem stepPending_obeys (hi : Idle h) (hs : Seen h r) (hd : E.Drives r)
    (hstate : r.state = .pending) {positions : Positions}
    (hpos : ∀ who, parseSs58 r.address = .ok who → ∃ coldkeys, who ∈ coldkeys ∧
      ⟨.chain (.stakePositionsMany coldkeys), .ok positions⟩ ∈ h) :
    (Entry.tick E).Obeys h (Engine.stepPending r positions) := by
  unfold Engine.stepPending
  simp only [Program.monad_bind_eq]
  refine .lift hi fun who hwho => ?_
  obtain ⟨coldkeys, hmem, hread⟩ := hpos who hwho
  have hobs {h' : History rpc} {tao : UInt64} (hh : h <:+ h')
      (htao : r.minTao.isSome → ⟨.chain (.freeBalance who), .ok tao⟩ ∈ h') :
      Observed h' r (positions.alphaOf who r.netuid) tao :=
    ⟨⟨who, coldkeys, positions, hwho, hmem, hh.subset hread, rfl⟩,
      fun hsome => ⟨who, hwho, htao hsome⟩⟩
  refine Program.Sat.bind (P := fun h' x => h <:+ h' ∧ Idle h' ∧ ∀ tao, x = .ok tao →
    Observed h' r (positions.alphaOf who r.netuid) tao) ?_ ?_ fun _ _ _ hx => hx.2.1
  · split
    next hsome =>
      refine ⟨.plain hi trivial, fun a _ => ⟨List.suffix_cons _ _, trivial, ?_⟩⟩
      rintro tao rfl
      exact hobs (List.suffix_cons _ _) fun _ => .head _
    next hnone =>
      refine ⟨List.suffix_refl h, hi, ?_⟩
      rintro tao ⟨⟩
      exact hobs (List.suffix_refl h) fun hsome => absurd hsome hnone
  · rintro h' tao - ⟨hh, hi', ho⟩
    change Entry.Obeys _ _ (if _ then _ else _)
    split
    next hpaid =>
      refine .lift hi' fun new hnew => ?_
      obtain ⟨-, rfl⟩ := PaymentRecord.transition_ok.mp hnew
      refine .update (hs.mono hh) (.tick hi' (.detected hd hstate (ho tao rfl) ?_))
        fun _ => .done trivial
      simpa [PaymentRecord.PaidBy, Option.any_eq_true] using hpaid
    next hunpaid =>
      have hunpaid : ¬ r.PaidBy (positions.alphaOf who r.netuid) tao := by
        simpa [PaymentRecord.PaidBy, Option.any_eq_true] using hunpaid
      refine .now hi' fun t => ?_
      split
      next hlate =>
        refine .lift trivial fun new hnew => ?_
        obtain ⟨-, rfl⟩ := PaymentRecord.transition_ok.mp hnew
        exact .update ((hs.mono hh).cons _)
          (.tick trivial (.expired hd hstate rfl hlate (ho tao rfl) hunpaid))
          fun _ => .done trivial
      next => exact .done trivial

theorem sweepFloor_obeys (hi : Idle h) (netuid : UInt16) :
    (Entry.tick E).Obeys h (E.sweepFloor netuid) :=
  .chain hi trivial fun _ _ => .done trivial

theorem estimateFees_obeys (r : PaymentRecord) (wallet : Keypair) (ps : List StakePosition) :
    ∀ {h : History rpc} {fees : UInt64}, Idle h →
      (Entry.tick E).Obeys h (E.estimateFees r wallet ps fees) := by
  induction ps with
  | nil => exact fun hi => .done hi
  | cons p ps ih => exact fun hi => .chain hi trivial fun _ _ => ih trivial

theorem stepDetected_obeys (hi : Idle h) (hs : Seen h r) (hd : E.Drives r)
    (hstate : r.state = .detected) : (Entry.tick E).Obeys h (E.stepDetected r) := by
  unfold Engine.stepDetected
  simp only [Program.monad_bind_eq]
  refine .lift hi fun wallet _ => ?_
  refine .chain hi trivial fun alphas _ => ?_
  refine .chain trivial trivial fun balance _ => ?_
  refine .bind (sweepFloor_obeys (by trivial) _) fun h₁ floor hh₁ hi₁ => ?_
  refine .bind (estimateFees_obeys _ _ _ hi₁) fun h₂ fees hh₂ hi₂ => ?_
  refine .chain hi₂ trivial fun ed _ => ?_
  have hs' := ((hs.cons _ |>.cons _).mono (hh₁.trans hh₂)).cons
    ⟨.chain .existentialDeposit, .ok ed⟩
  refine .ite (fun _ => ?_) fun hneed => ?_
  · refine .lift trivial fun new hnew => ?_
    obtain ⟨-, rfl⟩ := PaymentRecord.transition_ok.mp hnew
    exact .update hs' (.tick trivial (.funded hd hstate)) fun _ => .done trivial
  · exact sendJournaled_obeys (by trivial) hs' hd (.fund hstate hneed)

theorem stepFunded_obeys (hi : Idle h) (hs : Seen h r) (hd : E.Drives r)
    (hstate : r.state = .funded) : (Entry.tick E).Obeys h (E.stepFunded r) := by
  unfold Engine.stepFunded
  simp only [Program.monad_bind_eq]
  refine .lift hi fun wallet _ => ?_
  refine .chain hi trivial fun alphas _ => ?_
  refine .bind (sweepFloor_obeys (by trivial) _) fun h₁ floor hh₁ hi₁ => ?_
  have hs₁ := (hs.cons ⟨.chain (.alphaOn wallet r.netuid), .ok alphas⟩).mono hh₁
  split
  next =>
    refine .lift hi₁ fun new hnew => ?_
    obtain ⟨-, rfl⟩ := PaymentRecord.transition_ok.mp hnew
    exact .update hs₁ (.tick hi₁ (.swept hd hstate)) fun _ => .done trivial
  next p hp =>
    refine sendJournaled_obeys hi₁ hs₁ hd (.sweep hstate ?_)
    have := List.find?_some hp
    simp only [Bool.and_eq_true, Bool.not_eq_true', List.contains_eq_mem,
      decide_eq_false_iff_not] at this
    exact this.2

theorem stepAutoBuyback_obeys {d : Bool} (hi : Idle h) (hs : Seen h r) (hd : E.Drives r)
    (hstate : r.state = .swept) (hc : E.Consolidated r) (hdust : E.Dusted r d)
    (hreq : r.autoRequired = some true) (hdone : r.buybackDone = false) :
    (Entry.tick E).Obeys h (E.stepAutoBuyback { r with dustReturned := d }) := by
  unfold Engine.stepAutoBuyback
  simp only [Program.monad_bind_eq]
  split
  next => exact .done hi
  next budget hbudget =>
    refine .lift hi fun _ hvalid => ?_
    split
    next b hb =>
      unfold Engine.stepDestroy
      simp only [Program.monad_bind_eq]
      split
      next => exact .done hi
      next hreceipt =>
        rw [not_or, not_not, not_not] at hreceipt
        split
        next => exact .done hi
        next halpha =>
          split
          next => exact .done hi
          next hdestroyed =>
            split
            next hcomplete =>
              refine .update hs (.tick hi (.bought hd hstate hdust hreq
                ⟨hbudget, hb, hreceipt.1, hreceipt.2, halpha, ?_, hcomplete⟩))
                  fun _ => .done trivial
              simpa using hdestroyed
            next hopen =>
              rw [not_or] at hopen
              refine .lift hi fun hotkey _ => ?_
              refine sendJournaled_obeys hi hs hd (.destroy hstate hc hdust hreq hdone hbudget
                hopen.1 hb hreceipt.1 hreceipt.2 ?_)
              simpa using hopen.2
    next hb =>
      unfold Engine.spendable
      simp only [Program.monad_bind_eq, Program.bind_assoc]
      refine .chain hi trivial fun free _ => ?_
      refine .chain trivial trivial fun ed _ => ?_
      refine .lift trivial fun spendable hspendable => ?_
      refine .lift trivial fun tao htao => ?_
      refine .chain trivial trivial fun price _ => ?_
      refine .lift trivial fun hotkey _ => ?_
      cases hspendable
      obtain rfl := strictBuybackAmount_ok htao
      exact sendJournaled_obeys (by trivial) (hs.cons _ |>.cons _ |>.cons _) hd
        (.buyStake hstate hc hdust hreq hdone hbudget hvalid hb rfl htao)

theorem finish_obeys {d : Bool} (hi : Idle h) (hs : Seen h r) (hd : E.Drives r)
    (hstate : r.state = .swept) (hc : E.Consolidated r) (hdust : E.Dusted r d) :
    (Entry.tick E).Obeys h (E.finish { r with dustReturned := d }) := by
  unfold Engine.finish
  simp only [Program.monad_bind_eq]
  split
  next => exact .done hi
  next required hreq =>
    refine .ite (fun _ => .done hi) fun _ => .lift hi fun _ hvalid => ?_
    refine .ite (fun hopen => ?_) fun hclosed => ?_
    · obtain ⟨rfl, hdone⟩ := hopen
      exact stepAutoBuyback_obeys hi hs hd hstate hc hdust hreq hdone
    · refine .lift hi fun new hnew => ?_
      obtain ⟨-, rfl⟩ := PaymentRecord.transition_ok.mp hnew
      refine .update hs (.tick hi (.settled hd hstate hc hdust fun hrequired => ?_)) fun t => ?_
      · have hdone : r.buybackDone = true := by
          simpa [Option.some.inj (hreq.symm.trans hrequired)] using hclosed
        rw [if_pos ⟨Option.some.inj (hreq.symm.trans hrequired), hdone⟩] at hvalid
        exact ⟨hdone, hvalid⟩
      · exact .bind (notify_obeys (by trivial) (seen_written _ t h) rfl) fun _ _ _ hi' => .done hi'

theorem returnDust_obeys (hi : Idle h) (hs : Seen h r) (hd : E.Drives r)
    (hstate : r.state = .swept) (hc : E.Consolidated r) :
    (Entry.tick E).Obeys h (E.returnDust r) := by
  unfold Engine.returnDust
  simp only [Program.monad_bind_eq]
  refine .ite (fun hdust => ?_) fun hdust => ?_
  · refine .lift hi fun wallet _ => .chain hi trivial fun free _ => .ite (fun _ => ?_) fun _ => ?_
    · exact sendJournaled_obeys (by trivial) (hs.cons _) hd (.returnDust hstate hc hdust.1)
    · exact finish_obeys trivial (hs.cons _) hd hstate hc ⟨fun _ => rfl, .inl rfl⟩
  · refine finish_obeys hi hs hd hstate hc (d := r.dustReturned) ⟨id, ?_⟩
    cases hr : r.dustReturned with
    | true => exact .inl rfl
    | false => exact .inr fun h => hdust ⟨hr, h⟩

/-- One round of the loop keeps the checks of `step`. -/
theorem Engine.Drives.consolidated (hd : E.Drives r) (t : UInt64) :
    E.Drives ({ r with consolidated := r.consolidated + 1 }.stamped t) :=
  ⟨hd.identity, hd.quarantined, hd.pending, hd.policy⟩

/-- The list the loop runs over is what is left of the positions. -/
theorem consolidate_obeys (hcfg : E.cfg.consolidate = true) (rest : List (String × UInt64)) :
    ∀ {h : History rpc} {r : PaymentRecord}, Idle h → Seen h r → E.Drives r → r.state = .swept →
      r.sweptPositions.drop r.consolidated = rest →
      (Entry.tick E).Obeys h (E.consolidate rest r) := by
  induction rest with
  | nil =>
      intro h r hi hs hd hstate hrest
      exact returnDust_obeys hi hs hd hstate fun _ => List.drop_eq_nil_iff.mp hrest
  | cons position rest ih =>
      intro h r hi hs hd hstate hrest
      have hlt : r.consolidated < r.sweptPositions.length := by
        by_contra hle
        rw [List.drop_eq_nil_iff.mpr (not_lt.mp hle)] at hrest
        cases hrest
      rw [List.drop_eq_getElem_cons hlt, List.cons.injEq] at hrest
      obtain ⟨hposition, htail⟩ := hrest
      unfold Engine.consolidate
      simp only [Program.monad_bind_eq]
      refine .lift hi fun hk hparse => ?_
      refine .bind ?_ fun h' live hh hi' => .ite (fun _ => ?_) fun _ => ?_
      · exact .ite (fun _ => .done hi) fun _ => ⟨.plain hi trivial, fun _ _ => trivial⟩
      · refine .update (hs.mono hh) (.tick hi' (.consolidated hd hstate hcfg hlt)) fun t => ?_
        exact ih trivial (seen_written _ t h') (hd.consolidated t) hstate htail
      · refine sendJournaled_obeys hi' (hs.mono hh) hd (.consolidate hstate hcfg ?_ hparse)
        rw [List.getElem?_eq_getElem hlt, hposition]

theorem stepSwept_obeys (hi : Idle h) (hs : Seen h r) (hd : E.Drives r)
    (hstate : r.state = .swept) : (Entry.tick E).Obeys h (E.stepSwept r) := by
  refine .ite (fun hcfg => ?_) fun hcfg => ?_
  · exact consolidate_obeys hcfg _ hi hs hd hstate rfl
  · exact returnDust_obeys hi hs hd hstate fun h => absurd h hcfg

/-! ## The driver -/

theorem resolvePending_obeys (hi : Idle h) (hs : Seen h r) {p : PendingTx}
    (hp : r.pending = some p) : (Entry.tick E).Obeys h (E.resolvePending r p) :=
  .bind (reconcileJournaled_obeys hi hs hp) fun _ _ _ hi' => .done hi'

/-- The error of a step on the record `r` is recorded on the stored one. -/
theorem guarded_obeys (hs : Seen h r) (hstate : r.state.Working) {p : Prog Bool}
    (hp : (Entry.tick E).Obeys h p) : (Entry.tick E).Obeys h (E.guarded r p) := by
  unfold Engine.guarded
  simp only [Program.monad_bind_eq]
  refine .attempt hp fun h' x hh hi' => ?_
  split
  next => exact .done hi'
  next => exact .done hi'
  next err _ =>
    unfold Engine.recordError
    simp only [Program.monad_bind_eq]
    refine .store hi' trivial fun found => ?_
    cases found with
    | none => exact .done trivial
    | some cur =>
      refine .ite (fun _ => .done trivial) fun hpending => .host trivial fun _ t => ?_
      refine .update ⟨_, .tail _ (.head _), .get⟩ (.tick trivial ?_) fun _ => .done trivial
      refine .attempted ?_ ((hs.mono hh).cons _ |>.cons _) hstate (.tail _ (.head _))
      simpa using hpending

theorem step_obeys (hi : Idle h) (hs : Seen h r) {positions : Positions}
    (hpos : r.state = .pending → r.pending = none → ∀ who, parseSs58 r.address = .ok who →
      ∃ coldkeys, who ∈ coldkeys ∧
        ⟨.chain (.stakePositionsMany coldkeys), .ok positions⟩ ∈ h) :
    (Entry.tick E).Obeys h (E.step r positions) := by
  unfold Engine.step
  simp only [Program.monad_bind_eq]
  refine .ite (fun _ => .done hi) fun hidentity => .ite (fun _ => .done hi) fun hquarantined =>
    .ite (fun _ => .done hi) fun hpolicy => ?_
  split
  next p hp => exact resolvePending_obeys hi hs hp
  next hp =>
    have hd : E.Drives r := by
      refine ⟨not_not.mp hidentity, by simpa using hquarantined, hp, ?_⟩
      cases hreq : r.autoRequired with
      | none => simp [hp, hreq] at hpolicy
      | some required =>
        refine ⟨required, rfl, ?_⟩
        rintro rfl
        simpa [hp, hreq, Option.isSome_iff_ne_none] using hpolicy
    split
    next hstate => exact stepPending_obeys hi hs hd hstate (hpos hstate hp)
    next hstate => exact guarded_obeys hs (.inl hstate) (stepDetected_obeys hi hs hd hstate)
    next hstate =>
      exact guarded_obeys hs (.inr (.inl hstate)) (stepFunded_obeys hi hs hd hstate)
    next hstate =>
      exact guarded_obeys hs (.inr (.inr hstate)) (stepSwept_obeys hi hs hd hstate)
    next hstate => exact .bind (notify_obeys hi hs hstate) fun _ _ _ hi' => .done hi'
    next => exact .done hi
    next => exact .done hi

theorem drive_obeys {positions : Positions} {t : UInt64} (rs : List PaymentRecord) :
    ∀ {h : History rpc} {n : ℕ}, Idle h → (∀ r ∈ rs, Seen h r) →
      (∀ r ∈ rs, r.state = .pending → r.pending = none → ∀ who, parseSs58 r.address = .ok who →
        ∃ coldkeys, who ∈ coldkeys ∧
          ⟨.chain (.stakePositionsMany coldkeys), .ok positions⟩ ∈ h) →
      (Entry.tick E).Obeys h (E.drive positions t rs n) := by
  induction rs with
  | nil => exact fun hi _ _ => .done hi
  | cons r rs ih =>
      intro h n hi hs hpos
      have hs' := fun r' (hr' : r' ∈ rs) => hs r' (.tail _ hr')
      have hpos' := fun r' (hr' : r' ∈ rs) => hpos r' (.tail _ hr')
      unfold Engine.drive
      simp only [Program.monad_bind_eq]
      refine .ite (fun _ => ih hi hs' hpos') fun _ => ?_
      refine .attempt (step_obeys hi (hs r (.head _)) (hpos r (.head _))) fun h' x hh hi' => ?_
      have hgo (n : ℕ) : (Entry.tick E).Obeys h' (E.drive positions t rs n) := by
        refine ih hi' (fun r' hr' => (hs' r' hr').mono hh) fun r' hr' hst hp who hwho => ?_
        obtain ⟨coldkeys, hmem, hread⟩ := hpos' r' hr' hst hp who hwho
        exact ⟨coldkeys, hmem, hh.subset hread⟩
      split <;> exact hgo _

/-- A payment the loop may detect is among the coldkeys `tick` reads. -/
theorem mem_watched {recs : List PaymentRecord} (hr : r ∈ recs) (hstate : r.state = .pending)
    (hp : r.pending = none) {who : AccountId32} (hwho : parseSs58 r.address = .ok who) :
    who ∈ Engine.watched recs := by
  simp only [Engine.watched, List.mem_filterMap, List.mem_filter]
  exact ⟨r, ⟨hr, by simp [hstate, hp]⟩, by rw [hwho]; rfl⟩

theorem tick_obeys (hi : Idle h) : (Entry.tick E).Obeys h E.tick := by
  unfold Engine.tick
  simp only [Program.monad_bind_eq]
  refine .store hi trivial fun recs => .host trivial fun _ t => ?_
  split
  next hempty =>
    refine drive_obeys recs trivial (fun r hr => ⟨_, .tail _ (.head _), .list hr⟩) ?_
    intro r hr hstate hp who hwho
    have := mem_watched hr hstate hp hwho
    rw [List.isEmpty_iff.mp hempty] at this
    cases this
  next =>
    refine .chain trivial trivial fun positions _ => ?_
    refine drive_obeys recs trivial (fun r hr => ⟨_, .tail _ (.tail _ (.head _)), .list hr⟩) ?_
    intro r hr hstate hp who hwho
    exact ⟨_, mem_watched hr hstate hp hwho, .head _⟩

/-! ## The other calls -/

theorem insertJob_obeys {e : Entry} (hi : Idle h)
    (hc : (∀ b, r.buybackBudget = some b → b.validate = .ok ()) → e.Creates r) :
    e.Obeys h (E.insertJob r) := by
  unfold Engine.insertJob
  simp only [Program.monad_bind_eq]
  refine .ite (fun _ => .done hi) fun _ => .lift hi fun _ hvalid => ?_
  refine ⟨.insert hi (hc fun b hb => ?_), fun a _ => by cases a <;> trivial⟩
  rw [hb] at hvalid
  exact hvalid

theorem createPayment_obeys (hi : Idle h) (opts : CreatePayment) :
    (Entry.createPayment E opts).Obeys h (E.createPayment opts) := by
  unfold Engine.createPayment
  simp only [Program.monad_bind_eq]
  refine .store hi trivial fun _ => .host trivial fun _ wallet => .host trivial fun _ id =>
    .host trivial fun _ sealed => .host trivial fun _ t => ?_
  exact .bind (insertJob_obeys (by trivial) .payment) fun _ _ _ hi' => .done hi'

theorem createSweepJob_obeys (hi : Idle h) (id path expectedAddress : String)
    (metadata : Option String) :
    (Entry.createSweepJob E id path expectedAddress metadata).Obeys h
      (E.createSweepJob id path expectedAddress metadata) := by
  unfold Engine.createSweepJob
  simp only [Program.monad_bind_eq]
  refine .store hi trivial fun _ => ?_
  split
  next => exact .done trivial
  next seed _ =>
    refine .lift trivial fun wallet _ => .ite (fun _ => .done trivial) fun _ =>
      .host trivial fun _ sealed => .host trivial fun _ t => ?_
    exact .bind (insertJob_obeys (by trivial) .sweep) fun _ _ _ hi' => .done hi'

theorem retry_obeys (hi : Idle h) (id : String) :
    (Entry.retry id).Obeys h (Buyback.retry id) := by
  unfold Buyback.retry
  simp only [Program.monad_bind_eq]
  refine .store hi trivial fun found => ?_
  cases found with
  | none => exact .done trivial
  | some r =>
    refine .ite (fun _ => .done trivial) fun hq => .lift trivial fun new hnew => ?_
    obtain ⟨hcan, rfl⟩ := PaymentRecord.transition_ok.mp hnew
    refine .update ⟨_, .head _, .get⟩ (.retry trivial (.head _) ?_ hcan.1 hcan.2)
      fun _ => .done trivial
    simpa using hq

theorem forceSweep_obeys (hi : Idle h) (id : String) :
    (Entry.forceSweep id).Obeys h (Buyback.forceSweep id) := by
  unfold Buyback.forceSweep
  simp only [Program.monad_bind_eq]
  refine .store hi trivial fun found => ?_
  cases found with
  | none => exact .done trivial
  | some r =>
    refine .lift trivial fun new hnew => ?_
    obtain ⟨hcan, rfl⟩ := PaymentRecord.transition_ok.mp hnew
    exact .update ⟨_, .head _, .get⟩ (.forceSweep trivial (.head _) hcan.1 hcan.2)
      fun _ => .done trivial

/-- Every entry keeps to its guarantee. -/
theorem Entry.body_obeys (e : Entry) : e.Obeys [] e.body := by
  have hdrop {α : Type} {p : Prog α} (hp : e.Obeys [] p) :
      e.Obeys [] (p.bind fun _ => .done (.ok ())) := .bind hp fun _ _ _ hi => .done hi
  cases e with
  | createPayment E opts => exact hdrop (createPayment_obeys (by trivial) opts)
  | createSweepJob E id path addr metadata =>
      exact hdrop (createSweepJob_obeys (by trivial) id path addr metadata)
  | tick E => exact hdrop (tick_obeys (by trivial))
  | retry id => exact hdrop (retry_obeys (by trivial) id)
  | forceSweep id => exact hdrop (forceSweep_obeys (by trivial) id)
  | migrateLegacyPolicy id version budget =>
      exact hdrop ⟨.migrate trivial, fun a _ => by cases a <;> trivial⟩
  | recoverLegacy manifest =>
      exact hdrop ⟨.recover trivial, fun a _ => by cases a <;> trivial⟩

omit [Ss58] in
theorem Finalized.Answers.relies {c : Finalized} {o : ChainOp} {a : Result o.Ret}
    (ha : c.Answers o a) : Relies (.chain o) a := by
  cases a with
  | error err => cases o <;> trivial
  | ok x =>
      cases o with
      | prepare call signer => exact ha.elim
      | waitForSuccess tx => exact ha.waitForSuccess
      | findPending p =>
          cases x with
          | included blockHash s => exact ha.findPending
          | wait => trivial
          | dead => trivial
      | _ => trivial

/-- What processes rely on is what the world answers. -/
theorem Serves.relies {set : Setting} {w w' : World} {o : Op} {a : o.Ans}
    (hs : Serves set w o a w') : Relies o a := by
  cases hs with
  | store x _ => trivial
  | fault _ => trivial
  | host => trivial
  | hearsay _ hrelies => exact hrelies
  | chain hc =>
    cases hc with
    | prepare hsigns => exact hsigns.call_eq
    | submit => trivial
    | read ha => exact ha.relies

/-- The processes meet their guarantees, and end with no reservation to journal. -/
theorem processes_meet (set : Setting) :
    Meets (processes set) Relies Entry.Allows fun _ h _ => Idle h :=
  ⟨Entry.body_obeys, fun _ _ _ _ hs => hs.relies⟩

end Buyback
