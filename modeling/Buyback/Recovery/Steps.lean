import Buyback.Recovery.Accepted
import Buyback.Source.Engine

/-!
# The steps of a replay

What each manifest transaction does to the replayed accounting.  `Replayed.Step`
has one constructor for each call a replay accepts, with everything it checks, and
`Replayed.Steps` chains them along the manifest.  `replayLoop_steps` reads an
accepted replay as such a chain, so an invariant of the accounting is proved by
cases on one step.

*Growth.*  An accounting only grows: `Replayed.Grows` is a preorder that every step
follows.  `Replayed.Has` says that it contains an action, which growth keeps.
-/

namespace Buyback

variable [Ss58]

/-- The action an engine journals for a call, if it journals one. -/
def ChainCall.action : ChainCall → Option Action
  | .transferTao .. => some .fund
  | .transferStake _ hotkey .. => some (.sweep (ss58 hotkey))
  | .moveStake fromHotkey .. => some (.consolidate (ss58 fromHotkey))
  | .transferAll _ => some .returnDust
  | .addStakeLimit _ netuid _ limitPrice _ => some (.buyStake netuid limitPrice)
  | .burnAlpha _ netuid _ => some (.destroy netuid false)
  | .recycleAlpha _ netuid _ => some (.destroy netuid true)
  | .associateHotkey _ => none

variable {r : PaymentRecord} {m : LegacyManifest} {treasury deposit hotkey : AccountId32}

/-- The accounting after one accepted transaction with the given signer and call. -/
inductive Replayed.Step (r : PaymentRecord) (m : LegacyManifest)
    (treasury deposit hotkey : AccountId32) (receipt : TxRef) (s : EventSummary) (st : Replayed) :
    AccountId32 → ChainCall → Replayed → Prop where
  | fund {amount : UInt64} : st.funded = 0 → st.positions = [] → st.dust = false →
      st.buyback = none → 0 < amount → s.transferred = some amount →
      Step r m treasury deposit hotkey receipt s st treasury (.transferTao deposit amount)
        { st with funded := amount }
  | sweep {source : AccountId32} {alpha : UInt64} : st.postSweep = false → st.consolidated = 0 →
      st.dust = false → st.buyback = none → 0 < alpha →
      ss58 source ∉ st.positions.map Prod.fst →
      Step r m treasury deposit hotkey receipt s st deposit
        (.transferStake treasury source r.netuid alpha)
        { st with positions := st.positions ++ [(ss58 source, alpha)] }
  | consolidate {source : AccountId32} {alpha : UInt64} : m.consolidate = true →
      st.dust = false → st.buyback = none →
      st.positions[st.consolidated]? = some (ss58 source, alpha) →
      Step r m treasury deposit hotkey receipt s st treasury
        (.moveStake source hotkey r.netuid alpha)
        { st with postSweep := true, consolidated := st.consolidated + 1 }
  | returnDust : m.returnDust = true ∨ 0 < r.detectedTao → st.dust = false →
      st.buyback = none → (m.consolidate = true → st.consolidated = st.positions.length) →
      Step r m treasury deposit hotkey receipt s st deposit (.transferAll treasury)
        { st with postSweep := true, dust := true }
  | buyStake {target : AccountId32} {budget : BuybackBudget} {limitPrice bought : UInt64} :
      st.buyback = none → (m.consolidate = true → st.consolidated = st.positions.length) →
      (m.returnDust = true ∨ 0 < r.detectedTao → st.dust = true) →
      m.budget = some budget → ss58 target = budget.hotkey →
      s.stakeAdded = some (budget.amountRao, bought) → bought ≠ 0 →
      Step r m treasury deposit hotkey receipt s st treasury
        (.addStakeLimit target budget.netuid budget.amountRao limitPrice false)
        { st with
          postSweep := true
          buyback := some
            { netuid := budget.netuid, taoSpent := budget.amountRao, alphaBought := bought
              limitPrice := limitPrice, stakeTx := receipt, destroyTx := none
              alphaDestroyed := 0 } }
  | destroy {target : AccountId32} {budget : BuybackBudget} {bought : BuybackReceipt} :
      m.budget = some budget → st.buyback = some bought → budget.destroy ≠ .keep →
      ss58 target = budget.hotkey → bought.destroyTx = none →
      s.alphaDestroyed = some bought.alphaBought →
      Step r m treasury deposit hotkey receipt s st treasury
        (destroyCall budget.destroy target budget.netuid bought.alphaBought)
        { st with
          buyback := some
            { bought with destroyTx := some receipt, alphaDestroyed := bought.alphaBought } }

theorem replayDestroy_step {signer target : AccountId32} {netuid : UInt16} {alpha : UInt64}
    {t : LegacyTransaction} {s : EventSummary} {st st' : Replayed} {destroy : Destroy}
    (hkeep : destroy ≠ .keep)
    (h : replayCall.replayDestroy m treasury signer t s st destroy target netuid alpha = .ok st') :
    Replayed.Step r m treasury deposit hotkey t.receipt s st signer
      (destroyCall destroy target netuid alpha) st' := by
  unfold replayCall.replayDestroy at h
  split at h
  next budget bought hbudget hbought =>
    split at h
    next hok =>
      obtain ⟨rfl, rfl, htarget, rfl, hnone, rfl, hdestroyed⟩ := hok
      cases h
      exact .destroy hbudget hbought hkeep htarget hnone hdestroyed
    next => cases h
  next => cases h

theorem replayCall_step {signer : AccountId32} {t : LegacyTransaction} {s : EventSummary}
    {st st' : Replayed}
    (h : replayCall r m treasury deposit hotkey signer t s st = .ok st') :
    Replayed.Step r m treasury deposit hotkey t.receipt s st signer t.call st' := by
  unfold replayCall at h
  split at h
  next dest amount hcall =>
    split at h
    next hok =>
      obtain ⟨rfl, rfl, hfunded, hpositions, hdust, hbuyback, hamount, htransferred⟩ := hok
      cases h
      exact hcall ▸ .fund hfunded hpositions hdust hbuyback hamount htransferred
    next => cases h
  next dest source netuid alpha hcall =>
    split at h
    next hok =>
      obtain ⟨rfl, rfl, rfl, hpost, hnone, hdust, hbuyback, halpha, hnew⟩ := hok
      cases h
      exact hcall ▸ .sweep hpost hnone hdust hbuyback halpha hnew
    next => cases h
  next source target netuid alpha hcall =>
    split at h
    next hok =>
      obtain ⟨hconsolidate, rfl, rfl, rfl, hdust, hbuyback, hnext⟩ := hok
      cases h
      exact hcall ▸ .consolidate hconsolidate hdust hbuyback hnext
    next => cases h
  next dest hcall =>
    split at h
    next hok =>
      obtain ⟨hwanted, rfl, rfl, hdust, hbuyback, hall⟩ := hok
      cases h
      simp only [not_and, not_not] at hall
      exact hcall ▸ .returnDust hwanted hdust hbuyback hall
    next => cases h
  next target netuid tao limitPrice allowPartial hcall =>
    split at h
    next hok =>
      obtain ⟨rfl, rfl, hbuyback, hall, hdust⟩ := hok
      simp only [not_and, not_not, Bool.not_eq_false] at hall hdust
      split at h
      next budget spent bought hbudget hadded =>
        split at h
        next hspent =>
          obtain ⟨htarget, rfl, rfl, rfl, hbought⟩ := hspent
          cases h
          exact hcall ▸ .buyStake hbuyback hall hdust hbudget htarget hadded hbought
        next => cases h
      next => cases h
    next => cases h
  next target netuid alpha hcall =>
    have hkeep : Destroy.burn ≠ .keep := by decide
    exact hcall ▸ replayDestroy_step hkeep h
  next target netuid alpha hcall =>
    have hkeep : Destroy.recycle ≠ .keep := by decide
    exact hcall ▸ replayDestroy_step hkeep h
  next => cases h

/-! ## Chains of steps -/

/-- The events of an accepted transaction. -/
def EventSummary.Confirms (s : EventSummary) (call : ChainCall) : Prop :=
  s.failed = false ∧ s.has "System" "ExtrinsicSuccess" = true ∧
    s.has call.expectedEvent.1 call.expectedEvent.2 = true

/-- The accounting after a list of accepted transactions. -/
inductive Replayed.Steps (r : PaymentRecord) (m : LegacyManifest)
    (treasury deposit hotkey : AccountId32) :
    Replayed → List (LegacyTransaction × EventSummary) → Replayed → Prop where
  | nil {st : Replayed} : Steps r m treasury deposit hotkey st [] st
  | cons {st st' st'' : Replayed} {t : LegacyTransaction} {s : EventSummary}
      {rest : List (LegacyTransaction × EventSummary)} {signer : AccountId32} :
      parseSs58 t.signer = .ok signer → s.Confirms t.call →
      Step r m treasury deposit hotkey t.receipt s st signer t.call st' →
      Steps r m treasury deposit hotkey st' rest st'' →
      Steps r m treasury deposit hotkey st ((t, s) :: rest) st''

theorem replayLoop_steps {st st' : Replayed} {ts : List (LegacyTransaction × EventSummary)}
    (h : replayLoop r m treasury deposit hotkey st ts = .ok st') :
    Replayed.Steps r m treasury deposit hotkey st ts st' := by
  induction ts generalizing st with
  | nil => cases h; exact .nil
  | cons x rest ih =>
      obtain ⟨t, s⟩ := x
      obtain ⟨signer, hsigner, h⟩ := Result.bind_ok h
      split at h
      next => cases h
      next hconfirms =>
        simp only [not_or, Bool.not_eq_true, Bool.not_eq_false] at hconfirms
        obtain ⟨st₁, hcall, h⟩ := Result.bind_ok h
        exact .cons hsigner hconfirms (replayCall_step hcall) (ih h)

/-! ## Growth -/

/-- The hotkeys of the positions. -/
def Replayed.hotkeys (st : Replayed) : List String := st.positions.map Prod.fst

/-- The second accounting has everything the first one has. -/
structure Replayed.Grows (a b : Replayed) : Prop where
  positions : a.positions <+: b.positions
  consolidated : a.consolidated ≤ b.consolidated
  dust : a.dust = true → b.dust = true
  bought : a.buyback.isSome → b.buyback.isSome
  destroyed : (a.buyback.any fun x => x.destroyTx.isSome) = true →
    (b.buyback.any fun x => x.destroyTx.isSome) = true

/-- The accounting contains an action. -/
def Replayed.Has (st : Replayed) : Action → Prop
  | .fund => st.funded ≠ 0
  | .sweep hotkey => hotkey ∈ st.hotkeys
  | .consolidate hotkey => ∃ k < st.consolidated, st.hotkeys[k]? = some hotkey
  | .returnDust => st.dust = true
  | .buyStake .. => st.buyback.isSome
  | .destroy .. => (st.buyback.any fun b => b.destroyTx.isSome) = true

namespace Replayed

variable {a b c st st' : Replayed} {action : Action}

omit [Ss58]

theorem Grows.refl (a : Replayed) : a.Grows a :=
  ⟨List.prefix_rfl, le_refl _, id, id, id⟩

theorem Grows.trans (h₁ : a.Grows b) (h₂ : b.Grows c) : a.Grows c :=
  ⟨h₁.positions.trans h₂.positions, h₁.consolidated.trans h₂.consolidated, h₂.dust ∘ h₁.dust,
    h₂.bought ∘ h₁.bought, h₂.destroyed ∘ h₁.destroyed⟩

theorem Grows.hotkeys (h : a.Grows b) : a.hotkeys <+: b.hotkeys := h.positions.map Prod.fst

/-- What was done stays done. -/
theorem Has.mono (hfund : action ≠ .fund) (h : a.Has action) (hg : a.Grows b) : b.Has action := by
  cases action with
  | fund => exact absurd rfl hfund
  | sweep hotkey => exact hg.hotkeys.subset h
  | consolidate hotkey =>
      obtain ⟨k, hk, hget⟩ := h
      obtain ⟨more, hmore⟩ := hg.hotkeys
      refine ⟨k, hk.trans_le hg.consolidated, ?_⟩
      rw [← hmore, List.getElem?_append_left (List.getElem?_eq_some_iff.mp hget).1]
      exact hget
  | returnDust => exact hg.dust h
  | buyStake netuid limitPrice => exact hg.bought h
  | destroy netuid recycle => exact hg.destroyed h

end Replayed

/-- The hotkeys of the positions are addresses, each of them once. -/
structure Replayed.Canonical (st : Replayed) : Prop where
  nodup : st.hotkeys.Nodup
  address : ∀ h ∈ st.hotkeys, ∃ a, h = ss58 a

namespace Replayed

variable {st st' : Replayed} {receipt : TxRef} {s : EventSummary} {signer : AccountId32}
  {call : ChainCall} {action : Action} {ts : List (LegacyTransaction × EventSummary)}

theorem Canonical.append (hc : st.Canonical) {hotkey : AccountId32} {alpha : UInt64}
    (hnew : ss58 hotkey ∉ st.hotkeys) :
    { st with positions := st.positions ++ [(ss58 hotkey, alpha)] }.Canonical := by
  have heq : ({ st with positions := st.positions ++ [(ss58 hotkey, alpha)] } : Replayed).hotkeys =
      st.hotkeys ++ [ss58 hotkey] := List.map_append
  constructor
  · rw [heq]
    exact hc.nodup.append (List.nodup_singleton _) (List.disjoint_singleton.mpr hnew)
  · intro h hmem
    rw [heq, List.mem_append, List.mem_singleton] at hmem
    rcases hmem with hmem | rfl
    · exact hc.address h hmem
    · exact ⟨hotkey, rfl⟩

theorem Step.grows (h : Step r m treasury deposit hotkey receipt s st signer call st') :
    st.Grows st' := by
  cases h with
  | fund _ _ _ _ _ _ => exact { Grows.refl st with }
  | sweep _ _ _ _ _ _ => exact { Grows.refl st with positions := List.prefix_append .. }
  | consolidate _ _ _ _ => exact { Grows.refl st with consolidated := Nat.le_succ _ }
  | returnDust _ _ _ _ => exact { Grows.refl st with dust := fun _ => rfl }
  | buyStake hnone _ _ _ _ _ _ =>
      refine { Grows.refl st with bought := fun _ => rfl, destroyed := fun h => ?_ }
      rw [hnone] at h
      cases h
  | destroy _ _ _ _ _ _ =>
      exact { Grows.refl st with bought := fun _ => rfl, destroyed := fun _ => rfl }

/-- After a step the accounting contains its action. -/
theorem Step.has (h : Step r m treasury deposit hotkey receipt s st signer call st')
    (haction : call.action = some action) : st'.Has action := by
  cases h with
  | fund _ _ _ _ hpos _ =>
      cases haction
      exact fun h0 => UInt64.lt_irrefl _ (h0 ▸ hpos)
  | sweep _ _ _ _ _ _ =>
      cases haction
      exact List.mem_map_of_mem (List.mem_append_right _ (List.mem_singleton_self _))
  | consolidate _ _ _ hget =>
      cases haction
      refine ⟨st.consolidated, Nat.lt_succ_self _, ?_⟩
      rw [hotkeys, List.getElem?_map, hget]
      rfl
  | returnDust _ _ _ _ =>
      cases haction
      exact rfl
  | buyStake _ _ _ _ _ _ _ =>
      cases haction
      exact rfl
  | @destroy target budget bought _ _ _ _ _ _ =>
      cases hdestroy : budget.destroy
      all_goals
        rw [hdestroy] at haction
        cases haction
        exact rfl

theorem Step.canonical (h : Step r m treasury deposit hotkey receipt s st signer call st')
    (hc : st.Canonical) : st'.Canonical := by
  cases h with
  | sweep _ _ _ _ _ hnew => exact hc.append hnew
  | _ => exact ⟨hc.nodup, hc.address⟩

theorem Steps.grows (h : Steps r m treasury deposit hotkey st ts st') : st.Grows st' := by
  induction h with
  | nil => exact .refl _
  | cons _ _ hstep _ ih => exact hstep.grows.trans ih

theorem Steps.canonical (h : Steps r m treasury deposit hotkey st ts st') (hc : st.Canonical) :
    st'.Canonical := by
  induction h with
  | nil => exact hc
  | cons _ _ hstep _ ih => exact ih (hstep.canonical hc)

/-- The accounting contains every action of the history but its funding. -/
theorem Steps.has (h : Steps r m treasury deposit hotkey st ts st') (hfund : action ≠ .fund) :
    ∀ x ∈ ts, x.1.call.action = some action → st'.Has action := by
  induction h with
  | nil => exact fun _ hx => absurd hx List.not_mem_nil
  | cons _ _ hstep hrest ih =>
      intro x hx haction
      rcases List.mem_cons.mp hx with rfl | hx
      · exact (hstep.has haction).mono hfund hrest.grows
      · exact ih x hx haction

end Replayed

end Buyback
