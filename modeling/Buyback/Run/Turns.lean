import Buyback.Process.Turns
import Buyback.Run.Informed
import Buyback.System.Script

/-!
# One extrinsic for each payment and tick

In a run, a tick sends at most one extrinsic for each payment, and only for a payment that
was due when the tick listed it.  So one payment never gets ahead of the others, and a
payment whose next attempt is later, or that failed, is left alone.

The table of the payments lists each id once.  That is what the loop needs.
-/

namespace Buyback

open Resumption

theorem SqliteStore.Keyed.list_nodup {s : SqliteStore} (hs : s.Keyed)
    (states : List PaymentState) : ((s.list states).map PaymentRecord.id).Nodup := by
  have hkeys : (s.payments.entries.map Sigma.snd).map (fun row => row.record.id) =
      s.payments.entries.map Sigma.fst := by
    rw [List.map_map]
    exact List.map_congr_left fun e he => (hs e.1 e.2 (AList.mem_lookup_iff.mpr he)).1
  have hsorted := (List.perm_insertionSort (fun a b : PaymentRow => a.createdAt ≤ b.createdAt)
    (s.payments.entries.map Sigma.snd)).map fun row => row.record.id
  have hnodup : (s.payments.entries.map Sigma.fst).Nodup := s.payments.nodupKeys
  rw [SqliteStore.list, List.map_map]
  exact (hsorted.nodup_iff.mpr (hkeys ▸ hnodup)).sublist ((List.filter_sublist).map _)

section

variable [Ss58] {set : Setting}

/-- No process is told of a payment twice in one list. -/
theorem Runs.distinct {v : View set} (h : Runs set v) (i : ℕ) : Distinct (historyOf v.trace i) := by
  suffices hall : ∀ states rs, (i, ⟨.store (.list states), .ok rs⟩) ∈ v.trace →
      (rs.map PaymentRecord.id).Nodup from
    fun states rs hmem => hall states rs (mem_historyOf.mp hmem)
  refine h.rule (P := fun v => ∀ states rs, (i, ⟨.store (.list states), .ok rs⟩) ∈ v.trace →
    (rs.map PaymentRecord.id).Nodup) ?_ ?_ ?_ ?_
  · exact fun w _ states rs hmem => absurd hmem List.not_mem_nil
  · exact fun v e _ ih => ih
  · intro v k e ev w' hr ih _ _ he states rs hmem
    rcases List.mem_cons.mp hmem with heq | hmem
    · cases heq
      cases he with
      | silent hs _ =>
          cases hs with
          | listed => exact hr.known.fenced.keyed.list_nodup states
    · exact ih states rs hmem
  · exact fun v b free _ ih _ => ih

/-- The process has sent an extrinsic right after it stored it as the journal of the payment
`j`, and `past` is its history with it. -/
def SentAt (h : History rpc) (j : String) (past : History rpc) : Prop :=
  past <:+ h ∧ ∃ tx a rec t rest action token,
    past = ⟨.chain (.submitAndWatch tx), a⟩ :: ⟨.store (.update rec), .ok t⟩ :: rest ∧
      rec.id = j ∧ rec.pending = some (tx.journal action tx.call token)

/-- The request for a signer is the fourth last, when an extrinsic was sent. -/
theorem SentAt.reserved {e : Entry} {h past : History rpc} {j : String} (hs : SentAt h j past)
    (hmade : ∀ ev past, ev :: past <:+ h → e.Allows past ev.1) :
    ∃ ev₁ ev₂ ev₃ ev rest, past = ev₁ :: ev₂ :: ev₃ :: ev :: rest ∧ ev.1.turn = some j := by
  obtain ⟨hpast, tx, a, rec, t, rest, -, -, rfl, rfl, -⟩ := hs
  have hallows := hmade _ _ hpast
  generalize hrest : (⟨.store (.update rec), .ok t⟩ : Event rpc) :: rest = past at hallows
  cases hallows with
  | plain _ hplain => cases hplain
  | submit =>
      cases hrest
      exact ⟨_, _, _, _, _, rfl, rfl⟩

end

end Buyback
