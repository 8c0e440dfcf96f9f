import Buyback.Run.Known
import Buyback.System.Script

/-!
# Nothing goes back

Every write makes progress, so every run does.  The one field that may fall is
`swept_alpha`, since the sum of a sweep wraps.  It does not fall while the sweep
in flight has room, and room is needed.
-/

namespace Buyback

open Resumption

/-- A sum that wraps is not smaller exactly if it did not wrap. -/
theorem le_add_iff {a b : UInt64} : a ≤ a + b ↔ a.toNat + b.toNat < 2 ^ 64 := by
  have ha := a.toNat_lt
  have hb := b.toNat_lt
  rw [UInt64.le_iff_toNat_le, UInt64.toNat_add]
  omega

namespace PaymentRecord

variable {r new : PaymentRecord} {e : Entry} {h : History rpc}

/-- The alpha a sweep in flight adds to `swept_alpha`. -/
def sweeping (r : PaymentRecord) : UInt64 :=
  match r.pending with
  | some p =>
      match p.action with
      | .sweep _ => p.amount
      | _ => 0
  | none => 0

/-- The sum that a sweep in flight makes fits in a `u64`. -/
def Roomy (r : PaymentRecord) : Prop := r.sweptAlpha.toNat + r.sweeping.toNat < 2 ^ 64

instance (r : PaymentRecord) : Decidable r.Roomy := inferInstanceAs (Decidable (_ < _))

theorem sweeping_of_sweep {p : PendingTx} {hotkey : String} (hp : r.pending = some p)
    (ha : p.action = .sweep hotkey) : r.sweeping = p.amount := by
  simp only [sweeping, hp, ha]

/-- Nothing is undone, and `swept_alpha` has not wrapped. -/
structure Forward (old new : PaymentRecord) : Prop extends Progress old new where
  sweptAlpha : old.sweptAlpha ≤ new.sweptAlpha

namespace Forward

theorem refl (r : PaymentRecord) : r.Forward r := ⟨.refl r, UInt64.le_refl _⟩

theorem trans {a b c : PaymentRecord} (h₁ : a.Forward b) (h₂ : b.Forward c) : a.Forward c :=
  ⟨h₁.toProgress.trans h₂.toProgress, UInt64.le_trans h₁.sweptAlpha h₂.sweptAlpha⟩

end Forward

theorem recordFailure_sweptAlpha {text : String} {maxAttempts : UInt32} {now : UInt64} :
    (r.recordFailure text maxAttempts now).sweptAlpha = r.sweptAlpha := by
  obtain ⟨lastError, nextAttemptAt, ⟨-, heq⟩ | ⟨-, heq⟩⟩ :=
    r.recordFailure_cases text maxAttempts now
  · rw [heq]
  · rw [heq]

/-- A sweep is added without a wrap exactly if there is room for it. -/
theorem Applies.sweep_le_iff {tx : TxRef} {s : EventSummary} {hotkey : String}
    (ha : Applies r tx s (.sweep hotkey) new) :
    r.sweptAlpha ≤ new.sweptAlpha ↔ r.sweptAlpha.toNat + tx.amount.toNat < 2 ^ 64 := by
  cases ha
  exact le_add_iff

theorem Applies.sweptAlpha_le {tx : TxRef} {s : EventSummary} {action : Action}
    (ha : Applies r tx s action new)
    (hroom : ∀ hotkey, action = .sweep hotkey → r.sweptAlpha.toNat + tx.amount.toNat < 2 ^ 64) :
    r.sweptAlpha ≤ new.sweptAlpha := by
  cases action with
  | sweep hotkey => exact ha.sweep_le_iff.mpr (hroom hotkey rfl)
  | _ => cases ha; exact UInt64.le_refl _

variable [Ss58]

theorem sweptAlpha_tick {E : Engine} (hroom : r.Roomy) (hw : E.Writes h r new) :
    r.sweptAlpha ≤ new.sweptAlpha := by
  cases hw with
  | @applied _ p _ _ hp _ _ _ happly =>
      refine (apply_ok happly hp).sweptAlpha_le fun hotkey ha => ?_
      rw [Roomy, sweeping_of_sweep hp ha] at hroom
      exact hroom
  | failedOnChain _ _ _ =>
      exact (recordFailure_sweptAlpha (r := { r with pending := none })).symm ▸ UInt64.le_refl _
  | quarantined _ _ _ _ =>
      unfold quarantine
      rw [recordFailure_sweptAlpha]
      exact UInt64.le_refl _
  | attempted _ _ _ _ =>
      rw [recordFailure_sweptAlpha]
      exact UInt64.le_refl _
  | _ => exact UInt64.le_refl _

/-- Every write over a sound record with room for its sweep goes forward. -/
theorem Forward.writes (hs : r.Sound) (hroom : r.Roomy) (hw : e.Writes h r new) :
    r.Forward new := by
  refine ⟨.writes hs hw, ?_⟩
  cases hw with
  | tick _ hw => exact sweptAlpha_tick hroom hw
  | journal _ hb _ _ => cases hb <;> exact UInt64.le_refl _
  | retry _ _ _ _ _ => exact UInt64.le_refl _
  | forceSweep _ _ _ _ => exact UInt64.le_refl _

end PaymentRecord

/-- A migration or recovery goes forward, over any record. -/
theorem SqliteStore.Migrates.forward {s s' : SqliteStore} {id : String}
    {old next : PaymentRecord} (hm : Migrates s id old next s') : old.Forward next := by
  refine ⟨hm.progress, ?_⟩
  rw [hm.next_eq]
  exact UInt64.le_refl _

/-- The operations over legacy records. -/
def StoreOp.Legacy : StoreOp → Prop
  | .migrateLegacyPolicy .. | .recoverLegacy _ => True
  | _ => False

theorem SqliteStore.Changes.forward {s s' : SqliteStore} {x : Outside} {o : StoreOp} {a : o.Ret}
    (hc : s.Changes x o a s') (ho : o.Legacy) {j : String} {old : PaymentRecord}
    (hold : s.get j = some old) : ∃ new, s'.get j = some new ∧ old.Forward new := by
  have hmigrated {id : String} {r next : PaymentRecord} (hm : Migrates s id r next s') :
      ∃ new, s'.get j = some new ∧ old.Forward new := by
    by_cases h : j = id
    · subst h
      cases hm.get_old.symm.trans hold
      exact ⟨next, hm.get_self, hm.forward⟩
    · exact ⟨old, (hm.get_ne j h).trans hold, .refl old⟩
  cases hc with
  | migrateLegacyPolicy hm => exact hmigrated hm
  | recoverLegacy hm => exact hmigrated hm
  | _ => exact ho.elim

section

variable [Ss58] {set : Setting}

/-- No sweep that is in flight wraps the sum of its record. -/
def Roomy (c : Resumption.Config (processes set)) : Prop :=
  ∀ j r, c.state.store.get j = some r → r.Roomy

/-- What the steps between two configurations have kept. -/
structure Onward (c c' : Resumption.Config (processes set)) : Prop where
  /-- Every record goes forward. -/
  kept : ∀ j old, c.state.store.get j = some old →
    ∃ new, c'.state.store.get j = some new ∧ old.Forward new
  /-- A failed record resumes in the stage it failed in. -/
  resumes : ∀ j r, c'.state.store.get j = some r → r.state = .failed →
    ∃ s, r.failedFrom = some s ∧ s.Working ∧ r.stage = s ∧ r.retryTarget = s
  /-- So do legacy records that are migrated or recovered, in any store. -/
  legacy : ∀ (s : SqliteStore) x o a j old, StoreOp.Legacy o → (s.perform x o).1 = .ok a →
    s.get j = some old → ∃ new, (s.perform x o).2.get j = some new ∧ old.Forward new
  /-- A sweep that is applied needs room. -/
  sweeps : ∀ (r new : PaymentRecord) p hotkey blockHash s, r.pending = some p →
    p.action = .sweep hotkey → r.apply (p.receipt blockHash) s = .ok new →
    (r.sweptAlpha ≤ new.sweptAlpha ↔ r.Roomy)

/-- One step from a configuration with room. -/
theorem kept_step {c c' : Resumption.Config (processes set)}
    (h : Resumption.Reachable (processes set) c) (hs : Step (processes set) c c') (hroom : Roomy c)
    {j : String} {old : PaymentRecord} (hold : c.state.store.get j = some old) :
    ∃ new, c'.state.store.get j = some new ∧ old.Forward new := by
  cases serving h hs with
  | quiet hstore _ => exact ⟨old, by rw [hstore]; exact hold, .refl old⟩
  | event _ _ he _ =>
      rcases he.next hold with hsame | ⟨new, now, -, hsound, -, hw, -, -, hget⟩
      · exact ⟨old, hsame, .refl old⟩
      · refine ⟨_, hget, (PaymentRecord.Forward.writes hsound (hroom j old hold) hw).trans ?_⟩
        exact ⟨.stamped _ _, UInt64.le_refl _⟩

/-- In a run whose sweeps have room, nothing goes back. -/
theorem onward_run {c c' : Resumption.Config (processes set)}
    (h : Resumption.Reachable (processes set) c)
    (hrun : RunIf (processes set) (fun c _ => Roomy c) c c') : Onward c c' where
  kept := by
    refine hrun.rule (P := fun b : Resumption.Config (processes set) =>
      ∀ j old, c.state.store.get j = some old →
        ∃ new, b.state.store.get j = some new ∧ old.Forward new) h ?_ ?_
    · exact fun j old hold => ⟨old, hold, .refl old⟩
    · intro a b ha ih hs hroom j old hold
      obtain ⟨new, hnew, hforward⟩ := ih j old hold
      obtain ⟨new', hnew', hforward'⟩ := kept_step ha hs hroom hnew
      exact ⟨new', hnew', hforward.trans hforward'⟩
  resumes j r hget hfailed := by
    have hr : Runs set c'.view := runs_view (h.run (RunIf.run hrun))
    have hsound := hr.known.sound j r hget
    rcases hsound.stage_eq with ⟨hne, -⟩ | ⟨-, hw, hfrom⟩
    · exact absurd hfailed hne
    · refine ⟨r.stage, hfrom, hw, rfl, ?_⟩
      have hpending : r.stage ≠ .pending := by
        rcases hw with h | h | h <;> rw [h] <;> decide
      simp only [PaymentRecord.retryTarget, hfrom]
  legacy s x o a j old ho hok hold := (SqliteStore.perform_ok hok).forward ho hold
  sweeps r new p hotkey blockHash s hp ha happly := by
    rw [PaymentRecord.Roomy, PaymentRecord.sweeping_of_sweep hp ha]
    have happlies := PaymentRecord.apply_ok happly hp
    rw [ha] at happlies
    exact happlies.sweep_le_iff

end

/-- Two positions that together make `2 ^ 64`. -/
def halves : List StakePosition := [⟨7, 1, 9223372036854775808⟩, ⟨8, 1, 9223372036854775808⟩]

/-- The events of a sweep. -/
def sampleMoved : Events :=
  [.ok ⟨pallet, "StakeTransferred",
    [.account 3, .account 2, .account 7, .u16 1, .u16 1, .u64 0], ""⟩]

/-- A tick of the process `i` sweeps one of the halves and sees it land as `hash`. -/
def sweepHalf (i : ℕ) (hash : String) : List (Move (player calm)) :=
  start (.tick (sampleEngine none)) :: serves i 2 ++ serve i (.stake 0 halves) :: serves i 5 ++
    finalize [(hash, sampleMoved)] none :: serves i 1

/-- A job with nothing to fund sweeps one half. -/
def firstHalf : List (Move (player calm)) :=
  sampleJob ++ start (.tick (sampleEngine none)) :: serves 1 20 ++ sweepHalf 2 "0x"

/-- It applies that sweep and sweeps the other half. -/
def secondHalf : List (Move (player calm)) := firstHalf ++ serves 2 1 ++ sweepHalf 3 "0x'"

theorem secondHalf_wraps : (playSample secondHalf).any (fun c =>
    (c.state.store.get "job").any fun old =>
      (Config.play (player calm) c (serves 3 1)).any fun c' =>
        (c'.state.store.get "job").any fun new =>
          old.sweptAlpha == 9223372036854775808 && new.sweptAlpha == 0) = true := by
  decide +kernel

/-- The second half wraps the sum to zero. -/
theorem secondHalf_falls : ∃ c c' : Resumption.Config (processes calm),
    Resumption.Reachable (processes calm) c ∧ Run (processes calm) c c' ∧
      ∃ j old new, c.state.store.get j = some old ∧ c'.state.store.get j = some new ∧
        new.sweptAlpha < old.sweptAlpha := by
  obtain ⟨c, hc, htest⟩ := playSample_any secondHalf_wraps
  simp only [Option.any_eq_true, Bool.and_eq_true, beq_iff_eq] at htest
  obtain ⟨old, hold, c', hplay, new, hnew, hbefore, hafter⟩ := htest
  refine ⟨c, c', hc, Config.play_run hplay, "job", old, new, hold, hnew, ?_⟩
  rw [hbefore, hafter]
  decide

theorem roomy_of_entries {c : Resumption.Config (processes calm)}
    (h : (c.state.store.payments.entries.all fun x => decide x.2.record.Roomy) = true) :
    Roomy c := by
  intro j r hget
  obtain ⟨row, hrow, rfl⟩ := SqliteStore.get_eq_some.mp hget
  simpa using List.all_eq_true.mp h _ (AList.mem_lookup_iff.mp hrow)

theorem firstHalf_fits : (playSample firstHalf).any (fun c =>
    (c.state.store.payments.entries.all fun x => decide x.2.record.Roomy) &&
      (Config.move (player calm) c (serve 2 .usual)).any fun c' =>
        decide (c.trace.length < c'.trace.length) &&
          (c'.state.store.get "job").any fun new => new.sweptAlpha == 9223372036854775808) =
      true := by
  decide +kernel

/-- The first half has room. -/
theorem firstHalf_onward : ∃ c c' : Resumption.Config (processes calm),
    (∃ new, c'.state.store.get "job" = some new ∧ new.sweptAlpha = 9223372036854775808) ∧
      Onward c c' := by
  obtain ⟨c, hc, htest⟩ := playSample_any firstHalf_fits
  simp only [Option.any_eq_true, Bool.and_eq_true, beq_iff_eq, decide_eq_true_eq] at htest
  obtain ⟨hroom, c', hmove, hlt, new, hnew, halpha⟩ := htest
  obtain ⟨hs, -⟩ := Config.move_serve hmove hlt
  exact ⟨c, c', ⟨new, hnew, halpha⟩, onward_run hc (.single ⟨hs, roomy_of_entries hroom⟩)⟩

end Buyback
