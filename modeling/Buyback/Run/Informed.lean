import Buyback.Process.Evidence
import Buyback.Record.Terms
import Buyback.Run.Issued

/-!
# Runs with their readings

The runs of the processes are runs under `Allows` and `Grounds` at once.  `Informed.rule`
is the invariant rule with both, and `Informed.write` gives the readings behind a write
over the stored record, which by the version check is the one the process has read.

`Runs.since` is the rule for what every write keeps: it relates each record a process has
seen to the stored one.
-/

namespace Buyback

open Resumption

variable [Ss58] {set : Setting}

/-- The points the runs reach, when each request has its readings. -/
abbrev Informed (set : Setting) : View set → Prop :=
  Guarded.Reachable (processes set) Relies fun e h o => e.Allows h o ∧ e.Grounds h o

theorem informed_view {c : Resumption.Config (processes set)}
    (h : Resumption.Reachable _ c) : Informed set c.view :=
  h.guarded ((processes_meet set).and (processes_ground set))

theorem Informed.runs {v : View set} (h : Informed set v) : Runs set v :=
  h.mono fun _ _ _ hg => hg.1

/-- The rule for invariants of runs, with the readings of each request. -/
theorem Informed.rule {P : View set → Prop}
    (init : ∀ w : World, w.Fresh → P ⟨w, [], []⟩)
    (spawn : ∀ (v : View set) (e : Entry), Informed set v → P v →
      P { v with entries := v.entries ++ [e] })
    (event : ∀ (v : View set) (i : ℕ) (e : Entry) (ev : Event rpc) (w' : World),
      Informed set v → P v → v.entries[i]? = some e →
      e.Grounds (historyOf v.trace i) ev.1 →
      Effect set v.state e (historyOf v.trace i) ev w' →
      P ⟨w', v.entries, (i, ev) :: v.trace⟩)
    (block : ∀ (v : View set) (b : Block) (free : AccountId32 → UInt64), Informed set v → P v →
      P { v with state := { v.state with chain := v.state.chain.append b free } })
    {v : View set} (h : Informed set v) : P v := by
  induction h with
  | init hi => exact init _ hi
  | step hr hs ih =>
      cases hs with
      | spawn e => exact spawn _ e hr ih
      | exec he hg _ hserve =>
          exact event _ _ _ _ _ hr ih he hg.2 ((Informed.runs hr).known.effect hg.1 hserve)
      | env hf => cases hf with | block _ => exact block _ _ _ hr ih

/-- What every write keeps, holds between a record that was seen and the stored one. -/
theorem Runs.since {P : PaymentRecord → PaymentRecord → Prop} (refl : ∀ r, P r r)
    (trans : ∀ a b c, P a b → P b c → P a c)
    (write : ∀ e h r new now, r.Sound → Knows h r → Entry.Writes e h r new →
      P r (new.stamped now))
    {v : View set} (h : Runs set v) : ∀ i ev r, (i, ev) ∈ v.trace → Shows ev r →
      ∃ cur, v.state.store.get r.id = some cur ∧ P r cur := by
  refine h.rule (P := fun v => ∀ i ev r, (i, ev) ∈ v.trace → Shows ev r →
    ∃ cur, v.state.store.get r.id = some cur ∧ P r cur) ?_ ?_ ?_ ?_
  · exact fun w _ i ev r hmem => absurd hmem List.not_mem_nil
  · exact fun v e _ ih => ih
  · intro v i e ev w' hr ih _ _ he j ev' r hmem hshow
    rcases List.mem_cons.mp hmem with heq | hmem
    · cases heq
      exact ⟨r, he.shows hr.known.fenced.keyed hshow, refl r⟩
    · obtain ⟨cur, hcur, hrel⟩ := ih j ev' r hmem hshow
      rcases he.next hcur with hsame | ⟨new, now, -, hs, hk, hw, -, -, hget⟩
      · exact ⟨cur, hsame, hrel⟩
      · exact ⟨_, hget, trans _ _ _ hrel (write _ _ _ _ _ hs hk hw)⟩
  · exact fun v b free _ ih _ => ih

/-- A record that was seen has the terms of the stored one, and its report if settled. -/
theorem Runs.fixed {v : View set} (h : Runs set v) {i : ℕ} {r : PaymentRecord}
    (hs : Seen (historyOf v.trace i) r) :
    ∃ cur, v.state.store.get r.id = some cur ∧ r.Fixed cur := by
  obtain ⟨ev, hev, hshow⟩ := hs
  refine h.since (P := PaymentRecord.Fixed) .refl (fun _ _ _ => .trans) ?_ i ev r
    (mem_historyOf.mp hev) hshow
  exact fun e h r new now hs _ hw =>
    (PaymentRecord.Fixed.writes hs hw).trans ⟨rfl, id, fun _ => rfl⟩

/-- The readings of a tick behind what it has written over the stored record. -/
theorem Known.reads {v : View set} (hk : Known v) {i : ℕ} {E : Engine} {new : PaymentRecord}
    {now : UInt64} {s' : SqliteStore}
    (hg : (Entry.tick E).Grounds (historyOf v.trace i) (.store (.update new)))
    (hu : SqliteStore.Updates v.state.store new now s') {r : PaymentRecord}
    (hr : v.state.store.get new.id = some r) : E.Reads (historyOf v.trace i) r new := by
  generalize hh : historyOf v.trace i = h at hg
  cases hg with
  | free h => exact h.elim
  | other h => exact absurd rfl (h E)
  | update hs hid hversion hreads =>
      subst hh
      have hcur := hk.stored hs hid hversion hu
      rw [← hid, hr] at hcur
      cases hcur
      exact hreads

theorem Effect.reads {v : View set} (hk : Known v) {i : ℕ} {E : Engine} {new : PaymentRecord}
    {now : UInt64} {w' : World}
    (he : Effect set v.state (.tick E) (historyOf v.trace i) ⟨.store (.update new), .ok now⟩ w')
    (hg : (Entry.tick E).Grounds (historyOf v.trace i) (.store (.update new)))
    {r : PaymentRecord} (hr : v.state.store.get new.id = some r) :
    E.Reads (historyOf v.trace i) r new := by
  cases he with
  | silent hs _ => cases hs
  | wrote _ _ _ _ _ hu _ => exact hk.reads hg hu hr

/-! ## What was sent -/

/-- Nothing is sent but by a process. -/
theorem Runs.sent {v : View set} (h : Runs set v) : ∀ tx ∈ v.state.chain.submitted,
    ∃ i a, (i, ⟨.chain (.submitAndWatch tx), a⟩) ∈ v.trace := by
  refine h.rule (P := fun v => ∀ tx ∈ v.state.chain.submitted,
    ∃ i a, (i, ⟨.chain (.submitAndWatch tx), a⟩) ∈ v.trace) ?_ ?_ ?_ ?_
  · intro w hw tx htx
    rw [hw.2.2] at htx
    cases htx
  · exact fun v e _ ih => ih
  · intro v i e ev w' _ ih _ _ he tx htx
    rcases Journals.submitted_cases he htx with htx | ⟨a, rfl⟩
    · obtain ⟨j, a, hmem⟩ := ih tx htx
      exact ⟨j, a, .tail _ hmem⟩
    · exact ⟨i, a, .head _⟩
  · exact fun v b free _ ih _ => ih

/-- A journal is of an extrinsic that its signer has signed. -/
theorem Entry.Allows.signer_eq {E : Engine} {h : History rpc} {call : ChainCall}
    {signer : Keypair} {tx : PreparedTx} {new : PaymentRecord}
    (hg : (Entry.tick E).Allows (⟨.chain (.prepare call signer), .ok tx⟩ :: h)
      (.store (.update new))) : tx.signer = ss58 signer := by
  obtain ⟨r, -, hw⟩ := hg.update_inv
  cases hw with
  | tick hi _ => exact hi.elim
  | journal _ _ _ hsigner => exact hsigner

/-- The readings behind an extrinsic that was sent: `past` is the history of its sender
before the submission, and `start` what it had read when it asked for the signer. -/
theorem Informed.pays {v : View set} (h : Informed set v) {tx : PreparedTx}
    (htx : tx ∈ v.state.chain.submitted) : ∃ i E a past start r signer,
      v.entries[i]? = some (.tick E) ∧
      ⟨.chain (.submitAndWatch tx), a⟩ :: past <:+ historyOf v.trace i ∧ start <:+ past ∧
      Seen start r ∧ r.identity = some E.jobIdentity ∧ tx.signer = ss58 signer ∧
      E.Pays start r tx.call signer := by
  obtain ⟨i, a, hmem⟩ := h.runs.sent tx htx
  obtain ⟨e, he⟩ := h.entry hmem
  obtain ⟨later, past, heq⟩ := List.append_of_mem (mem_historyOf.mpr hmem)
  have hsubmit : _ :: past <:+ historyOf v.trace i := ⟨later, heq.symm⟩
  obtain ⟨⟨hg, -⟩, -⟩ := h.made he hsubmit
  cases hg with
  | plain _ hplain => cases hplain
  | @submit E h₀ r action call signer token _ t =>
      have hupdate := (List.suffix_cons _ _).trans hsubmit
      have hprepare := (List.suffix_cons _ _).trans hupdate
      obtain ⟨⟨hjournal, -⟩, -⟩ := h.made he hupdate
      obtain ⟨⟨-, hground⟩, hcall⟩ := h.made he hprepare
      have hcall : tx.call = call := hcall
      obtain ⟨E', ev, start, r', hE, hstart, hs, hidentity, hpays⟩ := hground.prepare_inv
      cases hE
      cases hstart
      exact ⟨i, E, a, _, h₀, r', signer, he, hsubmit, ⟨[_, _, _], rfl⟩, hs, hidentity,
        hjournal.signer_eq, hcall ▸ hpays⟩

/-! ## What was inserted -/

/-- A stored record has the terms it was inserted with. -/
theorem Runs.termed {v : View set} (h : Runs set v) : ∀ id r, v.state.store.get id = some r →
    ∃ i r₀, (i, ⟨.store (.insert r₀), .ok ()⟩) ∈ v.trace ∧ r₀.terms = r.terms := by
  refine h.rule (P := fun v => ∀ id r, v.state.store.get id = some r →
    ∃ i r₀, (i, ⟨.store (.insert r₀), .ok ()⟩) ∈ v.trace ∧ r₀.terms = r.terms) ?_ ?_ ?_ ?_
  · intro w hw id r hr
    rw [hw.1] at hr
    cases hr
  · exact fun v e _ ih => ih
  · intro v i e ev w' _ ih _ _ he id r hr
    rcases he.origin hr with hold | ⟨-, -, -, rfl⟩ | ⟨old, new, now, hold, -, -, -, hw, rfl, rfl⟩
    · obtain ⟨j, r₀, hmem, hterms⟩ := ih id r hold
      exact ⟨j, r₀, .tail _ hmem, hterms⟩
    · exact ⟨i, r, .head _, rfl⟩
    · obtain ⟨j, r₀, hmem, hterms⟩ := ih id old hold
      exact ⟨j, r₀, .tail _ hmem, hterms.trans (PaymentRecord.terms_writes hw).symm⟩
  · exact fun v b free _ ih _ => ih

end Buyback
