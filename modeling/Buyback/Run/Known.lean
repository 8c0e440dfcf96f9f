import Buyback.Process.Obeys
import Buyback.Store.Ownership
import Buyback.Record.Progress

/-!
# Runs over known records

What one request does to the world, once the records of the store are known to be
sound.  The heart is the version check: a process may write over the record it
read only while that record is the stored one.  So `Effect` speaks of the stored
record, where the guarantees speak of the record a process has seen.

`Runs.rule` is the invariant rule every later result about runs is proved with.
-/

namespace Buyback

open Resumption

/-! ## Keys of a write -/

variable [Ss58] {set : Setting}

theorem Engine.Writes.keys {E : Engine} {h : History rpc} {r new : PaymentRecord}
    (hw : E.Writes h r new) : new.id = r.id ∧ new.version = r.version := by
  cases hw with
  | applied hp _ _ _ happly => exact (PaymentRecord.apply_ok happly hp).keys
  | failedOnChain _ _ _ => exact PaymentRecord.recordFailure_keys (r := { r with pending := none })
  | quarantined _ _ _ _ =>
      unfold PaymentRecord.quarantine
      exact PaymentRecord.recordFailure_keys
  | attempted _ _ _ _ => exact PaymentRecord.recordFailure_keys
  | _ => exact ⟨rfl, rfl⟩

/-- A process writes back the id and the version it read. -/
theorem Entry.Writes.keys {e : Entry} {h : History rpc} {r new : PaymentRecord}
    (hw : e.Writes h r new) : new.id = r.id ∧ new.version = r.version := by
  cases hw with
  | tick _ hw => exact hw.keys
  | journal _ hb _ _ => cases hb <;> exact ⟨rfl, rfl⟩
  | retry _ _ _ _ _ => exact ⟨rfl, rfl⟩
  | forceSweep _ _ _ _ => exact ⟨rfl, rfl⟩

/-! ## What is known in a run -/

/-- A point of a run. -/
abbrev View (set : Setting) : Type := Guarded.View (processes set)

/-- The points the runs reach. -/
abbrev Runs (set : Setting) : View set → Prop :=
  Guarded.Reachable (processes set) Relies Entry.Allows

/-- Every configuration of the programs is a point of a run. -/
theorem runs_view {c : Resumption.Config (processes set)} (h : Resumption.Reachable _ c) :
    Runs set c.view :=
  h.guarded (processes_meet set)

/-- The record is `cur`, or an older version of it. -/
def PaymentRecord.Before (r cur : PaymentRecord) : Prop :=
  r = cur ∨ r.version < cur.version ∧ r.Progress cur

omit [Ss58] in
theorem PaymentRecord.Before.progress {r cur : PaymentRecord} (h : r.Before cur) :
    r.Progress cur := by
  rcases h with rfl | ⟨-, h⟩
  · exact .refl r
  · exact h

/-- The stored records are sound, and every record a process has seen was stored. -/
structure Known (v : View set) : Prop where
  fenced : v.state.store.Fenced
  sound : ∀ id r, v.state.store.get id = some r → r.Sound
  shown : ∀ i ev r, (i, ev) ∈ v.trace → Shows ev r →
    ∃ cur, v.state.store.get r.id = some cur ∧ r.Before cur
  gets : ∀ i id r, (i, ⟨.store (.get id), .ok (some r)⟩) ∈ v.trace → r.id = id

namespace Known

variable {v : View set} {i : ℕ} {r : PaymentRecord}

theorem seen (hk : Known v) (hs : Seen (historyOf v.trace i) r) :
    ∃ cur, v.state.store.get r.id = some cur ∧ r.Before cur := by
  obtain ⟨ev, hev, hshow⟩ := hs
  exact hk.shown i ev r (mem_historyOf.mp hev) hshow

theorem knows (hk : Known v) (hr : v.state.store.get r.id = some r) :
    Knows (historyOf v.trace i) r where
  older r₀ hs hid := by
    obtain ⟨cur, hcur, hbefore⟩ := hk.seen hs
    rw [hid, hr] at hcur
    cases hcur
    exact hbefore.progress.rank
  gets id r' hmem := hk.gets i id r' (mem_historyOf.mp hmem)

/-- The version check: a write succeeds only over the record it was made from. -/
theorem stored (hk : Known v) {new : PaymentRecord} {now : UInt64} {s' : SqliteStore}
    (hs : Seen (historyOf v.trace i) r) (hid : new.id = r.id) (hversion : new.version = r.version)
    (hu : SqliteStore.Updates v.state.store new now s') : v.state.store.get r.id = some r := by
  obtain ⟨cur, hcur, hbefore⟩ := hk.seen hs
  obtain ⟨old, hold, hv, -⟩ := hu.previous
  rw [hid, hcur] at hold
  cases hold
  rcases hbefore with rfl | ⟨hlt, -⟩
  · exact hcur
  · rw [hv, hversion] at hlt
    exact absurd hlt (UInt64.lt_irrefl _)

theorem current (hk : Known v) {e : Entry} {new : PaymentRecord} {now : UInt64}
    {s' : SqliteStore} (hs : Seen (historyOf v.trace i) r)
    (hw : e.Writes (historyOf v.trace i) r new)
    (hu : SqliteStore.Updates v.state.store new now s') :
    v.state.store.get r.id = some r :=
  hk.stored hs hw.keys.1 hw.keys.2 hu

end Known

/-! ## What one request does -/

/-- A request that changes neither the store nor the chain. -/
inductive Silent (set : Setting) (w : World) : Event rpc → Prop where
  | checked : Silent set w ⟨.store .requireSigning, .ok ()⟩
  | got {id : String} : Silent set w ⟨.store (.get id), .ok (w.store.get id)⟩
  | listed {states : List PaymentState} :
      Silent set w ⟨.store (.list states), .ok (w.store.list states)⟩
  | refused {o : StoreOp} {err : Error} :
      (set.faults ∨ ∃ x, (w.store.perform x o).1 = .error err) →
      Silent set w ⟨.store o, .error err⟩
  | answered {o : ChainOp} {a : Result o.Ret} :
      w.chain.Answers o a → Silent set w ⟨.chain o, a⟩
  | claimed {o : ChainOp} {a : Result o.Ret} :
      ¬ set.truthful → Silent set w ⟨.chain o, a⟩
  | hosted {o : HostOp} {a : o.Ans} : Silent set w ⟨.host o, a⟩

/-- What a request of `e` does to the world `w`, after the history `h` of its process. -/
inductive Effect (set : Setting) (w : World) (e : Entry) (h : History rpc) :
    Event rpc → World → Prop where
  | silent {ev : Event rpc} {ts : List String} :
      Silent set w ev →
      w.tokens ⊆ ts →
      Effect set w e h ev { w with tokens := ts }
  | inserted {r : PaymentRecord} {s' : SqliteStore} {ts : List String} :
      e.Creates r →
      SqliteStore.Inserts w.store r s' →
      w.tokens ⊆ ts →
      Effect set w e h ⟨.store (.insert r), .ok ()⟩ { w with store := s', tokens := ts }
  | wrote {r new : PaymentRecord} {now : UInt64} {s' : SqliteStore} {ts : List String} :
      w.store.get r.id = some r →
      new.id = r.id →
      r.Sound →
      Knows h r →
      e.Writes h r new →
      SqliteStore.Updates w.store new now s' →
      w.tokens ⊆ ts →
      Effect set w e h ⟨.store (.update new), .ok now⟩ { w with store := s', tokens := ts }
  | reserved {E : Engine} {r r' : PaymentRecord} {action : Action} {call : ChainCall}
      {signer : Keypair} {token : String} {s' : SqliteStore} :
      e = .tick E →
      E.Builds h r r' action call signer →
      token ∉ w.tokens →
      SqliteStore.Reserves w.store (ss58 signer) r'.id (some r'.version) token s' →
      Effect set w e h ⟨.store (.reserveSignerForRecord (ss58 signer) r'), .ok token⟩
        { w with store := s', tokens := token :: w.tokens }
  | cancelled {signer job token : String} {s' : SqliteStore} {ts : List String} :
      SqliteStore.Cancels w.store signer job token s' →
      w.tokens ⊆ ts →
      Effect set w e h ⟨.store (.cancelPreparation signer job token), .ok ()⟩
        { w with store := s', tokens := ts }
  | prepared {call : ChainCall} {signer : Keypair} {tx : PreparedTx} :
      w.chain.Signs call tx →
      Effect set w e h ⟨.chain (.prepare call signer), .ok tx⟩
        { w with chain := { w.chain with signed := tx :: w.chain.signed } }
  | submitted {tx : PreparedTx} {a : Result Unit} :
      Effect set w e h ⟨.chain (.submitAndWatch tx), a⟩
        { w with chain := { w.chain with submitted := tx :: w.chain.submitted } }

/-- Policies of sound records are not migrated. -/
theorem Known.not_migrates {v : View set} (hk : Known v) {id : String}
    {old next : PaymentRecord} {s' : SqliteStore} :
    ¬ SqliteStore.Migrates v.state.store id old next s' := by
  intro hm
  have hs := hk.sound id old hm.get_old
  rcases hm.legacy with h | h
  · exact hs.identified h
  · rw [hs.required] at h
    cases h

namespace Entry.Allows

variable {e : Entry} {h : History rpc}

theorem insert_inv {r : PaymentRecord} (hg : e.Allows h (.store (.insert r))) : e.Creates r := by
  cases hg with
  | plain _ hplain => cases hplain
  | insert _ hc => exact hc

theorem update_inv {new : PaymentRecord} (hg : e.Allows h (.store (.update new))) :
    ∃ r, Seen h r ∧ e.Writes h r new := by
  cases hg with
  | plain _ hplain => cases hplain
  | update hs hw => exact ⟨_, hs, hw⟩

theorem reserve_inv {account : String} {r' : PaymentRecord}
    (hg : e.Allows h (.store (.reserveSignerForRecord account r'))) :
    ∃ E r action call signer, e = .tick E ∧ account = ss58 signer ∧ Seen h r ∧
      E.Builds h r r' action call signer := by
  cases hg with
  | plain _ hplain => cases hplain
  | reserve _ hs _ hb => exact ⟨_, _, _, _, _, rfl, rfl, hs, hb⟩

theorem not_reserveSigner {account job : String} :
    ¬ e.Allows h (.store (.reserveSigner account job)) := by
  intro hg
  cases hg with
  | plain _ hplain => cases hplain

end Entry.Allows

theorem Known.effect_ok {v : View set} (hk : Known v) {i : ℕ} {e : Entry} {o : StoreOp}
    {a : o.Ret} {x : Outside} {s' : SqliteStore} (hx : x.token ∉ v.state.tokens)
    (hg : e.Allows (historyOf v.trace i) (.store o))
    (hc : SqliteStore.Changes v.state.store x o a s') :
    Effect set v.state e (historyOf v.trace i) ⟨.store o, .ok a⟩
      { v.state with store := s', tokens := x.token :: v.state.tokens } := by
  have hts := List.subset_cons_self x.token v.state.tokens
  cases hc with
  | requireSigning => exact .silent .checked hts
  | get => exact .silent .got hts
  | list => exact .silent .listed hts
  | insert hi => exact .inserted hg.insert_inv hi hts
  | update hu =>
      obtain ⟨r, hseen, hw⟩ := hg.update_inv
      have hcur := hk.current hseen hw hu
      exact .wrote hcur hw.keys.1 (hk.sound _ _ hcur) (hk.knows hcur) hw hu hts
  | reserveSignerForRecord hr =>
      obtain ⟨E, r, action, call, signer, rfl, rfl, -, hb⟩ := hg.reserve_inv
      exact .reserved rfl hb hx hr
  | reserveSigner _ => exact absurd hg Entry.Allows.not_reserveSigner
  | cancelPreparation hx => exact .cancelled hx hts
  | migrateLegacyPolicy hm => exact absurd hm hk.not_migrates
  | recoverLegacy hm => exact absurd hm hk.not_migrates

/-- What serving a request does, when its process may make it. -/
theorem Known.effect {v : View set} (hk : Known v) {i : ℕ} {e : Entry} {o : Op} {a : o.Ans}
    {w' : World} (hg : e.Allows (historyOf v.trace i) o) (hs : Serves set v.state o a w') :
    Effect set v.state e (historyOf v.trace i) ⟨o, a⟩ w' := by
  cases hs with
  | @store o x hx =>
      have hts := List.subset_cons_self x.token v.state.tokens
      cases hres : (v.state.store.perform x o).1 with
      | ok a => exact hk.effect_ok hx hg (SqliteStore.perform_ok hres)
      | error err =>
          rw [SqliteStore.perform_error hres]
          exact .silent (.refused (.inr ⟨x, hres⟩)) hts
  | fault hf => exact .silent (.refused (.inl hf)) (List.Subset.refl _)
  | chain hc =>
      cases hc with
      | read ha => exact .silent (.answered ha) (List.Subset.refl _)
      | prepare hp => exact .prepared hp
      | submit => exact .submitted
  | hearsay hfalse _ => exact .silent (.claimed hfalse) (List.Subset.refl _)
  | host => exact .silent .hosted (List.Subset.refl _)

/-! ## The knowledge is kept -/

/-- A stored record stays, or the request writes over it. -/
theorem Effect.next {w w' : World} {e : Entry} {h : History rpc} {ev : Event rpc}
    (he : Effect set w e h ev w') {id : String} {old : PaymentRecord}
    (hold : w.store.get id = some old) :
    w'.store.get id = some old ∨
      ∃ new now, new.id = id ∧ old.Sound ∧ Knows h old ∧ e.Writes h old new ∧
        old.version < (new.stamped now).version ∧ ev = ⟨.store (.update new), .ok now⟩ ∧
        w'.store.get id = some (new.stamped now) := by
  cases he with
  | silent _ _ => exact .inl hold
  | @inserted r _ _ _ hi _ =>
      refine .inl ((hi.get_ne id ?_).trans hold)
      rintro rfl
      rw [hi.get_old] at hold
      cases hold
  | @wrote r new now _ _ hcur hid hs hkn hw hu _ =>
      by_cases h : id = new.id
      · subst h
        rw [hid, hcur] at hold
        cases hold
        refine .inr ⟨new, now, rfl, hs, hkn, hw, ?_, rfl, hu.get_self⟩
        have hlt := hu.version_lt
        rw [← hw.keys.2, UInt64.lt_iff_toNat_lt, PaymentRecord.stamped, UInt64.toNat_add,
          UInt64.toNat_one]
        omega
      · exact .inl ((hu.get_ne id h).trans hold)
  | reserved _ _ _ hr => exact .inl (by rw [hr.eq]; exact hold)
  | cancelled hc _ => exact .inl (by rw [hc.eq]; exact hold)
  | prepared _ => exact .inl hold
  | submitted => exact .inl hold

/-- Whatever a request does, no record is lost and none goes back. -/
theorem Effect.progress {w w' : World} {e : Entry} {h : History rpc} {ev : Event rpc}
    (he : Effect set w e h ev w') {id : String} {old : PaymentRecord}
    (hold : w.store.get id = some old) :
    ∃ new, w'.store.get id = some new ∧ old.Before new := by
  rcases he.next hold with hsame | ⟨new, now, -, hs, -, hw, hlt, -, hget⟩
  · exact ⟨old, hsame, .inl rfl⟩
  · exact ⟨_, hget, .inr ⟨hlt, (PaymentRecord.Progress.writes hs hw).trans (.stamped _ _)⟩⟩

omit [Ss58] in
theorem PaymentRecord.Before.trans {a b c : PaymentRecord} (h₁ : a.Before b) (h₂ : b.Before c) :
    a.Before c := by
  rcases h₁ with rfl | ⟨hlt₁, hp₁⟩
  · exact h₂
  · rcases h₂ with rfl | ⟨hlt₂, hp₂⟩
    · exact .inr ⟨hlt₁, hp₁⟩
    · exact .inr ⟨UInt64.lt_trans hlt₁ hlt₂, hp₁.trans hp₂⟩

/-- What an event shows is stored after it. -/
theorem Effect.shows {w w' : World} {e : Entry} {h : History rpc} {ev : Event rpc}
    (he : Effect set w e h ev w') (hk : w.store.Keyed) {r : PaymentRecord} (hr : Shows ev r) :
    w'.store.get r.id = some r := by
  cases he with
  | silent hsilent _ =>
      cases hsilent with
      | got =>
          generalize hget : w.store.get _ = a at hr
          cases hr
          rw [hk.id_eq hget]
          exact hget
      | listed =>
          generalize hlist : w.store.list _ = a at hr
          cases hr with
          | list hmem => exact SqliteStore.get_of_mem_list hk (hlist ▸ hmem)
      | refused _ => cases hr
      | answered _ => cases hr
      | claimed _ => cases hr
      | checked => cases hr
      | hosted => cases hr
  | wrote _ _ _ _ _ hu _ =>
      cases hr
      exact hu.get_self
  | inserted _ _ _ => cases hr
  | reserved _ _ _ _ => cases hr
  | cancelled _ _ => cases hr
  | prepared _ => cases hr
  | submitted => cases hr

/-- A stored record after a request was stored before, is new, or was just written. -/
theorem Effect.origin {w w' : World} {e : Entry} {h : History rpc} {ev : Event rpc}
    (he : Effect set w e h ev w') {id : String} {r : PaymentRecord}
    (hr : w'.store.get id = some r) : w.store.get id = some r ∨
      (e.Creates r ∧ r.id = id ∧ w.store.get id = none ∧ ev = ⟨.store (.insert r), .ok ()⟩) ∨
      ∃ old new now, w.store.get id = some old ∧ new.id = id ∧ old.Sound ∧ Knows h old ∧
        e.Writes h old new ∧ ev = ⟨.store (.update new), .ok now⟩ ∧ r = new.stamped now := by
  cases he with
  | silent _ _ => exact .inl hr
  | @inserted r' _ _ hc hi _ =>
      by_cases h : id = r'.id
      · subst h
        rw [hi.get_self] at hr
        cases hr
        exact .inr (.inl ⟨hc, rfl, hi.get_old, rfl⟩)
      · exact .inl ((hi.get_ne id h).symm.trans hr)
  | @wrote old new now _ _ hcur hid hs hkn hw hu _ =>
      by_cases h : id = new.id
      · subst h
        rw [hu.get_self] at hr
        cases hr
        exact .inr (.inr ⟨old, new, now, hid ▸ hcur, rfl, hs, hkn, hw, rfl, rfl⟩)
      · exact .inl ((hu.get_ne id h).symm.trans hr)
  | reserved _ _ _ hx => rw [hx.eq] at hr; exact .inl hr
  | cancelled hx _ => rw [hx.eq] at hr; exact .inl hr
  | prepared _ => exact .inl hr
  | submitted => exact .inl hr

theorem Effect.fenced {w w' : World} {e : Entry} {h : History rpc} {ev : Event rpc}
    (he : Effect set w e h ev w') (hf : w.store.Fenced) : w'.store.Fenced := by
  cases he with
  | silent _ _ => exact hf
  | @inserted r _ _ hc hi _ =>
      have hclean : (StoreOp.insert r).Clean := by
        rintro _ ⟨⟩
        cases hc <;> rfl
      exact hf.changes (x := ⟨0, "", fun _ _ => .error (.chain "")⟩) hclean (.insert hi)
  | wrote _ _ _ _ _ hu _ => exact hf.updates hu
  | reserved _ _ _ hr => exact hf.reserves hr
  | cancelled hc _ => exact hf.cancels hc
  | prepared _ => exact hf
  | submitted => exact hf

theorem Known.event {v : View set} (hk : Known v) {i : ℕ} {e : Entry} {ev : Event rpc}
    {w' : World} (he : Effect set v.state e (historyOf v.trace i) ev w') :
    Known (⟨w', v.entries, (i, ev) :: v.trace⟩ : View set) where
  fenced := he.fenced hk.fenced
  sound id r hr := by
    rcases he.origin hr with hold | ⟨hc, -⟩ | ⟨old, new, now, -, -, hs, hkn, hw, -, rfl⟩
    · exact hk.sound id r hold
    · exact .created hc
    · exact (hs.writes hkn hw).stamped now
  shown j ev' r hmem hshow := by
    rcases List.mem_cons.mp hmem with heq | hmem
    · cases heq
      exact ⟨r, he.shows hk.fenced.keyed hshow, .inl rfl⟩
    · obtain ⟨cur, hcur, hbefore⟩ := hk.shown j ev' r hmem hshow
      obtain ⟨new, hnew, hbefore'⟩ := he.progress hcur
      exact ⟨new, hnew, hbefore.trans hbefore'⟩
  gets j id r hmem := by
    rcases List.mem_cons.mp hmem with heq | hmem
    · cases heq
      have hid := he.shows hk.fenced.keyed .get
      cases he with
      | silent hsilent _ =>
          generalize ha : (some r : Option PaymentRecord) = a at hsilent
          cases hsilent with
          | got => exact hk.fenced.keyed.id_eq ha.symm
    · exact hk.gets j id r hmem

theorem Known.fresh {w : World} (hw : w.Fresh) : Known (⟨w, [], []⟩ : View set) where
  fenced := hw.1.symm ▸ SqliteStore.fenced_empty
  sound id r hr := by
    rw [hw.1] at hr
    cases hr
  shown _ _ _ hmem := absurd hmem List.not_mem_nil
  gets _ _ _ hmem := absurd hmem List.not_mem_nil

/-- Every run keeps the knowledge. -/
theorem Runs.known {v : View set} (h : Runs set v) : Known v := by
  induction h with
  | init hi => exact .fresh hi
  | step _ hs ih =>
      cases hs with
      | spawn e => exact ⟨ih.fenced, ih.sound, ih.shown, ih.gets⟩
      | exec _ hg _ hserve => exact ih.event (ih.effect hg hserve)
      | env hf => cases hf with | block _ => exact ⟨ih.fenced, ih.sound, ih.shown, ih.gets⟩

/-- The rule for invariants of runs: one case for each kind of step. -/
theorem Runs.rule {P : View set → Prop}
    (init : ∀ w : World, w.Fresh → P ⟨w, [], []⟩)
    (spawn : ∀ (v : View set) (e : Entry), Runs set v → P v →
      P { v with entries := v.entries ++ [e] })
    (event : ∀ (v : View set) (i : ℕ) (e : Entry) (ev : Event rpc) (w' : World), Runs set v → P v →
      v.entries[i]? = some e → e.Allows (historyOf v.trace i) ev.1 →
      Effect set v.state e (historyOf v.trace i) ev w' →
      P ⟨w', v.entries, (i, ev) :: v.trace⟩)
    (block : ∀ (v : View set) (b : Block) (free : AccountId32 → UInt64), Runs set v → P v →
      v.state.chain.Appends set.own b free →
      P { v with state := { v.state with chain := v.state.chain.append b free } })
    {v : View set} (h : Runs set v) : P v := by
  induction h with
  | init hi => exact init _ hi
  | step hr hs ih =>
      cases hs with
      | spawn e => exact spawn _ e hr ih
      | exec he hg _ hserve =>
          exact event _ _ _ _ _ hr ih he hg (Runs.known hr |>.effect hg hserve)
      | env hf => cases hf with | block ha => exact block _ _ _ hr ih ha

/-- What a step of the programs does: it makes one request, or leaves the store and
the trace alone. -/
inductive Serving (c c' : Resumption.Config (processes set)) : Prop where
  | quiet :
      c'.state.store = c.state.store →
      c'.trace = c.trace →
      Serving c c'
  | event {i : ℕ} {e : Entry} {ev : Event rpc} :
      c.view.entries[i]? = some e →
      e.Allows (historyOf c.trace i) ev.1 →
      Effect set c.state e (historyOf c.trace i) ev c'.state →
      c'.trace = (i, ev) :: c.trace →
      Serving c c'

theorem serving {c c' : Resumption.Config (processes set)}
    (h : Resumption.Reachable (processes set) c) (hs : Step (processes set) c c') :
    Serving c c' := by
  have hr : Runs set c.view := runs_view h
  cases hs with
  | spawn e => exact .quiet rfl rfl
  | crash _ _ => exact .quiet rfl rfl
  | env hf => cases hf with | block _ => exact .quiet rfl rfl
  | exec hp hserve =>
      have hg := h.allowed (processes_meet set) hp
      refine .event ?_ hg (hr.known.effect hg hserve) rfl
      simp [Resumption.Config.view, hp]

end Buyback
