import Buyback.Record.Resumed
import Buyback.Recovery.Relive
import Buyback.Run.Issued

/-!
# Runs of a recovered job

Any number of engines over a store that holds a recovered record.  Nothing is
known of the other records, so the invariant is about the one job: its record
goes on from the replayed accounting, and every version of it that a process has
seen is the stored one or older.  The version check of the store then lets a
process write only over the stored record.
-/

namespace Buyback

open Resumption

section

variable [Ss58] {set : Setting} {next : PaymentRecord}

/-- The stored form of a record, up to its version and the time of the write. -/
def PaymentRecord.StoredAs (next r : PaymentRecord) : Prop :=
  r = { next with version := r.version, updatedAt := r.updatedAt }

/-- The processes of a run that starts from a recovered record. -/
@[reducible] def resumed (set : Setting) (next : PaymentRecord) : System :=
  { processes set with
    init := fun w => w.store.Keyed ∧ ∃ r, w.store.get next.id = some r ∧ next.StoredAs r }

theorem resumed_meets (set : Setting) (next : PaymentRecord) :
    Meets (resumed set next) Relies Entry.Allows fun _ h _ => Idle h := processes_meet set

/-! ## The invariant -/

variable {st : Replayed} {stage : PaymentState}

/-- A point of such a run. -/
abbrev ResumedView (set : Setting) (next : PaymentRecord) : Type := Guarded.View (resumed set next)

/-- What is known of the stored record of a recovered job. -/
structure Latest (st : Replayed) (stage : PaymentState) (s : SqliteStore)
    (trace : List (Nat × Event rpc)) (cur : PaymentRecord) : Prop where
  stored : s.get cur.id = some cur
  resumes : cur.Resumes st stage
  identified : cur.identity.isSome
  required : cur.autoRequired.isSome
  /-- A version that a process has seen is the stored one or older. -/
  shown : ∀ i ev r, (i, ev) ∈ trace → Shows ev r → r.id = cur.id → r = cur ∨ r.version < cur.version

/-- The invariant of the runs of a recovered job. -/
structure Resuming (next : PaymentRecord) (st : Replayed) (stage : PaymentState)
    (s : SqliteStore) (trace : List (Nat × Event rpc)) : Prop where
  keyed : s.Keyed
  current : ∃ cur, cur.id = next.id ∧ Latest st stage s trace cur
  journals : ∀ i p, Issued trace i next.id p → p.action.NewTo stage st

omit [Ss58] in
theorem Replayed.Grows.not_has {a b : Replayed} (hg : a.Grows b) {action : Action}
    (hfund : action ≠ .fund) (h : ¬ b.Has action) : ¬ a.Has action :=
  fun ha => h (ha.mono hfund hg)

/-- What is new to the accounts is new to the accounts they have grown from. -/
theorem Action.NewTo.older {action : Action} {a b : Replayed} (h : action.NewTo stage b)
    (hg : a.Grows b) : action.NewTo stage a :=
  ⟨hg.not_has h.not_fund h.fresh, h.not_fund, h.sweep⟩

section Store

variable {s s' : SqliteStore} {trace : List (Nat × Event rpc)} {i : ℕ} {e : Entry}

/-- An event that leaves the job alone. -/
theorem Resuming.frame (h : Resuming next st stage s trace) {ev : Event rpc} (hk : s'.Keyed)
    (hget : s'.get next.id = s.get next.id)
    (hshow : ∀ r, Shows ev r → r.id = next.id → s.get next.id = some r)
    (hissue : ∀ p, ¬ Issues ev next.id p) :
    Resuming next st stage s' ((i, ev) :: trace) := by
  obtain ⟨cur, hid, hcur⟩ := h.current
  refine ⟨hk, ⟨cur, hid, { hcur with stored := ?_, shown := ?_ }⟩, fun k p hp => ?_⟩
  · rw [hid, hget, ← hid]
    exact hcur.stored
  · intro k ev' r hmem hs hr
    rcases List.mem_cons.mp hmem with heq | hmem
    · cases heq
      have hstored := hid ▸ hcur.stored
      exact .inl (Option.some.inj ((hshow r hs (hr.trans hid)).symm.trans hstored))
    · exact hcur.shown k ev' r hmem hs hr
  · rcases issued_cons.mp hp with ⟨-, hi⟩ | hp
    · exact absurd hi (hissue p)
    · exact h.journals k p hp

/-- The version check: a write succeeds only over the stored record. -/
theorem Latest.of_update {cur r new : PaymentRecord} {h : History rpc} {now : UInt64}
    (hcur : Latest st stage s trace cur) (hs : Seen (historyOf trace i) r)
    (hw : e.Writes h r new) (hid : new.id = cur.id) (hu : SqliteStore.Updates s new now s') :
    r = cur := by
  obtain ⟨ev, hev, hshow⟩ := hs
  obtain ⟨hid', hversion⟩ := hw.keys
  obtain ⟨old, hold, hv, -⟩ := hu.previous
  rw [hid, hcur.stored] at hold
  cases hold
  rcases hcur.shown i ev r (mem_historyOf.mp hev) hshow (hid'.symm.trans hid) with heq | hlt
  · exact heq
  · rw [hv, hversion] at hlt
    exact absurd hlt (UInt64.lt_irrefl _)

/-- A write to the job. -/
theorem Resuming.update (h : Resuming next st stage s trace) {r new : PaymentRecord} {now : UInt64}
    (hs : Seen (historyOf trace i) r) (hw : e.Writes (historyOf trace i) r new)
    (hid : new.id = next.id) (hu : SqliteStore.Updates s new now s') :
    Resuming next st stage s' ((i, ⟨.store (.update new), .ok now⟩) :: trace) := by
  obtain ⟨cur, hcurid, hcur⟩ := h.current
  have hsame := hid.trans hcurid.symm
  cases hcur.of_update hs hw hsame hu
  have hresumes := hcur.resumes.writes hw
  obtain ⟨old, hold, hversion, -, hrequired, hidentity, -⟩ := hu.previous
  rw [hsame, hcur.stored] at hold
  cases hold
  have hlt : r.version < (new.stamped now).version := by
    have := hu.version_lt
    rw [hversion, UInt64.lt_iff_toNat_lt, PaymentRecord.stamped, UInt64.toNat_add, UInt64.toNat_one]
    omega
  refine ⟨hu.keyed h.keyed, ⟨new.stamped now, hid, hu.get_self,
    ⟨hresumes.past, hresumes.grows, hresumes.canonical, hresumes.pending⟩, ?_, ?_, ?_⟩, ?_⟩
  · exact hidentity ▸ hcur.identified
  · exact hrequired ▸ hcur.required
  · intro k ev r' hmem hshow hr'
    rcases List.mem_cons.mp hmem with heq | hmem
    · cases heq
      cases hshow
      exact .inl rfl
    · rcases hcur.shown k ev r' hmem hshow (hr'.trans hsame) with rfl | hold
      · exact .inr hlt
      · exact .inr (UInt64.lt_trans hold hlt)
  · intro k p hp
    rcases issued_cons.mp hp with ⟨-, rec, t, heq, -, hpending⟩ | hp
    · cases heq
      exact (hresumes.pending p hpending).older hresumes.grows
    · exact h.journals k p hp

/-- An operation that shows no record and writes none over an old one. -/
def StoreOp.Mute : StoreOp → Prop
  | .get _ | .list _ | .update _ => False
  | _ => True

/-- An event that shows no record of the job and journals nothing for it. -/
theorem Resuming.mute (h : Resuming next st stage s trace) {o : StoreOp} {a : Result o.Ret}
    (ho : o.Mute) (hk : s'.Keyed) (hget : s'.get next.id = s.get next.id) :
    Resuming next st stage s' ((i, ⟨.store o, a⟩) :: trace) := by
  refine h.frame hk hget (fun r hshow => ?_) fun p hissue => ?_
  · generalize hev : (⟨.store o, a⟩ : Event rpc) = ev at hshow
    have hop := congrArg Sigma.fst hev
    cases hshow
    all_goals
      cases hop
      exact ho.elim
  · obtain ⟨r, t, heq, -⟩ := hissue
    cases congrArg Sigma.fst heq
    exact ho

/-- A read that shows the job as it is stored. -/
theorem Resuming.read (h : Resuming next st stage s trace) {o : StoreOp} {a : Result o.Ret}
    (ho : ∀ r, o = .update r → ∃ err, a = .error err)
    (hshow : ∀ r, Shows ⟨.store o, a⟩ r → s.get r.id = some r) :
    Resuming next st stage s ((i, ⟨.store o, a⟩) :: trace) := by
  refine h.frame h.keyed rfl (fun r hs hr => hr ▸ hshow r hs) fun p hissue => ?_
  obtain ⟨r, t, heq, -⟩ := hissue
  cases congrArg Sigma.fst heq
  obtain ⟨err, herr⟩ := ho r rfl
  rw [herr] at heq
  cases heq

omit [Ss58] in
/-- Only the lookup of the payments matters. -/
theorem keyed_of_payments (h : s'.payments = s.payments) (hk : s.Keyed) : s'.Keyed := by
  unfold SqliteStore.Keyed at *
  rw [h]
  exact hk

/-- A job with an identity and a policy is not migrated. -/
theorem Resuming.migrates_ne (h : Resuming next st stage s trace) {id : String}
    {old new : PaymentRecord} (hm : SqliteStore.Migrates s id old new s') : id ≠ next.id := by
  rintro rfl
  obtain ⟨cur, hid, hcur⟩ := h.current
  have hstored := hcur.stored
  rw [hid, hm.get_old] at hstored
  cases hstored
  rcases hm.legacy with hnone | hnone
  · have := hcur.identified
    rw [hnone] at this
    cases this
  · have := hcur.required
    rw [hnone] at this
    cases this

/-- One operation of the store that succeeds. -/
theorem Resuming.changes (h : Resuming next st stage s trace) {o : StoreOp} {a : o.Ret}
    {x : Outside} (hg : e.Allows (historyOf trace i) (.store o))
    (hc : SqliteStore.Changes s x o a s') :
    Resuming next st stage s' ((i, ⟨.store o, .ok a⟩) :: trace) := by
  cases hc with
  | requireSigning => exact h.mute trivial h.keyed rfl
  | @get id =>
      refine h.read (fun _ heq => ?_) fun r hshow => ?_
      · cases heq
      · generalize hget : s.get id = answer at hshow
        cases hshow
        rw [h.keyed.id_eq hget]
        exact hget
  | @list states =>
      refine h.read (fun _ heq => ?_) fun r hshow => ?_
      · cases heq
      · generalize hlist : s.list states = answer at hshow
        cases hshow with
        | list hmem => exact SqliteStore.get_of_mem_list h.keyed (hlist ▸ hmem)
  | insert hi =>
      obtain ⟨cur, hid, hcur⟩ := h.current
      refine h.mute trivial (hi.keyed h.keyed) (hi.get_ne _ fun heq => ?_)
      have hstored := hcur.stored
      rw [hid, heq, hi.get_old] at hstored
      cases hstored
  | @update new _ hu =>
      obtain ⟨r, hseen, hw⟩ := hg.update_inv
      by_cases hid : new.id = next.id
      · exact h.update hseen hw hid hu
      · refine h.frame (hu.keyed h.keyed) (hu.get_ne _ (Ne.symm hid)) (fun r hshow hr => ?_) ?_
        · cases hshow
          exact absurd hr hid
        · rintro p ⟨rec, t, heq, hrec, -⟩
          cases heq
          exact hid hrec
  | reserveSignerForRecord hr =>
      exact h.mute trivial (keyed_of_payments (by rw [hr.eq]) h.keyed) (by rw [hr.eq]; rfl)
  | reserveSigner hr =>
      exact h.mute trivial (keyed_of_payments (by rw [hr.eq]) h.keyed) (by rw [hr.eq]; rfl)
  | cancelPreparation hx =>
      exact h.mute trivial (keyed_of_payments (by rw [hx.eq]) h.keyed) (by rw [hx.eq]; rfl)
  | migrateLegacyPolicy hm =>
      exact h.mute trivial (hm.keyed h.keyed) (hm.get_ne _ (Ne.symm (h.migrates_ne hm)))
  | recoverLegacy hm =>
      exact h.mute trivial (hm.keyed h.keyed) (hm.get_ne _ (Ne.symm (h.migrates_ne hm)))

end Store

/-- An operation of the store that fails. -/
theorem Resuming.refused {s : SqliteStore} {trace : List (Nat × Event rpc)} {i : ℕ}
    (h : Resuming next st stage s trace) {o : StoreOp} {err : Error} :
    Resuming next st stage s ((i, ⟨.store o, .error err⟩) :: trace) := by
  refine h.read (fun _ _ => ⟨err, rfl⟩) fun r hshow => ?_
  cases hshow

/-- Serving a request. -/
theorem Resuming.serves {w w' : World} {trace : List (Nat × Event rpc)}
    (h : Resuming next st stage w.store trace) {i : ℕ} {e : Entry} {o : Op} {a : o.Ans}
    (hg : e.Allows (historyOf trace i) o) (hs : Serves set w o a w') :
    Resuming next st stage w'.store ((i, ⟨o, a⟩) :: trace) := by
  have hchain {o : ChainOp} {a : Result o.Ret} :
      Resuming next st stage w.store ((i, ⟨.chain o, a⟩) :: trace) := by
    refine h.frame h.keyed rfl (fun r hshow => ?_) fun p hissue => ?_
    · cases hshow
    · obtain ⟨r, t, heq, -⟩ := hissue
      cases congrArg Sigma.fst heq
  cases hs with
  | @store o x hx =>
      cases hres : (w.store.perform x o).1 with
      | ok a => exact h.changes hg (SqliteStore.perform_ok hres)
      | error err =>
          rw [SqliteStore.perform_error hres]
          exact h.refused
  | fault _ => exact h.refused
  | chain _ => exact hchain
  | hearsay _ _ => exact hchain
  | host =>
      refine h.frame h.keyed rfl (fun r hshow => ?_) fun p hissue => ?_
      · cases hshow
      · obtain ⟨r, t, heq, -⟩ := hissue
        cases congrArg Sigma.fst heq

/-- The invariant holds at every point of a run, if it holds where the run starts. -/
theorem Resuming.run {v : ResumedView set next}
    (init : ∀ s, s.Keyed → ∀ r, s.get next.id = some r → next.StoredAs r →
      Resuming next st stage s [])
    (h : Guarded.Reachable (resumed set next) Relies Entry.Allows v) :
    Resuming next st stage v.state.store v.trace := by
  induction h with
  | init hi =>
      obtain ⟨hk, r, hget, hr⟩ := hi
      exact init _ hk r hget hr
  | step _ hs ih =>
      cases hs with
      | spawn e => exact ih
      | exec _ hg _ hserve => exact ih.serves hg hserve
      | env hf => cases hf with | block _ => exact ih

/-! ## What is never repeated -/

/-- The manifest already contains the action: any transaction at all for the funding, one
for the same position for a sweep or a consolidation, and else one of the same kind. -/
def LegacyManifest.Executed (m : LegacyManifest) : Action → Prop
  | .fund => m.transactions ≠ []
  | .sweep hotkey => ∃ t ∈ m.transactions, t.call.action = some (.sweep hotkey)
  | .consolidate hotkey => ∃ t ∈ m.transactions, t.call.action = some (.consolidate hotkey)
  | .returnDust => ∃ t ∈ m.transactions, t.call.action = some .returnDust
  | .buyStake .. => ∃ t ∈ m.transactions, ∃ netuid limitPrice,
      t.call.action = some (.buyStake netuid limitPrice)
  | .destroy .. => ∃ t ∈ m.transactions, ∃ netuid recycle,
      t.call.action = some (.destroy netuid recycle)

variable {r : PaymentRecord} {m : LegacyManifest} {summaries : List EventSummary}
  {treasury deposit hotkey : AccountId32} {action : Action}

/-- What the manifest contains, the replayed accounting contains. -/
theorem Replays.has_of_executed (h : Replays r m summaries treasury deposit hotkey st)
    (hfund : action ≠ .fund) (he : m.Executed action) : st.Has action := by
  have hsteps := replayLoop_steps h.loop
  have hmem {t : LegacyTransaction} (ht : t ∈ m.transactions) :
      ∃ x ∈ m.transactions.zip summaries, x.1 = t := by
    rw [← List.map_fst_zip h.length.ge] at ht
    exact List.mem_map.mp ht
  have hhas {a : Action} {t : LegacyTransaction} (ha : a ≠ .fund) (ht : t ∈ m.transactions)
      (hcall : t.call.action = some a) : st.Has a := by
    obtain ⟨x, hx, rfl⟩ := hmem ht
    exact hsteps.has ha x hx hcall
  cases action with
  | fund => exact absurd rfl hfund
  | sweep source =>
      obtain ⟨t, ht, hcall⟩ := he
      exact hhas hfund ht hcall
  | consolidate source =>
      obtain ⟨t, ht, hcall⟩ := he
      exact hhas hfund ht hcall
  | returnDust =>
      obtain ⟨t, ht, hcall⟩ := he
      exact hhas hfund ht hcall
  | buyStake _ _ =>
      obtain ⟨t, ht, netuid, limitPrice, hcall⟩ := he
      exact hhas (a := .buyStake netuid limitPrice) nofun ht hcall
  | destroy _ _ =>
      obtain ⟨t, ht, netuid, recycle, hcall⟩ := he
      exact hhas (a := .destroy netuid recycle) nofun ht hcall

omit [Ss58] in
/-- A job that has done nothing is not at a later stage. -/
theorem ValidManifest.unstarted [Ss58] (h : ValidManifest r m treasury deposit)
    (hnone : m.transactions = []) : r.stage ≠ .swept ∧ ∀ action, ¬ m.Executed action := by
  constructor
  · have haccepted := h.accepted
    simp only [manifestRefused, not_or, not_and_or, not_not] at haccepted
    rcases haccepted.2.2.2.2.2.1.resolve_left (fun h => h hnone) with hstate | hstate
    all_goals
      rw [PaymentRecord.stage, hstate, if_neg (by decide)]
      decide
  · intro action he
    cases action with
    | fund => exact he hnone
    | _ =>
        obtain ⟨t, ht, -⟩ := he
        rw [hnone] at ht
        cases ht

/-- The invariant where a run of the recovered job starts. -/
theorem Replays.resuming (h : Replays r m summaries treasury deposit hotkey st)
    (hts : m.transactions ≠ []) {s : SqliteStore} (hk : s.Keyed) {start : PaymentRecord}
    (hget : s.get (r.recovered m).id = some start) (hstart : (r.recovered m).StoredAs start) :
    Resuming (r.recovered m) st r.stage s [] := by
  have hcanonical : st.Canonical :=
    (replayLoop_steps h.loop).canonical ⟨List.nodup_nil, fun _ hmem => absurd hmem List.not_mem_nil⟩
  have hhotkeys : (r.recovered m).accounting.hotkeys = st.hotkeys :=
    congrArg (List.map Prod.fst) h.positions.symm
  have hbuyback : st.buyback = (r.recovered m).accounting.buyback := h.buyback
  have hpast : r.Past r.stage := by
    rcases h.valid.stage hts with hstate | hstate | ⟨hstate, hfrom | hfrom⟩
    · exact .inr (.inl (.inr ⟨hstate, by rw [PaymentRecord.stage, hstate]; rfl⟩))
    · exact .inr (.inl (.inl hstate))
    · refine .inr (.inr ⟨hstate, _, hfrom, .inr ⟨rfl, ?_⟩⟩)
      rw [PaymentRecord.stage, if_pos hstate, hfrom]
      rfl
    · exact .inr (.inr ⟨hstate, _, hfrom, .inl rfl⟩)
  have hresumes : (r.recovered m).Resumes st r.stage := by
    refine ⟨hpast, ⟨?_, h.consolidated.le, h.dust.symm.trans, ?_, ?_⟩, ⟨?_, ?_⟩, fun p hp => ?_⟩
    · exact h.positions ▸ List.prefix_rfl
    · exact hbuyback ▸ fun hsome => hsome
    · exact hbuyback ▸ fun hsome => hsome
    · exact hhotkeys ▸ hcanonical.nodup
    · exact hhotkeys ▸ hcanonical.address
    · cases h.valid.pending.symm.trans hp
  rw [hstart] at hget
  refine ⟨hk, ⟨{ r.recovered m with version := start.version, updatedAt := start.updatedAt }, rfl,
    hget, ?_, rfl, rfl, fun _ _ _ hmem => absurd hmem List.not_mem_nil⟩, ?_⟩
  · exact ⟨hresumes.past, hresumes.grows, hresumes.canonical, hresumes.pending⟩
  · exact fun i p hp => absurd hp not_issued_nil

/-- No action of the manifest is journaled again for the recovered job. -/
theorem recovered_never_repeats {scan : ArchiveScan} {report : RecoveryReport}
    (haccepted : replay r m scan = .ok (next, report))
    {c : Resumption.Config (resumed set next)}
    (h : Resumption.Reachable (resumed set next) c) {i : ℕ} {p : PendingTx}
    (hp : Issued c.trace i next.id p) :
    ¬ m.Executed p.action ∧ (next.stage = .swept → ∀ hotkey, p.action ≠ .sweep hotkey) := by
  obtain ⟨rfl, treasury, deposit, hotkey, st, hreplays⟩ := replay_accepted haccepted
  by_cases hts : m.transactions = []
  · obtain ⟨hstage, hnone⟩ := hreplays.valid.unstarted hts
    exact ⟨hnone _, fun hswept => absurd hswept hstage⟩
  · have hrun := Resuming.run (fun s hk start hget hstart =>
      hreplays.resuming hts hk hget hstart) (h.guarded (resumed_meets set _))
    have hnew := hrun.journals i p hp
    refine
      ⟨fun he => hnew.fresh (hreplays.has_of_executed hnew.not_fund he), fun hswept h heq => ?_⟩
    have hfunded := (hnew.sweep h heq).1
    cases hfunded.symm.trans hswept

end

/-! ## A recovered job that is swept -/

/-- The sample job after its funding. -/
def fundedLegacy : PaymentRecord :=
  { sampleLegacy with
    state := .funded, sweptAlpha := 0, sweptPositions := [], buyback := none, buybackDone := false
    txs := [⟨"transfer_keep_alive", "0x", "#", 1500⟩] }

/-- The manifest of the sample job after its funding. -/
def fundedManifest : LegacyManifest :=
  { sampleManifest with transactions := sampleTransactions.take 1 }

/-- The sample job, recovered after its funding. -/
def fundedRecovered : PaymentRecord := fundedLegacy.recovered fundedManifest

theorem fundedLegacy_replays : ∃ report,
    replay fundedLegacy fundedManifest (sampleArchive.1.take 1, sampleArchive.2) =
      .ok (fundedRecovered, report) := ⟨_, rfl⟩

/-- The recovered job alone in the store. -/
def recoveredWorld : World :=
  { sampleWorld with store :=
      (SqliteStore.empty.perform ⟨0, "t", fun _ _ => .error (.chain "no archive")⟩
        (.insert fundedRecovered)).2 }

theorem recoveredWorld_starts : (resumed calm fundedRecovered).init recoveredWorld := by
  refine ⟨?_, fundedRecovered, by decide, rfl⟩
  have hc := SqliteStore.perform_ok (s := .empty)
    (x := ⟨0, "t", fun _ _ => .error (.chain "no archive")⟩) (o := .insert fundedRecovered)
    (a := ()) (by decide)
  cases hc with
  | insert hi => exact hi.keyed SqliteStore.keyed_empty

/-- The player of the runs of a recovered job. -/
def resumedPlayer (set : Setting) (next : PaymentRecord) : Player (resumed set next) where
  Choice := Reply
  answer := reply
  change := nextBlock
  answer_serve := reply_serves
  change_env := nextBlock_finalizes

/-- A tick finds a position of the wallet and journals its sweep. -/
def recoveredSweep : List (Move (resumedPlayer calm fundedRecovered)) :=
  .spawn (.tick (sampleEngine (some sampleBudget))) :: .serve 0 Reply.usual ::
    .serve 0 Reply.usual :: .serve 0 (Reply.stake 10000000000 samplePositions) ::
    List.replicate 4 (.serve 0 Reply.usual)

/-- Whether the event journals the sweep of a hotkey for the job `j`. -/
def journalsSweep (j hotkey : String) (ev : Event rpc) : Bool :=
  match ev with
  | ⟨.store (.update rec), .ok _⟩ =>
      rec.id == j && rec.pending.any fun p => p.action == .sweep hotkey
  | _ => false

theorem recoveredSweep_journals : (Config.play (resumedPlayer calm fundedRecovered)
    ⟨recoveredWorld, [], []⟩ recoveredSweep).any (fun c =>
      c.trace.any fun x => journalsSweep "job" "xxxxxxx" x.2) = true := by
  decide +kernel

/-- The sweep is journaled in that run, and the manifest does not contain it. -/
theorem recoveredSweep_new : ∃ c i p,
    Resumption.Reachable (resumed calm fundedRecovered) c ∧ Issued c.trace i "job" p ∧
      p.action = .sweep "xxxxxxx" ∧ ¬ fundedManifest.Executed p.action := by
  obtain ⟨c, hplay, htest⟩ := Config.play_any recoveredSweep_journals
  have hc := Resumption.Reachable.play recoveredWorld_starts hplay
  obtain ⟨⟨i, ev⟩, hmem, hev⟩ := List.any_eq_true.mp htest
  obtain ⟨p, hp, haction⟩ : ∃ p, Issues ev "job" p ∧ p.action = .sweep "xxxxxxx" := by
    unfold journalsSweep at hev
    split at hev
    next rec t heq =>
      rw [Bool.and_eq_true, Option.any_eq_true, beq_iff_eq] at hev
      obtain ⟨hid, p, hp, haction⟩ := hev
      exact ⟨p, ⟨rec, t, heq, hid, hp⟩, beq_iff_eq.mp haction⟩
    next => cases hev
  obtain ⟨report, haccepted⟩ := fundedLegacy_replays
  have hissued : Issued c.trace i fundedRecovered.id p := ⟨ev, hmem, hp⟩
  exact ⟨c, i, p, hc, hissued, haction, (recovered_never_repeats haccepted hc hissued).1⟩

end Buyback
