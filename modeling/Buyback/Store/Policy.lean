import Buyback.Recovery.Accepted
import Buyback.Store.Rows
import Buyback.System.Script

/-!
# The policy of a job is written once

The policy of a record is its budget, whether an automatic buyback is required,
and its execution identity.  A record that was written before these fields existed
may have any of them missing.  Three operations touch them: `update` must repeat
them, a migration fills in the first two, a recovery all three.

A recovery compares budgets only if the record says whether a buyback is required.
So the law holds of exactly the sequences whose recoveries name the budget that is
there.
-/

namespace Buyback

/-- What is there of the policy of a record is still there. -/
structure PolicyKept (old new : PaymentRecord) : Prop where
  buybackBudget : ∀ b, old.buybackBudget = some b → new.buybackBudget = some b
  autoRequired : ∀ required, old.autoRequired = some required → new.autoRequired = some required
  identity : ∀ i, old.identity = some i → new.identity = some i

theorem PolicyKept.refl (r : PaymentRecord) : PolicyKept r r :=
  ⟨fun _ h => h, fun _ h => h, fun _ h => h⟩

theorem PolicyKept.trans {a b c : PaymentRecord} (h : PolicyKept a b) (h' : PolicyKept b c) :
    PolicyKept a c where
  buybackBudget x hx := h'.buybackBudget x (h.buybackBudget x hx)
  autoRequired x hx := h'.autoRequired x (h.autoRequired x hx)
  identity x hx := h'.identity x (h.identity x hx)

/-- A recovered record keeps the policy if the manifest names its budget. -/
theorem ValidManifest.policyKept_iff [Ss58] {r : PaymentRecord} {m : LegacyManifest}
    {treasury deposit : AccountId32} {now : UInt64} (h : ValidManifest r m treasury deposit) :
    PolicyKept r ((r.recovered m).stamped now) ↔
      ∀ b, r.buybackBudget = some b → m.budget = some b := by
  constructor
  · intro hkept
    exact hkept.buybackBudget
  · intro hbudget
    refine ⟨hbudget, fun required hr => ?_, fun i hi => ?_⟩
    · rw [(h.policy hr).1]
      rfl
    · rw [h.identity] at hi
      cases hi

/-- An operation of the store, with what it reads from outside. -/
abbrev StoreCall : Type := Outside × StoreOp

/-- The record whose policy an operation writes. -/
def StoreOp.policyOf : StoreOp → Option String
  | .migrateLegacyPolicy id _ _ => some id
  | .recoverLegacy m => some m.job
  | _ => none

namespace SqliteStore

variable {s s' : SqliteStore} {now : UInt64}

/-- The records of a store keep their policies in a later one. -/
def KeepsPolicies (s s' : SqliteStore) : Prop :=
  ∀ id old, s.get id = some old → ∃ new, s'.get id = some new ∧ PolicyKept old new

theorem KeepsPolicies.refl (s : SqliteStore) : s.KeepsPolicies s :=
  fun _ old h => ⟨old, h, .refl old⟩

theorem KeepsPolicies.trans {a b c : SqliteStore} (h : a.KeepsPolicies b)
    (h' : b.KeepsPolicies c) : a.KeepsPolicies c := by
  intro id old hold
  obtain ⟨mid, hmid, hkept⟩ := h id old hold
  obtain ⟨new, hnew, hkept'⟩ := h' id mid hmid
  exact ⟨new, hnew, hkept.trans hkept'⟩

theorem keepsPolicies_of_get (h : ∀ id, s'.get id = s.get id) : s.KeepsPolicies s' := by
  intro id old hold
  exact ⟨old, (h id).trans hold, .refl old⟩

/-- Only one record is written, and that one keeps its policy. -/
theorem keepsPolicies_of_ne {id : String}
    (hself : ∀ old, s.get id = some old → ∃ new, s'.get id = some new ∧ PolicyKept old new)
    (hne : ∀ id', id' ≠ id → s'.get id' = s.get id') : s.KeepsPolicies s' := by
  intro id' old hold
  by_cases hid : id' = id
  · subst hid
    exact hself old hold
  · exact ⟨old, (hne id' hid).trans hold, .refl old⟩

/-! ## What a migration and a recovery write -/

section

variable [Ss58]

/-- A migration is of a record without a policy. -/
theorem migratedPolicy_policy {r next : PaymentRecord} {version : UInt64}
    {budget : Option BuybackBudget} (h : migratedPolicy r version budget now = .ok next) :
    r.version = version ∧ r.buybackBudget = none := by
  unfold migratedPolicy at h
  split at h
  next => cases h
  next hversion =>
    split at h
    next => cases h
    next hclean =>
      simp only [not_or, Option.not_isSome_iff_eq_none] at hclean
      exact ⟨not_not.mp hversion, hclean.2.1⟩

theorem migrateLegacyPolicy_writes {id : String} {version : UInt64}
    {budget : Option BuybackBudget} {next : PaymentRecord}
    (h : s.migrateLegacyPolicy id version budget now = .ok (next, s')) :
    ∃ old, s.get id = some old ∧ migratedPolicy old version budget now = .ok next ∧
      s'.get id = some next := by
  obtain ⟨-, row, hrow, hpolicy, -, rfl⟩ := migrateLegacyPolicy_iff.mp h
  refine ⟨row.record, get_eq_some.mpr ⟨row, hrow, rfl⟩, hpolicy, ?_⟩
  rw [get, AList.lookup_insert, Option.map_some]
  rfl

theorem recoverLegacy_writes {scan : PaymentRecord → LegacyManifest → Result ArchiveScan}
    {m : LegacyManifest} {report : RecoveryReport}
    (h : s.recoverLegacy scan m now = .ok (report, s')) :
    ∃ old treasury deposit, s.get m.job = some old ∧ ValidManifest old m treasury deposit ∧
      s'.get m.job = some ((old.recovered m).stamped now) := by
  obtain ⟨row, next, hrow, ⟨report', hverify⟩, heq⟩ := recoverLegacy_row h
  obtain ⟨_, -, hverify⟩ := Result.bind_ok hverify
  obtain ⟨summaries, -, hreplay⟩ := Result.bind_ok hverify
  obtain ⟨rfl, treasury, deposit, hotkey, st, hst⟩ := replay_accepted hreplay
  refine ⟨row.record, treasury, deposit, get_eq_some.mpr ⟨row, hrow, rfl⟩, hst.valid, ?_⟩
  rw [get, heq, AList.lookup_insert, Option.map_some]
  rfl

/-! ## One operation -/

/-- A recovery names the budget that is there. -/
def NamesBudget (s : SqliteStore) (o : StoreOp) : Prop :=
  ∀ m old b, o = .recoverLegacy m → s.get m.job = some old → old.buybackBudget = some b →
    m.budget = some b

/-- Every operation but a recovery keeps the policies. -/
theorem perform_keepsPolicies_of_ne {x : Outside} {o : StoreOp} {a : o.Ret}
    (h : (s.perform x o).1 = .ok a) (ho : ∀ m, o ≠ .recoverLegacy m) :
    s.KeepsPolicies (s.perform x o).2 := by
  cases o with
  | recoverLegacy m => exact absurd rfl (ho m)
  | migrateLegacyPolicy id version budget =>
      obtain ⟨old, hm⟩ := migrateLegacyPolicy_ok (commit_ok h)
      obtain ⟨old', hget, hpolicy, hget'⟩ := migrateLegacyPolicy_writes (commit_ok h)
      refine keepsPolicies_of_ne (fun r hr => ⟨a, hget', ?_⟩) hm.get_ne
      rw [hget] at hr
      cases hr
      obtain ⟨-, hbudget⟩ := migratedPolicy_policy hpolicy
      obtain ⟨hrequired, -, -, -, heq⟩ := migratedPolicy_ok hpolicy
      refine ⟨fun b hb => ?_, fun required hr => ?_, fun i hi => ?_⟩
      · rw [hbudget] at hb
        cases hb
      · rw [hrequired] at hr
        cases hr
      · rw [heq]
        exact hi
  | update r =>
      cases perform_ok h with
      | update hu =>
          obtain ⟨old, hold, -, hbudget, hrequired, hidentity, -⟩ := hu.previous
          refine keepsPolicies_of_ne (fun r' hr' => ⟨_, hu.get_self, ?_⟩) hu.get_ne
          rw [hold] at hr'
          cases hr'
          exact ⟨fun b hb => hbudget ▸ hb, fun required hr => hrequired ▸ hr,
            fun i hi => hidentity ▸ hi⟩
  | insert r =>
      cases perform_ok h with
      | insert hi =>
          refine keepsPolicies_of_ne (fun old hold => ?_) hi.get_ne
          rw [hi.get_old] at hold
          cases hold
  | reserveSignerForRecord signer r =>
      cases perform_ok h with
      | reserveSignerForRecord hr => exact keepsPolicies_of_get fun id => by rw [hr.eq]; rfl
  | reserveSigner signer job =>
      cases perform_ok h with
      | reserveSigner hr => exact keepsPolicies_of_get fun id => by rw [hr.eq]; rfl
  | cancelPreparation signer job token =>
      cases perform_ok h with
      | cancelPreparation hx => exact keepsPolicies_of_get fun id => by rw [hx.eq]; rfl
  | requireSigning => exact .refl s
  | get id => exact .refl s
  | list states => exact .refl s

/-- An operation that succeeds keeps the policies exactly if it names the budget. -/
theorem perform_keepsPolicies_iff {x : Outside} {o : StoreOp} {a : o.Ret}
    (h : (s.perform x o).1 = .ok a) :
    s.KeepsPolicies (s.perform x o).2 ↔ s.NamesBudget o := by
  by_cases ho : ∀ m, o ≠ .recoverLegacy m
  · exact iff_of_true (perform_keepsPolicies_of_ne h ho) fun m _ _ hm => absurd hm (ho m)
  · push Not at ho
    obtain ⟨m, rfl⟩ := ho
    obtain ⟨old, new, hm⟩ := recoverLegacy_ok (commit_ok h)
    obtain ⟨old, treasury, deposit, hget, hvalid, hget'⟩ := recoverLegacy_writes (commit_ok h)
    constructor
    · rintro hkeeps _ r b ⟨⟩ hr hb
      obtain ⟨r', hr', hkept⟩ := hkeeps m.job r hr
      rw [hget] at hr
      cases hr
      cases hget'.symm.trans hr'
      exact hvalid.policyKept_iff.mp hkept b hb
    · intro hnames
      refine keepsPolicies_of_ne (fun r hr => ⟨_, hget', ?_⟩) hm.get_ne
      rw [hget] at hr
      cases hr
      exact hvalid.policyKept_iff.mpr fun b hb => hnames m old b rfl hget hb

/-- A migration or a recovery says whether there is a budget. -/
theorem perform_required {x : Outside} {o : StoreOp} {a : o.Ret} {id : String}
    (h : (s.perform x o).1 = .ok a) (ho : o.policyOf = some id) :
    ∃ new, (s.perform x o).2.get id = some new ∧
      new.autoRequired = some new.buybackBudget.isSome := by
  cases o with
  | migrateLegacyPolicy id version budget =>
      cases ho
      obtain ⟨old, -, hpolicy, hget⟩ := migrateLegacyPolicy_writes (commit_ok h)
      obtain ⟨-, -, -, -, heq⟩ := migratedPolicy_ok hpolicy
      exact ⟨a, hget, by rw [heq]⟩
  | recoverLegacy m =>
      cases ho
      obtain ⟨old, treasury, deposit, -, -, hget⟩ := recoverLegacy_writes (commit_ok h)
      exact ⟨_, hget, rfl⟩
  | _ => cases ho

/-! ## Any sequence of operations -/

/-- The store after a sequence of operations. -/
def run (s : SqliteStore) (calls : List StoreCall) : SqliteStore :=
  calls.foldl (fun s c => (s.perform c.1 c.2).2) s

theorem run_append (s : SqliteStore) (pre post : List StoreCall) :
    s.run (pre ++ post) = (s.run pre).run post := List.foldl_append

/-- Every operation of the sequence succeeds. -/
def Succeeds (s : SqliteStore) (calls : List StoreCall) : Prop :=
  ∀ pre c post, calls = pre ++ c :: post → ∃ a, ((s.run pre).perform c.1 c.2).1 = .ok a

/-- The policies are written once. -/
structure WrittenOnce (s : SqliteStore) (calls : List StoreCall) : Prop where
  /-- What is there at some point is there at every later one. -/
  kept : ∀ pre mid post, calls = pre ++ mid ++ post →
    (s.run pre).KeepsPolicies (s.run (pre ++ mid))
  /-- A migration or a recovery says whether there is a budget. -/
  required : ∀ pre c post id, calls = pre ++ c :: post → c.2.policyOf = some id →
    ∃ new, (s.run (pre ++ [c])).get id = some new ∧
      new.autoRequired = some new.buybackBudget.isSome

/-- Every recovery of the sequence names the budget that is there. -/
def NamesBudgets (s : SqliteStore) (calls : List StoreCall) : Prop :=
  ∀ pre c post, calls = pre ++ c :: post → (s.run pre).NamesBudget c.2

theorem Succeeds.tail {c : StoreCall} {calls : List StoreCall} (h : s.Succeeds (c :: calls)) :
    (s.run [c]).Succeeds calls := by
  intro pre c' post heq
  exact h (c :: pre) c' post (by rw [heq, List.cons_append])

theorem NamesBudgets.tail {c : StoreCall} {calls : List StoreCall}
    (h : s.NamesBudgets (c :: calls)) : (s.run [c]).NamesBudgets calls := by
  intro pre c' post heq
  exact h (c :: pre) c' post (by rw [heq, List.cons_append])

/-- The induction over the sequence. -/
theorem NamesBudgets.keepsPolicies {calls : List StoreCall} :
    ∀ {s : SqliteStore}, s.Succeeds calls → s.NamesBudgets calls →
      s.KeepsPolicies (s.run calls) := by
  induction calls with
  | nil => intro s _ _; exact .refl s
  | cons c calls ih =>
      intro s hok hnames
      obtain ⟨a, ha⟩ := hok [] c calls rfl
      have hstep : s.KeepsPolicies (s.run [c]) :=
        (perform_keepsPolicies_iff ha).mpr (hnames [] c calls rfl)
      exact hstep.trans (ih hok.tail hnames.tail)

/-- The policies of a sequence of operations are written once exactly if every
recovery names the budget that is there. -/
theorem writtenOnce_iff {calls : List StoreCall} (hok : s.Succeeds calls) :
    s.WrittenOnce calls ↔ s.NamesBudgets calls := by
  constructor
  · intro h pre c post heq
    obtain ⟨a, ha⟩ := hok pre c post heq
    refine (perform_keepsPolicies_iff ha).mp ?_
    have := h.kept pre [c] post (by rw [heq, List.append_assoc, List.singleton_append])
    rwa [run_append] at this
  · intro hnames
    refine ⟨fun pre mid post heq => ?_, fun pre c post id heq hid => ?_⟩
    · rw [run_append]
      refine NamesBudgets.keepsPolicies (fun pre' c' post' hmid => ?_) fun pre' c' post' hmid => ?_
      · have := hok (pre ++ pre') c' (post' ++ post) (by simp [heq, hmid])
        rwa [run_append] at this
      · have := hnames (pre ++ pre') c' (post' ++ post) (by simp [heq, hmid])
        rwa [run_append] at this
    · obtain ⟨a, ha⟩ := hok pre c post heq
      rw [run_append]
      exact perform_required ha hid

end

/-! ## A budget that is cleared -/

/-- A job of the time before `autoRequired` and `identity`, with a budget. -/
def legacyRecord : PaymentRecord :=
  { (sampleEngine (some sampleBudget)).sweepRecord "job" "xxx" "path" none ⟨1, "", "", none⟩ 0 with
    autoRequired := none
    identity := none }

/-- A manifest of the job, which has not sent anything. -/
def legacyManifest (budget : Option BuybackBudget) : LegacyManifest where
  job := "job"
  version := 0
  genesisHash := "genesis"
  treasury := "xx"
  treasuryHotkey := "xxxxxxxxx"
  consolidate := false
  returnDust := false
  budget := budget
  firstBlock := 1
  stoppedAt := 2
  maximumMortality := 64
  operatorAttestation := "0123456789abcdef"
  allOldEmittersStoppedNoImmortalSignatures := true
  transactions := []

/-- The recovery by a manifest, with an archive in which neither signer occurs. -/
def legacyCall (budget : Option BuybackBudget) : StoreCall :=
  (⟨0, "t", fun _ _ => .ok ([], 100, "head")⟩, .recoverLegacy (legacyManifest budget))

def legacyStore : SqliteStore :=
  empty.run [(⟨0, "t", fun _ _ => .error (.chain "no archive")⟩, .insert legacyRecord)]

theorem succeeds_singleton [Ss58] {s : SqliteStore} {c : StoreCall}
    (h : (s.perform c.1 c.2).1.isOk = true) : s.Succeeds [c] := by
  intro pre c' post heq
  cases pre with
  | nil =>
      cases heq
      cases hres : (s.perform c.1 c.2).1 with
      | ok a => exact ⟨a, hres⟩
      | error e =>
          rw [hres] at h
          cases h
  | cons x pre =>
      have := (List.cons.inj heq).2
      simp at this

/-- A recovery by a manifest without a budget clears the budget of the record. -/
theorem recovery_clears : legacyStore.Succeeds [legacyCall none] ∧
    ¬ legacyStore.WrittenOnce [legacyCall none] := by
  refine ⟨succeeds_singleton (by decide), fun h => ?_⟩
  obtain ⟨new, hnew, hkept⟩ := h.kept [] [legacyCall none] [] rfl "job" legacyRecord (by decide)
  have hcleared : ((legacyStore.run [legacyCall none]).get "job").all fun r =>
      r.buybackBudget.isNone := by decide
  rw [show [] ++ [legacyCall none] = [legacyCall none] from rfl] at hnew
  rw [hnew, Option.all_some, hkept.buybackBudget sampleBudget rfl] at hcleared
  cases hcleared

/-- A recovery that names the budget keeps it. -/
theorem recovery_keeps : legacyStore.Succeeds [legacyCall (some sampleBudget)] ∧
    legacyStore.WrittenOnce [legacyCall (some sampleBudget)] := by
  have hok : legacyStore.Succeeds [legacyCall (some sampleBudget)] :=
    succeeds_singleton (by decide)
  refine ⟨hok, (writtenOnce_iff hok).mpr fun pre c post heq => ?_⟩
  cases pre with
  | nil =>
      cases heq
      rintro m old b ⟨⟩ hold hb
      have hget : legacyStore.get "job" = some legacyRecord := by decide
      cases hget.symm.trans hold
      exact hb
  | cons x pre =>
      have := (List.cons.inj heq).2
      simp at this

end SqliteStore

end Buyback
