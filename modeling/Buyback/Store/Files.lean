import Buyback.Source.FileStore
import Buyback.Store.Rows

/-!
# What the file store does

When an operation of a `FileStore` succeeds, and the file it writes.  Both stores make
the record of a migration in the same way.
-/

namespace Buyback

/-- An operation that succeeds returns the store it commits. -/
theorem orKeep_ok {σ α : Type} {s : σ} {y : Result (α × σ)} {a : α}
    (h : (orKeep s y).1 = .ok a) : y = .ok (a, (orKeep s y).2) := by
  cases y with
  | ok y => cases h; rfl
  | error e => cases h

theorem orKeep_error {σ α : Type} {s : σ} {y : Result (α × σ)} {e : Error}
    (h : (orKeep s y).1 = .error e) : (orKeep s y).2 = s := by
  cases y with
  | ok y => cases h
  | error e' => rfl

/-- The stored record `cur` is one that `r` may replace. -/
structure Current (cur r : PaymentRecord) : Prop where
  version : cur.version = r.version
  buybackBudget : cur.buybackBudget = r.buybackBudget
  autoRequired : cur.autoRequired = r.autoRequired
  identity : cur.identity = r.identity

namespace FileStore

variable {f f' : FileStore} {id p : String} {now : UInt64} {r next : PaymentRecord}

/-- An id that may name a file. -/
def ValidId (id : String) : Prop := id ≠ "" ∧ id.toList.all idChar = true

@[simp] theorem read_empty : empty.read id = none := rfl

theorem read_write_self : (f.write id r).read id = some r := AList.lookup_insert _

theorem read_write_ne {id' : String} (h : id' ≠ id) : (f.write id r).read id' = f.read id' :=
  AList.lookup_insert_ne h

section

variable [StdTexts]

theorem path_iff : path id = .ok p ↔ ValidId id ∧ p = id := by
  unfold path ValidId
  split
  next h =>
    constructor
    · intro h'
      cases h'
    · rintro ⟨⟨hne, hall⟩, -⟩
      rcases h with h | h
      · exact absurd h hne
      · rw [h] at hall
        cases hall
  next h =>
    rw [not_or, Bool.not_eq_false] at h
    constructor
    · intro h'
      cases h'
      exact ⟨h, rfl⟩
    · rintro ⟨-, rfl⟩
      rfl

theorem get_iff {o : Option PaymentRecord} : f.get id = .ok o ↔ ValidId id ∧ o = f.read id := by
  constructor
  · intro h
    obtain ⟨p, hp, hread⟩ := Result.bind_ok h
    obtain ⟨hid, rfl⟩ := path_iff.mp hp
    cases hread
    exact ⟨hid, rfl⟩
  · rintro ⟨hid, rfl⟩
    exact Result.ok_bind (path_iff.mpr ⟨hid, rfl⟩)

theorem insert_iff {u : Unit} : f.insert r = .ok (u, f') ↔
    ValidId r.id ∧ f.read r.id = none ∧ f' = f.write r.id r := by
  constructor
  · intro h
    obtain ⟨p, hp, h⟩ := Result.bind_ok h
    obtain ⟨hid, rfl⟩ := path_iff.mp hp
    split at h
    next => cases h
    next hnone =>
      cases h
      exact ⟨hid, by simpa using hnone, rfl⟩
  · rintro ⟨hid, hnone, rfl⟩
    rw [insert, Result.ok_bind (path_iff.mpr ⟨hid, rfl⟩), hnone]
    rfl

theorem update_iff : f.update r now = .ok (next, f') ↔
    ValidId r.id ∧ (∃ cur, f.read r.id = some cur ∧ Current cur r) ∧ next = r.stamped now ∧
      f' = f.write r.id (r.stamped now) := by
  constructor
  · intro h
    obtain ⟨p, hp, h⟩ := Result.bind_ok h
    obtain ⟨hid, rfl⟩ := path_iff.mp hp
    split at h
    next => cases h
    next cur hcur =>
      split_ifs at h with hpolicy hversion
      simp only [not_or, not_not] at hpolicy hversion
      cases h
      exact ⟨hid, ⟨cur, hcur, hversion, hpolicy.1, hpolicy.2.1, hpolicy.2.2⟩, rfl, rfl⟩
  · rintro ⟨hid, ⟨cur, hcur, hc⟩, rfl, rfl⟩
    rw [update, Result.ok_bind (path_iff.mpr ⟨hid, rfl⟩), hcur]
    simp [hc.version, hc.buybackBudget, hc.autoRequired, hc.identity]
    rfl

end

theorem migrateLegacyPolicy_iff [Ss58] {version : UInt64} {budget : Option BuybackBudget} :
    f.migrateLegacyPolicy id version budget now = .ok (next, f') ↔
      ValidId id ∧ (∃ old, f.read id = some old ∧
        migratedPolicy old version budget now = .ok next) ∧ f' = f.write id next := by
  constructor
  · intro h
    obtain ⟨p, hp, h⟩ := Result.bind_ok h
    obtain ⟨hid, rfl⟩ := path_iff.mp hp
    split at h
    next => cases h
    next old hold =>
      obtain ⟨x, hx, h⟩ := Result.bind_ok h
      cases h
      exact ⟨hid, ⟨old, hold, hx⟩, rfl⟩
  · rintro ⟨hid, ⟨old, hold, hpolicy⟩, rfl⟩
    rw [migrateLegacyPolicy, Result.ok_bind (path_iff.mpr ⟨hid, rfl⟩), hold]
    exact Result.ok_bind hpolicy

end FileStore

end Buyback
