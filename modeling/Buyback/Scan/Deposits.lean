import Buyback.Scan.Archive
import Buyback.Source.Deposits

/-!
# The deposits of a block

The passes of `deposits_in_block`, one after the other: what each collects is a
function of the events of the block.  Joined, they make one deposit of every stake of
a watched coldkey whose extrinsic succeeded.  No pass asks whether the extrinsic is
signed, so the deposits are the promised ones exactly if all of these are.
-/

namespace Buyback

/-! ## The events -/

/-- An event adds a stake, in an extrinsic. -/
structure BlockEvent.Adds (ev : BlockEvent) (hit : StakeHit) : Prop where
  palletName : ev.event.palletName = pallet
  eventName : ev.event.eventName = "StakeAdded"
  phase : ev.phase = .applyExtrinsic hit.extrinsicIndex
  index : ev.index = hit.eventIndex
  fields : ∃ fee, ev.event.fields =
    [.account hit.coldkey, .account hit.hotkey, .u64 hit.tao, .u64 hit.alpha, .u16 hit.netuid,
      .u64 fee]

theorem BlockEvent.stakeAdded_some {ev : BlockEvent} {hit : StakeHit} :
    ev.stakeAdded = .ok (some hit) ↔ ev.Adds hit := by
  constructor
  · intro h
    rw [stakeAdded] at h
    split at h
    next => cases h
    next hname =>
      rw [not_or, not_not, not_not] at hname
      split at h
      next xt hphase =>
        split at h
        next coldkey hotkey tao alpha netuid fee hfields =>
          cases h
          exact ⟨hname.1, hname.2, hphase, rfl, fee, hfields⟩
        next => cases h
      next => cases h
  · rintro ⟨hpallet, hevent, hphase, hindex, fee, hfields⟩
    rw [stakeAdded, if_neg (not_or.mpr ⟨not_not.mpr hpallet, not_not.mpr hevent⟩)]
    simp only [hphase, hfields, hindex]

/-- An event adds one stake at most. -/
theorem BlockEvent.Adds.unique {ev : BlockEvent} {hit hit' : StakeHit} (h : ev.Adds hit)
    (h' : ev.Adds hit') : hit = hit' := by
  have heq := (BlockEvent.stakeAdded_some.mpr h).symm.trans (BlockEvent.stakeAdded_some.mpr h')
  exact Option.some.inj (Except.ok.inj heq)

/-- An event reports that the extrinsic `i` has succeeded. -/
structure BlockEvent.Succeeds (ev : BlockEvent) (i : UInt32) : Prop where
  palletName : ev.event.palletName = "System"
  eventName : ev.event.eventName = "ExtrinsicSuccess"
  phase : ev.phase = .applyExtrinsic i

theorem BlockEvent.succeeded_some {ev : BlockEvent} {i : UInt32} :
    ev.succeeded = some i ↔ ev.Succeeds i := by
  rw [succeeded]
  constructor
  · intro h
    split at h
    next xt hphase =>
      rw [Option.ite_none_right_eq_some] at h
      obtain ⟨hname, ⟨⟩⟩ := h
      exact ⟨hname.1, hname.2, hphase⟩
    next => cases h
  · rintro ⟨hpallet, hevent, hphase⟩
    simp only [hphase, hpallet, hevent, and_self, if_true]

/-- An event decodes, with the fields of a stake if it is one. -/
def Decodes (x : Except String BlockEvent) : Prop := ∃ ev hit, x = .ok ev ∧ ev.stakeAdded = .ok hit

/-- The stake that an event adds. -/
def stakeOf (x : Except String BlockEvent) : Option StakeHit :=
  x.toOption.bind fun ev => ev.stakeAdded.toOption.join

/-- The extrinsic that an event reports the success of. -/
def successOf (x : Except String BlockEvent) : Option UInt32 := x.toOption.bind BlockEvent.succeeded

variable {b : AtBlock} {number : UInt64} {watched : Finset AccountId32}
  {events : List (Except String BlockEvent)} {x : Except String BlockEvent}
  {hits hits' : List StakeHit} {hit : StakeHit} {i : UInt32}

theorem stakeOf_some : stakeOf x = some hit ↔ ∃ ev, x = .ok ev ∧ ev.Adds hit := by
  cases x with
  | error e => exact ⟨nofun, nofun⟩
  | ok ev =>
      simp only [← BlockEvent.stakeAdded_some, stakeOf, Except.toOption, Option.bind_some,
        Except.ok.injEq, exists_eq_left']
      cases ev.stakeAdded with
      | error e => exact ⟨nofun, nofun⟩
      | ok hit' => simp only [Option.join_some, Except.ok.injEq]

theorem successOf_some {i : UInt32} : successOf x = some i ↔ ∃ ev, x = .ok ev ∧ ev.Succeeds i := by
  cases x with
  | error e => exact ⟨nofun, nofun⟩
  | ok ev =>
      simp only [← BlockEvent.succeeded_some, successOf, Except.toOption, Option.bind_some,
        Except.ok.injEq, exists_eq_left']

/-! ## The passes over the events -/

namespace AtBlock

theorem collectHit_ok : collectHit watched hits x = .ok hits' ↔
    Decodes x ∧ hits ++ (stakeOf x).toList.filter (·.coldkey ∈ watched) = hits' := by
  cases x with
  | error e =>
      constructor
      · intro h
        cases h
      · rintro ⟨⟨_, _, h, _⟩, _⟩
        cases h
  | ok ev =>
      simp only [collectHit, chainErr, Result.ok_bind rfl, Decodes, stakeOf, Except.toOption,
        Option.bind_some, Except.ok.injEq]
      cases hstake : ev.stakeAdded with
      | error e =>
          constructor
          · intro h
            cases h
          · rintro ⟨⟨_, _, rfl, h⟩, -⟩
            cases hstake.symm.trans h
      | ok stake =>
          have hdecodes : ∃ ev' hit, ev = ev' ∧ ev'.stakeAdded = .ok hit := ⟨ev, stake, rfl, hstake⟩
          rw [and_iff_right hdecodes, Result.ok_bind rfl]
          cases stake with
          | none => simp
          | some hit =>
              by_cases hwatched : hit.coldkey ∈ watched
              · simp [hwatched]
              · simp [hwatched]

/-- The first pass collects the stakes of the watched coldkeys, in event order. -/
theorem collectHits_ok : events.foldlM (collectHit watched) hits = .ok hits' ↔
    (∀ x ∈ events, Decodes x) ∧
      hits ++ (events.filterMap stakeOf).filter (·.coldkey ∈ watched) = hits' := by
  induction events generalizing hits with
  | nil =>
      rw [List.filterMap_nil, List.filter_nil, List.append_nil]
      exact ⟨fun h => ⟨nofun, Except.ok.inj h⟩, fun h => congrArg _ h.2⟩
  | cons x events ih =>
      have hcons :
          (x :: events).filterMap stakeOf = (stakeOf x).toList ++ events.filterMap stakeOf := by
        rw [List.filterMap_cons]
        cases stakeOf x <;> rfl
      rw [List.foldlM_cons, Result.bind_eq_ok, hcons, List.filter_append, List.forall_mem_cons]
      simp only [collectHit_ok, ih]
      constructor
      · rintro ⟨_, ⟨hx, rfl⟩, hrest, rfl⟩
        exact ⟨⟨hx, hrest⟩, (List.append_assoc ..).symm⟩
      · rintro ⟨⟨hx, hrest⟩, rfl⟩
        exact ⟨_, ⟨hx, rfl⟩, hrest, List.append_assoc ..⟩

/-- The second pass collects the extrinsics that succeeded. -/
theorem collectSuccesses_ok (ok : Finset UInt32) (h : ∀ x ∈ events, Decodes x) :
    ∃ ok', events.foldlM collectSuccess ok = .ok ok' ∧
      ∀ i, i ∈ ok' ↔ i ∈ ok ∨ i ∈ events.filterMap successOf := by
  induction events generalizing ok with
  | nil => exact ⟨ok, rfl, fun i => by simp⟩
  | cons x events ih =>
      obtain ⟨⟨ev, _, rfl, -⟩, hrest⟩ := List.forall_mem_cons.mp h
      have hsuccess : successOf (.ok ev) = ev.succeeded := rfl
      rw [List.foldlM_cons]
      simp only [collectSuccess, chainErr, Result.ok_bind rfl, List.filterMap_cons, hsuccess]
      cases ev.succeeded with
      | none =>
          rw [Result.ok_bind rfl]
          exact ih ok hrest
      | some i =>
          rw [Result.ok_bind rfl]
          obtain ⟨ok', hok', hmem⟩ := ih (insert i ok) hrest
          refine ⟨ok', hok', fun j => ?_⟩
          rw [hmem, Finset.mem_insert, List.mem_cons, or_comm (a := j = i), or_assoc]

/-! ## The pass over the extrinsics -/

/-- The last extrinsic whose index is `i`, as a `u32` counts. -/
def lastAt (b : AtBlock) (i : UInt32) : Option ArchiveExtrinsic :=
  ((b.extrinsics.zipIdx.filter fun x => UInt32.ofNat x.2 = i).getLast?).map Prod.fst

theorem hashes_eq : b.hashes i = (b.lastAt i).map fun x => (x.hash, x.address) := by
  rw [hashes, lastAt]
  induction b.extrinsics.zipIdx using List.reverseRecOn with
  | nil => rfl
  | append_singleton xs x ih =>
      rw [List.foldl_append, List.foldl_cons, List.foldl_nil, Function.update_apply, ih,
        List.filter_append, List.getLast?_append]
      by_cases hi : UInt32.ofNat x.2 = i
      · rw [if_pos hi.symm, List.filter_cons_of_pos (by simpa using hi)]
        rfl
      · rw [if_neg (Ne.symm hi), List.filter_cons_of_neg (by simpa using hi)]
        rfl

/-- A `u32` counts the extrinsics of a block that has no more of them. -/
theorem lastAt_eq (h : b.extrinsics.length ≤ 2 ^ 32) : b.lastAt i = b.extrinsics[i.toNat]? := by
  rw [lastAt]
  have hi := i.toNat_lt
  generalize b.extrinsics = extrinsics at h ⊢
  induction extrinsics using List.reverseRecOn with
  | nil => rfl
  | append_singleton xs x ih =>
      rw [List.length_append, List.length_singleton] at h
      have hsmall : (UInt32.ofNat xs.length).toNat = xs.length := by
        rw [UInt32.toNat_ofNat', Nat.mod_eq_of_lt (by omega)]
      rw [List.zipIdx_append, List.filter_append, List.getLast?_append, Nat.zero_add,
        List.zipIdx_singleton]
      by_cases heq : UInt32.ofNat xs.length = i
      · rw [List.filter_cons_of_pos (by simpa using heq), ← heq, hsmall,
          List.getElem?_concat_length]
        rfl
      · have hne : i.toNat ≠ xs.length := fun h' => heq (UInt32.toNat_inj.mp (hsmall.trans h'.symm))
        rw [List.filter_cons_of_neg (by simpa using heq), List.filter_nil, List.getLast?_nil,
          Option.none_or, ih (by omega)]
        rcases Nat.lt_or_gt_of_ne hne with hlt | hgt
        · rw [List.getElem?_append_left hlt]
        · rw [List.getElem?_eq_none (by omega), List.getElem?_eq_none]
          rw [List.length_append, List.length_singleton]
          omega

/-! ## The pass over the stakes -/

/-- A deposit that the scan makes of a stake. -/
def Credits (b : AtBlock) (number : UInt64) (hit : StakeHit) (d : Deposit) : Prop :=
  ∃ prices, b.prices hit.netuid = .ok prices ∧ b.depositOf number hit prices = d

/-- The prices read so far are the block's. -/
def Cached (b : AtBlock) (st : DepositState) : Prop :=
  ∀ netuid prices, st.prices netuid = some prices → b.prices netuid = .ok prices

variable {ok : Finset UInt32} {st st' : DepositState}

/-- Whether a price is cached or read, it is the block's. -/
theorem credit_ok (hcached : b.Cached st) (hok : hit.extrinsicIndex ∈ ok) :
    b.credit number ok st hit = .ok st' ↔ ∃ prices, b.prices hit.netuid = .ok prices ∧
      ⟨Function.update st.prices hit.netuid (some prices),
        st.deposits ++ [b.depositOf number hit prices]⟩ = st' := by
  rw [credit, if_neg (not_not.mpr hok)]
  cases hprices : st.prices hit.netuid with
  | none =>
      simp only [Result.bind_eq_ok, Except.ok.injEq]
  | some prices =>
      have hread := hcached _ _ hprices
      have hkept : Function.update st.prices hit.netuid (some prices) = st.prices :=
        Function.update_eq_self_iff.mpr hprices.symm
      simp only [hread, Except.ok.injEq, exists_eq_left', hkept]

theorem Cached.update {prices : UInt64 × UInt64} {ds : List Deposit} {netuid : UInt16}
    (hcached : b.Cached st) (hread : b.prices netuid = .ok prices) :
    b.Cached ⟨Function.update st.prices netuid (some prices), ds⟩ := by
  intro n p hp
  simp only [Function.update_apply] at hp
  split at hp
  next heq =>
    cases hp
    rwa [heq]
  next => exact hcached n p hp

/-- The last pass makes a deposit of every stake whose extrinsic succeeded, in order. -/
theorem credits_ok {out : List Deposit} (hcached : b.Cached st) :
    (∃ st', hits.foldlM (b.credit number ok) st = .ok st' ∧ st'.deposits = out) ↔
      ∃ ds, List.Forall₂ (b.Credits number) (hits.filter (·.extrinsicIndex ∈ ok)) ds ∧
        st.deposits ++ ds = out := by
  induction hits generalizing st with
  | nil =>
      constructor
      · rintro ⟨_, ⟨⟩, rfl⟩
        exact ⟨[], .nil, List.append_nil _⟩
      · rintro ⟨_, ⟨⟩, rfl⟩
        exact ⟨st, rfl, (List.append_nil _).symm⟩
  | cons hit hits ih =>
      simp only [List.foldlM_cons, Result.bind_eq_ok]
      by_cases hok : hit.extrinsicIndex ∈ ok
      · rw [List.filter_cons_of_pos (by simpa using hok)]
        simp only [credit_ok hcached hok]
        constructor
        · rintro ⟨st', ⟨_, ⟨prices, hread, rfl⟩, hrest⟩, hout⟩
          obtain ⟨ds, hds, rfl⟩ := (ih (hcached.update hread)).mp ⟨st', hrest, hout⟩
          exact ⟨_, .cons ⟨prices, hread, rfl⟩ hds, List.append_cons ..⟩
        · rintro ⟨_, hds, rfl⟩
          cases hds with
          | @cons _ d _ ds hcredits hds =>
              obtain ⟨prices, hread, rfl⟩ := hcredits
              obtain ⟨st', hrest, hout⟩ :=
                (ih (hcached.update hread)).mpr ⟨ds, hds, (List.append_cons ..).symm⟩
              exact ⟨st', ⟨_, ⟨prices, hread, rfl⟩, hrest⟩, hout⟩
      · rw [List.filter_cons_of_neg (by simpa using hok)]
        simp only [credit, if_pos hok, Except.ok.injEq, exists_eq_left']
        exact ih hcached

/-! ## The whole scan -/

/-- The extrinsics that succeeded. -/
def successes (b : AtBlock) : List UInt32 := b.events.filterMap successOf

/-- The stakes added in extrinsics, in event order. -/
def stakes (b : AtBlock) : List StakeHit := b.events.filterMap stakeOf

/-- The stakes of watched coldkeys whose extrinsic succeeded. -/
def counted (b : AtBlock) (watched : Finset AccountId32) : List StakeHit :=
  b.stakes.filter fun hit => hit.coldkey ∈ watched ∧ hit.extrinsicIndex ∈ b.successes

/-- What the scan reads is there: the events, unless nobody is watched, and the prices of
the stakes. -/
structure Readable (b : AtBlock) (watched : Finset AccountId32) : Prop where
  events : watched.Nonempty → ∀ x ∈ b.events, Decodes x
  prices : ∀ hit ∈ b.counted watched, ∃ prices, b.prices hit.netuid = .ok prices

/-- The scan makes a deposit of every stake that counts, in event order. -/
theorem depositsInBlock_ok {out : BlockDeposits} : b.depositsInBlock number watched = .ok out ↔
    (watched.Nonempty → ∀ x ∈ b.events, Decodes x) ∧
      ∃ ds, List.Forall₂ (b.Credits number) (b.counted watched) ds ∧
        ⟨number, b.hash, ds⟩ = out := by
  rw [depositsInBlock]
  by_cases hempty : watched = ∅
  · have hnone : b.counted watched = [] := by
      rw [counted, List.filter_eq_nil_iff]
      intro hit _ h
      rw [hempty, decide_eq_true_iff] at h
      exact absurd h.1 (Finset.notMem_empty _)
    rw [if_pos hempty, hnone]
    have hnobody : ¬ watched.Nonempty := Finset.not_nonempty_iff_eq_empty.mpr hempty
    simp only [hnobody, false_implies, true_and, List.forall₂_nil_left_iff, exists_eq_left,
      Except.ok.injEq]
  · have hnobody : watched.Nonempty := Finset.nonempty_iff_ne_empty.mpr hempty
    rw [if_neg hempty, forall_prop_of_true hnobody, Result.bind_eq_ok]
    simp only [collectHits_ok, List.nil_append, and_assoc, exists_and_left, exists_eq_left']
    refine and_congr_right fun hdecodes => ?_
    obtain ⟨ok, hok, hmem⟩ := collectSuccesses_ok ∅ hdecodes
    have hcounted : b.counted watched =
        ((b.events.filterMap stakeOf).filter (·.coldkey ∈ watched)).filter
          (·.extrinsicIndex ∈ ok) := by
      rw [List.filter_filter]
      refine List.filter_congr fun hit _ => ?_
      rw [Bool.eq_iff_iff, decide_eq_true_iff, Bool.and_eq_true, decide_eq_true_iff,
        decide_eq_true_iff, hmem, and_comm]
      simp [successes]
    rw [hcounted]
    generalize (b.events.filterMap stakeOf).filter (·.coldkey ∈ watched) = hits
    by_cases hhits : hits = []
    · rw [if_pos hhits, hhits, List.filter_nil]
      simp only [List.forall₂_nil_left_iff, exists_eq_left, Except.ok.injEq]
    · rw [if_neg hhits, Result.ok_bind hok, Result.bind_eq_ok]
      have hstart : b.Cached ⟨fun _ => none, []⟩ := fun _ _ h => nomatch h
      constructor
      · rintro ⟨st, hst, ⟨⟩⟩
        obtain ⟨ds, hds, hout⟩ := (credits_ok hstart).mp ⟨st, hst, rfl⟩
        exact ⟨ds, hds, by rw [← hout]; rfl⟩
      · rintro ⟨ds, hds, rfl⟩
        obtain ⟨st, hst, hout⟩ := (credits_ok hstart).mpr ⟨ds, hds, rfl⟩
        exact ⟨st, hst, by rw [hout]; rfl⟩

/-- Every stake that counts is found, with its deposit. -/
theorem mem_deposits {out : BlockDeposits} {d : Deposit}
    (h : b.depositsInBlock number watched = .ok out) :
    d ∈ out.deposits ↔ ∃ hit ∈ b.counted watched, b.Credits number hit d := by
  obtain ⟨-, ds, hds, rfl⟩ := depositsInBlock_ok.mp h
  constructor
  · exact exists_of_forall₂ hds
  · rintro ⟨hit, hhit, prices, hread, rfl⟩
    obtain ⟨d, hd, prices', hread', hcredits⟩ := exists_of_forall₂ hds.flip hhit
    cases hread.symm.trans hread'
    exact hcredits ▸ hd

theorem exists_forall₂ {α β : Type} {R : α → β → Prop} {as : List α} (h : ∀ a ∈ as, ∃ b, R a b) :
    ∃ bs, List.Forall₂ R as bs := by
  induction as with
  | nil => exact ⟨[], .nil⟩
  | cons a as ih =>
      obtain ⟨⟨b, hb⟩, hrest⟩ := List.forall_mem_cons.mp h
      obtain ⟨bs, hbs⟩ := ih hrest
      exact ⟨b :: bs, .cons hb hbs⟩

/-- The scan succeeds exactly if what it reads is there. -/
theorem readable_iff :
    (∃ out, b.depositsInBlock number watched = .ok out) ↔ b.Readable watched := by
  constructor
  · rintro ⟨out, h⟩
    obtain ⟨hdecodes, ds, hds, -⟩ := depositsInBlock_ok.mp h
    refine ⟨hdecodes, fun hit hhit => ?_⟩
    obtain ⟨-, -, prices, hread, -⟩ := exists_of_forall₂ hds.flip hhit
    exact ⟨prices, hread⟩
  · rintro ⟨hdecodes, hprices⟩
    obtain ⟨ds, hds⟩ := exists_forall₂ (R := b.Credits number) fun hit hhit =>
      (hprices hit hhit).imp' _ fun prices hread => ⟨prices, hread, rfl⟩
    exact ⟨_, depositsInBlock_ok.mpr ⟨hdecodes, ds, hds, rfl⟩⟩

theorem mem_counted_union {watched₁ watched₂ : Finset AccountId32} :
    hit ∈ b.counted (watched₁ ∪ watched₂) ↔
      hit ∈ b.counted watched₁ ∨ hit ∈ b.counted watched₂ := by
  simp only [counted, List.mem_filter, decide_eq_true_iff, Finset.mem_union]
  rw [← and_or_left, ← or_and_right]

theorem readable_union {watched₁ watched₂ : Finset AccountId32} :
    b.Readable (watched₁ ∪ watched₂) ↔ b.Readable watched₁ ∧ b.Readable watched₂ := by
  constructor
  · rintro ⟨hevents, hprices⟩
    exact ⟨⟨fun h => hevents (h.mono Finset.subset_union_left),
        fun hit hhit => hprices hit (mem_counted_union.mpr (.inl hhit))⟩,
      fun h => hevents (h.mono Finset.subset_union_right),
        fun hit hhit => hprices hit (mem_counted_union.mpr (.inr hhit))⟩
  · rintro ⟨⟨hevents₁, hprices₁⟩, hevents₂, hprices₂⟩
    refine ⟨fun h => (Finset.union_nonempty.mp h).elim hevents₁ hevents₂, fun hit hhit => ?_⟩
    exact (mem_counted_union.mp hhit).elim (hprices₁ hit) (hprices₂ hit)

/-- A stake has the index of its event. -/
theorem eventIndex_sublist (events : List (Except String BlockEvent)) :
    ((events.filterMap stakeOf).map StakeHit.eventIndex).Sublist
      ((events.filterMap Except.toOption).map BlockEvent.index) := by
  induction events with
  | nil => exact .slnil
  | cons x events ih =>
      cases x with
      | error e => exact ih
      | ok ev =>
          have hev : (Except.ok ev :: events).filterMap Except.toOption =
              ev :: events.filterMap fun x => x.toOption := rfl
          rw [hev, List.map_cons, List.filterMap_cons]
          cases hstake : stakeOf (.ok ev) with
          | none => exact .cons _ ih
          | some hit =>
              obtain ⟨_, ⟨⟩, hadds⟩ := stakeOf_some.mp hstake
              simp only [List.map_cons, hadds.index]
              exact .cons_cons _ ih

theorem eventIndex_eq {ds : List Deposit} (h : List.Forall₂ (b.Credits number) hits ds) :
    ds.map Deposit.eventIndex = hits.map StakeHit.eventIndex := by
  induction h with
  | nil => rfl
  | cons hcredits _ ih =>
      obtain ⟨prices, -, rfl⟩ := hcredits
      exact congrArg _ ih

theorem deposits_unique {out : BlockDeposits} (h : b.depositsInBlock number watched = .ok out) :
    (out.deposits.map fun d => (d.blockHash, d.eventIndex)).Nodup := by
  obtain ⟨-, ds, hds, rfl⟩ := depositsInBlock_ok.mp h
  have hnodup : (ds.map Deposit.eventIndex).Nodup := by
    rw [eventIndex_eq hds]
    exact (b.distinct.sublist (eventIndex_sublist b.events)).sublist (List.filter_sublist.map _)
  refine List.Nodup.of_map Prod.snd ?_
  rwa [List.map_map]

/-! ## Signed extrinsics -/

/-- The extrinsic `i` is there and signed. -/
def signed (b : AtBlock) (i : UInt32) : Bool :=
  (b.extrinsics[i.toNat]?).any fun x => x.address.isSome

/-- The stakes that are promised to be found: of those that count, the ones of signed
extrinsics. -/
def promised (b : AtBlock) (watched : Finset AccountId32) : List StakeHit :=
  (b.counted watched).filter fun hit => b.signed hit.extrinsicIndex

/-- A stake is promised to be found: its coldkey is watched, and its extrinsic is there,
signed, and has succeeded. -/
structure Promises (b : AtBlock) (watched : Finset AccountId32) (hit : StakeHit) : Prop where
  coldkey : hit.coldkey ∈ watched
  succeeds : ∃ ev, .ok ev ∈ b.events ∧ ev.Succeeds hit.extrinsicIndex
  signed : ∃ x, b.extrinsics[hit.extrinsicIndex.toNat]? = some x ∧ x.address.isSome

/-- The promised stakes that events add, in event order. -/
inductive Adds (b : AtBlock) (watched : Finset AccountId32) :
    List (Except String BlockEvent) → List StakeHit → Prop where
  | nil : Adds b watched [] []
  | stake {ev : BlockEvent} {hit : StakeHit} {events : List (Except String BlockEvent)}
      {hits : List StakeHit} :
      ev.Adds hit → b.Promises watched hit → Adds b watched events hits →
      Adds b watched (.ok ev :: events) (hit :: hits)
  | other {x : Except String BlockEvent} {events : List (Except String BlockEvent)}
      {hits : List StakeHit} :
      (∀ ev hit, x = .ok ev → ev.Adds hit → ¬ b.Promises watched hit) →
      Adds b watched events hits → Adds b watched (x :: events) hits

/-- The deposit of a stake: the data of its event, of its extrinsic and of its subnet. -/
structure IsDeposit (b : AtBlock) (number : UInt64) (hit : StakeHit) (d : Deposit) : Prop where
  blockNumber : d.blockNumber = number
  blockHash : d.blockHash = b.hash
  extrinsicIndex : d.extrinsicIndex = hit.extrinsicIndex
  eventIndex : d.eventIndex = hit.eventIndex
  coldkey : d.coldkey = hit.coldkey
  hotkey : d.hotkey = hit.hotkey
  netuid : d.netuid = hit.netuid
  alpha : d.alpha = hit.alpha
  taoValue : d.taoValue = hit.tao
  extrinsic : ∃ x, b.extrinsics[hit.extrinsicIndex.toNat]? = some x ∧ d.extrinsicHash = x.hash ∧
    d.signer = x.address.bind signerOf
  prices : b.prices hit.netuid = .ok (d.spotPrice, d.movingPrice)

/-- The extrinsic `i` is signed, and the last one of that index, as a `u32` counts, has its
hash and its signer. -/
def SignedAt (b : AtBlock) (i : UInt32) : Prop :=
  ∃ x y, b.extrinsics[i.toNat]? = some x ∧ x.address.isSome ∧ b.lastAt i = some y ∧
    y.hash = x.hash ∧ y.address.bind signerOf = x.address.bind signerOf

theorem signed_iff : b.signed i ↔ ∃ x, b.extrinsics[i.toNat]? = some x ∧ x.address.isSome :=
  Option.any_eq_true ..

theorem promises_iff : b.Promises watched hit ↔
    (hit.coldkey ∈ watched ∧ hit.extrinsicIndex ∈ b.successes) ∧ b.signed hit.extrinsicIndex := by
  have hsuccess : hit.extrinsicIndex ∈ b.successes ↔
      ∃ ev, .ok ev ∈ b.events ∧ ev.Succeeds hit.extrinsicIndex := by
    simp only [successes, List.mem_filterMap, successOf_some]
    constructor
    · rintro ⟨_, hmem, ev, rfl, hev⟩
      exact ⟨ev, hmem, hev⟩
    · rintro ⟨ev, hmem, hev⟩
      exact ⟨_, hmem, ev, rfl, hev⟩
  rw [hsuccess, signed_iff]
  exact ⟨fun h => ⟨⟨h.coldkey, h.succeeds⟩, h.signed⟩, fun ⟨⟨hc, hs⟩, hx⟩ => ⟨hc, hs, hx⟩⟩

/-- An event without a promised stake is passed over. -/
theorem adds_cons_other (h : ∀ ev hit, x = .ok ev → ev.Adds hit → ¬ b.Promises watched hit) :
    b.Adds watched (x :: events) hits ↔ b.Adds watched events hits := by
  constructor
  · intro hadds
    cases hadds with
    | stake hev hp _ => exact absurd hp (h _ _ rfl hev)
    | other _ hrest => exact hrest
  · exact .other h

/-- An event with a promised stake has that stake found. -/
theorem adds_cons_stake {ev : BlockEvent} (hev : ev.Adds hit) (hp : b.Promises watched hit) :
    b.Adds watched (.ok ev :: events) hits ↔
      ∃ rest, b.Adds watched events rest ∧ hit :: rest = hits := by
  constructor
  · intro hadds
    cases hadds with
    | stake hev' _ hrest => exact ⟨_, hrest, by rw [hev.unique hev']⟩
    | other hnone _ => exact absurd hp (hnone _ _ rfl hev)
  · rintro ⟨rest, hrest, rfl⟩
    exact .stake hev hp hrest

/-- The promised stakes are those that the filters of the scan leave, and that are signed. -/
theorem adds_iff : b.Adds watched events hits ↔
    (((events.filterMap stakeOf).filter fun hit =>
      hit.coldkey ∈ watched ∧ hit.extrinsicIndex ∈ b.successes).filter fun hit =>
        b.signed hit.extrinsicIndex) = hits := by
  simp only [List.filter_filter]
  have hpromised {hit : StakeHit} : (b.signed hit.extrinsicIndex &&
      decide (hit.coldkey ∈ watched ∧ hit.extrinsicIndex ∈ b.successes)) = true ↔
        b.Promises watched hit := by
    rw [promises_iff, Bool.and_eq_true, decide_eq_true_iff, and_comm]
  induction events generalizing hits with
  | nil =>
      constructor
      · rintro ⟨⟩
        rfl
      · rintro rfl
        exact .nil
  | cons x events ih =>
      rw [List.filterMap_cons]
      cases hstake : stakeOf x with
      | none =>
          refine (adds_cons_other fun ev hit hx hev => ?_).trans ih
          cases hstake.symm.trans (stakeOf_some.mpr ⟨ev, hx, hev⟩)
      | some hit =>
          obtain ⟨ev, rfl, hev⟩ := stakeOf_some.mp hstake
          dsimp only
          by_cases hp : b.Promises watched hit
          · rw [List.filter_cons_of_pos (by exact hpromised.mpr hp), adds_cons_stake hev hp]
            simp only [ih, exists_eq_left']
          · rw [List.filter_cons_of_neg (by exact fun h => hp (hpromised.mp h))]
            refine (adds_cons_other fun ev' hit' hx hev' => ?_).trans ih
            cases hx
            rwa [hev'.unique hev]

/-- In a block that a `u32` can count, being signed is all. -/
theorem signedAt_iff (h : b.extrinsics.length ≤ 2 ^ 32) : b.SignedAt i ↔ b.signed i := by
  rw [signed_iff, SignedAt, lastAt_eq h]
  constructor
  · rintro ⟨x, -, hx, hsome, -⟩
    exact ⟨x, hx, hsome⟩
  · rintro ⟨x, hx, hsome⟩
    exact ⟨x, x, hx, hsome, hx, rfl, rfl⟩

theorem exists_lastAt {x : ArchiveExtrinsic} (h : b.extrinsics[i.toNat]? = some x) :
    ∃ y, b.lastAt i = some y := by
  have hmem : (x, i.toNat) ∈ b.extrinsics.zipIdx.filter fun x => UInt32.ofNat x.2 = i :=
    List.mem_filter.mpr ⟨List.mem_zipIdx_iff_getElem?.mpr h, by simp⟩
  cases hlast : (b.extrinsics.zipIdx.filter fun x => UInt32.ofNat x.2 = i).getLast? with
  | none =>
      rw [List.getLast?_eq_none_iff.mp hlast] at hmem
      cases hmem
  | some y => exact ⟨y.1, by rw [lastAt, hlast]; rfl⟩

/-- The deposit that the scan makes is the promised one exactly for a signed extrinsic. -/
theorem Credits.isDeposit_iff {d : Deposit} (h : b.Credits number hit d) :
    b.signed hit.extrinsicIndex ∧ b.IsDeposit number hit d ↔ b.SignedAt hit.extrinsicIndex := by
  obtain ⟨prices, hread, rfl⟩ := h
  rw [signed_iff]
  constructor
  · rintro ⟨⟨x, hx, hsome⟩, hd⟩
    obtain ⟨y, hy⟩ := exists_lastAt hx
    obtain ⟨x', hx', hhash, hsigner⟩ := hd.extrinsic
    cases hx.symm.trans hx'
    simp only [depositOf, hashes_eq, hy] at hhash hsigner
    exact ⟨x, y, hx, hsome, hy, hhash, hsigner⟩
  · rintro ⟨x, y, hx, hsome, hy, hhash, hsigner⟩
    refine ⟨⟨x, hx, hsome⟩, rfl, rfl, rfl, rfl, rfl, rfl, rfl, rfl, rfl, ⟨x, hx, ?_, ?_⟩, hread⟩
    · simp only [depositOf, hashes_eq, hy]
      exact hhash
    · simp only [depositOf, hashes_eq, hy]
      exact hsigner

/-- What the scan of a block promises. -/
structure FindsDeposits (b : AtBlock) (number : UInt64) (watched : Finset AccountId32) : Prop where
  /-- It succeeds if what it reads is there. -/
  returns : b.Readable watched → ∃ out, b.depositsInBlock number watched = .ok out
  /-- It finds the promised deposits and no others, in event order. -/
  exactly : ∀ out, b.depositsInBlock number watched = .ok out →
    out.number = number ∧ out.blockHash = b.hash ∧ ∃ hits, b.Adds watched b.events hits ∧
      List.Forall₂ (b.IsDeposit number) hits out.deposits
  unique : ∀ out, b.depositsInBlock number watched = .ok out →
    (out.deposits.map fun d => (d.blockHash, d.eventIndex)).Nodup
  rescan : ∀ out out', b.depositsInBlock number watched = .ok out →
    b.depositsInBlock number watched = .ok out' → out = out'
  /-- To watch two sets is to watch their union. -/
  union : ∀ watched₁ watched₂, watched = watched₁ ∪ watched₂ →
    ((∃ out, b.depositsInBlock number watched = .ok out) ↔
      (∃ out, b.depositsInBlock number watched₁ = .ok out) ∧
        ∃ out, b.depositsInBlock number watched₂ = .ok out) ∧
    ∀ out out₁ out₂, b.depositsInBlock number watched = .ok out →
      b.depositsInBlock number watched₁ = .ok out₁ →
      b.depositsInBlock number watched₂ = .ok out₂ →
      ∀ d, d ∈ out.deposits ↔ d ∈ out₁.deposits ∨ d ∈ out₂.deposits

theorem findsDeposits_of_counted : b.FindsDeposits number watched ↔
    (b.Readable watched → ∀ hit ∈ b.counted watched, b.SignedAt hit.extrinsicIndex) := by
  constructor
  · intro h hreadable hit hhit
    obtain ⟨out, hout⟩ := h.returns hreadable
    obtain ⟨-, -, _, hadds, hdeposits⟩ := h.exactly out hout
    obtain rfl := adds_iff.mp hadds
    change List.Forall₂ _ (b.promised watched) _ at hdeposits
    obtain ⟨-, ds, hds, rfl⟩ := depositsInBlock_ok.mp hout
    -- as many deposits as stakes that count: all of these are promised
    have hsigned := List.length_filter_eq_length_iff.mp
      (hdeposits.length_eq.trans hds.length_eq.symm)
    have hpromised : b.promised watched = b.counted watched := List.filter_eq_self.mpr hsigned
    rw [hpromised] at hdeposits
    have hboth : List.Forall₂ (fun hit d => b.IsDeposit number hit d ∧ b.Credits number hit d)
        (b.counted watched) ds := hdeposits.mp (fun _ _ hd hc => ⟨hd, hc⟩) hds
    obtain ⟨d, -, hd, hcredits⟩ := exists_of_forall₂ hboth.flip hhit
    exact hcredits.isDeposit_iff.mp ⟨hsigned hit hhit, hd⟩
  · intro h
    refine ⟨readable_iff.mpr, fun out hout => ?_, fun out => deposits_unique,
      fun out out' hout hout' => Except.ok.inj (hout.symm.trans hout'), ?_⟩
    · have hsigned := h (readable_iff.mp ⟨out, hout⟩)
      obtain ⟨-, ds, hds, rfl⟩ := depositsInBlock_ok.mp hout
      have hdeposit {hit : StakeHit} {d : Deposit} (hmem : (hit, d) ∈ (b.counted watched).zip ds) :
          b.signed hit.extrinsicIndex ∧ b.IsDeposit number hit d :=
        (List.forall₂_zip hds hmem).isDeposit_iff.mpr (hsigned hit (List.of_mem_zip hmem).1)
      have hpromised : b.promised watched = b.counted watched :=
        List.filter_eq_self.mpr fun hit hhit => by
          obtain ⟨x, -, hx, hsome, -⟩ := hsigned hit hhit
          exact signed_iff.mpr ⟨x, hx, hsome⟩
      refine ⟨rfl, rfl, b.promised watched, adds_iff.mpr rfl, ?_⟩
      rw [hpromised]
      exact List.forall₂_iff_zip.mpr ⟨hds.length_eq, fun hmem => (hdeposit hmem).2⟩
    · rintro watched₁ watched₂ rfl
      simp only [readable_iff, readable_union]
      refine ⟨trivial, fun out out₁ out₂ hout hout₁ hout₂ d => ?_⟩
      simp only [mem_deposits hout, mem_deposits hout₁, mem_deposits hout₂, mem_counted_union,
        or_and_right, exists_or]

/-- The deposits are the promised ones exactly if every stake that counts is of a signed
extrinsic. -/
theorem findsDeposits_iff :
    (b.FindsDeposits number watched ↔
      (b.Readable watched → ∀ hit ∈ b.counted watched, b.SignedAt hit.extrinsicIndex)) ∧
    (b.extrinsics.length ≤ 2 ^ 32 → (b.FindsDeposits number watched ↔
      (b.Readable watched → ∀ hit ∈ b.counted watched, b.signed hit.extrinsicIndex))) := by
  refine ⟨findsDeposits_of_counted, fun h => ?_⟩
  simp only [findsDeposits_of_counted, signedAt_iff h]

end AtBlock

/-! ## A block with an unsigned extrinsic -/

/-- A block whose only extrinsic is unsigned, adds a stake and succeeds. -/
def unsignedBlock : AtBlock where
  hash := "#"
  events :=
    [.ok ⟨0, .applyExtrinsic 0,
        ⟨pallet, "StakeAdded", [.account 7, .account 9, .u64 20, .u64 10, .u16 1, .u64 0], ""⟩⟩,
      .ok ⟨1, .applyExtrinsic 0, ⟨"System", "ExtrinsicSuccess", [], ""⟩⟩]
  extrinsics := [{ address := none, nonce := none, hash := "0x", callData := [], events := [] }]
  spotPrice _ := .ok 2
  movingPrice _ := .ok (.composite [.i128 0])
  distinct := by decide

/-- The scan makes a deposit of that stake, with no signer. -/
theorem unsignedBlock_credits : ¬ unsignedBlock.FindsDeposits 1 {7} := by
  intro h
  obtain ⟨-, -, _, hadds, hdeposits⟩ := h.exactly _ rfl
  cases AtBlock.adds_iff.mp hadds
  cases hdeposits

end Buyback
