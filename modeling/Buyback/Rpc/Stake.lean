import Buyback.Source.Stake
import Buyback.System.Script

/-!
# Stake of the payments of a tick

A tick reads the stake of all its pending payments at once, in chunks of 64 coldkeys, and
later steps read one coldkey at a time.  Both see the same alpha, as long as the node
answers for the coldkeys it was asked for and as it answers for each of them.
-/

namespace Buyback

theorem flatten_chunks {α : Type} (size : ℕ) (l : List α) : (chunks size l).flatten = l := by
  induction l using chunks.induct size with
  | case1 => rw [chunks, List.flatten_nil]
  | case2 x xs ih => rw [chunks, List.flatten_cons, ih, List.cons_append, List.take_append_drop]

theorem Positions.lookup_remove {out : Positions} {coldkey who : AccountId32}
    (hwho : who ≠ coldkey) :
    (out.filter fun p => p.1 ≠ coldkey).lookup who = out.lookup who := by
  induction out with
  | nil => rfl
  | cons p out ih =>
      by_cases hp : p.1 = coldkey
      · rw [List.filter_cons_of_neg (by simpa using hp), ih, List.lookup_cons, hp,
          beq_false_of_ne hwho]
      · rw [List.filter_cons_of_pos (by simpa using hp), List.lookup_cons, List.lookup_cons, ih]

/-- Insertion in a `BTreeMap` decides one key. -/
theorem Positions.lookup_insert (out : Positions) (coldkey who : AccountId32)
    (positions : List StakePosition) :
    (out.insert coldkey positions).lookup who =
      if who = coldkey then some positions else out.lookup who := by
  rw [Positions.insert, List.lookup_cons]
  split_ifs with hwho
  · rw [hwho, beq_self_eq_true]
  · rw [beq_false_of_ne hwho, Positions.lookup_remove hwho]

namespace StakeInfoApi

/-- The answer for many coldkeys is for each of them and nobody else, and the one that each
of them has alone. -/
structure Consistent (api : StakeInfoApi) : Prop where
  asked : ∀ chunk answer, api.forColdkeys chunk = .ok answer →
    ∀ who, who ∈ answer.map Prod.fst ↔ who ∈ chunk
  alone : ∀ chunk answer, api.forColdkeys chunk = .ok answer →
    ∀ p ∈ answer, api.forColdkey p.1 = .ok p.2

/-- The positions of the coldkeys in `read`, as each has them alone. -/
structure Reads (api : StakeInfoApi) (read : List AccountId32) (out : Positions) : Prop where
  asked : ∀ who, (out.lookup who).isSome ↔ who ∈ read
  alone : ∀ who positions, out.lookup who = some positions →
    api.stakePositions who = .ok positions

variable {api : StakeInfoApi} {read coldkeys : List AccountId32} {out out' : Positions}
  {who : AccountId32}

theorem stakePositions_ok {raw : List RawStakeInfo} (h : api.forColdkey who = .ok raw) :
    api.stakePositions who = .ok (stakePositionsOf raw) := by
  rw [stakePositions, h]
  rfl

theorem Reads.nil : api.Reads [] [] where
  asked who := by simp
  alone who positions h := by cases h

theorem Reads.insert {raw : List RawStakeInfo} (h : api.Reads read out)
    (hraw : api.forColdkey who = .ok raw) :
    api.Reads (read ++ [who]) (out.insert who (stakePositionsOf raw)) where
  asked ck := by
    rw [Positions.lookup_insert]
    split
    next heq => simp [heq]
    next hne => simp [h.asked, hne]
  alone ck positions hlookup := by
    rw [Positions.lookup_insert] at hlookup
    split at hlookup
    next heq =>
      cases hlookup
      exact heq ▸ stakePositions_ok hraw
    next => exact h.alone ck positions hlookup

/-- One answer of the node. -/
theorem Reads.fold (answer : List (AccountId32 × List RawStakeInfo))
    (hanswer : ∀ p ∈ answer, api.forColdkey p.1 = .ok p.2) (h : api.Reads read out) :
    api.Reads (read ++ answer.map Prod.fst)
      (answer.foldl (fun out p => out.insert p.1 (stakePositionsOf p.2)) out) := by
  induction answer generalizing read out with
  | nil => simpa using h
  | cons p answer ih =>
      obtain ⟨hp, hrest⟩ := List.forall_mem_cons.mp hanswer
      have := ih hrest (h.insert hp)
      rwa [List.append_assoc] at this

theorem Reads.congr {read' : List AccountId32} (h : api.Reads read out)
    (hmem : ∀ who, who ∈ read ↔ who ∈ read') : api.Reads read' out where
  asked who := (h.asked who).trans (hmem who)
  alone := h.alone

/-- The loop over the chunks. -/
theorem readChunks_reads (hnode : api.Consistent) {cs : List (List AccountId32)}
    (h : api.readChunks cs out = .ok out') (hout : api.Reads read out) :
    api.Reads (read ++ cs.flatten) out' := by
  induction cs generalizing read out with
  | nil =>
      cases h
      simpa using hout
  | cons chunk cs ih =>
      obtain ⟨answer, hanswer, hrest⟩ := Result.bind_eq_ok.mp h
      have hstep : api.Reads (read ++ chunk) _ :=
        (hout.fold answer (hnode.alone chunk answer hanswer)).congr fun who => by
          rw [List.mem_append, List.mem_append, hnode.asked chunk answer hanswer]
      simpa using ih hrest hstep

theorem stakePositionsMany_reads (hnode : api.Consistent)
    (h : api.stakePositionsMany coldkeys = .ok out) : api.Reads coldkeys out := by
  have := readChunks_reads hnode h Reads.nil
  rwa [flatten_chunks] at this

/-- The alpha a tick sees is the one a step reads. -/
theorem Reads.alphaOn (h : api.Reads read out) (hwho : who ∈ read) (netuid : UInt16) :
    ∃ positions, api.alphaOn who netuid = .ok (out.alphaOf who netuid, positions) := by
  obtain ⟨positions, hlookup⟩ := Option.isSome_iff_exists.mp ((h.asked who).mpr hwho)
  refine ⟨positions.filter fun p => p.netuid == netuid, ?_⟩
  rw [StakeInfoApi.alphaOn, h.alone who positions hlookup, Positions.alphaOf, hlookup]
  rfl

/-- The alpha of one hotkey is the one in the positions on its subnet. -/
theorem alphaOf_of_alphaOn {hotkey : AccountId32} {netuid : UInt16} {alpha : UInt64}
    {positions : List StakePosition} (h : api.alphaOn who netuid = .ok (alpha, positions)) :
    api.alphaOf hotkey who netuid =
      .ok (totalAlpha (positions.filter fun p => p.hotkey == hotkey)) := by
  obtain ⟨all, hall, heq⟩ := Result.bind_eq_ok.mp h
  cases heq
  rw [StakeInfoApi.alphaOf, hall, List.filter_filter]
  simp only [Bool.and_comm]
  rfl

end StakeInfoApi

/-! ## A tick -/

theorem Result.toOption_eq_some {α : Type} {x : Result α} {a : α} :
    x.toOption = some a ↔ x = .ok a := by
  cases x <;> simp [Except.toOption]

section

variable [Ss58]

/-- The coldkeys a tick asks for. -/
theorem Engine.mem_watched {recs : List PaymentRecord} {who : AccountId32} :
    who ∈ Engine.watched recs ↔
      ∃ r ∈ recs, r.state = .pending ∧ r.pending = none ∧ parseSs58 r.address = .ok who := by
  simp only [Engine.watched, List.mem_filterMap, List.mem_filter, Bool.and_eq_true, beq_iff_eq,
    Option.isNone_iff_eq_none, Result.toOption_eq_some, and_assoc]

/-- The stake a tick reads for its pending payments is, for each of them, the one the node
answers for its wallet alone, and nobody else's is read. -/
theorem watched_read {api : StakeInfoApi} {recs : List PaymentRecord} {out : Positions}
    (hnode : api.Consistent) (h : api.stakePositionsMany (Engine.watched recs) = .ok out) :
    (∀ r ∈ recs, r.state = .pending → r.pending = none →
      ∀ who, parseSs58 r.address = .ok who →
        ∃ positions, api.alphaOn who r.netuid = .ok (out.alphaOf who r.netuid, positions) ∧
          ∀ hotkey, api.alphaOf hotkey who r.netuid =
            .ok (totalAlpha (positions.filter fun p => p.hotkey == hotkey))) ∧
    ∀ who, (out.lookup who).isSome →
      ∃ r ∈ recs, r.state = .pending ∧ r.pending = none ∧ parseSs58 r.address = .ok who := by
  have hreads := StakeInfoApi.stakePositionsMany_reads hnode h
  constructor
  · intro r hr hstate hpending who hwho
    have hmem : who ∈ Engine.watched recs :=
      Engine.mem_watched.mpr ⟨r, hr, hstate, hpending, hwho⟩
    obtain ⟨positions, halpha⟩ := hreads.alphaOn hmem r.netuid
    exact ⟨positions, halpha, fun hotkey => StakeInfoApi.alphaOf_of_alphaOn halpha⟩
  · intro who hsome
    exact Engine.mem_watched.mp ((hreads.asked who).mp hsome)

end

/-! ## A node that answers -/

/-- The node at a block with this stake. -/
def StakeInfoApi.ofStake (stake : AccountId32 → List RawStakeInfo) : StakeInfoApi where
  forColdkey who := .ok (stake who)
  forColdkeys chunk := .ok (chunk.map fun who => (who, stake who))

theorem StakeInfoApi.ofStake_consistent (stake : AccountId32 → List RawStakeInfo) :
    (StakeInfoApi.ofStake stake).Consistent where
  asked chunk answer h who := by
    cases h
    simp
  alone chunk answer h p hp := by
    cases h
    obtain ⟨who, -, rfl⟩ := List.mem_map.mp hp
    rfl

/-- Two wallets, one of them with stake on two subnets and a position that is empty. -/
def sampleStake : StakeInfoApi :=
  .ofStake fun who => if who = 3 then [⟨7, 1, 2000⟩, ⟨8, 1, 0⟩, ⟨7, 2, 5⟩] else []

def samplePending (address : String) : PaymentRecord :=
  (sampleEngine none).paymentRecord {} address address ⟨1, "", "", none⟩ 0

theorem sampleStake_many : sampleStake.stakePositionsMany
    (Engine.watched [samplePending "xxx", samplePending "xxxxx"]) =
      .ok [(5, []), (3, [⟨7, 1, 2000⟩, ⟨7, 2, 5⟩])] := by
  have hwatched : Engine.watched [samplePending "xxx", samplePending "xxxxx"] = [3, 5] := rfl
  have hchunks : chunks 64 ([3, 5] : List AccountId32) = [[3, 5]] := by simp [chunks]
  rw [hwatched, StakeInfoApi.stakePositionsMany, hchunks]
  rfl

theorem sampleStake_read : ∃ out, sampleStake.stakePositionsMany
      (Engine.watched [samplePending "xxx", samplePending "xxxxx"]) = .ok out ∧
    (∃ positions, sampleStake.alphaOn 3 1 = .ok (out.alphaOf 3 1, positions)) ∧
    out.alphaOf 3 1 = 2000 := by
  have hread := watched_read (StakeInfoApi.ofStake_consistent _) sampleStake_many
  obtain ⟨positions, halpha, -⟩ := hread.1 (samplePending "xxx") (by simp) rfl rfl 3 rfl
  exact ⟨_, sampleStake_many, ⟨positions, halpha⟩, rfl⟩

end Buyback
