import Buyback.Source.Requests

/-!
# The finalized chain

What the engine relies on about the chain.  Blocks are only appended.  An
extrinsic a key of the engine signed is included only if it was submitted, at
most once, and only in the blocks from its birth to its mortality.  `findPending`
is the scan of `chain.rs` over the finalized blocks below some finalized head.

`signed` and `submitted` are what the chain cannot know but its rules speak of.
-/

namespace Buyback

/-- The events of one extrinsic, as the decoder reads them. -/
abbrev Events : Type := List (Except String RuntimeEvent)

/-- Whether the dispatch of the extrinsic failed. -/
def Events.failed (evs : Events) : Bool :=
  evs.any fun
    | .ok ev => ev.palletName == "System" && ev.eventName == "ExtrinsicFailed"
    | .error _ => false

/-- Only `System.ExtrinsicFailed` sets the flag of a summary. -/
theorem EventSummary.readFields_failed {s s' : EventSummary} {ev : RuntimeEvent}
    (h : s.readFields ev = .ok s') :
    s'.failed = (s.failed || (ev.palletName == "System" && ev.eventName == "ExtrinsicFailed")) := by
  unfold EventSummary.readFields at h
  split at h
  next hname => cases h; simp [hname]
  next hname =>
    have hoff : (ev.palletName == "System" && ev.eventName == "ExtrinsicFailed") = false := by
      simpa using hname
    rw [hoff, Bool.or_false]
    split_ifs at h <;> first
      | (cases h; rfl)
      | (split at h <;> cases h; rfl)

theorem EventSummary.addEvents_failed {evs : Events} {s s' : EventSummary}
    (h : s.addEvents evs = .ok s') : s'.failed = (s.failed || Events.failed evs) := by
  induction evs generalizing s with
  | nil => cases h; simp [Events.failed]
  | cons x evs ih =>
      cases x with
      | error e => cases h
      | ok ev =>
          simp only [EventSummary.addEvents] at h
          split at h
          next => cases h
          next s₁ h₁ =>
            rw [ih h, EventSummary.readFields_failed h₁, Events.failed, Events.failed,
              List.any_cons, Bool.or_assoc]

/-- A summary is failed exactly if the dispatch was. -/
theorem EventSummary.fromEvents_failed {evs : Events} {s : EventSummary}
    (h : EventSummary.fromEvents evs = .ok s) : s.failed = Events.failed evs := by
  simpa using EventSummary.addEvents_failed h

/-- A finalized block: its hash and its extrinsics, by hash, with their events. -/
structure Block where
  hash : String
  hash_ne : hash ≠ ""
  extrinsics : List (String × Events)

/-- The finalized chain with the free balances at its head. -/
structure Finalized where
  /-- The blocks.  A block's number is its position. -/
  blocks : List Block
  /-- What the engines' keys signed. -/
  signed : List PreparedTx
  /-- What was handed to the network. -/
  submitted : List PreparedTx
  free : AccountId32 → UInt64
  existentialDeposit : UInt64

namespace Finalized

/-- The extrinsic `hash` is in a finalized block with the events `evs`. -/
def Included (c : Finalized) (hash : String) (evs : Events) : Prop :=
  ∃ b ∈ c.blocks, (hash, evs) ∈ b.extrinsics

/-- No block that may still include a transaction of this birth is missing. -/
def PastMortality (c : Finalized) (birth : UInt64) : Prop :=
  birth.toNat + mortality.toNat < c.blocks.length

/-- The first block among `bs` that holds the extrinsic `hash`. -/
def locate (hash : String) (bs : List Block) : Option (String × Events) :=
  bs.findSome? fun b => (b.extrinsics.find? fun x => x.1 == hash).map fun x => (b.hash, x.2)

/-- `find_pending`, for the head it read. -/
def findPending (c : Finalized) (head : ℕ) (p : PendingTx) : Result PendingOutcome :=
  let horizon := p.birthBlock.toNat + mortality.toNat + 1
  if 2 ^ 64 ≤ horizon then .error (.chain "transaction mortality overflow")
  else
    match locate p.txHash ((c.blocks.take (min head horizon + 1)).drop p.birthBlock.toNat) with
    | some (hash, evs) =>
        match EventSummary.fromEvents evs with
        | .error e => .error e
        | .ok summary => .ok (.included hash summary)
    | none => .ok (if horizon < head then .dead else .wait)

theorem locate_some {hash blockHash : String} {evs : Events} {bs : List Block}
    (h : locate hash bs = some (blockHash, evs)) :
    ∃ b ∈ bs, b.hash = blockHash ∧ (hash, evs) ∈ b.extrinsics := by
  obtain ⟨b, hb, hfound⟩ := List.exists_of_findSome?_eq_some h
  obtain ⟨x, hx, heq⟩ := Option.map_eq_some_iff.mp hfound
  cases heq
  have hhash : x.1 = hash := by simpa using List.find?_some hx
  exact ⟨b, hb, rfl, hhash ▸ List.mem_of_find?_eq_some hx⟩

theorem locate_none {hash : String} {bs : List Block} (h : locate hash bs = none) :
    ∀ b ∈ bs, ∀ evs, (hash, evs) ∉ b.extrinsics := by
  intro b hb evs hmem
  have := List.findSome?_eq_none_iff.mp h b hb
  rw [Option.map_eq_none_iff, List.find?_eq_none] at this
  exact this _ hmem (by simp)

/-- An extrinsic that is found is in the block it is found in. -/
theorem findPending_included {c : Finalized} {head : ℕ} {p : PendingTx} {blockHash : String}
    {s : EventSummary} (h : c.findPending head p = .ok (.included blockHash s)) :
    ∃ b ∈ c.blocks, b.hash = blockHash ∧
      ∃ evs, (p.txHash, evs) ∈ b.extrinsics ∧ EventSummary.fromEvents evs = .ok s := by
  simp only [findPending] at h
  split at h
  next => cases h
  next =>
    split at h
    next hash evs hl =>
      split at h
      next => cases h
      next summary hs =>
        cases h
        obtain ⟨b, hb, hbh, hmem⟩ := locate_some hl
        exact ⟨b, List.mem_of_mem_take (List.mem_of_mem_drop hb), hbh, evs, hmem, hs⟩
    next => split at h <;> cases h

/-- An extrinsic is only declared dead if its window is over and no block of the
window holds it. -/
theorem findPending_dead {c : Finalized} {head : ℕ} {p : PendingTx}
    (hhead : head < c.blocks.length) (h : c.findPending head p = .ok .dead) :
    c.PastMortality p.birthBlock ∧
      ∀ n b, p.birthBlock.toNat ≤ n → n ≤ p.birthBlock.toNat + mortality.toNat →
        c.blocks[n]? = some b → ∀ evs, (p.txHash, evs) ∉ b.extrinsics := by
  simp only [findPending] at h
  split at h
  next => cases h
  next =>
    split at h
    next => split at h <;> cases h
    next hl =>
      split at h
      next hlt =>
        refine ⟨by unfold PastMortality; omega, fun n b hbirth hn hb => locate_none hl b ?_⟩
        refine List.mem_iff_getElem?.mpr ⟨n - p.birthBlock.toNat, ?_⟩
        rw [List.getElem?_drop, Nat.add_sub_cancel' hbirth, List.getElem?_take_of_lt (by omega), hb]
      next => cases h

/-- A block the chain may finalize next, with the balances after it.  The balance
of an account in `own` falls only with an extrinsic its key signed. -/
structure Appends (own : AccountId32 → Prop) [Ss58] (c : Finalized) (b : Block)
    (free : AccountId32 → UInt64) : Prop where
  submitted : ∀ tx ∈ c.signed, ∀ evs, (tx.txHash, evs) ∈ b.extrinsics → tx ∈ c.submitted
  window : ∀ tx ∈ c.signed, ∀ evs, (tx.txHash, evs) ∈ b.extrinsics →
    tx.birthBlock.toNat ≤ c.blocks.length ∧ ¬ c.PastMortality tx.birthBlock
  once : ∀ tx ∈ c.signed, ∀ evs, (tx.txHash, evs) ∈ b.extrinsics →
    (∀ evs', ¬ c.Included tx.txHash evs') ∧
      ∀ evs', (tx.txHash, evs') ∈ b.extrinsics → evs' = evs
  spends : ∀ a, own a → free a < c.free a →
    ∃ tx ∈ c.signed, tx.signer = ss58 a ∧ ∃ evs, (tx.txHash, evs) ∈ b.extrinsics

/-- The chain after one more block. -/
def append (c : Finalized) (b : Block) (free : AccountId32 → UInt64) : Finalized :=
  { c with blocks := c.blocks ++ [b], free := free }

/-- The answers to the calls that change nothing.  Any call may fail.  A balance
is the one at the finalized head, a success is of a block of the chain, and
`find_pending` has read some finalized head. -/
def Answers (c : Finalized) : (o : ChainOp) → Result o.Ret → Prop
  | _, .error _ => True
  | .freeBalance who, .ok free => free = c.free who
  | .existentialDeposit, .ok ed => ed = c.existentialDeposit
  | .waitForSuccess tx, .ok (hash, evs) =>
      Events.failed evs = false ∧ ∃ b ∈ c.blocks, b.hash = hash ∧ (tx.txHash, evs) ∈ b.extrinsics
  | .findPending p, .ok outcome =>
      ∃ head, head < c.blocks.length ∧ c.findPending head p = .ok outcome
  | .prepare .., .ok _ => False
  | .submitAndWatch _, .ok _ => False
  | _, .ok _ => True

/-- Signing a call: the bytes, and so the hash, are new. -/
structure Signs (c : Finalized) (call : ChainCall) (tx : PreparedTx) : Prop where
  call_eq : tx.call = call
  fresh : ∀ tx' ∈ c.signed, tx'.txHash ≠ tx.txHash
  absent : ∀ evs, ¬ c.Included tx.txHash evs

/-- Serving a call of the chain. -/
inductive Serves : Finalized → (o : ChainOp) → Result o.Ret → Finalized → Prop where
  | read {c : Finalized} {o : ChainOp} {a : Result o.Ret} : c.Answers o a → Serves c o a c
  | prepare {c : Finalized} {call : ChainCall} {signer : Keypair} {tx : PreparedTx} :
      c.Signs call tx →
      Serves c (.prepare call signer) (.ok tx) { c with signed := tx :: c.signed }
  /-- The reply to a submission may be lost. -/
  | submit {c : Finalized} {tx : PreparedTx} {a : Result Unit} :
      Serves c (.submitAndWatch tx) a { c with submitted := tx :: c.submitted }

/-- What the engine relies on in the answers: a block hash is not empty, and only
a success is reported as one. -/
theorem Answers.waitForSuccess {c : Finalized} {tx : PreparedTx} {x : String × Events}
    (h : c.Answers (.waitForSuccess tx) (.ok x)) : x.1 ≠ "" ∧ Events.failed x.2 = false := by
  obtain ⟨hok, b, -, hb, -⟩ := h
  exact ⟨hb ▸ b.hash_ne, hok⟩

theorem Answers.findPending {c : Finalized} {p : PendingTx} {blockHash : String}
    {s : EventSummary} (h : c.Answers (.findPending p) (.ok (.included blockHash s))) :
    blockHash ≠ "" := by
  obtain ⟨head, -, hfind⟩ := h
  obtain ⟨b, -, hb, -⟩ := findPending_included hfind
  exact hb ▸ b.hash_ne

end Finalized

end Buyback
