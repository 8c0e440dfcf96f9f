import Buyback.Resumption.Script
import Buyback.System.Processes

/-!
# Scripted runs of the processes

The player that concrete runs are checked with.  Unless a move says otherwise, the
store works, the chain answers from its blocks and balances, and every other
number is fixed.  Addresses are written in unary.
-/

namespace Buyback

open Resumption

/-- A codec to evaluate runs with: the address of `n` has `n` letters. -/
instance unarySs58 : Ss58 where
  hidden _ := false
  outOfRange := "out of range"
  encode a := String.ofList (List.replicate a.toNat 'x')
  decode s := .ok (BitVec.ofNat 256 s.length)
  decode_encode a := by simp

/-- What a move may pick. -/
inductive Reply where
  | usual
  | refuse (err : Error)
  | time (t : UInt64)
  | name (id : String)
  | stake (alpha : UInt64) (positions : List StakePosition)
  /-- A block, and the new balance of one account. -/
  | block (extrinsics : List (String × Events)) (balance : Option (AccountId32 × UInt64))

/-- The `n`-th name with a given start. -/
def numbered (start : String) (n : ℕ) : String := start ++ String.ofList (List.replicate n '\'')

/-- The store runs the operation at time zero with the next token. -/
def replyStore (w : World) (o : StoreOp) : Option (Result o.Ret × World) :=
  let token := numbered "t" w.tokens.length
  if token ∈ w.tokens then none
  else
    let y := w.store.perform ⟨0, token, fun _ _ => .error (.chain "no archive")⟩ o
    some (y.1, { w with store := y.2, tokens := token :: w.tokens })

/-- What the chain says that may be read off it. -/
def replyRead (x : Reply) (c : Finalized) : (o : ChainOp) → Option (Result o.Ret)
  | .freeBalance who => some (.ok (c.free who))
  | .account who => some (.ok (c.free who, 0))
  | .alphaOn .. =>
      match x with
      | .stake alpha positions => some (.ok (alpha, positions))
      | _ => some (.ok (0, []))
  | .alphaOf .. => some (.ok 0)
  | .estimateFee .. => some (.ok 1000)
  | .existentialDeposit => some (.ok c.existentialDeposit)
  | .alphaPrice _ => some (.ok 1000000000)
  | .stakePositionsMany coldkeys =>
      match x with
      | .stake _ positions => some (.ok (coldkeys.map fun who => (who, positions)))
      | _ => some (.ok [])
  | .prepare .. => none
  | .submitAndWatch _ => none
  | .waitForSuccess tx =>
      match Finalized.locate tx.txHash c.blocks with
      | some (hash, evs) => if Events.failed evs then none else some (.ok (hash, evs))
      | none => none
  | .findPending p =>
      if c.blocks = [] then none else some (c.findPending (c.blocks.length - 1) p)

/-- The extrinsic a preparation returns. -/
def replyTx (c : Finalized) (call : ChainCall) (signer : Keypair) : PreparedTx :=
  { call := call, signer := ss58 signer, nonce := 0, txHash := numbered "0x" c.signed.length
    birthBlock := UInt64.ofNat (c.blocks.length - 1) }

/-- The hash is of no extrinsic that is signed or included. -/
def Finalized.Unused (c : Finalized) (hash : String) : Prop :=
  (∀ tx ∈ c.signed, tx.txHash ≠ hash) ∧ ∀ b ∈ c.blocks, ∀ x ∈ b.extrinsics, x.1 ≠ hash

instance (c : Finalized) (hash : String) : Decidable (c.Unused hash) :=
  inferInstanceAs (Decidable (_ ∧ _))

/-- The chain signs and submits, or answers. -/
def replyChain (x : Reply) (c : Finalized) (o : ChainOp) : Option (Result o.Ret × Finalized) :=
  match x, o with
  | .refuse err, _ => some (.error err, c)
  | _, .prepare call signer =>
      let tx := replyTx c call signer
      if c.Unused tx.txHash then some (.ok tx, { c with signed := tx :: c.signed }) else none
  | _, .submitAndWatch tx => some (.ok (), { c with submitted := tx :: c.submitted })
  | x, o => (replyRead x c o).map fun a => (a, c)

/-- What the host says. -/
def replyHost (x : Reply) : (o : HostOp) → o.Ans
  | .now =>
      match x with
      | .time t => t
      | _ => 0
  | .newId =>
      match x with
      | .name id => id
      | _ => "job"
  | .generateWallet => .ok 3
  | .sealWith .. => .ok ⟨1, "", "", none⟩
  | .post .. => .ok ()

def reply (x : Reply) (w : World) : (o : Op) → Option (o.Ans × World)
  | .store o => replyStore w o
  | .chain o => (replyChain x w.chain o).map fun y => (y.1, { w with chain := y.2 })
  | .host o => some (replyHost x o, w)

/-- The balance may change so, if it falls only with an extrinsic of its account. -/
def Finalized.MaySpend (c : Finalized) (extrinsics : List (String × Events)) :
    Option (AccountId32 × UInt64) → Prop
  | none => True
  | some (who, free) => free < c.free who →
      ∃ tx ∈ c.signed, tx.signer = ss58 who ∧ tx.txHash ∈ extrinsics.map Prod.fst

instance (c : Finalized) (extrinsics : List (String × Events)) :
    (balance : Option (AccountId32 × UInt64)) → Decidable (c.MaySpend extrinsics balance)
  | none => inferInstanceAs (Decidable True)
  | some _ => inferInstanceAs (Decidable (_ → _))

/-- The block may come next. -/
def Finalized.MayAppend (c : Finalized) (extrinsics : List (String × Events))
    (balance : Option (AccountId32 × UInt64)) : Prop :=
  (extrinsics.map Prod.fst).Nodup ∧
    (∀ tx ∈ c.signed, ∀ x ∈ extrinsics, tx.txHash = x.1 →
      tx ∈ c.submitted ∧ tx.birthBlock.toNat ≤ c.blocks.length ∧
        c.blocks.length ≤ tx.birthBlock.toNat + mortality.toNat ∧
        ∀ b ∈ c.blocks, ∀ y ∈ b.extrinsics, y.1 ≠ tx.txHash) ∧
    c.MaySpend extrinsics balance

instance (c : Finalized) (extrinsics : List (String × Events))
    (balance : Option (AccountId32 × UInt64)) : Decidable (c.MayAppend extrinsics balance) :=
  inferInstanceAs (Decidable (_ ∧ _ ∧ _))

/-- The balances with one of them changed. -/
def Finalized.withBalance (c : Finalized) :
    Option (AccountId32 × UInt64) → AccountId32 → UInt64
  | some (who, free), a => if a = who then free else c.free a
  | none, a => c.free a

/-- Another block, with a hash of its own. -/
def nextBlock (x : Reply) (w : World) : Option World :=
  match x with
  | .block extrinsics balance =>
      if w.chain.MayAppend extrinsics balance then
        let b : Block :=
          { hash := "#" ++ String.ofList (List.replicate w.chain.blocks.length '\'')
            hash_ne := by simp
            extrinsics := extrinsics }
        some { w with chain := w.chain.append b (w.chain.withBalance balance) }
      else none
  | _ => none

/-! ## The player plays by the rules -/

theorem Finalized.Unused.absent {c : Finalized} {hash : String} (h : c.Unused hash)
    (evs : Events) : ¬ c.Included hash evs := by
  rintro ⟨b, hb, hmem⟩
  exact h.2 b hb _ hmem rfl

theorem replyRead_answers {x : Reply} {c : Finalized} {o : ChainOp} {a : Result o.Ret}
    (h : replyRead x c o = some a) : c.Answers o a := by
  cases o with
  | freeBalance who => cases h; exact rfl
  | existentialDeposit => cases h; exact rfl
  | waitForSuccess tx =>
      simp only [replyRead] at h
      split at h
      next hash evs hl =>
        split_ifs at h with hfailed
        cases h
        obtain ⟨b, hb, hhash, hmem⟩ := Finalized.locate_some hl
        exact ⟨by simpa using hfailed, b, hb, hhash, hmem⟩
      next => cases h
  | findPending p =>
      simp only [replyRead] at h
      split_ifs at h with hblocks
      obtain heq := Option.some.inj h
      cases a with
      | error e => trivial
      | ok outcome =>
          exact ⟨_, Nat.sub_lt (List.length_pos_of_ne_nil hblocks) Nat.one_pos, heq⟩
  | prepare call signer => cases h
  | submitAndWatch tx => cases h
  | alphaOn who netuid =>
      cases a with
      | error e => trivial
      | ok y => trivial
  | stakePositionsMany coldkeys =>
      cases a with
      | error e => trivial
      | ok y => trivial
  | _ => cases h; trivial

theorem replyChain_serves {x : Reply} {c c' : Finalized} {o : ChainOp} {a : Result o.Ret}
    (h : replyChain x c o = some (a, c')) : c.Serves o a c' := by
  unfold replyChain at h
  split at h
  next err _ => cases h; exact .read trivial
  next call signer _ =>
    dsimp only at h
    split_ifs at h with hunused
    cases h
    exact .prepare ⟨rfl, hunused.1, hunused.absent⟩
  next tx _ => cases h; exact .submit
  next =>
    obtain ⟨a', ha, heq⟩ := Option.map_eq_some_iff.mp h
    cases heq
    exact .read (replyRead_answers ha)

theorem reply_serves {set : Setting} {x : Reply} {w w' : World} {o : Op} {a : o.Ans}
    (h : reply x w o = some (a, w')) : Serves set w o a w' := by
  cases o with
  | store o =>
      simp only [reply, replyStore] at h
      split_ifs at h with hfresh
      cases h
      exact .store ⟨0, numbered "t" w.tokens.length, _⟩ hfresh
  | chain o =>
      obtain ⟨⟨a', c'⟩, hc, heq⟩ := Option.map_eq_some_iff.mp h
      cases heq
      exact .chain (replyChain_serves hc)
  | host o => cases h; exact .host

theorem nextBlock_finalizes {set : Setting} {x : Reply} {w w' : World}
    (h : nextBlock x w = some w') : Finalizes set w w' := by
  unfold nextBlock at h
  split at h
  next extrinsics balance =>
    split_ifs at h with hmay
    cases h
    obtain ⟨hnodup, hincluded, hspends⟩ := hmay
    have hin {tx : PreparedTx} (htx : tx ∈ w.chain.signed) {evs : Events}
        (hmem : (tx.txHash, evs) ∈ extrinsics) := hincluded tx htx _ hmem rfl
    refine .block ⟨fun tx htx evs hmem => (hin htx hmem).1, fun tx htx evs hmem => ?_,
      fun tx htx evs hmem => ⟨?_, fun evs' hmem' => ?_⟩, fun a _ hlt => ?_⟩
    · obtain ⟨-, hbirth, hwindow, -⟩ := hin htx hmem
      exact ⟨hbirth, Nat.not_lt.mpr hwindow⟩
    · rintro evs' ⟨b, hb, hmem'⟩
      exact (hin htx hmem).2.2.2 b hb _ hmem' rfl
    · have heq := List.inj_on_of_nodup_map hnodup hmem' hmem rfl
      exact congrArg Prod.snd heq
    · cases balance with
      | none => exact absurd hlt (UInt64.lt_irrefl _)
      | some y =>
          simp only [Finalized.withBalance] at hlt
          split_ifs at hlt with ha
          · obtain ⟨tx, htx, hsigner, hmem⟩ := hspends (ha ▸ hlt)
            obtain ⟨⟨_, evs⟩, hmem, rfl⟩ := List.mem_map.mp hmem
            exact ⟨tx, htx, ha ▸ hsigner, evs, hmem⟩
          · exact absurd hlt (UInt64.lt_irrefl _)
  next => cases h

/-- The player of the processes. -/
def player (set : Setting) : Player (processes set) where
  Choice := Reply
  answer := reply
  change := nextBlock
  answer_serve := reply_serves
  change_env := nextBlock_finalizes

/-- A process starts. -/
def start {set : Setting} (e : Entry) : Move (player set) := .spawn e

/-- A process makes one request, with the given reply. -/
def serve {set : Setting} (i : ℕ) (x : Reply) : Move (player set) := .serve i x

/-- A process makes a number of requests, with the usual replies. -/
def serves {set : Setting} (i n : ℕ) : List (Move (player set)) :=
  List.replicate n (.serve i Reply.usual)

/-- A block is finalized. -/
def finalize {set : Setting} (extrinsics : List (String × Events))
    (balance : Option (AccountId32 × UInt64)) : Move (player set) :=
  .change (Reply.block extrinsics balance)

/-! ## A small world to play in -/

/-- An engine for the treasury `2`, whose jobs have the wallet `3`. -/
def sampleEngine (budget : Option BuybackBudget) : Engine where
  cfg :=
    { netuid := 1, minAlpha := 10, minTao := none, expirySecs := 100, treasuryHotkey := 9
      sweepDust := 0, consolidate := false, returnDust := false, feeMarginBps := 0
      feeReserve := 1000, slippageBps := 0, auto := .off, buybackBudget := budget
      maxAttempts := 3, webhookUrl := none }
  treasury := 2
  genesisHash := "genesis"
  seed := some fun _ => .ok 3
  unsealWith _ _ := .ok 3
  webhook := false

/-- Nothing is stored, and only the treasury has a balance. -/
def sampleWorld : World where
  store := .empty
  chain :=
    { blocks := [⟨"#", by decide, []⟩], signed := [], submitted := []
      free := fun a => if a = 2 then 10000000 else 0, existentialDeposit := 500 }
  tokens := []

theorem sampleWorld_fresh : sampleWorld.Fresh := ⟨rfl, rfl, rfl⟩

/-- No faults and no crashes, a truthful chain, and nobody else spends from any account. -/
def calm : Setting := ⟨False, False, True, fun _ => True⟩

/-- A script from the small world. -/
def playSample (ms : List (Move (player calm))) : Option (Resumption.Config (processes calm)) :=
  Config.play (player calm) ⟨sampleWorld, [], []⟩ ms

/-- A script whose end passes a test. -/
theorem playSample_any {ms : List (Move (player calm))}
    {test : Resumption.Config (processes calm) → Bool} (h : (playSample ms).any test = true) :
    ∃ c, Resumption.Reachable (processes calm) c ∧ test c = true := by
  obtain ⟨c, hplay, htest⟩ := Config.play_any h
  exact ⟨c, Resumption.Reachable.play sampleWorld_fresh hplay, htest⟩

/-- Every process has ended. -/
def allEnded {set : Setting} (c : Resumption.Config (processes set)) : Bool :=
  c.procs.all fun x =>
    match x.2 with
    | some (.done _) => true
    | _ => false

theorem ended_of_allEnded {set : Setting} {c : Resumption.Config (processes set)}
    (h : allEnded c = true) : ∀ x ∈ c.procs, ∃ y, x.2 = some (.done y) := by
  intro x hx
  have hx := List.all_eq_true.mp h x hx
  split at hx
  next y hy => exact ⟨y, hy⟩
  next => cases hx

/-- The position of the sample jobs, whose transfer costs a fee. -/
def samplePositions : List StakePosition := [⟨7, 1, 10000000000⟩]

/-- A sweep job is created.  It is the first process, and waits for its fees. -/
def sampleJob : List (Move (player calm)) :=
  start (.createSweepJob (sampleEngine none) "job" "path" "xxx" none) :: serves 0 4

/-- A tick of the process `i` reserves the treasury for the fees of the job. -/
def sampleTick (i : ℕ) : List (Move (player calm)) :=
  start (.tick (sampleEngine none)) :: serves i 2 ++
    serve i (.stake 10000000000 samplePositions) :: serves i 5

/-- The events of the transfer of the fees. -/
def samplePaid : Events := [.ok ⟨"Balances", "Transfer", [.account 2, .account 3, .u64 1500], ""⟩]

/-- The fees of the job are journaled, sent and finalized, and the job is funded. -/
def sampleFunded : List (Move (player calm)) :=
  sampleJob ++ sampleTick 1 ++ serves 1 3 ++
    finalize [("0x", samplePaid)] (some (2, 9000000)) :: serves 1 2

/-- A budget of more than half of what the treasury has, to be burned. -/
def sampleBudget : BuybackBudget :=
  { amountRao := 6000000, currency := "TAO", source := "desk", netuid := 1, destroy := .burn
    hotkey := "x" }

/-- A tick of an engine with a budget, up to its `n`-th request. -/
def budgetTick (i n : ℕ) : List (Move (player calm)) :=
  start (.tick (sampleEngine (some sampleBudget))) :: serves i n

/-- A job with a budget is created, and has nothing to fund or to sweep. -/
def sampleSwept : List (Move (player calm)) :=
  start (.createSweepJob (sampleEngine (some sampleBudget)) "job" "path" "xxx" none) ::
    serves 0 4 ++ budgetTick 1 20 ++ budgetTick 2 20

/-- The events of a purchase for the whole budget. -/
def sampleBought : Events :=
  [.ok ⟨pallet, "StakeAdded", [.account 2, .account 1, .u64 6000000, .u64 500, .u16 1, .u64 0], ""⟩]

end Buyback
