import Buyback.Source.Recovery

/-!
# The archive scan

`verify_legacy_archive` of `chain.rs`: the scan of the finalized blocks that an
explicit recovery rests on.  The archive is what the trusted node answers: its
blocks, the nonces of the accounts, and the encoding of a call by the metadata of
a block.
-/

namespace Buyback

/-! ## Answers of the node -/

/-- An answer of the node, whose text becomes an error of this crate. -/
def chainErr {α : Type} (x : Except String α) : Result α :=
  match x with
  | .ok a => .ok a
  | .error e => .error (.chain e)

@[simp] theorem chainErr_ok {α : Type} {x : Except String α} {a : α} :
    chainErr x = .ok a ↔ x = .ok a := by
  cases x <;> simp [chainErr]

/-- `u64::checked_add` of one. -/
def checkedSucc (n : UInt64) : Option UInt64 := if n.toNat + 1 < 2 ^ 64 then some (n + 1) else none

theorem checkedSucc_some {n n' : UInt64} :
    checkedSucc n = some n' ↔ n.toNat + 1 < 2 ^ 64 ∧ n + 1 = n' := by
  rw [checkedSucc, Option.ite_none_right_eq_some, Option.some.injEq]

/-- The account of 32 bytes. -/
def accountOfBytes (bytes : List UInt8) : AccountId32 :=
  BitVec.ofNat 256 (bytes.foldl (fun n b => n * 256 + b.toNat) 0)

/-- The signer of an extrinsic from its `MultiAddress` bytes, of the variant `Id` only. -/
def signerOf : List UInt8 → Option AccountId32
  | 0 :: rest => if rest.length = 32 then some (accountOfBytes rest) else none
  | _ => none

/-! ## The archive -/

/-- A finalized extrinsic, as the archive has it.  An unsigned one has no address. -/
structure ArchiveExtrinsic where
  address : Option (List UInt8)
  nonce : Option UInt64
  hash : String
  callData : List UInt8
  events : List (Except String RuntimeEvent)

/-- A finalized block with its extrinsics in order. -/
structure ArchiveBlock where
  hash : String
  extrinsics : List ArchiveExtrinsic

/-- What a trusted archive node answers. -/
structure Archive where
  genesisHash : String
  /-- The finalized blocks, each at the position of its number. -/
  blocks : List ArchiveBlock
  /-- The number and the hash of the finalized head. -/
  finalizedHead : UInt64 × String
  /-- The nonce of an account at a block, if the account is there. -/
  nonces : ℕ → AccountId32 → Option UInt32
  /-- The bytes of a call by the metadata of a block. -/
  callData : ℕ → ChainCall → Except String (List UInt8)
  /-- What the node says of a block it does not have. -/
  unknownBlock : String

/-- Every refusal of the scan that names no extrinsic. -/
def badArchive : Error := .chain "incomplete or inconsistent legacy archive evidence"

/-- The error of an extrinsic that no transaction of the manifest explains. -/
def unexplainedActivity (number index : ℕ) : Error :=
  .chain ("unexplained signer activity at block " ++ toString number ++ ", extrinsic " ++
    toString index ++ "; multi-job treasury histories are unsupported")

/-- The nonces the signers are expected at, and the summaries of what was found. -/
structure ScanState where
  nextNonces : AccountId32 → Option UInt64
  summaries : List EventSummary

namespace Archive

def blockAt (a : Archive) (number : ℕ) : Result ArchiveBlock :=
  okOr a.blocks[number]? (.chain a.unknownBlock)

/-- `block_hash_at`. -/
def blockHashAt (a : Archive) (number : ℕ) : Option String :=
  a.blocks[number]?.map ArchiveBlock.hash

/-- The nonce of an account at a block, 0 for an account that is not there. -/
def nonceAt (a : Archive) (number : ℕ) (who : AccountId32) : UInt64 :=
  ((a.nonces number who).getD 0).toUInt64

/-- The nonces the scan starts at. -/
def startNonces (a : Archive) (start : ℕ) (treasury deposit : AccountId32) :
    AccountId32 → Option UInt64 :=
  [treasury, deposit].foldl
    (fun next who => Function.update next who (some (a.nonceAt start who))) fun _ => none

/-- The condition on which the scan refuses an extrinsic that it expected another of. -/
def Mismatch [Ss58] (block : ArchiveBlock) (number : ℕ) (x : ArchiveExtrinsic) (index : ℕ)
    (signer : AccountId32) (nonce : UInt64) (st : ScanState) (expected : LegacyTransaction) :
    Prop :=
  expected.block.toNat ≠ number ∨
  expected.index ≠ index ∨
  expected.signer ≠ ss58 signer ∨
  expected.nonce ≠ nonce ∨
  st.nextNonces signer ≠ some nonce ∨
  expected.receipt.txHash ≠ x.hash ∨
  expected.receipt.blockHash ≠ block.hash

instance [Ss58] (block : ArchiveBlock) (number : ℕ) (x : ArchiveExtrinsic) (index : ℕ)
    (signer : AccountId32) (nonce : UInt64) (st : ScanState) (expected : LegacyTransaction) :
    Decidable (Mismatch block number x index signer nonce st expected) :=
  inferInstanceAs (Decidable (_ ∨ _))

/-- The body of the inner loop, for the extrinsic at `index` of a block. -/
def scanExtrinsic [Ss58] (a : Archive) (m : LegacyManifest) (treasury deposit : AccountId32)
    (number : ℕ) (block : ArchiveBlock) (st : ScanState) (x : ArchiveExtrinsic × ℕ) :
    Result ScanState :=
  match x.1.address with
  | none => .ok st
  | some address => do
      let signer ← okOr (signerOf address) badArchive
      if signer ≠ treasury ∧ signer ≠ deposit then .ok st
      else do
        let expected ← okOr m.transactions[st.summaries.length]? (unexplainedActivity number x.2)
        let nonce ← okOr x.1.nonce badArchive
        if Mismatch block number x.1 x.2 signer nonce st expected then .error badArchive
        else do
          let data ← chainErr (a.callData number expected.call)
          if data ≠ x.1.callData then .error badArchive
          else do
            let following ← okOr (checkedSucc nonce) badArchive
            let summary ← EventSummary.fromEvents x.1.events
            .ok
              { nextNonces := Function.update st.nextNonces signer (some following)
                summaries := st.summaries ++ [summary] }

/-- The body of the outer loop. -/
def scanBlock [Ss58] (a : Archive) (m : LegacyManifest) (treasury deposit : AccountId32)
    (st : ScanState) (number : ℕ) : Result ScanState := do
  let block ← a.blockAt number
  block.extrinsics.zipIdx.foldlM (a.scanExtrinsic m treasury deposit number block) st

/-- The numbers of the blocks that are scanned. -/
def numbers (first head : UInt64) : List ℕ :=
  List.range' first.toNat (head.toNat + 1 - first.toNat)

/-- `verify_legacy_archive`. -/
def verifyLegacyArchive [Ss58] (a : Archive) (r : PaymentRecord) (m : LegacyManifest) :
    Result ArchiveScan :=
  if a.genesisHash ≠ m.genesisHash then .error badArchive
  else
    let head := a.finalizedHead.1
    let hash := a.finalizedHead.2
    let horizon := m.stoppedAt.toNat + m.maximumMortality.toNat + 1
    if 2 ^ 64 ≤ horizon then .error badArchive
    else if head.toNat ≤ horizon ∨ head < m.firstBlock ∨ 100000 < head - m.firstBlock then
      .error badArchive
    else do
      let treasury ← parseSs58 m.treasury
      let deposit ← parseSs58 r.address
      let start := (m.firstBlock - 1).toNat
      let _ ← a.blockAt start
      let st ← (numbers m.firstBlock head).foldlM (a.scanBlock m treasury deposit)
        ⟨a.startNonces start treasury deposit, []⟩
      if st.summaries.length ≠ m.transactions.length then .error badArchive
      else if a.blockHashAt head.toNat ≠ some hash then .error badArchive
      else .ok (st.summaries, head, hash)

end Archive

end Buyback
