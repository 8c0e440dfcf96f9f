import Buyback.Source.Wallets

/-!
# Derived wallets

The deterministic wallets of `keys.rs`: the chain codes of a path, and the mini secret
that they derive from a root.  How a segment becomes a chain code, and how a chain code
derives a key, is third party, so it is a parameter.
-/

namespace Buyback

/-- A junction of a derivation path. -/
structure Junction where
  inner : Bytes32
  isHard : Bool

/-- `subxt_signer::DeriveJunction`: a text that begins with a slash is hard. -/
class DeriveJunction where
  junction : String → Junction
  isHard_junction : ∀ segment, (junction ("/" ++ segment)).isHard = true

/-- The keys of `schnorrkel` with the Ed25519 expansion. -/
class Schnorrkel where
  MiniSecretKey : Type
  SecretKey : Type
  fromBytes : Bytes32 → Option MiniSecretKey
  toBytes : MiniSecretKey → Bytes32
  expand : MiniSecretKey → SecretKey
  hardDeriveMiniSecretKey : SecretKey → Bytes32 → MiniSecretKey
  /-- The bytes of a mini secret are one. -/
  fromBytes_toBytes : ∀ mini, fromBytes (toBytes mini) = some mini

section

variable [StdTexts] [DeriveJunction]

/-- The error of a path that is not hard junctions only. -/
def badPath (path : String) : Error :=
  .config ("derivation path " ++ debugStr path ++ " must be //hard//junctions only")

/-- `strip_prefix("//")`. -/
def stripSlashes : List Char → Option (List Char)
  | '/' :: '/' :: rest => some rest
  | _ => none

/-- The chain code of one segment. -/
def hardJunction (path : String) (j : List Char) : Result Bytes32 :=
  if j = [] ∨ '/' ∈ j then .error (badPath path)
  else
    let dj := DeriveJunction.junction ("/" ++ String.ofList j)
    if dj.isHard = false then .error (badPath path) else .ok dj.inner

/-- Chain codes of `//a//b//7`. -/
def hardJunctions (path : String) : Result (List Bytes32) :=
  match stripSlashes path.toList with
  | none => .error (badPath path)
  | some rest => (Split.pairs '/' rest).mapM (hardJunction path)

/-- Root of deterministic wallets. -/
structure DerivationSeed where
  root : Bytes32

namespace DerivationSeed

variable [Schnorrkel]

/-- Mini secret of a path. -/
def deriveMini (seed : DerivationSeed) (path : String) : Result Bytes32 := do
  let junctions ← hardJunctions path
  match Schnorrkel.fromBytes seed.root with
  | none => .error (.crypto "invalid root")
  | some root =>
      let mini := junctions.foldl
        (fun mini cc => Schnorrkel.hardDeriveMiniSecretKey (Schnorrkel.expand mini) cc) root
      .ok (Schnorrkel.toBytes mini)

/-- The wallet at a path. -/
def wallet [Signers] (seed : DerivationSeed) (path : String) : Result PaymentWallet := do
  let mini ← seed.deriveMini path
  PaymentWallet.fromMiniSecret mini

end DerivationSeed

end

end Buyback
