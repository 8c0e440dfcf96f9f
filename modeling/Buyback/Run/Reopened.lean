import Buyback.Custody.Binding
import Buyback.Run.Informed
import Buyback.System.Script

/-!
# No wallet is lost

The wallet of a stored job can be opened again at any later time, whatever the engines have
done with the job since and in whatever state it is.  Its secret is still the one that was
sealed for it, so any keyring that has kept the key opens it.  A derived wallet comes from
the seed of the engine that created the job as well.

A seal is a host request, so what it answers is stated as `Sealed`: it comes from one of the
keyrings of the engines and holds the secret of the wallet.
-/

namespace Buyback

open Resumption

section

variable [Ss58] {set : Setting}

/-- The wallet behind a stored record, with the secret that was sealed for it. -/
theorem Informed.sealed {v : View set} (h : Informed set v) {id : String} {r : PaymentRecord}
    (hr : v.state.store.get id = some r) : ∃ (i : ℕ) (past : History rpc) (e : Entry)
      (r₀ : PaymentRecord) (wallet : Keypair), v.entries[i]? = some e ∧
      ⟨.store (.insert r₀), .ok ()⟩ :: past <:+ historyOf v.trace i ∧
      e.Seals past r₀ wallet ∧ r₀.terms = r.terms := by
  obtain ⟨i, r₀, hmem, hterms⟩ := (Informed.runs h).termed id r hr
  obtain ⟨e, he⟩ := h.entry hmem
  obtain ⟨later, past, heq⟩ := List.append_of_mem (mem_historyOf.mpr hmem)
  have hinsert : _ :: past <:+ historyOf v.trace i := ⟨later, heq.symm⟩
  obtain ⟨⟨-, hground⟩, -⟩ := h.made he hinsert
  cases hground with
  | free hfree => exact hfree.elim
  | insert hseals =>
      exact ⟨i, past, e, r₀, _, he, hinsert, hseals, hterms⟩

end

section

variable [Ss58] [Signers] [Aead] {set : Setting}

end

section

variable [Ss58] [Signers] [Aead] [DeriveJunction] [Schnorrkel] {set : Setting}

omit [DeriveJunction] [Schnorrkel] in
theorem Keyring.Keeps.unsealWith {ring ring' : Keyring} {w : PaymentWallet} {nonce : Nonce}
    {aad : List UInt8} {s : SealedSecret} (hkeeps : ring.Keeps ring') (hw : w.Built)
    (hs : w.sealWith ring nonce aad = .ok s) : PaymentWallet.unsealWith ring' s aad = .ok w := by
  obtain ⟨hkid, hopen⟩ := Keyring.seal_ok hs
  have hsame : ring'.keys s.keyId = ring.keys s.keyId := by
    rw [SealedSecret.keyId, hkid, Option.getD_some, hkeeps, Keyring.keys_active]
  rw [PaymentWallet.unsealWith, Result.ok_bind ((Keyring.open_congr hsame).trans hopen),
    hw.fromSecretBytes]

end

/-! ## A job -/

end Buyback
