import Buyback.Rpc.Metadata
import Buyback.Run.Confined

/-!
# Extrinsics the runtime understands

The metadata is checked before the engines start, for every call the crate has.  What any
engine then submits, in any run, is among them, and the runtime reads from it what the
engine meant.  The event that its receipt needs is one the runtime has.
-/

namespace Buyback

open Resumption

/-- The calls whose event is checked. -/
theorem ChainCall.expectedEvent_required {call : ChainCall}
    (h : ∀ hotkey, call ≠ .associateHotkey hotkey) : call.expectedEvent ∈ requiredEvents := by
  cases call with
  | associateHotkey hotkey => exact absurd rfl (h hotkey)
  | _ => simp [expectedEvent, requiredEvents]

section

variable [Ss58]

/-- No engine associates a hotkey. -/
theorem Engine.Pays.ne_associate {E : Engine} {h : History rpc} {r : PaymentRecord}
    {call : ChainCall} {signer : Keypair} (hp : E.Pays h r call signer) (hotkey : AccountId32) :
    call ≠ .associateHotkey hotkey := by
  cases hp with
  | @destroy budget => cases hdestroy : budget.destroy <;> simp [destroyCall]
  | _ => nofun

/-- A runtime that is accepted runs every extrinsic that was ever sent, as what was meant,
and has the event of its receipt, and no other call has its payload.  Another runtime is
refused for what it lacks. -/
theorem sent_understood {set : Setting} {c : Resumption.Config (processes set)}
    (h : Resumption.Reachable (processes set) c) {md : Metadata} (hnamed : md.Named) :
    (∀ lines, md.verifyMetadata = .ok lines → ∀ tx ∈ c.state.chain.submitted,
      md.Takes tx.call ∧ md.Emits tx.call.expectedEvent ∧
        ∀ call, call.name = tx.call.name → call.payload = tx.call.payload → call = tx.call) ∧
    ∀ e, md.verifyMetadata = .error e → md.Lacks e := by
  refine ⟨fun lines hlines tx htx => ?_, fun e he => Metadata.verifyMetadata_error he⟩
  obtain ⟨hcalls, hevents⟩ := Metadata.verifyMetadata_ok_iff.mp ⟨lines, hlines⟩
  obtain ⟨-, E, -, -, start, r, signer, -, -, -, -, -, -, hpays⟩ := (informed_view h).pays htx
  refine ⟨?_, ?_, fun _ => ChainCall.payload_inj⟩
  · exact (hcalls _ tx.call.parameters_required).takes hnamed
  · exact hevents _ (ChainCall.expectedEvent_required hpays.ne_associate)

end

/-! ## A runtime that is accepted -/

/-- The runtime that has what is required. -/
def sampleRuntime : Metadata where
  specVersion := 1
  palletByName palletName := some
    { callVariantByName := fun call =>
        (requiredCalls.find? fun x => x.1 == palletName && x.2.1 == call).map fun x =>
          ⟨0, x.2.2.map some⟩
      eventVariants := some ((requiredEvents.filter fun x => x.1 == palletName).map fun x =>
        ⟨x.2, 0⟩) }

theorem sampleRuntime_named : sampleRuntime.Named := by
  intro palletName p call v hp hv field hfield
  cases hp
  obtain ⟨x, -, rfl⟩ := Option.map_eq_some_iff.mp hv
  obtain ⟨name, -, rfl⟩ := List.mem_map.mp hfield
  rfl

theorem sampleRuntime_accepted [StdTexts] : ∃ lines, sampleRuntime.verifyMetadata = .ok lines :=
  ⟨_, rfl⟩

/-- The fees of the sample job are taken as fees, with the event of a transfer. -/
theorem sampleFunded_understood : ∃ (c : Resumption.Config (processes calm)) (tx : PreparedTx),
    tx ∈ c.state.chain.submitted ∧ tx.call = .transferTao 3 1500 ∧
      sampleRuntime.Takes tx.call ∧ sampleRuntime.Emits tx.call.expectedEvent ∧
      ∀ call, call.name = tx.call.name → call.payload = tx.call.payload → call = tx.call := by
  obtain ⟨c, hc, htest⟩ := playSample_any sampleFunded_sent
  rw [beq_iff_eq] at htest
  obtain ⟨tx, htx, hcall⟩ : ∃ tx ∈ c.state.chain.submitted, tx.call = .transferTao 3 1500 :=
    List.mem_map.mp (htest ▸ .head _)
  let _ : StdTexts := ⟨fun _ => false, "out of range"⟩
  obtain ⟨lines, hlines⟩ := sampleRuntime_accepted
  exact ⟨c, tx, htx, hcall, (sent_understood hc sampleRuntime_named).1 lines hlines tx htx⟩

end Buyback
