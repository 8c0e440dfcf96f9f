import Buyback.Source.Metadata

/-!
# Checked metadata

The runtime runs the call of a pallet and a name, with the values of its payload as the
arguments of its fields in their order.  A runtime that `verify_metadata` accepts has every
call this crate submits, and its field of each name is given what the call means by it.
Anything else is refused, with an error that names what the runtime lacks.
-/

namespace Buyback

/-! ## Calls by name -/

/-- What a call says, by the names of its arguments. -/
def ChainCall.Means (argument : String → Option CallValue) : ChainCall → Prop
  | .transferTao dest amount =>
      argument "dest" = some (.unnamedVariant "Id" [.account dest]) ∧
      argument "value" = some (.u128 amount.toNat)
  | .transferAll dest =>
      argument "dest" = some (.unnamedVariant "Id" [.account dest]) ∧
      argument "keep_alive" = some (.bool false)
  | .transferStake destColdkey hotkey netuid alpha =>
      argument "destination_coldkey" = some (.account destColdkey) ∧
      argument "hotkey" = some (.account hotkey) ∧
      argument "origin_netuid" = some (.u128 netuid.toNat) ∧
      argument "destination_netuid" = some (.u128 netuid.toNat) ∧
      argument "alpha_amount" = some (.u128 alpha.toNat)
  | .moveStake fromHotkey toHotkey netuid alpha =>
      argument "origin_hotkey" = some (.account fromHotkey) ∧
      argument "destination_hotkey" = some (.account toHotkey) ∧
      argument "origin_netuid" = some (.u128 netuid.toNat) ∧
      argument "destination_netuid" = some (.u128 netuid.toNat) ∧
      argument "alpha_amount" = some (.u128 alpha.toNat)
  | .addStakeLimit hotkey netuid tao limitPrice allowPartial =>
      argument "hotkey" = some (.account hotkey) ∧
      argument "netuid" = some (.u128 netuid.toNat) ∧
      argument "amount_staked" = some (.u128 tao.toNat) ∧
      argument "limit_price" = some (.u128 limitPrice.toNat) ∧
      argument "allow_partial" = some (.bool allowPartial)
  | .associateHotkey hotkey => argument "hotkey" = some (.account hotkey)
  | .burnAlpha hotkey netuid alpha | .recycleAlpha hotkey netuid alpha =>
      argument "hotkey" = some (.account hotkey) ∧
      argument "amount" = some (.u128 alpha.toNat) ∧
      argument "netuid" = some (.u128 netuid.toNat)

/-- A call is told by its name and its arguments. -/
theorem ChainCall.Means.inj {argument : String → Option CallValue} {call call' : ChainCall}
    (h : call.Means argument) (h' : call'.Means argument) (hname : call.name = call'.name) :
    call = call' := by
  -- two calls with one name have one constructor
  cases call <;> cases call' <;> simp only [name, String.reduceEq] at hname
  all_goals
    simp only [Means] at h h'
    simp_all [UInt64.toNat_inj, UInt16.toNat_inj]

/-- The parameters of a call, in their order. -/
def ChainCall.parameters : ChainCall → List String
  | .transferTao .. => ["dest", "value"]
  | .transferAll .. => ["dest", "keep_alive"]
  | .transferStake .. =>
      ["destination_coldkey", "hotkey", "origin_netuid", "destination_netuid", "alpha_amount"]
  | .moveStake .. =>
      ["origin_hotkey", "destination_hotkey", "origin_netuid", "destination_netuid", "alpha_amount"]
  | .addStakeLimit .. => ["hotkey", "netuid", "amount_staked", "limit_price", "allow_partial"]
  | .associateHotkey .. => ["hotkey"]
  | .burnAlpha .. | .recycleAlpha .. => ["hotkey", "amount", "netuid"]

/-- Each of them is checked. -/
theorem ChainCall.parameters_required (call : ChainCall) :
    (call.payload.1, call.name, call.parameters) ∈ requiredCalls := by
  cases call <;> simp [requiredCalls, payload, name, parameters]

theorem ChainCall.parameters_length (call : ChainCall) :
    call.parameters.length = call.payload.2.length := by
  cases call <;> rfl

/-- The payload has what the call means in the order of the parameters. -/
theorem ChainCall.payload_means (call : ChainCall) :
    call.Means fun name => (call.parameters.zip call.payload.2).lookup name := by
  cases call <;> simp [Means, parameters, payload, List.lookup]

theorem ChainCall.parameters_congr {call call' : ChainCall} (h : call.name = call'.name) :
    call.parameters = call'.parameters := by
  cases call <;> cases call' <;> first | rfl | simp only [name, String.reduceEq] at h

/-- No two calls have one name and one payload. -/
theorem ChainCall.payload_inj {call call' : ChainCall} (hname : call.name = call'.name)
    (hpayload : call.payload = call'.payload) : call = call' := by
  have h' := call'.payload_means
  rw [← parameters_congr hname, ← hpayload] at h'
  exact call.payload_means.inj h' hname

/-! ## The runtime -/

/-- The argument of the field with a name, among the values of the fields in their order. -/
def CallVariant.argument (v : CallVariant) (args : List CallValue) (name : String) :
    Option CallValue :=
  (v.fields.zip args).lookup (some name)

namespace Metadata

/-- The runtime has the call, and reads from its payload what it means. -/
def Takes (md : Metadata) (call : ChainCall) : Prop :=
  ∃ p v, md.palletByName call.payload.1 = some p ∧ p.callVariantByName call.name = some v ∧
    v.fields.length = call.payload.2.length ∧ call.Means (v.argument call.payload.2)

/-- The runtime has the call, with named fields of these names. -/
def HasCall (md : Metadata) (required : String × String × List String) : Prop :=
  ∃ p v, md.palletByName required.1 = some p ∧ p.callVariantByName required.2.1 = some v ∧
    v.names = required.2.2

/-- The runtime has the event. -/
def Emits (md : Metadata) (event : String × String) : Prop :=
  ∃ p vs v, md.palletByName event.1 = some p ∧ p.eventVariants = some vs ∧ v ∈ vs ∧
    v.name = event.2

/-- The fields of every call have names, as those of a FRAME pallet do. -/
def Named (md : Metadata) : Prop :=
  ∀ palletName p call v, md.palletByName palletName = some p →
    p.callVariantByName call = some v → ∀ field ∈ v.fields, field.isSome

/-- What a runtime lacks, by the error that names it. -/
inductive Lacks [StdTexts] (md : Metadata) : Error → Prop where
  | pallet {palletName : String} :
      md.palletByName palletName = none →
      Lacks md (palletMissing palletName)
  | call {palletName call : String} {p : PalletMetadata} :
      md.palletByName palletName = some p →
      p.callVariantByName call = none →
      Lacks md (callMissing palletName call)
  | args {palletName call : String} {args : List String} {p : PalletMetadata}
      {v : CallVariant} :
      (palletName, call, args) ∈ requiredCalls →
      md.palletByName palletName = some p →
      p.callVariantByName call = some v →
      v.names ≠ args →
      Lacks md (argsDiffer palletName call v.names args)
  | event {palletName event : String} :
      ¬ md.Emits (palletName, event) →
      Lacks md (eventMissing palletName event)

/-! ## The check -/

section

variable {md : Metadata} {α : Type} {line : α → Result String} {xs : List α}
  {out : List String} {e : Error}

theorem pushLines_ok_iff :
    (∃ out', pushLines line xs out = .ok out') ↔ ∀ x ∈ xs, ∃ l, line x = .ok l := by
  induction xs generalizing out with
  | nil => exact iff_of_true ⟨out, rfl⟩ (List.forall_mem_nil _)
  | cons x xs ih =>
      rw [List.forall_mem_cons]
      constructor
      · rintro ⟨out', h⟩
        obtain ⟨l, hl, hrest⟩ := Result.bind_eq_ok.mp h
        exact ⟨⟨l, hl⟩, ih.mp ⟨out', hrest⟩⟩
      · rintro ⟨⟨l, hl⟩, hrest⟩
        obtain ⟨out', h⟩ := ih.mpr hrest
        exact ⟨out', Result.bind_eq_ok.mpr ⟨l, hl, h⟩⟩

theorem pushLines_error (h : pushLines line xs out = .error e) :
    ∃ x ∈ xs, line x = .error e := by
  induction xs generalizing out with
  | nil => cases h
  | cons x xs ih =>
      rcases Result.bind_error h with hx | ⟨l, -, hrest⟩
      · exact ⟨x, .head _, hx⟩
      · obtain ⟨y, hy, hline⟩ := ih hrest
        exact ⟨y, .tail _ hy, hline⟩

theorem verifyEvent_ok_iff {event : String × String} :
    (∃ l, md.verifyEvent event = .ok l) ↔ md.Emits event := by
  simp only [verifyEvent, Result.bind_eq_ok, okOr_ok, Option.bind_eq_some_iff, Emits]
  constructor
  · rintro ⟨-, p, hp, v, ⟨vs, hvs, hfind⟩, -⟩
    exact ⟨p, vs, v, hp, hvs, List.mem_of_find?_eq_some hfind, by simpa using List.find?_some hfind⟩
  · rintro ⟨p, vs, v, hp, hvs, hv, hname⟩
    have hfound : (vs.find? fun v => v.name == event.2).isSome :=
      List.find?_isSome.mpr ⟨v, hv, by simpa using hname⟩
    obtain ⟨w, hfind⟩ := Option.isSome_iff_exists.mp hfound
    exact ⟨_, p, hp, w, ⟨vs, hvs, hfind⟩, rfl⟩

variable [StdTexts]

theorem verifyCall_ok_iff {required : String × String × List String} :
    (∃ l, md.verifyCall required = .ok l) ↔ md.HasCall required := by
  simp only [verifyCall, Result.bind_eq_ok, okOr_ok, Result.refuse_eq_ok, not_not, HasCall]
  constructor
  · rintro ⟨-, p, hp, v, hv, hnames, -⟩
    exact ⟨p, v, hp, hv, hnames⟩
  · rintro ⟨p, v, hp, hv, hnames⟩
    exact ⟨_, p, hp, v, hv, hnames, rfl⟩

theorem verifyCall_error {required : String × String × List String}
    (hrequired : required ∈ requiredCalls) (h : md.verifyCall required = .error e) :
    md.Lacks e := by
  rcases Result.bind_error h with h | ⟨p, hp, h⟩
  · exact okOr_error h ▸ .pallet (okOr_isNone h)
  rcases Result.bind_error h with h | ⟨v, hv, h⟩
  · exact okOr_error h ▸ .call (okOr_ok.mp hp) (okOr_isNone h)
  split at h
  next hnames =>
    cases h
    exact .args hrequired (okOr_ok.mp hp) (okOr_ok.mp hv) hnames
  next => cases h

theorem verifyEvent_error {event : String × String} (h : md.verifyEvent event = .error e) :
    md.Lacks e := by
  have hlacks : ¬ md.Emits event := by
    rw [← verifyEvent_ok_iff]
    rintro ⟨l, hl⟩
    cases h.symm.trans hl
  rcases Result.bind_error h with h | ⟨p, -, h⟩
  · exact okOr_error h ▸ .pallet (okOr_isNone h)
  rcases Result.bind_error h with h | ⟨v, -, h⟩
  · exact okOr_error h ▸ .event hlacks
  · cases h

/-- The runtimes that are accepted. -/
theorem verifyMetadata_ok_iff : (∃ lines, md.verifyMetadata = .ok lines) ↔
    (∀ required ∈ requiredCalls, md.HasCall required) ∧
      ∀ event ∈ requiredEvents, md.Emits event := by
  simp only [← verifyCall_ok_iff, ← verifyEvent_ok_iff]
  constructor
  · rintro ⟨lines, h⟩
    obtain ⟨out, hcalls, hevents⟩ := Result.bind_eq_ok.mp h
    exact ⟨pushLines_ok_iff.mp ⟨out, hcalls⟩, pushLines_ok_iff.mp ⟨lines, hevents⟩⟩
  · rintro ⟨hcalls, hevents⟩
    obtain ⟨out, hout⟩ := pushLines_ok_iff.mpr hcalls
    obtain ⟨lines, hlines⟩ := pushLines_ok_iff.mpr hevents
    exact ⟨lines, Result.bind_eq_ok.mpr ⟨out, hout, hlines⟩⟩

/-- Every other runtime is refused with an error that names what it lacks. -/
theorem verifyMetadata_error (h : md.verifyMetadata = .error e) : md.Lacks e := by
  rcases Result.bind_error h with h | ⟨out, -, h⟩
  · obtain ⟨required, hrequired, h⟩ := pushLines_error h
    exact verifyCall_error hrequired h
  · obtain ⟨event, -, h⟩ := pushLines_error h
    exact verifyEvent_error h

end

/-! ## What an accepted runtime reads -/

theorem fields_eq_names {v : CallVariant} (h : ∀ field ∈ v.fields, field.isSome) :
    v.fields = v.names.map some := by
  obtain ⟨index, fields⟩ := v
  change fields = (fields.filterMap id).map some
  induction fields with
  | nil => rfl
  | cons field fields ih =>
      obtain ⟨hfield, hrest⟩ := List.forall_mem_cons.mp h
      obtain ⟨name, rfl⟩ := Option.isSome_iff_exists.mp hfield
      have hnames : (some name :: fields).filterMap id = name :: fields.filterMap id := rfl
      rw [hnames, List.map_cons, ← ih hrest]

theorem lookup_zip_map_some (names : List String) (args : List CallValue) (name : String) :
    ((names.map some).zip args).lookup (some name) = (names.zip args).lookup name := by
  induction names generalizing args with
  | nil => rfl
  | cons n names ih =>
      cases args with
      | nil => rfl
      | cons arg args =>
          rw [List.map_cons, List.zip_cons_cons, List.zip_cons_cons, List.lookup_cons,
            List.lookup_cons, ih]
          rfl

theorem argument_eq {v : CallVariant} {args : List CallValue}
    (h : v.fields = v.names.map some) :
    v.argument args = fun name => (v.names.zip args).lookup name := by
  funext name
  rw [CallVariant.argument, h, lookup_zip_map_some]

/-- The call is run with what it means. -/
theorem HasCall.takes {md : Metadata} (hnamed : md.Named) {call : ChainCall}
    (h : md.HasCall (call.payload.1, call.name, call.parameters)) : md.Takes call := by
  obtain ⟨p, v, hp, hv, hnames⟩ := h
  have hfields := fields_eq_names (hnamed _ _ _ _ hp hv)
  refine ⟨p, v, hp, hv, ?_, ?_⟩
  · rw [hfields, List.length_map, hnames, call.parameters_length]
  · rw [argument_eq hfields, hnames]
    exact call.payload_means

end Metadata

end Buyback
