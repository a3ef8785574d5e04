import InstanceForge.Proofs.Config.Validity

/-!
# Settings written into a configuration

To resolve a valid configuration with settings that go before it is to write the settings into it,
to validate what that gives, and to resolve it with no settings. An output path that goes before
the configuration is the one setting that stays as it is.
-/

namespace InstanceForge

namespace Config

/-- A configuration with settings written into it: each that is given, and the rest as it was. -/
structure Written (c : Config) (o : Overrides) (chosen : Config) : Prop where
  root : o.root = some chosen.root ∨ o.root = none ∧ chosen.root = c.root
  capabilities : o.capabilities ≠ [] ∧ chosen.capabilities = o.capabilities ∨
    o.capabilities = [] ∧ chosen.capabilities = c.capabilities
  scope : o.scope = some chosen.scope ∨ o.scope = none ∧ chosen.scope = c.scope
  format : o.format = some chosen.format ∨ o.format = none ∧ chosen.format = c.format
  importHints : chosen.importHints = c.importHints
  schemaPaths : chosen.schemaPaths = c.schemaPaths
  template : chosen.template = c.template
  outputPath : chosen.outputPath = c.outputPath

variable {c chosen : Config} {o : Overrides} {directory : String} {resolved : ResolvedConfig}
  {e : ConfigError}

theorem validate_eq_error_iff : c.validate = .error e ↔ c.error? = some e := by
  unfold validate
  split
  · next h => simp [h]
  · next h => simp [h]

theorem validate_eq_ok_iff {d : Config} : c.validate = .ok d ↔ c.error? = none ∧ d = c := by
  unfold validate
  split
  · next h => simp [h]
  · next h => simp [h, eq_comm]

theorem resolve_eq_error_iff :
    c.resolve o directory = .error e ↔ overridesError? o = some e := by
  unfold resolve
  split
  · next h => simp [h]
  · next h => simp [h]

/-! ## Settings written in -/

theorem eq_getD {α : Type} {given : Option α} {old new : α}
    (h : given = some new ∨ given = none ∧ new = old) : given.getD old = new := by
  rcases h with rfl | ⟨rfl, rfl⟩ <;> rfl

theorem Written.override_eq (h : Written c o chosen) : c.override o = chosen := by
  have hcapabilities : (if o.capabilities.isEmpty then c.capabilities else o.capabilities) =
      chosen.capabilities := by
    rcases h.capabilities with ⟨hgiven, hchosen⟩ | ⟨hnone, hchosen⟩
    · rw [hchosen, if_neg (by simpa using hgiven)]
    · rw [hchosen, hnone]
      rfl
  rw [override, eq_getD h.root, hcapabilities, eq_getD h.scope, eq_getD h.format,
    ← h.importHints, ← h.schemaPaths, ← h.template, ← h.outputPath]

theorem Written.rootError?_eq (h : Written c o chosen) (hroot : rootError? c.root = none) :
    rootError? chosen.root = o.root.bind rootError? := by
  rcases h.root with hgiven | ⟨hnone, hchosen⟩
  · rw [hgiven]
    rfl
  · rw [hnone, hchosen, hroot]
    rfl

theorem Written.capabilitiesError?_eq (h : Written c o chosen)
    (hcapabilities : capabilitiesError? c.capabilities = none) :
    capabilitiesError? chosen.capabilities = capabilitiesError? o.capabilities := by
  rcases h.capabilities with ⟨-, hchosen⟩ | ⟨hnone, hchosen⟩
  · rw [hchosen]
  · rw [hnone, hchosen, hcapabilities]
    rfl

/-- A valid configuration with settings written into it is refused for what is wrong with the
settings alone. -/
theorem Written.error?_eq (h : Written c o chosen) (hc : c.error? = none) :
    chosen.error? = overridesError? o := by
  obtain ⟨hroot, hpaths, hcapabilities⟩ := error?_eq_none_iff.1 hc
  rw [← h.schemaPaths, ← List.isEmpty_eq_false_iff] at hpaths
  rw [error?, overridesError?, h.rootError?_eq hroot, h.capabilitiesError?_eq hcapabilities,
    hpaths]
  rfl

/-- Settings other than an output path do what they do when they are written in. -/
theorem Written.resolve_eq (h : Written c o chosen) (hvalid : overridesError? o = none)
    (hpath : o.outputPath = none) : c.resolve o directory = chosen.resolve .none directory := by
  have hagain : chosen.override .none = chosen := rfl
  have hnone : overridesError? .none = none := rfl
  rw [resolve, hvalid, resolve, hnone, h.override_eq, hagain, hpath]
  rfl

/-- An output path is put in the place of the one that is resolved without it. -/
theorem resolve_outputPath (path : String) :
    c.resolve { o with outputPath := some path } directory =
      (c.resolve { o with outputPath := none } directory).map
        fun r => { r with outputPath := some path } := by
  have hsame : overridesError? { o with outputPath := some path } =
      overridesError? { o with outputPath := none } := rfl
  rw [resolve, resolve, hsame]
  cases overridesError? { o with outputPath := none } <;> rfl

/-! ## What is resolved -/

/-- A configuration is resolved into a request that can be run: its root and its capabilities are
such as can be asked for, and beside a type the import hints are left out with a warning. -/
structure Settled (chosen : Config) (resolved : ResolvedConfig) : Prop where
  root : resolved.request.root = chosen.root ∧ Text.isBlank chosen.root = false
  capabilities : resolved.request.capabilities = chosen.capabilities ∧
    ∀ capability ∈ chosen.capabilities, Name.isIdentifier capability = true
  scope : resolved.request.scope = chosen.scope
  besideType : chosen.scope = .besideType -> resolved.request.importHints = [] ∧
    resolved.ignoredHints = chosen.importHints.length ∧ resolved.diagnostics =
      if chosen.importHints = [] then [] else [Run.ignoredHints chosen.importHints.length]
  shared : chosen.scope = .shared ->
    resolved.request.importHints = chosen.importHints ∧ resolved.diagnostics = []

theorem rootError?_eq_none_iff {root : String} :
    rootError? root = none ↔ Text.isBlank root = false := by
  simp [rootError?]

theorem Written.settled (h : Written c o chosen) (hc : c.error? = none)
    (hresolve : c.resolve o directory = .ok resolved) : Settled chosen resolved := by
  obtain ⟨hvalid, rfl⟩ := resolve_eq_ok_iff.1 hresolve
  obtain ⟨hroot, -, hcapabilities⟩ := error?_eq_none_iff.1 ((h.error?_eq hc).trans hvalid)
  rw [h.override_eq]
  refine ⟨⟨rfl, rootError?_eq_none_iff.1 hroot⟩,
    ⟨rfl, capabilitiesError?_eq_none_iff.1 hcapabilities⟩, rfl, fun hscope => ?_, fun hscope => ?_⟩
  · have hkept : chosen.request.importHints = [] := by
      rw [request, hscope]
      rfl
    simp [ResolvedConfig.diagnostics, hkept]
  · have hkept : chosen.request.importHints = chosen.importHints := by
      rw [request, hscope]
      rfl
    simp [ResolvedConfig.diagnostics, hkept]

/--
A valid configuration is resolved with settings as the configuration into which they are written:
it is refused for the reason for which that one is, and else the outcome is that of that one. An
output path replaces the resolved one and changes nothing else. What is resolved can be run.
-/
theorem resolve_of_written (hc : c.validate = .ok c) (h : Written c o chosen)
    (directory : String) :
    (∀ e, c.resolve o directory = .error e ↔ chosen.validate = .error e) ∧
    (o.outputPath = none -> chosen.validate = .ok chosen ->
      c.resolve o directory = chosen.resolve .none directory) ∧
    (∀ path, c.resolve { o with outputPath := some path } directory =
      (c.resolve { o with outputPath := none } directory).map
        fun r => { r with outputPath := some path }) ∧
    ∀ resolved, c.resolve o directory = .ok resolved -> Settled chosen resolved := by
  obtain ⟨hc, -⟩ := validate_eq_ok_iff.1 hc
  refine ⟨fun e => ?_, fun hpath hchosen => ?_, resolve_outputPath,
    fun resolved hresolve => h.settled hc hresolve⟩
  · rw [resolve_eq_error_iff, validate_eq_error_iff, h.error?_eq hc]
  · have hvalid := (validate_eq_ok_iff.1 hchosen).1
    exact h.resolve_eq ((h.error?_eq hc).symm.trans hvalid) hpath

def orders : Config :=
  { root := "Order", capabilities := ["Encoder"], scope := .shared,
    importHints := ["crate::models::*"], schemaPaths := ["models.toml"], template := none,
    outputPath := some "cached.rs", format := .rust }

def besideItem : Overrides :=
  { root := some "Item", capabilities := [], scope := some .besideType, format := none,
    outputPath := none }

theorem resolve_of_written_besideItem :
    let chosen := { orders with root := "Item", scope := .besideType }
    orders.validate = .ok orders ∧ Written orders besideItem chosen ∧
      chosen.validate = .ok chosen ∧
      orders.resolve besideItem "/work" = chosen.resolve .none "/work" ∧
      ∃ resolved, orders.resolve besideItem "/work" = .ok resolved ∧
        resolved.diagnostics = [Run.ignoredHints 1] := by
  intro chosen
  have horders : orders.validate = .ok orders := validate_eq_ok_iff.2 ⟨by decide +kernel, rfl⟩
  have hchosen : chosen.validate = .ok chosen := validate_eq_ok_iff.2 ⟨by decide +kernel, rfl⟩
  have hwritten : Written orders besideItem chosen :=
    ⟨.inl rfl, .inr ⟨rfl, rfl⟩, .inl rfl, .inr ⟨rfl, rfl⟩, rfl, rfl, rfl, rfl⟩
  obtain ⟨-, hsame, -, hsettled⟩ := resolve_of_written horders hwritten "/work"
  obtain ⟨resolved, hresolve⟩ : ∃ resolved, orders.resolve besideItem "/work" = .ok resolved :=
    ⟨_, rfl⟩
  exact ⟨horders, hwritten, hchosen, hsame rfl hchosen, resolved, hresolve,
    ((hsettled resolved hresolve).besideType rfl).2.2⟩

end Config

end InstanceForge
