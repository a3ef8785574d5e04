import InstanceForge.Config.Document
import InstanceForge.Config.Resolve

/-!
# Valid configurations

A configuration that is read is valid, and settings that go before it keep it valid. So the
capabilities that are asked for are identifiers, wherever they come from.
-/

namespace InstanceForge

namespace Config

theorem capabilitiesError?_eq_none_iff {capabilities : List String} :
    capabilitiesError? capabilities = none ↔
      ∀ capability ∈ capabilities, Name.isIdentifier capability = true := by
  simp [capabilitiesError?]

theorem error?_eq_none_iff {c : Config} :
    c.error? = none ↔ rootError? c.root = none ∧ c.schemaPaths ≠ [] ∧
      capabilitiesError? c.capabilities = none := by
  unfold error?
  split
  · next h => simp [h]
  · next h =>
      by_cases hpaths : c.schemaPaths = [] <;> simp [h, hpaths]

theorem error?_of_ofText {text : String} {c : Config} (h : ofText text = .ok c) :
    c.error? = none := by
  unfold ofText at h
  split at h
  · unfold validate at h
    split at h
    · cases h
    · next hvalid =>
        rw [Except.ok.injEq] at h
        exact h ▸ hvalid
  · cases h

theorem overridesError?_eq_none_iff {o : Overrides} :
    overridesError? o = none ↔
      o.root.bind rootError? = none ∧ capabilitiesError? o.capabilities = none := by
  unfold overridesError?
  split
  · next h => simp [h]
  · next h => simp [h]

variable {c : Config} {o : Overrides} {directory : String} {resolved : ResolvedConfig}

theorem resolve_eq_ok_iff :
    c.resolve o directory = .ok resolved ↔ overridesError? o = none ∧
      resolved =
        { request := (c.override o).request
          schemaPaths := (c.override o).schemaFiles directory
          template := (c.override o).template
          outputPath := o.outputPath <|> (c.override o).outputPath.map (Path.join directory)
          format := (c.override o).format
          ignoredHints := (c.override o).importHints.length -
            (c.override o).request.importHints.length } := by
  unfold resolve
  split
  · next h => simp [h]
  · next h => simp [h, eq_comm]

/-- The capabilities that are asked for are those of a valid configuration, or those of valid
settings before it. -/
theorem isIdentifier_of_mem_capabilities {text : String} (htext : ofText text = .ok c)
    (h : c.resolve o directory = .ok resolved) :
    ∀ capability ∈ resolved.request.capabilities, Name.isIdentifier capability = true := by
  have hown := (error?_eq_none_iff.1 (error?_of_ofText htext)).2.2
  obtain ⟨hoverrides, rfl⟩ := resolve_eq_ok_iff.1 h
  have hbefore := (overridesError?_eq_none_iff.1 hoverrides).2
  have hcapabilities : (c.override o).request.capabilities =
      if o.capabilities.isEmpty then c.capabilities else o.capabilities := rfl
  rw [hcapabilities]
  split
  · exact capabilitiesError?_eq_none_iff.1 hown
  · exact capabilitiesError?_eq_none_iff.1 hbefore

end Config

end InstanceForge
