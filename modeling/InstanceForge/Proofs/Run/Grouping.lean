import InstanceForge.Proofs.Run.Rendering

/-!
# Grouped declarations of runs

However declarations are mixed, bundles are their stable grouping by capability, and they form a
block exactly if they are all for one type. A shared run declares its types outermost, and its
bundles are the requested capabilities, each with all types in their order.
-/

namespace InstanceForge

namespace Run

open DeclarationSet

/-- The bundles of a request: one for each requested capability in turn, with an instance for each
type in turn. -/
structure Requested (request : Request) (nodes : List TypeNode) (bundles : List Bundle) :
    Prop where
  capabilities : bundles.map (·.capability) = request.capabilities
  types : ∀ b ∈ bundles, b.declarations.map (·.declaration) =
    nodes.map fun node => Declaration.ofPair request.scope node b.capability

variable {request : Request} {S : Provider}
  {finite : request.scope = .shared -> S.FinitelyReaches request.root} {engine : Engine}
  {emitter : Emitter} {derived : List DerivedDeclaration} {out : RunOutput}

theorem Finished.requested (h : Finished request S finite engine emitter derived out) :
    Requested request out.graph.nodes out.manifest.declarations.bundles := by
  have hnodes := nodes_ne_nil_of_graphFor h.graph
  have hnodup := nodup_capabilities hnodes h.identifiers
  have hcapabilities : out.manifest.declarations.bundles.map (·.capability) =
      request.capabilities := by
    rw [map_capability_bundles, h.manifest]
    exact h.derives.capabilitiesOf_eq hnodes hnodup
  refine ⟨hcapabilities, fun b hb => ?_⟩
  have hmem : b.capability ∈ request.capabilities :=
    hcapabilities ▸ List.mem_map.2 ⟨b, hb, rfl⟩
  have hdeclared := h.derives.map_declaration_bundleOf hnodup hmem
  rw [eq_bundleOf_of_mem hb, h.manifest]
  exact hdeclared

/--
Bundles are the stable grouping of any declarations by capability. A block is formed exactly of
declarations for one type, at least one, and else the first type is named with the first one that
differs from it. A shared run that succeeds bundles the requested capabilities.
-/
theorem stableGrouping_and_requested :
    (∀ s : DeclarationSet,
      StableGrouping s.declarations s.bundles ∧
      ((∃ b, s.block = .ok b) ↔ s.declarations ≠ [] ∧
        ∃ name, ∀ d ∈ s.declarations, d.declaration.node.typeName = name) ∧
      (∀ b, s.block = .ok b ->
        s.declarations.head?.map (·.declaration.node) = some b.node ∧
          b.declarations = s.declarations) ∧
      ∀ e, s.block = .error e ↔
        (s.declarations = [] ∧ e = .noDeclarations) ∨
          ∃ first front other back, s.declarations = first :: (front ++ other :: back) ∧
            (∀ d ∈ front, d.declaration.node.typeName = first.declaration.node.typeName) ∧
            other.declaration.node.typeName ≠ first.declaration.node.typeName ∧
            e = .severalTypes first.declaration.node.typeName other.declaration.node.typeName) ∧
    ∀ (request : Request) (S : Provider)
      (finite : request.scope = .shared -> S.FinitelyReaches request.root) (engine : Engine)
      (emitter : Emitter) (out : RunOutput), request.scope = .shared ->
      run request S finite engine emitter = .ok out ->
      Requested request out.graph.nodes out.manifest.declarations.bundles := by
  refine ⟨fun s => ⟨stableGrouping_bundles s, ?_, ?_, fun e => block_eq_error_iff⟩, ?_⟩
  · constructor
    · rintro ⟨b, hb⟩
      obtain ⟨d, hd, -⟩ := exists_mem_of_block hb
      exact ⟨List.ne_nil_of_mem hd, b.node.typeName, fun _ => typeName_eq_of_block hb⟩
    · rintro ⟨hne, name, hall⟩
      exact exists_block hne hall
  · intro b hb
    obtain ⟨hnode, -, hdeclarations⟩ := block_eq_ok_iff.1 hb
    exact ⟨hnode, hdeclarations⟩
  · intro request S finite engine emitter out _ hrun
    obtain ⟨derived, hfinished⟩ := exists_finished_of_run hrun
    exact hfinished.requested

def mixed : DeclarationSet :=
  { scope := .shared
    declarations := [("Order", "Encoder"), ("Item", "Decoder"), ("Item", "Encoder")].map
      fun p => ⟨Declaration.ofPair .shared (.ofType p.1) p.2, "make()"⟩ }

theorem stableGrouping_mixed :
    mixed.bundles.map (fun b => (b.capability, b.declarations.map (·.declaration.identifier))) =
        [("Encoder", ["orderEncoder", "itemEncoder"]), ("Decoder", ["itemDecoder"])] ∧
      StableGrouping mixed.declarations mixed.bundles ∧
      mixed.block = .error (.severalTypes "Order" "Item") ∧
      ∃ out, renderOrder .shared = .ok out ∧
        out.manifest.declarations.bundles.map (·.capability) = ["Encoder", "Decoder"] := by
  obtain ⟨hsets, hruns⟩ := stableGrouping_and_requested
  obtain ⟨hgrouping, -, -, hrefusal⟩ := hsets mixed
  obtain ⟨out, hout⟩ := renderOrder_shared
  have hrequested := hruns _ _ _ _ _ out rfl hout
  refine ⟨by decide +kernel, hgrouping, (hrefusal _).2 (.inr ?_), out, hout,
    hrequested.capabilities⟩
  exact ⟨_, [], _, _, rfl, by simp, by decide, rfl⟩

end Run

end InstanceForge
