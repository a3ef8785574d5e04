import InstanceForge.Proofs.Emit.Listing
import InstanceForge.Proofs.Emit.Source
import InstanceForge.Proofs.Graph.Discovery
import InstanceForge.Proofs.Run.Stages

/-!
# Stamped fingerprints read back

Whatever a run renders, in either form, is stamped with the fingerprint of what was rendered.
-/

namespace InstanceForge

/-! ## The root of a run -/

namespace Run

variable {request : Request} {S : Provider}
  {finite : request.scope = .shared -> S.FinitelyReaches request.root} {engine : Engine}
  {emitter : Emitter} {derived : List DerivedDeclaration} {out : RunOutput}

theorem root?_of_graphFor {graph : TypeGraph} (h : graphFor request S finite = .ok graph) :
    graph.root? = some (TypeNode.ofType request.root) := by
  unfold graphFor at h
  split at h
  · exact TypeGraph.root?_of_discover h
  · exact TypeGraph.root?_of_single h

/-- The root is among the types that a run declares instances for. -/
theorem Finished.exists_root (h : Finished request S finite engine emitter derived out) :
    ∃ d ∈ derived, d.declaration.node.typeName = request.root := by
  obtain ⟨capability, rest, hcapabilities⟩ := List.exists_cons_of_ne_nil h.capabilities
  have hnode : TypeNode.ofType request.root ∈ out.graph.nodes :=
    List.mem_of_head? (root?_of_graphFor h.graph)
  have hpair : (TypeNode.ofType request.root, capability) ∈
      pairs out.graph.nodes request.capabilities :=
    mem_pairs.2 ⟨hnode, by simp [hcapabilities]⟩
  obtain ⟨d, hd, heq⟩ := h.derives.exists_declared hpair
  exact ⟨d, hd, by rw [heq]; rfl⟩

/-- Source text is rendered only for a root that has a path. -/
theorem Finished.exists_path
    (h : Finished request S finite engine Source.emitter derived out) :
    ∃ path, Name.path? request.root = some path := by
  obtain ⟨d, hd, hroot⟩ := h.exists_root
  obtain ⟨body, hbody, _⟩ := Source.exists_body_of_render h.text
  rw [h.manifest] at hbody
  rw [← hroot]
  exact hbody.exists_path hd

end Run

namespace Stamp

/-- The fingerprint of what a run rendered is read back from its text. -/
theorem read?_of_run (request : Request) (S : Provider)
    (finite : request.scope = .shared -> S.FinitelyReaches request.root) (engine : Engine)
    (format : OutputFormat) {out : RunOutput}
    (h : run request S finite engine format.emitter = .ok out) :
    read? out.text = some out.manifest.fingerprint := by
  obtain ⟨derived, hfinished⟩ := Run.exists_finished_of_run h
  cases format with
  | json =>
      have htext : Listing.render out.manifest = out.text := Except.ok.inj hfinished.text
      rw [← htext]
      exact Listing.read?_render out.manifest
  | rust =>
      obtain ⟨path, hpath⟩ := Run.Finished.exists_path hfinished
      have hroot : ∀ c, Name.isPathChar c = false -> c ∉ request.root.toList := by
        intro c hc hmem
        rw [Name.isPathChar_of_mem hpath hmem] at hc
        cases hc
      obtain ⟨body, _, htext⟩ := Source.exists_body_of_render hfinished.text
      rw [htext]
      have hsame : out.manifest.root = request.root := by
        rw [hfinished.manifest]
        rfl
      rw [hsame]
      exact Source.read?_header _ (hroot _ (by decide)) (hroot _ (by decide))

def oddNames : Registry :=
  ⟨[⟨"a\"\n// fingerprint: ", .record, []⟩, ⟨"shop::Order", .record, []⟩]⟩

def runOddName (name : String) (format : OutputFormat) : Except RunError RunOutput :=
  run ⟨name, ["Eq"], .besideType, []⟩ oddNames.provider (fun _ => oddNames.finitelyReaches name)
    (Engine.ofTemplate Template.standard) format.emitter

theorem read?_of_runOddName :
    (∃ out, runOddName "a\"\n// fingerprint: " .json = .ok out ∧
      read? out.text = some out.manifest.fingerprint) ∧
    ∃ out, runOddName "shop::Order" .rust = .ok out ∧
      read? out.text = some out.manifest.fingerprint := by
  constructor
  · have hok : (runOddName "a\"\n// fingerprint: " .json).toOption.isSome = true := by
      decide +kernel
    cases h : runOddName "a\"\n// fingerprint: " .json with
    | ok out => exact ⟨out, rfl, read?_of_run _ _ _ _ .json h⟩
    | error e =>
        rw [h] at hok
        cases hok
  · have hok : (runOddName "shop::Order" .rust).toOption.isSome = true := by decide +kernel
    cases h : runOddName "shop::Order" .rust with
    | ok out => exact ⟨out, rfl, read?_of_run _ _ _ _ .rust h⟩
    | error e =>
        rw [h] at hok
        cases hok

end Stamp

end InstanceForge
