import InstanceForge.Proofs.Graph.Agreement
import InstanceForge.Proofs.Basic
import InstanceForge.Proofs.Run.Stages

/-!
# Runs on providers that agree

What a run renders depends on the names that the reached types mention, in their order. Other
types, field names and the wrappers around a name may change without a change to its text.
-/

namespace InstanceForge

namespace Run

variable {request : Request} {S S' : Provider}

theorem graphFor_of_shared (finite : request.scope = .shared -> S.FinitelyReaches request.root)
    (hscope : request.scope = .shared) :
    graphFor request S finite = TypeGraph.discover S request.root (finite hscope) := by
  unfold graphFor
  split
  · rfl
  · next h => rw [h] at hscope; cases hscope

/-- Shared runs on providers that agree end alike, whatever stage they end in. -/
theorem run_alike (finite : request.scope = .shared -> S.FinitelyReaches request.root)
    (finite' : request.scope = .shared -> S'.FinitelyReaches request.root)
    (h : S.Agree S' request.root) (hscope : request.scope = .shared) (engine : Engine)
    (emitter : Emitter) :
    run request S finite engine emitter = run request S' finite' engine emitter ∨
      ∃ e e', run request S finite engine emitter = .error (.graph e) ∧
        run request S' finite' engine emitter = .error (.graph e') ∧ e.Alike e' := by
  rcases TypeGraph.discover_alike h (finite hscope) (finite' hscope) with
    ⟨g, hok, hok'⟩ | ⟨e, e', herror, herror', halike⟩
  · rw [← graphFor_of_shared _ hscope] at hok hok'
    exact .inl ((run_of_graphFor_eq_ok hok).trans (run_of_graphFor_eq_ok hok').symm)
  · rw [← graphFor_of_shared _ hscope] at herror herror'
    exact .inr ⟨e, e', run_of_graphFor_eq_error herror, run_of_graphFor_eq_error herror', halike⟩

/-- Providers that agree from a root give one graph or alike errors, and a shared run that
succeeds on one gives the same manifest and the same text on the other. -/
theorem discover_and_run_of_agree (S S' : Provider) (root : String)
    (finite : S.FinitelyReaches root) (finite' : S'.FinitelyReaches root)
    (h : S.Agree S' root) :
    ((∃ g, TypeGraph.discover S root finite = .ok g ∧
        TypeGraph.discover S' root finite' = .ok g) ∨
      ∃ e e', TypeGraph.discover S root finite = .error e ∧
        TypeGraph.discover S' root finite' = .error e' ∧ e.Alike e') ∧
    ∀ (request : Request) (hroot : request.root = root), request.scope = .shared ->
      ∀ (engine : Engine) (emitter : Emitter) (out : RunOutput),
        run request S (fun _ => hroot ▸ finite) engine emitter = .ok out ↔
          run request S' (fun _ => hroot ▸ finite') engine emitter = .ok out := by
  refine ⟨TypeGraph.discover_alike h finite finite', ?_⟩
  intro request hroot hscope engine emitter out
  subst hroot
  rcases run_alike (fun _ => finite) (fun _ => finite') h hscope engine emitter with
    hsame | ⟨e, e', herror, herror', _⟩
  · rw [hsame]
  · rw [herror, herror']
    simp

/-- The types of the diamond behind other fields and in other wrappers, and two more types. -/
def reshapedDiamond : Registry :=
  ⟨[⟨"Stray", .record, [⟨"lost", .named "Nowhere"⟩]⟩,
    ⟨"Address", .record, []⟩,
    ⟨"Line", .record, [⟨"to", .sequence (.named "Address")⟩]⟩,
    ⟨"Order", .record, [⟨"parts", .map (.optional (.named "Address"))
      (.map (.named "String") (.named "Line"))⟩]⟩,
    ⟨"Color", .enum, []⟩]⟩

theorem agree_reshapedDiamond :
    TypeGraph.diamond.provider.Agree reshapedDiamond.provider "Order" := by
  have hmem : ∀ {name}, TypeGraph.diamond.provider.Reaches "Order" name ->
      name ∈ ["Order", "Line", "Address"] := Provider.mem_of_reaches (by decide) (by decide)
  have hasked : ∀ {name}, TypeGraph.diamond.provider.Asked "Order" name ->
      name ∈ ["Order", "Line", "Address", "String"] := by
    intro name h
    cases h with
    | root => decide
    | mention howner hname =>
        exact (by decide : ∀ owner ∈ ["Order", "Line", "Address"],
          ∀ name ∈ TypeGraph.diamond.provider.mentions owner,
            name ∈ ["Order", "Line", "Address", "String"]) _ (hmem howner) _ hname
  refine ⟨fun name h => ?_, fun name h => ?_, fun name h => ?_⟩
  · exact (by decide : ∀ name ∈ ["Order", "Line", "Address"],
      TypeGraph.diamond.provider.mentions name = reshapedDiamond.provider.mentions name) name
      (hmem h)
  · exact (by decide : ∀ name ∈ ["Order", "Line", "Address", "String"],
      TypeGraph.diamond.provider.isComposite name = reshapedDiamond.provider.isComposite name)
      name (hasked h)
  · exact (by decide : ∀ name ∈ ["Order", "Line", "Address", "String"],
      TypeGraph.diamond.provider.resolves name = reshapedDiamond.provider.resolves name) name
      (hasked h)

def runOrder (types : Registry) : Except RunError RunOutput :=
  run ⟨"Order", ["Encoder"], .shared, []⟩ types.provider (fun _ => types.finitelyReaches "Order")
    (Engine.ofTemplate Template.standard) OutputFormat.rust.emitter

theorem runOrder_diamond : ∃ out, runOrder TypeGraph.diamond = .ok out := by
  have hrun : runOrder TypeGraph.diamond = render ⟨"Order", ["Encoder"], .shared, []⟩
      (TypeGraph.ofNames TypeGraph.diamond.provider ["Order", "Address", "Line"])
      (Engine.ofTemplate Template.standard) OutputFormat.rust.emitter :=
    run_of_graphFor_eq_ok (TypeGraph.discover_eq_ofNames_diamond _)
  refine exists_of_isSome_toOption ?_
  rw [hrun]
  decide +kernel

/-- What is rendered for the diamond is rendered for its other shape. -/
theorem runOrder_reshapedDiamond :
    TypeGraph.diamond.provider.Agree reshapedDiamond.provider "Order" ∧
      ∃ out, runOrder TypeGraph.diamond = .ok out ∧ runOrder reshapedDiamond = .ok out := by
  refine ⟨agree_reshapedDiamond, ?_⟩
  obtain ⟨out, hout⟩ := runOrder_diamond
  have hspec := (discover_and_run_of_agree _ _ "Order"
    (TypeGraph.diamond.finitelyReaches "Order") (reshapedDiamond.finitelyReaches "Order")
    agree_reshapedDiamond).2 ⟨"Order", ["Encoder"], .shared, []⟩ rfl rfl
  exact ⟨out, hout, (hspec _ _ out).1 hout⟩

end Run

end InstanceForge
