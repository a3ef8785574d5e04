import InstanceForge.Proofs.Schema.Registry.Merging
import InstanceForge.Run.Basic

/-!
# Runs on merged documents

A run asks a registry about types by name alone. So of documents that are merged in another order
it renders the same text, or it fails for the same reason.
-/

namespace InstanceForge

namespace Run

open Registry (ofDocuments Operation.documents)

def runOn (types : Registry) (request : Request) (engine : Engine) (emitter : Emitter) :
    Except RunError RunOutput :=
  run request types.provider (fun _ => types.finitelyReaches request.root) engine emitter

theorem run_congr {request : Request} {S S' : Provider} (h : S = S')
    (finite : request.scope = .shared -> S.FinitelyReaches request.root)
    (finite' : request.scope = .shared -> S'.FinitelyReaches request.root) (engine : Engine)
    (emitter : Emitter) :
    run request S finite engine emitter = run request S' finite' engine emitter := by
  subst h
  rfl

/--
Documents are refused in every order, or they are merged in every order. The merged registries
give the same answers about every name, those kept as three structures too, and every run on one
of them ends as on the other.
-/
theorem runOn_of_perm {sources others : List (DocumentFormat × String)}
    (hperm : sources.Perm others) :
    (∃ e e', ofDocuments sources = .error e ∧ ofDocuments others = .error e') ∨
      ∃ r s, ofDocuments sources = .ok r ∧ ofDocuments others = .ok s ∧ r.Alike s ∧
        (IndexedRegistry.run (Operation.documents sources)).Shows r ∧
        (IndexedRegistry.run (Operation.documents others)).Shows s ∧
        runOn r = runOn s := by
  rcases Registry.ofDocuments_of_perm hperm with herror | ⟨r, s, hr, hs, halike⟩
  · exact .inl herror
  · refine .inr ⟨r, s, hr, hs, halike, Registry.shows_of_ofDocuments hr,
      Registry.shows_of_ofDocuments hs, ?_⟩
    funext request engine emitter
    exact run_congr halike.provider_eq _ _ engine emitter

def orderSources : List (DocumentFormat × String) :=
  [(.toml, "[types.Order]\nfields = [\x7b name = \"lines\", type = \"Vec<Line>\" \x7d]\n"),
    (.json, "\x7b\"types\": \x7b\"Line\": \x7b\x7d\x7d\x7d")]

/-- The lines may be declared before the order or after it. -/
theorem runOn_of_perm_orderSources :
    orderSources.Perm orderSources.reverse ∧
      ∃ r s, ofDocuments orderSources = .ok r ∧ ofDocuments orderSources.reverse = .ok s ∧
        r.names = ["Order", "Line"] ∧ s.names = ["Line", "Order"] ∧ runOn r = runOn s := by
  have hperm : orderSources.Perm orderSources.reverse := (List.reverse_perm _).symm
  have hnames : (ofDocuments orderSources).toOption.map Registry.names = some ["Order", "Line"] ∧
      (ofDocuments orderSources.reverse).toOption.map Registry.names =
        some ["Line", "Order"] := by decide +kernel
  refine ⟨hperm, ?_⟩
  rcases runOn_of_perm hperm with ⟨e, e', he, _⟩ | ⟨r, s, hr, hs, _, _, _, hrun⟩
  · rw [he] at hnames
    cases hnames.1
  · rw [hr, hs] at hnames
    exact ⟨r, s, hr, hs, Option.some.inj hnames.1, Option.some.inj hnames.2, hrun⟩

end Run

end InstanceForge
