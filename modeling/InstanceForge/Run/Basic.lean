import InstanceForge.Declaration.Template
import InstanceForge.Emit.Stamp
import InstanceForge.Graph.Discover

/-!
# Runs

One run goes from a request to rendered text: the type graph, the planned declarations, their
initializers, the rendering. The first stage that fails ends it.
-/

namespace InstanceForge

structure Request where
  root : String
  capabilities : List String
  scope : Scope
  importHints : List String
  deriving DecidableEq

structure RunOutput where
  graph : TypeGraph
  manifest : Manifest
  text : String

inductive RunError where
  | graph (cause : GraphError)
  | plan (cause : PlanError)
  | derivation (typeName capability : String) (cause : DerivationError)
  | emit (cause : EmitError)
  deriving DecidableEq

def RunError.message : RunError -> String
  | graph cause => cause.message
  | plan cause => cause.message
  | derivation typeName capability cause =>
      "derivation failed for `" ++ typeName ++ "` (" ++ capability ++ "): " ++ cause.message
  | emit cause => cause.message

namespace Run

def deriveAll (engine : Engine) : List Declaration -> Except RunError (List DerivedDeclaration)
  | [] => .ok []
  | d :: rest =>
      match engine.derive d.node d.capability with
      | .error cause => .error (.derivation d.node.typeName d.capability cause)
      | .ok initializer =>
          match deriveAll engine rest with
          | .error e => .error e
          | .ok derived => .ok (⟨d, initializer⟩ :: derived)

/-- The import hints that a scope keeps; beside a type there is nothing to import. -/
def hintsFor : Scope -> List String -> List String
  | .shared, hints => hints
  | .besideType, _ => []

/-- The types that a request is about: all that its root reaches, or the root alone. -/
def graphFor (request : Request) (S : Provider)
    (finite : request.scope = .shared -> S.FinitelyReaches request.root) :
    Except GraphError TypeGraph :=
  match h : request.scope with
  | .shared => TypeGraph.discover S request.root (finite h)
  | .besideType => TypeGraph.single S request.root

def render (request : Request) (graph : TypeGraph) (engine : Engine) (emitter : Emitter) :
    Except RunError RunOutput :=
  match Declaration.plan graph request.capabilities request.scope with
  | .error cause => .error (.plan cause)
  | .ok declarations =>
      match deriveAll engine declarations with
      | .error e => .error e
      | .ok derived =>
          let manifest : Manifest :=
            { root := request.root
              importHints := hintsFor request.scope request.importHints
              declarations := ⟨request.scope, derived⟩ }
          match emitter.emit manifest with
          | .error cause => .error (.emit cause)
          | .ok text => .ok ⟨graph, manifest, text⟩

end Run

def run (request : Request) (S : Provider)
    (finite : request.scope = .shared -> S.FinitelyReaches request.root) (engine : Engine)
    (emitter : Emitter) : Except RunError RunOutput :=
  match Run.graphFor request S finite with
  | .error cause => .error (.graph cause)
  | .ok graph => Run.render request graph engine emitter

end InstanceForge
