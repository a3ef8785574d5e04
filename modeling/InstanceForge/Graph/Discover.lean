import InstanceForge.Graph.Basic

/-!
# Discovery of types

Breadth-first search of the composite types that are reached from a root. A name that does not
resolve ends the search at once; cycles are looked for when it is complete.
-/

namespace InstanceForge

namespace Provider

/-- The first field of a type that mentions a name without a type, and that name. -/
def firstUnresolved? (S : Provider) (name : String) : Option (String × String) :=
  ((S.fieldsOf name).getD []).findSome? fun f =>
    (f.type.innermost.find? fun mention => !S.resolves mention).map fun mention =>
      (f.name, mention)

end Provider

/-- A search: names to visit, names visited, and references by position and name. -/
structure Search where
  pending : List String
  visited : List String
  references : List (Nat × String)

namespace Search

def start (root : String) : Search :=
  { pending := [root], visited := [], references := [] }

/-- Visits a name, with the given names left to visit before those that it refers to. -/
def visit (S : Provider) (s : Search) (name : String) (rest : List String) : Search :=
  let found := S.references name
  let visited := s.visited ++ [name]
  { pending := rest ++ found.filter fun next => !visited.contains next
    visited := visited
    references := s.references ++ found.map fun next => (s.visited.length, next) }

theorem reaches_of_mem_pending_visit {S : Provider} {root : String} {s : Search} {name : String}
    {rest : List String} (hname : S.Reaches root name)
    (hrest : ∀ next ∈ rest, S.Reaches root next) :
    ∀ next ∈ (s.visit S name rest).pending, S.Reaches root next := by
  intro next hmem
  rcases List.mem_append.1 hmem with h | h
  · exact hrest next h
  · exact .step hname (List.mem_filter.1 h).1

theorem countP_notMem_append_lt (names visited : List String) (name : String)
    (hmem : name ∈ names) (hnew : name ∉ visited) :
    names.countP (fun n => decide (n ∉ visited ++ [name])) <
      names.countP (fun n => decide (n ∉ visited)) := by
  induction names with
  | nil => simp at hmem
  | cons first rest ih =>
      have hle : rest.countP (fun n => decide (n ∉ visited ++ [name])) <=
          rest.countP (fun n => decide (n ∉ visited)) := by
        apply List.countP_mono_left
        intro x _ hx
        simp only [List.mem_append, List.mem_singleton, not_or, decide_eq_true_eq] at hx ⊢
        exact hx.1
      rcases List.mem_cons.1 hmem with h | h
      · subst h
        rw [List.countP_cons_of_neg (by simp), List.countP_cons_of_pos (by simpa using hnew)]
        omega
      · have hlt := ih h
        rw [List.countP_cons, List.countP_cons]
        by_cases hfirst : first ∈ visited
        · simp [hfirst] at hlt ⊢
          exact hlt
        · by_cases heq : first = name
          · simp [heq, hnew] at hlt ⊢
            omega
          · simp [hfirst, heq] at hlt ⊢
            exact hlt

/-- Visits names until none is left, or one is met that mentions a name without a type. -/
def run (S : Provider) (root : String) (finite : S.FinitelyReaches root) (s : Search)
    (reached : ∀ name ∈ s.pending, S.Reaches root name) : Except GraphError Search :=
  match hp : s.pending with
  | [] => .ok s
  | name :: rest =>
      have hname : S.Reaches root name := reached name (by rw [hp]; exact List.mem_cons_self)
      have hrest : ∀ next ∈ rest, S.Reaches root next := fun next h =>
        reached next (by rw [hp]; exact List.mem_cons_of_mem _ h)
      if hv : name ∈ s.visited then
        run S root finite { s with pending := rest } hrest
      else
        match S.firstUnresolved? name with
        | some (field, mention) =>
            .error ⟨mention, .unresolved (some (name ++ "." ++ field))⟩
        | none =>
            run S root finite (s.visit S name rest) (reaches_of_mem_pending_visit hname hrest)
termination_by
  ((Classical.choose finite).countP (fun n => decide (n ∉ s.visited)), s.pending.length)
decreasing_by
  · apply Prod.Lex.right
    simp [hp]
  · apply Prod.Lex.left
    exact countP_notMem_append_lt _ _ _ (Classical.choose_spec finite name hname) hv

/-- The references between visited names by position, each pair once. -/
def edges (s : Search) : Cycle.Edges :=
  (s.references.filterMap fun r =>
    (s.visited.idxOf? r.2).map fun index => (r.1, index)).eraseDups

end Search

namespace TypeGraph

/-- The graph of a finished search, unless it has a cycle. -/
def ofSearch (s : Search) : Except GraphError TypeGraph :=
  let edges := s.edges
  match Cycle.find? s.visited.length edges with
  | none => .ok { nodes := s.visited.map TypeNode.ofType, edges := edges }
  | some members =>
      match members.filterMap fun index => s.visited[index]? with
      | [] => .ok { nodes := s.visited.map TypeNode.ofType, edges := edges }
      | first :: rest => .error ⟨first, .cyclic (first :: rest)⟩

def discover (S : Provider) (root : String) (finite : S.FinitelyReaches root) :
    Except GraphError TypeGraph :=
  match rootError? S root with
  | some e => .error e
  | none =>
      match Search.run S root finite (Search.start root) (by
          intro name h
          rw [List.mem_singleton.1 h]
          exact .root) with
      | .error e => .error e
      | .ok s => ofSearch s

end TypeGraph

end InstanceForge
