import InstanceForge.Schema.Registry

/-!
# Schema providers

What the discovery of types asks about names: whether a name is a composite type, which fields
it has, and whether it stands for any known type. A registry is a provider; a discovery ends
because only finitely many composite types can be reached from its root.
-/

namespace InstanceForge

structure Provider where
  isComposite : String -> Bool
  fieldsOf : String -> Option (List Field)
  resolves : String -> Bool

namespace Provider

/-- The names that the fields of a type are made of, in the order in which they are written. -/
def mentions (S : Provider) (name : String) : List String :=
  ((S.fieldsOf name).getD []).flatMap fun f => f.type.innermost

/-- The composite types among the names that the fields of a type are made of. -/
def references (S : Provider) (name : String) : List String :=
  (S.mentions name).filter S.isComposite

inductive Reaches (S : Provider) (root : String) : String -> Prop where
  | root : Reaches S root root
  | step {name next : String} :
      Reaches S root name -> next ∈ S.references name -> Reaches S root next

def FinitelyReaches (S : Provider) (root : String) : Prop :=
  ∃ names : List String, ∀ name, S.Reaches root name -> name ∈ names

/-- Finitely many composite names leave finitely many names to reach. -/
theorem finitelyReaches_of_isComposite_subset (S : Provider) (root : String)
    (names : List String) (h : ∀ name, S.isComposite name = true -> name ∈ names) :
    S.FinitelyReaches root := by
  refine ⟨root :: names, fun name hr => ?_⟩
  cases hr with
  | root => exact List.mem_cons_self
  | step _ hm =>
      exact List.mem_cons_of_mem _ (h _ (List.mem_filter.1 hm).2)

end Provider

namespace Registry

/-- A registry answers with its records; a name resolves if it is declared or builtin. -/
def provider (r : Registry) : Provider where
  isComposite name :=
    match r.get? name with
    | some d => d.kind = .record
    | none => false
  fieldsOf name :=
    match r.get? name with
    | some d => if d.kind = .record then some d.fields else none
    | none => none
  resolves name := (r.kindOf? name).isSome

theorem mem_names_of_get?_eq_some {r : Registry} {name : String} {d : TypeDecl}
    (h : r.get? name = some d) : name ∈ r.names := by
  have hmem := List.mem_of_find?_eq_some h
  have hname := List.find?_some h
  simp only [beq_iff_eq] at hname
  exact List.mem_map.2 ⟨d, hmem, hname⟩

theorem mem_names_of_isComposite {r : Registry} {name : String}
    (h : r.provider.isComposite name = true) : name ∈ r.names := by
  unfold provider at h
  simp only at h
  split at h
  · next d hd => exact mem_names_of_get?_eq_some hd
  · simp at h

theorem finitelyReaches (r : Registry) (root : String) : r.provider.FinitelyReaches root :=
  r.provider.finitelyReaches_of_isComposite_subset root r.names
    fun _ h => mem_names_of_isComposite h

end Registry

end InstanceForge
