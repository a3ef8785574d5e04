import InstanceForge.Proofs.SymbolTable
import InstanceForge.Proofs.Schema.Registry.Coherence

/-!
# Indexed registries

A registry kept as three structures: the numbers of the names, the declarations by number and the
numbers in the order of declaration. A name gets its number before it is known to be new, so a
declaration that is refused may leave a number behind, and a document that fails half-way leaves
what it declared. What can be seen of an indexed registry is the list of declarations that the
same operations give.
-/

namespace InstanceForge

open Registry (Operation)

structure IndexedRegistry where
  symbols : SymbolTable
  table : Std.HashMap Nat TypeDecl
  order : List Nat

namespace IndexedRegistry

/-! ## Operations -/

def empty : IndexedRegistry :=
  ⟨.empty, ∅, []⟩

def types (x : IndexedRegistry) : List TypeDecl :=
  x.order.filterMap fun id => x.table[id]?

def size (x : IndexedRegistry) : Nat :=
  x.table.size

def get? (x : IndexedRegistry) (name : String) : Option TypeDecl :=
  (x.symbols.find? name).bind fun id => x.table[id]?

def kindOf? (x : IndexedRegistry) (name : String) : Option TypeKind :=
  match x.get? name with
  | some d => some d.kind
  | none => if name ∈ Registry.builtinNames then some .opaqueType else none

def provider (x : IndexedRegistry) : Provider where
  isComposite name := (x.get? name).any fun d => d.kind = .record
  fieldsOf name := ((x.get? name).filter fun d => d.kind = .record).map (·.fields)
  resolves name := (x.kindOf? name).isSome

def declare (x : IndexedRegistry) (d : TypeDecl) : IndexedRegistry × Option SchemaError :=
  let (id, symbols) := x.symbols.insert d.name
  if id ∈ x.table then (⟨symbols, x.table, x.order⟩, some (.duplicateType d.name))
  else (⟨symbols, x.table.insert id d, x.order ++ [id]⟩, none)

def declareRecord (x : IndexedRegistry) (name : String) (fields : List Field) :
    IndexedRegistry × Option SchemaError :=
  match Registry.repeatedField? [] fields with
  | some field => (x, some (.duplicateField name field))
  | none => x.declare ⟨name, .record, fields⟩

def declareWritten (x : IndexedRegistry) (name : String) (t : Schema.WrittenType) :
    IndexedRegistry × Option SchemaError :=
  match t.kind with
  | .record =>
      match Registry.readFields name t.fields with
      | .error e => (x, some e)
      | .ok fields => x.declareRecord name fields
  | kind =>
      if t.fields.isEmpty then x.declare ⟨name, kind, []⟩
      else (x, some (.fieldsOnNonRecord name))

def addTypes (x : IndexedRegistry) : Schema.Document -> IndexedRegistry × Option SchemaError
  | [] => (x, none)
  | (name, t) :: rest =>
      match x.declareWritten name t with
      | (next, some e) => (next, some e)
      | (next, none) => next.addTypes rest

def apply (x : IndexedRegistry) : Operation -> IndexedRegistry × Option SchemaError
  | .record name fields => x.declareRecord name fields
  | .enum name => x.declare ⟨name, .enum, []⟩
  | .opaqueType name => x.declare ⟨name, .opaqueType, []⟩
  | .document format text =>
      match Schema.Document.read? format text with
      | none => (x, some .malformed)
      | some doc => x.addTypes doc

def runFrom (x : IndexedRegistry) : List Operation -> IndexedRegistry
  | [] => x
  | op :: ops => (x.apply op).1.runFrom ops

def run (ops : List Operation) : IndexedRegistry :=
  empty.runFrom ops

/-! ## The three structures in step -/

/-- The structures are in step, and their declarations are those of a registry. -/
structure Holds (x : IndexedRegistry) (r : Registry) : Prop where
  order_nodup : x.order.Nodup
  mem_order_iff : ∀ id, id ∈ x.order ↔ id ∈ x.table
  size_eq : x.table.size = x.order.length
  symbol : ∀ (id : Nat) (d : TypeDecl), x.table[id]? = some d -> x.symbols.symbol? id = some d.name
  types_eq : x.types = r.decls

variable {x : IndexedRegistry} {r : Registry} {d : TypeDecl} {id : Nat} {name : String}

theorem holds_empty : Holds empty Registry.empty where
  order_nodup := List.nodup_nil
  mem_order_iff id := by simp [empty]
  size_eq := by simp [empty]
  symbol id d h := by simp [empty] at h
  types_eq := rfl

theorem Holds.mem_decls_iff (h : Holds x r) :
    d ∈ r.decls ↔ ∃ id : Nat, x.table[id]? = some d := by
  rw [← h.types_eq, types, List.mem_filterMap]
  constructor
  · rintro ⟨id, _, hid⟩
    exact ⟨id, hid⟩
  · rintro ⟨id, hid⟩
    refine ⟨id, (h.mem_order_iff id).2 ?_, hid⟩
    rw [Std.HashMap.mem_iff_isSome_getElem?, hid]
    rfl

theorem Holds.get?_eq_some_iff (h : Holds x r) :
    x.get? name = some d ↔ d ∈ r.decls ∧ d.name = name := by
  rw [h.mem_decls_iff, get?, Option.bind_eq_some_iff]
  constructor
  · rintro ⟨id, hfind, hid⟩
    rw [SymbolTable.find?_eq_some_iff, h.symbol id d hid, Option.some.injEq] at hfind
    exact ⟨⟨id, hid⟩, hfind⟩
  · rintro ⟨⟨id, hid⟩, rfl⟩
    exact ⟨id, SymbolTable.find?_eq_some_iff.2 (h.symbol id d hid), hid⟩

theorem Holds.size_registry (h : Holds x r) : x.size = r.size := by
  have hall : ∀ id ∈ x.order, (x.table[id]?).isSome = true := by
    intro id hid
    rw [← Std.HashMap.mem_iff_isSome_getElem?]
    exact (h.mem_order_iff id).1 hid
  have hlength : x.types.length = x.order.length := List.filterMap_length_eq_length.2 hall
  rw [size, h.size_eq, ← hlength, h.types_eq, Registry.size]

/-- The number of a name is in use exactly if the name is declared. -/
theorem Holds.mem_table_insert_iff (h : Holds x r) :
    (x.symbols.insert name).1 ∈ x.table ↔ name ∈ r.names := by
  rw [Std.HashMap.mem_iff_isSome_getElem?, Option.isSome_iff_exists, Registry.names, List.mem_map]
  have hnumber := x.symbols.symbol?_insert name
  -- The number may be older than any declaration: one that was refused leaves it behind.
  constructor
  · rintro ⟨d, hd⟩
    have hname := SymbolTable.symbol?_insert_of_eq_some (s := name) (h.symbol _ d hd)
    rw [hnumber, Option.some.injEq] at hname
    exact ⟨d, h.mem_decls_iff.2 ⟨_, hd⟩, hname.symm⟩
  · rintro ⟨d, hd, rfl⟩
    obtain ⟨id, hid⟩ := h.mem_decls_iff.1 hd
    have hname := SymbolTable.symbol?_insert_of_eq_some (s := d.name) (h.symbol id d hid)
    rw [SymbolTable.number_unique hnumber hname]
    exact ⟨d, hid⟩

/-- A number more does not show. -/
theorem Holds.insert_symbol (h : Holds x r) (name : String) :
    Holds ⟨(x.symbols.insert name).2, x.table, x.order⟩ r where
  order_nodup := h.order_nodup
  mem_order_iff := h.mem_order_iff
  size_eq := h.size_eq
  symbol id d hid := SymbolTable.symbol?_insert_of_eq_some (h.symbol id d hid)
  types_eq := h.types_eq

theorem Holds.insert (h : Holds x r) (hid : id ∉ x.table)
    (hsymbol : x.symbols.symbol? id = some d.name) :
    Holds ⟨x.symbols, x.table.insert id d, x.order ++ [id]⟩ (r.add d) := by
  have horder : id ∉ x.order := mt (h.mem_order_iff id).1 hid
  have hold : ∀ other ∈ x.order, (x.table.insert id d)[other]? = x.table[other]? := by
    intro other hother
    have hne : ¬ (id == other) = true := by
      rw [beq_iff_eq]
      rintro rfl
      exact horder hother
    rw [Std.HashMap.getElem?_insert, if_neg hne]
  constructor
  · rw [List.nodup_append]
    refine ⟨h.order_nodup, List.nodup_singleton id, ?_⟩
    rintro other hother new hnew rfl
    rw [List.mem_singleton] at hnew
    exact horder (hnew ▸ hother)
  · intro other
    rw [List.mem_append, List.mem_singleton, Std.HashMap.mem_insert, beq_iff_eq,
      h.mem_order_iff other, or_comm, eq_comm]
  · rw [Std.HashMap.size_insert, if_neg hid, List.length_append, h.size_eq]
    rfl
  · intro other c hc
    rw [Std.HashMap.getElem?_insert] at hc
    split at hc
    · next heq =>
        rw [beq_iff_eq] at heq
        cases hc
        rw [← heq]
        exact hsymbol
    · exact h.symbol other c hc
  · have hnew : (x.table.insert id d)[id]? = some d := Std.HashMap.getElem?_insert_self
    rw [types, List.filterMap_append, List.filterMap_congr hold]
    simp only [List.filterMap_cons, List.filterMap_nil, hnew]
    exact congrArg (· ++ [d]) h.types_eq

/-- An operation on an indexed registry does what it does on the registry that it holds. -/
def Follows (y : IndexedRegistry × Option SchemaError) (s : Registry × Option SchemaError) :
    Prop :=
  Holds y.1 s.1 ∧ y.2 = s.2

theorem Holds.declare (h : Holds x r) (d : TypeDecl) :
    Follows (x.declare d) (r.settle (r.declare d)) := by
  by_cases hmem : d.name ∈ r.names
  · have hid := h.mem_table_insert_iff.2 hmem
    simp only [Registry.declare_of_mem hmem, IndexedRegistry.declare, if_pos hid]
    exact ⟨h.insert_symbol d.name, rfl⟩
  · have hid := mt h.mem_table_insert_iff.1 hmem
    simp only [Registry.declare_of_notMem hmem, IndexedRegistry.declare, if_neg hid]
    exact ⟨(h.insert_symbol d.name).insert hid (x.symbols.symbol?_insert d.name), rfl⟩

theorem Holds.declareRecord (h : Holds x r) (name : String) (fields : List Field) :
    Follows (x.declareRecord name fields) (r.settle (r.declareRecord name fields)) := by
  rw [IndexedRegistry.declareRecord, Registry.declareRecord]
  cases Registry.repeatedField? [] fields with
  | some field => exact ⟨h, rfl⟩
  | none => exact h.declare _

theorem Holds.declareWritten (h : Holds x r) (name : String) (t : Schema.WrittenType) :
    Follows (x.declareWritten name t) (r.settle (r.declareWritten name t)) := by
  have hplain : ∀ kind : TypeKind, Follows
      (if t.fields.isEmpty then x.declare ⟨name, kind, []⟩
        else (x, some (.fieldsOnNonRecord name)))
      (r.settle (if t.fields.isEmpty then r.declare ⟨name, kind, []⟩
        else .error (.fieldsOnNonRecord name))) := by
    intro kind
    by_cases hempty : t.fields.isEmpty = true
    · rw [if_pos hempty, if_pos hempty]
      exact h.declare _
    · rw [if_neg hempty, if_neg hempty]
      exact ⟨h, rfl⟩
  rw [IndexedRegistry.declareWritten, Registry.declareWritten]
  cases hkind : t.kind with
  | record =>
      cases hfields : Registry.readFields name t.fields with
      | error e => exact ⟨h, rfl⟩
      | ok fields => exact h.declareRecord name fields
  | enum => exact hplain .enum
  | opaqueType => exact hplain .opaqueType

theorem Holds.addTypes (h : Holds x r) (doc : Schema.Document) :
    Follows (x.addTypes doc) (r.addTypes doc) := by
  induction doc generalizing x r with
  | nil => exact ⟨h, rfl⟩
  | cons first rest ih =>
      obtain ⟨name, t⟩ := first
      obtain ⟨hheld, herror⟩ := h.declareWritten name t
      rw [IndexedRegistry.addTypes, Registry.addTypes]
      cases hwritten : r.declareWritten name t with
      | error e =>
          rw [hwritten] at hheld herror
          cases hdeclared : x.declareWritten name t with
          | mk y error =>
              rw [hdeclared] at hheld herror
              cases herror
              exact ⟨hheld, rfl⟩
      | ok next =>
          rw [hwritten] at hheld herror
          cases hdeclared : x.declareWritten name t with
          | mk y error =>
              rw [hdeclared] at hheld herror
              cases herror
              exact ih hheld

theorem Holds.apply (h : Holds x r) (op : Operation) : Follows (x.apply op) (r.apply op) := by
  cases op with
  | record name fields => exact h.declareRecord name fields
  | enum name => exact h.declare _
  | opaqueType name => exact h.declare _
  | document format text =>
      rw [IndexedRegistry.apply, Registry.apply, Registry.addDocument]
      cases Schema.Document.read? format text with
      | none => exact ⟨h, rfl⟩
      | some doc => exact h.addTypes doc

theorem Holds.runFrom (h : Holds x r) (ops : List Operation) :
    Holds (x.runFrom ops) (r.runFrom ops) := by
  induction ops generalizing x r with
  | nil => exact h
  | cons op ops ih => exact ih (h.apply op).1

/-! ## What can be seen -/

/-- All that can be asked of an indexed registry is answered as by a registry. -/
structure Shows (x : IndexedRegistry) (r : Registry) : Prop where
  types_eq : x.types = r.decls
  size_eq : x.size = r.size
  get?_eq : ∀ name, x.get? name = r.get? name
  kindOf?_eq : ∀ name, x.kindOf? name = r.kindOf? name
  provider_eq : x.provider = r.provider

theorem Holds.shows (h : Holds x r) (hr : r.Coherent) : Shows x r := by
  have hget : x.get? = r.get? := by
    funext name
    ext d
    rw [h.get?_eq_some_iff, hr.get?_eq_some_iff]
  have hkind : x.kindOf? = r.kindOf? := by
    funext name
    cases hname : r.get? name <;> simp only [kindOf?, Registry.kindOf?, hget, hname]
  refine ⟨h.types_eq, h.size_registry, congrFun hget, congrFun hkind, ?_⟩
  rw [provider, Registry.provider, hget, hkind]
  congr 1
  · funext name
    cases r.get? name <;> simp
  · funext name
    cases r.get? name with
    | none => rfl
    | some d => by_cases hrecord : d.kind = .record <;> simp [hrecord]

/--
After any operations the registry is coherent and holds what they declared, one after another;
this is what the indexed registry shows, and the next operation ends alike on both. A direct
declaration that fails, or a document that is none, changes nothing that can be seen.
-/
theorem run_history (ops : List Operation) :
    (Registry.run ops).Coherent ∧ (Registry.run ops).Answers ∧
      Registry.History Registry.empty ops (Registry.run ops).decls (Registry.run ops) ∧
      (run ops).Shows (Registry.run ops) ∧
      ∀ op, ((run ops).apply op).2 = ((Registry.run ops).apply op).2 ∧
        ((run ops).apply op).1.Shows ((Registry.run ops).apply op).1 ∧
        ∀ e, op.Whole -> ((run ops).apply op).2 = some e ->
          ((run ops).apply op).1.Shows (Registry.run ops) := by
  obtain ⟨log, hhistory, hlog⟩ := Registry.exists_history Registry.empty ops
  have hdecls : (Registry.run ops).decls = log := hlog
  have hcoherent : (Registry.run ops).Coherent := Registry.coherent_empty.history hhistory
  have hholds : Holds (run ops) (Registry.run ops) := holds_empty.runFrom ops
  refine ⟨hcoherent, hcoherent.answers, hdecls ▸ hhistory, hholds.shows hcoherent, ?_⟩
  intro op
  obtain ⟨hnext, herror⟩ := hholds.apply op
  obtain ⟨declared, heffect, hadded⟩ := Registry.effect_apply (Registry.run ops) op
  have hshows := hnext.shows (hcoherent.effect heffect hadded)
  refine ⟨herror, hshows, ?_⟩
  intro e hwhole hfail
  rw [herror] at hfail
  rwa [Registry.apply_eq_of_error hwhole hfail] at hshows

example : (Registry.run [.enum "B",
    .document .toml "[types.B]\n[types.A]\nkind = \"enum\"\n[types.C]\n"]).names = ["B", "A"] := by
  decide +kernel

end IndexedRegistry

end InstanceForge
