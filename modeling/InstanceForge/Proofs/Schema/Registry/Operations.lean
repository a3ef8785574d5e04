import InstanceForge.Proofs.Basic
import InstanceForge.Proofs.Schema.Document
import InstanceForge.Schema.Provider
import Mathlib.Data.List.Nodup

/-!
# Operations on registries

What an operation declares is said without its steps: a direct declaration is accepted if its
field names are distinct and its name is new, and a document has its types accepted in the byte
order of their names up to the first that is not. A registry that is reached by operations holds
what these declared, one after another.
-/

namespace InstanceForge

/-- A declaration in its own right: only a record has fields, and no two of one name. -/
structure TypeDecl.Proper (d : TypeDecl) : Prop where
  fields_eq_nil : d.kind ≠ .record -> d.fields = []
  nodup : (d.fields.map (·.name)).Nodup

namespace Registry

/-! ## Operations -/

inductive Operation where
  | record (name : String) (fields : List Field)
  | enum (name : String)
  | opaqueType (name : String)
  | document (format : DocumentFormat) (text : String)

def settle (r : Registry) : Except SchemaError Registry -> Registry × Option SchemaError
  | .ok next => (next, none)
  | .error e => (r, some e)

def apply (r : Registry) : Operation -> Registry × Option SchemaError
  | .record name fields => r.settle (r.declareRecord name fields)
  | .enum name => r.settle (r.declareEnum name)
  | .opaqueType name => r.settle (r.declareOpaque name)
  | .document format text => r.addDocument format text

def runFrom (r : Registry) : List Operation -> Registry
  | [] => r
  | op :: ops => (r.apply op).1.runFrom ops

def run (ops : List Operation) : Registry :=
  empty.runFrom ops

/-! ## What operations declare -/

/-- The declaration that an operation asks for, unless it merges a document. -/
def Operation.request? : Operation -> Option TypeDecl
  | record name fields => some ⟨name, .record, fields⟩
  | enum name => some ⟨name, .enum, []⟩
  | opaqueType name => some ⟨name, .opaqueType, []⟩
  | document _ _ => none

/-- The declaration that is written in a document, with the types of its fields read. -/
structure Writes (p : String × Schema.WrittenType) (d : TypeDecl) : Prop where
  name : d.name = p.1
  kind : d.kind = p.2.kind
  fields : List.Forall₂ (fun w f => f.name = w.name ∧ TypeRef.parse w.type = .ok f.type)
    p.2.fields d.fields

structure Accepts (r : Registry) (d : TypeDecl) : Prop where
  proper : d.Proper
  fresh : d.name ∉ r.names

/-- The types of a document are accepted as these declarations. -/
def AcceptsAll (r : Registry) (doc : Schema.Document) (ds : List TypeDecl) : Prop :=
  List.Forall₂ (fun p d => Writes p d ∧ r.Accepts d) doc ds

/-- What an operation declares in a registry, and the reason if it fails. -/
inductive Effect (r : Registry) : Operation -> List TypeDecl -> Option SchemaError -> Prop where
  | declared {op : Operation} {d : TypeDecl} : op.request? = some d -> r.Accepts d ->
      Effect r op [d] none
  | refused {op : Operation} {d : TypeDecl} (e : SchemaError) : op.request? = some d ->
      ¬ r.Accepts d -> Effect r op [] (some e)
  | malformed {format : DocumentFormat} {text : String} :
      Schema.Document.read? format text = none ->
      Effect r (.document format text) [] (some .malformed)
  | merged {format : DocumentFormat} {text : String} {doc : Schema.Document}
      {ds : List TypeDecl} : Schema.Document.read? format text = some doc -> doc.Ascending ->
      r.AcceptsAll doc ds -> Effect r (.document format text) ds none
  | stopped {format : DocumentFormat} {text : String} {doc : Schema.Document}
      {p : String × Schema.WrittenType} {ds : List TypeDecl} (e : SchemaError) :
      Schema.Document.read? format text = some doc -> doc.Ascending -> p ∈ doc ->
      (∀ d, Writes p d -> ¬ r.Accepts d) ->
      r.AcceptsAll (doc.filter fun q => Text.bytes q.1 < Text.bytes p.1) ds ->
      Effect r (.document format text) ds (some e)

/-- The operations lead from one registry to another, and declare these types in this order. -/
inductive History : Registry -> List Operation -> List TypeDecl -> Registry -> Prop where
  | nil (r : Registry) : History r [] [] r
  | cons {r next last : Registry} {op : Operation} {ops : List Operation}
      {declared more : List TypeDecl} {error : Option SchemaError} :
      r.apply op = (next, error) -> Effect r op declared error ->
      next.decls = r.decls ++ declared -> History next ops more last ->
      History r (op :: ops) (declared ++ more) last

/-! ## Single declarations -/

variable {r next : Registry} {d : TypeDecl}

def add (r : Registry) (d : TypeDecl) : Registry :=
  ⟨r.decls ++ [d]⟩

theorem names_add (r : Registry) (d : TypeDecl) : (r.add d).names = r.names ++ [d.name] := by
  simp [names, add]

theorem get?_eq_none_iff {name : String} : r.get? name = none ↔ name ∉ r.names := by
  simp [get?, names]

theorem declare_of_mem (h : d.name ∈ r.names) :
    r.declare d = .error (.duplicateType d.name) := by
  rw [declare]
  split
  · rfl
  · next hnone => exact absurd h (get?_eq_none_iff.1 hnone)

theorem declare_of_notMem (h : d.name ∉ r.names) : r.declare d = .ok (r.add d) := by
  rw [declare, get?_eq_none_iff.2 h]
  rfl

theorem declare_eq_ok_iff : r.declare d = .ok next ↔ d.name ∉ r.names ∧ next = r.add d := by
  by_cases h : d.name ∈ r.names
  · simp [declare_of_mem h, h]
  · simp [declare_of_notMem h, h, eq_comm]

theorem repeatedField?_eq_none_iff {seen : List String} {fields : List Field} :
    repeatedField? seen fields = none ↔
      (fields.map (·.name)).Nodup ∧ ∀ f ∈ fields, f.name ∉ seen := by
  induction fields generalizing seen with
  | nil => simp [repeatedField?]
  | cons f rest ih =>
      rw [repeatedField?]
      split
      · next hseen => simp [hseen]
      · next hseen =>
          rw [ih, List.map_cons, List.nodup_cons, List.forall_mem_cons]
          simp only [List.mem_cons, not_or, List.mem_map, not_exists, not_and]
          grind

theorem declareRecord_eq_ok_iff {name : String} {fields : List Field} :
    r.declareRecord name fields = .ok next ↔
      r.Accepts ⟨name, .record, fields⟩ ∧ next = r.add ⟨name, .record, fields⟩ := by
  have hproper : (⟨name, .record, fields⟩ : TypeDecl).Proper ↔
      repeatedField? [] fields = none := by
    rw [repeatedField?_eq_none_iff]
    constructor
    · intro h
      exact ⟨h.nodup, fun f _ => List.not_mem_nil⟩
    · intro h
      exact ⟨fun hkind => absurd rfl hkind, h.1⟩
  rw [declareRecord]
  split
  · next field hfield =>
      constructor
      · intro h
        cases h
      · rintro ⟨haccepts, _⟩
        rw [hproper.1 haccepts.proper] at hfield
        cases hfield
  · next hnone =>
      rw [declare_eq_ok_iff]
      constructor
      · rintro ⟨hfresh, hnext⟩
        exact ⟨⟨hproper.2 hnone, hfresh⟩, hnext⟩
      · rintro ⟨haccepts, hnext⟩
        exact ⟨haccepts.fresh, hnext⟩

theorem proper_of_fields_eq_nil (h : d.fields = []) : d.Proper :=
  ⟨fun _ => h, by rw [h]; exact List.nodup_nil⟩

theorem accepts_iff_of_fields_eq_nil (h : d.fields = []) : r.Accepts d ↔ d.name ∉ r.names :=
  ⟨fun haccepts => haccepts.fresh, fun hfresh => ⟨proper_of_fields_eq_nil h, hfresh⟩⟩

theorem declare_eq_ok_iff_accepts (h : d.fields = []) :
    r.declare d = .ok next ↔ r.Accepts d ∧ next = r.add d := by
  rw [declare_eq_ok_iff, accepts_iff_of_fields_eq_nil h]

/-- A direct operation succeeds exactly if its declaration is accepted. -/
theorem apply_of_request? {op : Operation} (h : op.request? = some d) :
    (r.Accepts d ∧ r.apply op = (r.add d, none)) ∨
      (¬ r.Accepts d ∧ ∃ e, r.apply op = (r, some e)) := by
  have hsettle : ∀ {result : Except SchemaError Registry},
      (∀ {next}, result = .ok next ↔ r.Accepts d ∧ next = r.add d) ->
      (r.Accepts d ∧ r.settle result = (r.add d, none)) ∨
        (¬ r.Accepts d ∧ ∃ e, r.settle result = (r, some e)) := by
    intro result hresult
    cases result with
    | ok next =>
        obtain ⟨haccepts, rfl⟩ := hresult.1 rfl
        exact .inl ⟨haccepts, rfl⟩
    | error e =>
        refine .inr ⟨fun haccepts => ?_, e, rfl⟩
        cases hresult.2 ⟨haccepts, rfl⟩
  cases op with
  | record name fields =>
      cases h
      exact hsettle declareRecord_eq_ok_iff
  | enum name =>
      cases h
      exact hsettle (declare_eq_ok_iff_accepts rfl)
  | opaqueType name =>
      cases h
      exact hsettle (declare_eq_ok_iff_accepts rfl)
  | document format text => cases h

/-! ## Documents -/

theorem readFields_eq_ok_iff {owner : String} {written : List Schema.WrittenField}
    {fields : List Field} :
    readFields owner written = .ok fields ↔
      List.Forall₂ (fun w f => f.name = w.name ∧ TypeRef.parse w.type = .ok f.type)
        written fields := by
  induction written generalizing fields with
  | nil =>
      rw [readFields, List.forall₂_nil_left_iff, Except.ok.injEq, eq_comm]
  | cons w rest ih =>
      rw [List.forall₂_cons_left_iff]
      constructor
      · intro h
        rw [readFields] at h
        split at h
        · cases h
        next type htype =>
          split at h
          · cases h
          · next others hothers =>
              cases h
              exact ⟨_, others, ⟨rfl, htype⟩, ih.1 hothers, rfl⟩
      · rintro ⟨f, others, ⟨hname, htype⟩, hothers, rfl⟩
        rw [readFields, htype, ih.2 hothers, ← hname]

theorem Writes.eq_mk {name : String} {t : Schema.WrittenType} (h : Writes (name, t) d) :
    d = ⟨name, t.kind, d.fields⟩ := by
  have hname : d.name = name := h.name
  have hkind : d.kind = t.kind := h.kind
  rw [← hname, ← hkind]

theorem writes_record_iff {name : String} {t : Schema.WrittenType} (hkind : t.kind = .record) :
    Writes (name, t) d ↔
      d = ⟨name, .record, d.fields⟩ ∧ readFields name t.fields = .ok d.fields := by
  rw [readFields_eq_ok_iff]
  constructor
  · intro h
    have heq := h.eq_mk
    rw [hkind] at heq
    exact ⟨heq, h.fields⟩
  · rintro ⟨hd, hfields⟩
    exact ⟨by rw [hd], by rw [hd, hkind], hfields⟩

theorem declareWritten_record_iff {name : String} {t : Schema.WrittenType}
    (hkind : t.kind = .record) : r.declareWritten name t = .ok next ↔
      ∃ d, Writes (name, t) d ∧ r.Accepts d ∧ next = r.add d := by
  simp only [writes_record_iff hkind, declareWritten, hkind]
  constructor
  · intro h
    split at h
    · cases h
    · next fields hfields =>
        obtain ⟨haccepts, hnext⟩ := declareRecord_eq_ok_iff.1 h
        exact ⟨⟨name, .record, fields⟩, ⟨rfl, hfields⟩, haccepts, hnext⟩
  · rintro ⟨d, ⟨hd, hfields⟩, haccepts, hnext⟩
    rw [hfields]
    exact declareRecord_eq_ok_iff.2 (hd ▸ ⟨haccepts, hnext⟩)

/-- Of the types that are no records only those without fields are accepted. -/
theorem exists_writes_iff {name : String} {t : Schema.WrittenType} (hkind : t.kind ≠ .record) :
    (∃ d, Writes (name, t) d ∧ r.Accepts d ∧ next = r.add d) ↔
      t.fields = [] ∧ r.declare ⟨name, t.kind, []⟩ = .ok next := by
  rw [declare_eq_ok_iff_accepts rfl]
  constructor
  · rintro ⟨d, hwrites, haccepts, hnext⟩
    have heq := hwrites.eq_mk
    have hnil : d.fields = [] := by
      refine haccepts.proper.fields_eq_nil ?_
      rw [heq]
      exact hkind
    have hfields := hwrites.fields
    rw [hnil] at heq hfields
    rw [← heq]
    exact ⟨List.forall₂_nil_right_iff.1 hfields, haccepts, hnext⟩
  · rintro ⟨hnil, haccepts, hnext⟩
    exact ⟨_, ⟨rfl, rfl, by rw [hnil]; exact .nil⟩, haccepts, hnext⟩

/-- A written type is declared exactly if what it stands for is accepted. -/
theorem declareWritten_eq_ok_iff {name : String} {t : Schema.WrittenType} :
    r.declareWritten name t = .ok next ↔
      ∃ d, Writes (name, t) d ∧ r.Accepts d ∧ next = r.add d := by
  have hplain : ∀ result : Except SchemaError Registry,
      (if t.fields.isEmpty then result else .error (.fieldsOnNonRecord name)) = .ok next ↔
        t.fields = [] ∧ result = .ok next := by
    intro result
    rw [← List.isEmpty_iff]
    cases t.fields.isEmpty <;> simp
  cases hkind : t.kind with
  | record => exact declareWritten_record_iff hkind
  | enum =>
      rw [exists_writes_iff (by simp [hkind]), declareWritten, hkind]
      exact hplain _
  | opaqueType =>
      rw [exists_writes_iff (by simp [hkind]), declareWritten, hkind]
      exact hplain _

def addAll (r : Registry) (ds : List TypeDecl) : Registry :=
  ⟨r.decls ++ ds⟩

theorem Accepts.of_add {c : TypeDecl} (h : (r.add c).Accepts d) : r.Accepts d := by
  refine ⟨h.proper, fun hmem => h.fresh ?_⟩
  rw [names_add]
  exact List.mem_append_left _ hmem

theorem Accepts.add {c : TypeDecl} (h : r.Accepts d) (hne : d.name ≠ c.name) :
    (r.add c).Accepts d := by
  refine ⟨h.proper, fun hmem => ?_⟩
  rw [names_add, List.mem_append, List.mem_singleton] at hmem
  exact hmem.elim h.fresh hne

theorem addTypes_cases {doc : Schema.Document} (hnames : (doc.map Prod.fst).Nodup) :
    (∃ ds, r.addTypes doc = (r.addAll ds, none) ∧ r.AcceptsAll doc ds) ∨
      ∃ front p back ds e, doc = front ++ p :: back ∧
        r.addTypes doc = (r.addAll ds, some e) ∧ r.AcceptsAll front ds ∧
        ∀ d, Writes p d -> ¬ r.Accepts d := by
  induction doc generalizing r with
  | nil => exact .inl ⟨[], by simp [addTypes, addAll], .nil⟩
  | cons first rest ih =>
      obtain ⟨name, t⟩ := first
      obtain ⟨hname, hrest⟩ := List.nodup_cons.1 hnames
      rw [addTypes]
      split
      · next e he =>
          refine .inr ⟨[], (name, t), rest, [], e, rfl, by simp [addAll], .nil, ?_⟩
          intro d hwrites haccepts
          rw [declareWritten_eq_ok_iff.2 ⟨d, hwrites, haccepts, rfl⟩] at he
          cases he
      · next next hnext =>
          obtain ⟨d, hwrites, haccepts, rfl⟩ := declareWritten_eq_ok_iff.1 hnext
          -- The names of a document are distinct, so its types do not stand in each other's way,
          -- and what is accepted can be said of the registry before the document.
          have hmono : ∀ {part ds}, (r.add d).AcceptsAll part ds -> r.AcceptsAll part ds :=
            fun h => h.imp fun _ _ hboth => ⟨hboth.1, hboth.2.of_add⟩
          have hjoin : ∀ ds, (r.add d).addAll ds = r.addAll (d :: ds) :=
            fun ds => by simp [add, addAll]
          rcases ih hrest (r := r.add d) with ⟨ds, hrun, hds⟩ |
            ⟨front, p, back, ds, e, rfl, hrun, hds, hfail⟩
          · exact .inl ⟨d :: ds, by rw [hrun, hjoin], .cons ⟨hwrites, haccepts⟩ (hmono hds)⟩
          · refine .inr ⟨(name, t) :: front, p, back, d :: ds, e, rfl, by rw [hrun, hjoin],
              .cons ⟨hwrites, haccepts⟩ (hmono hds), ?_⟩
            intro c hc hcaccepts
            refine hfail c hc (hcaccepts.add ?_)
            rw [hc.name, hwrites.name]
            intro heq
            exact hname (List.mem_map.2 ⟨p, by simp, heq⟩)

/-- What stands before an entry are the entries with a lesser name. -/
theorem filter_of_ascending {front back : Schema.Document} {p : String × Schema.WrittenType}
    (h : (front ++ p :: back).Ascending) :
    (front ++ p :: back).filter (fun q => Text.bytes q.1 < Text.bytes p.1) = front := by
  obtain ⟨_, hback, hbefore⟩ := List.pairwise_append.1 h
  have hfront : ∀ q ∈ front, Text.bytes q.1 < Text.bytes p.1 :=
    fun q hq => hbefore q hq p List.mem_cons_self
  have hnone : ∀ q ∈ p :: back, ¬ Text.bytes q.1 < Text.bytes p.1 := by
    intro q hq
    rcases List.mem_cons.1 hq with rfl | hq
    · exact List.lt_irrefl _
    · exact List.lt_asymm ((List.pairwise_cons.1 hback).1 q hq)
  rw [List.filter_append, List.filter_eq_self.2 (by simpa using hfront),
    List.filter_eq_nil_iff.2 (by simpa using hnone), List.append_nil]

theorem effect_apply (r : Registry) (op : Operation) :
    ∃ declared, Effect r op declared (r.apply op).2 ∧
      (r.apply op).1.decls = r.decls ++ declared := by
  cases hop : op.request? with
  | some d =>
      rcases apply_of_request? (r := r) hop with ⟨haccepts, hrun⟩ | ⟨hrefused, e, hrun⟩
      · rw [hrun]
        exact ⟨[d], .declared hop haccepts, rfl⟩
      · rw [hrun]
        exact ⟨[], .refused e hop hrefused, (List.append_nil _).symm⟩
  | none =>
      cases op with
      | record name fields => cases hop
      | enum name => cases hop
      | opaqueType name => cases hop
      | document format text =>
          rw [apply, addDocument]
          split
          · next hread => exact ⟨[], .malformed hread, (List.append_nil _).symm⟩
          · next doc hread =>
              have hascending := Schema.Document.ascending_read? hread
              rcases addTypes_cases (r := r) hascending.nodup with ⟨ds, hrun, hds⟩ |
                ⟨front, p, back, ds, e, rfl, hrun, hds, hfail⟩
              · rw [hrun]
                exact ⟨ds, .merged hread hascending hds, rfl⟩
              · rw [hrun]
                rw [← filter_of_ascending hascending] at hds
                exact ⟨ds, .stopped e hread hascending (by simp) hfail hds, rfl⟩

theorem exists_history (r : Registry) (ops : List Operation) :
    ∃ log, History r ops log (r.runFrom ops) ∧ (r.runFrom ops).decls = r.decls ++ log := by
  induction ops generalizing r with
  | nil => exact ⟨[], .nil r, (List.append_nil _).symm⟩
  | cons op ops ih =>
      obtain ⟨declared, heffect, hdecls⟩ := effect_apply r op
      obtain ⟨more, hhistory, hlast⟩ := ih (r.apply op).1
      refine ⟨declared ++ more, .cons rfl heffect hdecls hhistory, ?_⟩
      rw [runFrom, hlast, hdecls, List.append_assoc]

/-- The operation declares one type, or merges a document that is not one. -/
def Operation.Whole : Operation -> Prop
  | document format text => Schema.Document.read? format text = none
  | _ => True

theorem apply_eq_of_error {op : Operation} (hop : op.Whole) {e : SchemaError}
    (h : (r.apply op).2 = some e) : (r.apply op).1 = r := by
  cases hrequest : op.request? with
  | some d =>
      rcases apply_of_request? (r := r) hrequest with ⟨_, hrun⟩ | ⟨_, _, hrun⟩
      · rw [hrun] at h
        cases h
      · rw [hrun]
  | none =>
      cases op with
      | record name fields => cases hrequest
      | enum name => cases hrequest
      | opaqueType name => cases hrequest
      | document format text =>
          have hread : Schema.Document.read? format text = none := hop
          rw [apply, addDocument, hread]

end Registry

end InstanceForge
