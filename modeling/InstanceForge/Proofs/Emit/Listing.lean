import InstanceForge.Emit.Stamp
import InstanceForge.Proofs.Document.Json.Lines
import InstanceForge.Proofs.Fingerprint.Hex

/-!
# Listings read back

The JSON text of a manifest is read as the object it was written from, within the bounds of a
value that is kept whole.
-/

namespace InstanceForge

namespace Json

theorem blanks_lineFeed : Blanks "\n".toList := by
  intro c hc
  rw [List.mem_singleton.1 hc]
  decide

/-! ## Bounds -/

theorem bounded_ofString (levels : Nat) (s : String) : bounded levels (.ofString s) = true := rfl

theorem boundedItems_iff (levels : Nat) (items : List Datum) :
    boundedItems levels items = true ↔ ∀ d ∈ items, bounded levels d = true := by
  induction items with
  | nil => simp [boundedItems]
  | cons item rest ih => simp [boundedItems, ih]

theorem bounded_list {levels : Nat} {items : List Datum}
    (h : ∀ d ∈ items, bounded levels d = true) : bounded (levels + 1) (.list items) = true := by
  rw [bounded]
  exact (boundedItems_iff levels items).2 h

theorem bounded_ofStrings (levels : Nat) (items : List String) :
    bounded (levels + 1) (.ofStrings items) = true := by
  refine bounded_list fun d hd => ?_
  obtain ⟨s, _, rfl⟩ := List.mem_map.1 hd
  exact bounded_ofString levels s

theorem bounded_ofEntries {levels : Nat} {entries : List (String × Datum)}
    (h : ∀ e ∈ entries, bounded levels e.2 = true) :
    bounded (levels + 1) (.ofEntries entries) = true := by
  rw [Datum.ofEntries, bounded]
  induction entries with
  | nil => rfl
  | cons entry rest ih =>
      have hentry := h entry List.mem_cons_self
      have hrest := ih fun e he => h e (List.mem_cons_of_mem _ he)
      simp [boundedEntries, isText, hentry, hrest]

end Json

/-! ## Parts of a manifest -/

theorem TypeNode.faithful_toDatum (n : TypeNode) : Json.Faithful n.toDatum := by
  refine Json.faithful_ofEntries ?_
  simp [Json.faithful_ofString]

theorem TypeNode.bounded_toDatum (levels : Nat) (n : TypeNode) :
    Json.bounded (levels + 1) n.toDatum = true := by
  refine Json.bounded_ofEntries ?_
  simp [Json.bounded_ofString]

theorem DerivedDeclaration.faithful_toDatum (d : DerivedDeclaration) :
    Json.Faithful d.toDatum := by
  refine Json.faithful_ofEntries ?_
  simp [Declaration.entries, Json.faithful_ofString, TypeNode.faithful_toDatum]

theorem DerivedDeclaration.bounded_toDatum (levels : Nat) (d : DerivedDeclaration) :
    Json.bounded (levels + 2) d.toDatum = true := by
  refine Json.bounded_ofEntries ?_
  simp [Declaration.entries, Json.bounded_ofString, TypeNode.bounded_toDatum]

/-- What holds of texts, of lists of texts and of the declarations holds of every entry. -/
theorem Manifest.forall_mem_entries (m : Manifest) (P : Datum -> Prop)
    (hstring : ∀ s, P (.ofString s)) (hstrings : ∀ items, P (.ofStrings items))
    (hdeclarations : P (.list (m.declarations.declarations.map DerivedDeclaration.toDatum))) :
    ∀ e ∈ m.entries, P e.2 := by
  intro e he
  simp only [Manifest.entries, DeclarationSet.entries, List.mem_append, List.mem_cons,
    List.not_mem_nil, or_false] at he
  rcases he with (rfl | rfl) | rfl | rfl
  · exact hstring _
  · exact hstrings _
  · exact hstring _
  · exact hdeclarations

theorem Manifest.faithful_of_mem_entries (m : Manifest) :
    ∀ e ∈ m.entries, Json.Faithful e.2 := by
  refine m.forall_mem_entries Json.Faithful Json.faithful_ofString Json.faithful_ofStrings (.list ?_)
  intro d hd
  obtain ⟨derived, _, rfl⟩ := List.mem_map.1 hd
  exact derived.faithful_toDatum

theorem Manifest.bounded_of_mem_entries (levels : Nat) (m : Manifest) :
    ∀ e ∈ m.entries, Json.bounded (levels + 3) e.2 = true := by
  refine m.forall_mem_entries (fun d => Json.bounded (levels + 3) d = true)
    (Json.bounded_ofString _) (Json.bounded_ofStrings _) (Json.bounded_list ?_)
  intro d hd
  obtain ⟨derived, _, rfl⟩ := List.mem_map.1 hd
  exact derived.bounded_toDatum levels

namespace Stamp

theorem marked?_eq_none {line : List Char} (h : line.head? ≠ some '/') :
    marked? line = none := by
  have hmark : Source.fingerprintMark.toList.head? = some '/' := by decide
  rw [marked?, if_neg]
  intro hprefix
  obtain ⟨rest, rfl⟩ := List.isPrefixOf_iff_prefix.1 hprefix
  rw [List.head?_append, hmark] at h
  exact h rfl

end Stamp

namespace Listing

/-! ## The whole listing -/

theorem faithful_toDatum (m : Manifest) : Json.Faithful (toDatum m) := by
  refine Json.faithful_ofEntries fun e he => ?_
  rcases List.mem_cons.1 he with rfl | he
  · exact Json.faithful_ofString _
  · exact m.faithful_of_mem_entries e he

theorem bounded_toDatum (m : Manifest) : Json.bounded Json.maxLevels (toDatum m) = true := by
  show Json.bounded (126 + 1) (toDatum m) = true
  refine Json.bounded_ofEntries fun e he => ?_
  rcases List.mem_cons.1 he with rfl | he
  · exact Json.bounded_ofString _ _
  · exact m.bounded_of_mem_entries 123 e he

/-- A listing is read as the object it was written from. -/
theorem read_render (m : Manifest) : Json.read (render m) = some (toDatum m) :=
  Json.read_pretty (faithful_toDatum m) Json.blanks_lineFeed

theorem readBounded_render (m : Manifest) : Json.readBounded (render m) = some (toDatum m) := by
  rw [Json.readBounded, read_render]
  simp only [bounded_toDatum, if_true]

theorem markedLine?_render (m : Manifest) : Stamp.markedLine? (render m) = none := by
  rw [Stamp.markedLine?, List.findSome?_eq_none_iff]
  intro line hline
  exact Stamp.marked?_eq_none
    (Json.head?_ne_slash_of_mem_lines (faithful_toDatum m) (List.mem_of_mem_take hline))

/-- The fingerprint of a listing is read back from it. -/
theorem read?_render (m : Manifest) : Stamp.read? (render m) = some m.fingerprint := by
  have hlookup : Json.lookup? "fingerprint"
      ((("fingerprint", Datum.ofString m.fingerprint.toHex) :: m.entries).map
        fun e => (Literal.text e.1, e.2)) = some (.ofString m.fingerprint.toHex) := by
    simp [Manifest.entries, DeclarationSet.entries, Json.lookup?]
  rw [Stamp.read?, markedLine?_render]
  simp only [Stamp.member?, readBounded_render, toDatum, Datum.ofEntries, hlookup]
  exact Fingerprint.parse?_toHex m.fingerprint

/-! ## Members -/

def declarationObject (d : DerivedDeclaration) : Datum :=
  .ofEntries
    [("type_node", .ofEntries
        [("binding_name", .ofString d.declaration.node.bindingName),
          ("type_name", .ofString d.declaration.node.typeName)]),
      ("capability_name", .ofString d.declaration.capability),
      ("identifier", .ofString d.declaration.identifier),
      ("scope", .ofString d.declaration.scope.name),
      ("initializer", .ofString d.initializer)]

def members (m : Manifest) : List (String × Datum) :=
  [("root", .ofString m.root),
    ("import_hints", .list (m.importHints.map .ofString)),
    ("scope", .ofString m.declarations.scope.name),
    ("declarations", .list (m.declarations.declarations.map declarationObject))]

theorem toDatum_eq (m : Manifest) :
    toDatum m = .ofEntries
      (("fingerprint",
        .ofString (Fingerprint.ofText (Json.compact (.ofEntries (members m)))).toHex) ::
        members m) := rfl

theorem ofString_injective : Function.Injective Datum.ofString := by
  intro a b h
  simpa [Datum.ofString] using h

theorem ofEntries_injective : Function.Injective Datum.ofEntries := by
  intro a b h
  have hentry : Function.Injective fun e : String × Datum => (Literal.text e.1, e.2) := by
    rintro ⟨key, value⟩ ⟨key', value'⟩ heq
    simpa using heq
  exact List.map_injective_iff.2 hentry (Datum.table.inj h)

theorem name_injective : Function.Injective Scope.name := by
  intro a b h
  cases a <;> cases b <;> first | rfl | exact absurd h (by decide)

theorem declarationObject_injective : Function.Injective declarationObject := by
  rintro ⟨⟨⟨binding, type⟩, capability, identifier, scope⟩, initializer⟩
    ⟨⟨⟨binding', type'⟩, capability', identifier', scope'⟩, initializer'⟩ h
  simp only [declarationObject, ofEntries_injective.eq_iff, List.cons.injEq, Prod.mk.injEq,
    ofString_injective.eq_iff, name_injective.eq_iff] at h
  simp_all

/-- Nothing of a manifest is lost in its members. -/
theorem members_injective : Function.Injective members := by
  rintro ⟨root, hints, scope, declarations⟩ ⟨root', hints', scope', declarations'⟩ h
  simp only [members, List.cons.injEq, Prod.mk.injEq, Datum.list.injEq,
    ofString_injective.eq_iff, name_injective.eq_iff,
    (List.map_injective_iff.2 ofString_injective).eq_iff,
    (List.map_injective_iff.2 declarationObject_injective).eq_iff] at h
  simp_all

/-- A listing is one object with these members, and no other manifest has its text. -/
theorem readBounded_emit (m : Manifest) :
    ∃ text, emitter.emit m = .ok text ∧
      Json.readBounded text = some (.ofEntries
        (("fingerprint",
          .ofString (Fingerprint.ofText (Json.compact (.ofEntries (members m)))).toHex) ::
          members m)) ∧
      ∀ other, emitter.emit other = .ok text -> other = m := by
  refine ⟨render m, rfl, readBounded_render m, fun other h => ?_⟩
  have htext : render other = render m := Except.ok.inj h
  have hread := readBounded_render other
  rw [htext, readBounded_render, Option.some.injEq, toDatum_eq, toDatum_eq] at hread
  exact members_injective (List.cons.inj (ofEntries_injective hread)).2.symm

end Listing

end InstanceForge
