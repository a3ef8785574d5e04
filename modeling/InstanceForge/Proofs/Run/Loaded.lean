import InstanceForge.Proofs.Command.Inputs
import InstanceForge.Proofs.Run.Agreement
import InstanceForge.Proofs.Run.Emission
import InstanceForge.Proofs.Schema.Registry.Operations
import InstanceForge.Proofs.Schema.TypeRef.Rendering

/-!
# Registries from documents

A document spells the types of its fields, so a registry that was only ever loaded from documents
refers to names that are paths; the names that it declares may be anything. A discovery meets all
types but its root as references, so the root alone can be without a path, and alone is to blame
if source text cannot name a type or an instance.
-/

namespace InstanceForge

namespace TypeRef

/-- A name of the grammar can be written as a path. -/
theorem PathName.isSome_path? {name : String} (h : PathName name) :
    (Name.path? name).isSome := by
  obtain ⟨tokens, last, hpath, rfl⟩ := h
  have hall := List.all_eq_true.2 hpath.segments.1
  rw [Name.path?, String.toList_ofList, if_pos hall, Option.isSome_some]

end TypeRef

namespace Registry

/-! ## Loading -/

/-- The registry is empty, or a document was merged into a loaded one, be it refused or not. -/
inductive Loaded : Registry -> Prop where
  | empty : Loaded empty
  | document {r : Registry} (format : DocumentFormat) (text : String) : Loaded r ->
      Loaded (r.addDocument format text).1

def MentionsPaths (d : TypeDecl) : Prop :=
  ∀ f ∈ d.fields, ∀ name ∈ f.type.innermost, TypeRef.PathName name

theorem Writes.mentionsPaths {p : String × Schema.WrittenType} {d : TypeDecl} (h : Writes p d) :
    MentionsPaths d := by
  intro f hf
  obtain ⟨_, _, _, hparse⟩ := exists_of_forall₂ h.fields.flip hf
  exact TypeRef.pathName_of_parse hparse

theorem AcceptsAll.mentionsPaths {r : Registry} {doc : Schema.Document} {ds : List TypeDecl}
    (h : r.AcceptsAll doc ds) : ∀ d ∈ ds, MentionsPaths d := by
  intro d hd
  obtain ⟨_, _, hwrites, _⟩ := exists_of_forall₂ h.flip hd
  exact hwrites.mentionsPaths

/-- What a document declares mentions paths only, also if it is refused half-way. -/
theorem mentionsPaths_of_effect {r : Registry} {format : DocumentFormat} {text : String}
    {declared : List TypeDecl} {error : Option SchemaError}
    (h : Effect r (.document format text) declared error) : ∀ d ∈ declared, MentionsPaths d := by
  cases h with
  | declared hrequest => cases hrequest
  | refused _ hrequest => cases hrequest
  | malformed => exact List.forall_mem_nil _
  | merged _ _ hall => exact hall.mentionsPaths
  | stopped _ _ _ _ _ hall => exact hall.mentionsPaths

theorem Loaded.mentionsPaths {r : Registry} (h : r.Loaded) : ∀ d ∈ r.decls, MentionsPaths d := by
  induction h with
  | empty => exact List.forall_mem_nil _
  | @document r format text _ ih =>
      obtain ⟨declared, heffect, hdecls⟩ := effect_apply r (.document format text)
      have happly : r.apply (.document format text) = r.addDocument format text := rfl
      rw [happly] at hdecls
      rw [hdecls]
      exact List.forall_mem_append.2 ⟨ih, mentionsPaths_of_effect heffect⟩

/-- The fields of a type are those of a declaration. -/
theorem exists_decl_of_mem_mentions {r : Registry} {owner name : String}
    (h : name ∈ r.provider.mentions owner) :
    ∃ d ∈ r.decls, ∃ f ∈ d.fields, name ∈ f.type.innermost := by
  obtain ⟨f, hf, hname⟩ := List.mem_flatMap.1 h
  simp only [provider] at hf
  split at hf
  · next d hget =>
      split at hf
      · exact ⟨d, List.mem_of_find?_eq_some hget, f, hf, hname⟩
      · cases hf
  · cases hf

/-- Whatever a root reaches has a path, the root apart. -/
theorem Loaded.isSome_path? {r : Registry} (h : r.Loaded) {root name : String}
    (hreaches : r.provider.Reaches root name) (hne : name ≠ root) :
    (Name.path? name).isSome := by
  cases hreaches with
  | root => exact absurd rfl hne
  | step _ hreference =>
      obtain ⟨d, hd, f, hf, hname⟩ :=
        exists_decl_of_mem_mentions (List.mem_filter.1 hreference).1
      exact (h.mentionsPaths d hd f hf name hname).isSome_path?

/-! ## Schema files -/

theorem Loaded.extend {r next : Registry} (h : r.Loaded) {format : DocumentFormat} {text : String}
    (hextend : r.extend format text = .ok next) : next.Loaded := by
  unfold Registry.extend at hextend
  split at hextend
  · next heq =>
      cases hextend
      have hloaded := h.document format text
      rwa [heq] at hloaded
  · cases hextend

theorem Loaded.extendFiles {w : Workspace} {r types : Registry} (h : r.Loaded)
    {paths : List String} (htypes : (r.extendFiles paths : ReaderM Workspace _).run w = .ok types) :
    types.Loaded := by
  induction paths generalizing r with
  | nil =>
      cases htypes
      exact h
  | cons path rest ih =>
      rw [Registry.extendFiles, Workspace.run_bind] at htypes
      split at htypes
      · cases htypes
      · next next hnext =>
          refine ih ?_ htypes
          unfold extendFile at hnext
          split at hnext
          · cases hnext
          · split at hnext
            · cases hnext
            · split at hnext
              · cases hnext
              · next hextend =>
                  cases hnext
                  exact h.extend hextend

/-- The types that a command reads were loaded from documents. -/
theorem loaded_of_types {w : Workspace} {paths : List String} {types : Registry}
    (h : w.types paths = .ok types) : types.Loaded :=
  Loaded.empty.extendFiles h

end Registry

/-! ## Graphs -/

namespace TypeGraph

/-- The nodes after the first are for other types, and these have paths. -/
theorem exists_rest_of_discover {r : Registry} (h : r.Loaded) {root : String}
    {finite : r.provider.FinitelyReaches root} {g : TypeGraph}
    (hdiscover : discover r.provider root finite = .ok g) :
    ∃ rest, g.nodes = TypeNode.ofType root :: rest ∧
      ∀ node ∈ rest, node.typeName ≠ root ∧ (Name.path? node.typeName).isSome := by
  obtain ⟨names, horder, ⟨_, hok⟩ | ⟨e, _, herror⟩⟩ := discover_cases (S := r.provider) finite
  · rw [hok, Except.ok.injEq] at hdiscover
    obtain ⟨others, rfl⟩ : ∃ others, names = root :: others := by
      have hhead := horder.head?
      cases names with
      | nil => cases hhead
      | cons first others =>
          cases hhead
          exact ⟨others, rfl⟩
    refine ⟨others.map TypeNode.ofType, by rw [← hdiscover]; rfl, ?_⟩
    intro node hnode
    obtain ⟨name, hname, rfl⟩ := List.mem_map.1 hnode
    have hne : name ≠ root := by
      rintro rfl
      exact (List.nodup_cons.1 horder.nodup).1 hname
    exact ⟨hne, h.isSome_path? ((horder.mem_iff name).1 (List.mem_cons_of_mem _ hname)) hne⟩
  · rw [herror] at hdiscover
    cases hdiscover

end TypeGraph

/-! ## Runs -/

namespace Run

variable {request : Request} {S : Provider}
  {finite : request.scope = .shared -> S.FinitelyReaches request.root} {engine : Engine}

/-- A run that fails in its rendering was planned and derived. -/
theorem exists_prepared_of_run {emitter : Emitter} {cause : EmitError}
    (hnames : ∀ capability ∈ request.capabilities, Name.isIdentifier capability = true)
    (h : run request S finite engine emitter = .error (.emit cause)) :
    ∃ graph derived, Prepared request S finite engine graph derived := by
  cases hgraph : graphFor request S finite with
  | error e =>
      rw [run_of_graphFor_eq_error hgraph] at h
      cases h
  | ok graph =>
      rw [run_of_graphFor_eq_ok hgraph] at h
      cases hplan : Declaration.plan graph request.capabilities request.scope with
      | error e =>
          rw [render_of_plan_eq_error hplan] at h
          cases h
      | ok declarations =>
          rcases deriveAll_cases engine declarations with
            ⟨derived, hderive, _⟩ | ⟨_, d, _, e, _, _, _, hderive⟩
          · exact ⟨graph, derived, prepared_of_deriveAll hnames hgraph hplan hderive⟩
          · rw [render_of_deriveAll_eq_error hplan hderive] at h
            cases h

/--
A refusal of a name is for the name of the root: an identifier is that of an instance of the root,
a type path is that of the root.
-/
structure Blames (root : String) (capabilities : List String) (cause : EmitError) : Prop where
  identifier : ∀ name, cause = .invalidIdentifier name ->
    Name.path? root = none ∧ ∃ c ∈ capabilities, name = Declaration.identifierFor root c
  typePath : ∀ name, cause = .invalidTypePath name -> Name.path? root = none ∧ name = root

/-- If all types but one have paths, a refusal of a name is for the name of this one. -/
theorem Prepared.blames {graph : TypeGraph} {derived : List DerivedDeclaration} {root : String}
    (h : Prepared request S finite engine graph derived)
    (hpaths : ∀ node ∈ graph.nodes, node.typeName ≠ root -> (Name.path? node.typeName).isSome)
    {cause : EmitError} (hrefused : Source.Refused (manifestOf request derived) cause) :
    Blames root request.capabilities cause := by
  have hroot : ∀ node ∈ graph.nodes, Name.path? node.typeName = none -> node.typeName = root := by
    intro node hnode hnone
    by_contra hne
    have hsome := hpaths node hnode hne
    rw [hnone] at hsome
    cases hsome
  cases hrefused with
  | @capability d hd hname =>
      rw [h.isIdentifier_capability hd] at hname
      cases hname
  | @identifier d hd hname =>
      have hnone : Name.path? d.declaration.node.typeName = none := by
        by_contra hpath
        have hidentifier := h.isIdentifier_identifier hd (Option.isSome_iff_ne_none.2 hpath)
        rw [hidentifier] at hname
        cases hname
      obtain ⟨p, hp, hdeclaration⟩ := h.derives.exists_pair hd
      obtain ⟨hnode, hcapability⟩ := mem_pairs.1 hp
      rw [hdeclaration] at hnone ⊢
      have hsame := hroot p.1 hnode hnone
      constructor
      · intro name heq
        cases heq
        exact ⟨hsame ▸ hnone, p.2, hcapability, hsame ▸ rfl⟩
      · intro name heq
        cases heq
  | @typePath d hd hnone =>
      obtain ⟨p, hp, hdeclaration⟩ := h.derives.exists_pair hd
      rw [hdeclaration] at hnone ⊢
      have hsame := hroot p.1 (mem_pairs.1 hp).1 hnone
      constructor
      · intro name heq
        cases heq
      · intro name heq
        cases heq
        exact ⟨hsame ▸ hnone, hsame⟩
  | duplicateName =>
      constructor
      · intro name heq
        cases heq
      · intro name heq
        cases heq

/--
On a registry that was loaded from documents all nodes of a discovered graph but the root have
paths, so source text for all of them is refused for a name only if this is the root's.
-/
theorem root_blamed_of_loaded {types : Registry} (h : types.Loaded) {root : String}
    {g : TypeGraph}
    (hdiscover : TypeGraph.discover types.provider root (types.finitelyReaches root) = .ok g) :
    (∃ rest, g.nodes = TypeNode.ofType root :: rest ∧
      ∀ node ∈ rest, node.typeName ≠ root ∧ (Name.path? node.typeName).isSome) ∧
    ∀ (request : Request) (engine : Engine), request.root = root -> request.scope = .shared ->
      (∀ c ∈ request.capabilities, Name.isIdentifier c = true) ->
      ∀ cause, run request types.provider (fun _ => types.finitelyReaches request.root) engine
          OutputFormat.rust.emitter = .error (.emit cause) ->
        Blames root request.capabilities cause := by
  obtain ⟨rest, hnodes, hrest⟩ := TypeGraph.exists_rest_of_discover h hdiscover
  refine ⟨⟨rest, hnodes, hrest⟩, fun request engine hroot hscope hnames cause hrun => ?_⟩
  obtain ⟨graph, derived, hprepared⟩ := exists_prepared_of_run hnames hrun
  obtain rfl : graph = g := by
    have hgraph := hprepared.discovered
    subst hroot
    rw [graphFor_of_shared _ hscope, hdiscover] at hgraph
    exact (Except.ok.inj hgraph).symm
  obtain ⟨_, heq, hrefused⟩ := hprepared.refused_of_run hrun
  cases heq
  refine hprepared.blames (fun node hnode hne => ?_) hrefused
  rw [hnodes] at hnode
  rcases List.mem_cons.1 hnode with rfl | hnode
  · exact absurd rfl hne
  · exact (hrest node hnode).2

/-- A document whose first type has no path, but refers to one that has. -/
def oddDocument : String :=
  "[types.\"an order\"]\nfields = [\x7b name = \"item\", type = \"shop . Item\" \x7d]\n" ++
    "[types.\"shop.Item\"]\n"

def oddTypes : Registry :=
  ⟨[⟨"an order", .record, [⟨"item", .named "shop.Item"⟩]⟩, ⟨"shop.Item", .record, []⟩]⟩

theorem loaded_oddTypes : oddTypes.Loaded := by
  have hdocument : (Registry.empty.addDocument .toml oddDocument).1 = oddTypes := by
    decide +kernel
  exact hdocument ▸ .document .toml oddDocument .empty

theorem discoverable_odd : oddTypes.provider.Discoverable "an order" := by
  have hclosed : ∀ a ∈ ["an order", "shop.Item"],
      ∀ b ∈ oddTypes.provider.references a, b ∈ ["an order", "shop.Item"] := by decide +kernel
  have hmem : ∀ {name}, oddTypes.provider.Reaches "an order" name ->
      name ∈ ["an order", "shop.Item"] := Provider.mem_of_reaches (by decide) hclosed
  refine ⟨by decide +kernel, fun name h => ?_, fun name h => ?_⟩
  · exact (by decide +kernel : ∀ name ∈ ["an order", "shop.Item"],
      ∀ mention ∈ oddTypes.provider.mentions name,
        oddTypes.provider.resolves mention = true) name (hmem h)
  · exact Provider.not_onCycle_of_rank (fun a => ["an order", "shop.Item"].idxOf a) hclosed
      (by decide +kernel) (hmem h)

theorem discoveryOrder_odd :
    oddTypes.provider.DiscoveryOrder "an order" ["an order", "shop.Item"] := by
  refine .of_eq_eraseDups (by decide +kernel) ?_
  intro name h
  simp only [List.mem_cons, List.not_mem_nil, or_false] at h
  rcases h with rfl | rfl
  · exact .root
  · exact .step .root (by decide +kernel)

theorem discover_odd (finite : oddTypes.provider.FinitelyReaches "an order") :
    TypeGraph.discover oddTypes.provider "an order" finite =
      .ok (TypeGraph.ofNames oddTypes.provider ["an order", "shop.Item"]) := by
  obtain ⟨names, horder, ⟨_, hok⟩ | ⟨e, hfault, _⟩⟩ := TypeGraph.discover_cases finite
  · rw [hok, horder.unique discoveryOrder_odd]
  · exact (hfault.not_discoverable horder discoverable_odd).elim

/-- The graph has a second node, which has a path, and the root is to blame. -/
theorem root_blamed_odd : oddTypes.Loaded ∧
    (∃ g, TypeGraph.discover oddTypes.provider "an order" (oddTypes.finitelyReaches "an order") =
        .ok g ∧
      ∃ rest, g.nodes = TypeNode.ofType "an order" :: rest ∧ rest.length = 1 ∧
        ∀ node ∈ rest, node.typeName ≠ "an order" ∧ (Name.path? node.typeName).isSome) ∧
    run ⟨"an order", ["Encoder"], .shared, []⟩ oddTypes.provider
        (fun _ => oddTypes.finitelyReaches "an order") (Engine.ofTemplate Template.standard)
        OutputFormat.rust.emitter = .error (.emit (.invalidIdentifier "an orderEncoder")) ∧
    Blames "an order" ["Encoder"] (.invalidIdentifier "an orderEncoder") := by
  have hdiscover := discover_odd (oddTypes.finitelyReaches "an order")
  have hrun : run ⟨"an order", ["Encoder"], .shared, []⟩ oddTypes.provider
      (fun _ => oddTypes.finitelyReaches "an order") (Engine.ofTemplate Template.standard)
      OutputFormat.rust.emitter = .error (.emit (.invalidIdentifier "an orderEncoder")) := by
    rw [run_of_graphFor_eq_ok ((graphFor_of_shared _ rfl).trans hdiscover), ← reason?_eq_some_iff]
    decide +kernel
  obtain ⟨⟨rest, hnodes, hrest⟩, hblames⟩ := root_blamed_of_loaded loaded_oddTypes hdiscover
  have hlength : rest.length = 1 := by
    have h := congrArg List.length hnodes
    rw [List.length_cons] at h
    exact (Nat.succ.inj h).symm
  exact ⟨loaded_oddTypes, ⟨_, hdiscover, rest, hnodes, hlength, hrest⟩, hrun,
    hblames _ _ rfl rfl (by decide) _ hrun⟩

end Run

end InstanceForge
