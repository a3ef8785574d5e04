import InstanceForge.Proofs.Emit.Source

/-!
# Lines of source files

Every item of a source file as the lines that stand for it. An import hint stands for the path it
names, whether or not it is written as a whole `use` item.
-/

namespace InstanceForge

namespace Source

/-- Lines as a text, a line feed after each. -/
def unlines (lines : List String) : String :=
  String.join (lines.map (· ++ "\n"))

theorem unlines_append (front back : List String) :
    unlines (front ++ back) = unlines front ++ unlines back := by
  rw [unlines, List.map_append, String.join_append, unlines, unlines]

theorem unlines_flatMap {α : Type} (linesOf : α -> List String) (items : List α) :
    unlines (items.flatMap linesOf) = String.join (items.map fun a => unlines (linesOf a)) := by
  induction items with
  | nil => rfl
  | cons a rest ih =>
      rw [List.flatMap_cons, unlines_append, ih, List.map_cons, String.join_cons]

/-! ## Import hints -/

/-- What a hint imports: `use` in front of it, a semicolon after it and the white space around
them are left out. -/
def Imports (hint path : String) : Prop :=
  ∃ item named core, Text.Trimmed hint.toList item ∧
    (item = "use ".toList ++ named ∨ ¬ "use ".toList <+: item ∧ named = item) ∧
    (named = core ++ [';'] ∨ named.getLast? ≠ some ';' ∧ core = named) ∧
    Text.Trimmed core path.toList

theorem dropStart_eq_iff {start cs rest : List Char} :
    dropStart start cs = rest ↔ cs = start ++ rest ∨ ¬ start <+: cs ∧ rest = cs := by
  unfold dropStart
  by_cases h : start <+: cs
  · obtain ⟨more, rfl⟩ := h
    simp
  · have hne : cs ≠ start ++ rest := fun heq => h (heq ▸ List.prefix_append start rest)
    rw [if_neg (mt List.isPrefixOf_iff_prefix.1 h)]
    simp only [hne, h, not_false_eq_true, true_and, false_or]
    exact eq_comm

theorem dropSemicolon_eq_iff {cs rest : List Char} :
    dropSemicolon cs = rest ↔ cs = rest ++ [';'] ∨ cs.getLast? ≠ some ';' ∧ rest = cs := by
  unfold dropSemicolon
  split
  · next h =>
      obtain ⟨front, rfl⟩ := List.getLast?_eq_some_iff.1 h
      simp
  · next h =>
      have hne : cs ≠ rest ++ [';'] := fun heq => h (by simp [heq])
      simp only [hne, ne_eq, h, not_false_eq_true, true_and, false_or]
      exact eq_comm

theorem importPath_eq_iff {hint path : String} : importPath hint = path ↔ Imports hint path := by
  rw [Imports, importPath, ← String.toList_inj, String.toList_ofList, Text.trimChars_eq_iff]
  constructor
  · intro h
    exact ⟨_, _, _, Text.trimmed_trimChars _, dropStart_eq_iff.1 rfl, dropSemicolon_eq_iff.1 rfl, h⟩
  · rintro ⟨item, named, core, hitem, hnamed, hcore, hpath⟩
    rw [hitem.trimChars_eq, dropStart_eq_iff.2 hnamed, dropSemicolon_eq_iff.2 hcore]
    exact hpath

theorem forall₂_imports_iff {hints paths : List String} :
    List.Forall₂ Imports hints paths ↔ paths = hints.map importPath := by
  have hrelation : Imports = fun hint path => importPath hint = path := by
    funext hint path
    exact propext importPath_eq_iff.symm
  rw [hrelation, ← List.forall₂_map_left_iff (R := Eq), List.forall₂_eq_eq_eq]
  exact eq_comm

/-! ## Items -/

def headerLines (root : String) (f : Fingerprint) : List String :=
  ["// @generated by cachegen from `" ++ root ++ "`. Do not edit.",
    "// fingerprint: " ++ f.toHex]

def importLine (path : String) : String :=
  "    use " ++ path ++ ";"

def StaticItem.lines (s : StaticItem) : List String :=
  ["", "    #[allow(non_upper_case_globals)]",
    "    pub static " ++ s.name ++ ": std::sync::LazyLock<" ++ s.capability ++ "<" ++ s.path ++
      ">> =",
    "        std::sync::LazyLock::new(|| " ++ s.initializer ++ ");"]

def ModuleItem.lines (m : ModuleItem) : List String :=
  ["", "pub mod " ++ m.name ++ " \x7b", "    use super::*;"] ++ m.imports.map importLine ++
    m.statics.flatMap StaticItem.lines ++ ["\x7d"]

/-- An accessor holds its instance in a static with the accessor's name in capitals. -/
def Accessor.lines (a : Accessor) : List String :=
  let static := String.ofList (a.name.toList.map Char.toUpper)
  ["    pub fn " ++ a.name ++ "() -> &'static " ++ a.capability ++ "<" ++ a.path ++ "> \x7b",
    "        static " ++ static ++ ": std::sync::LazyLock<" ++ a.capability ++ "<" ++ a.path ++
      ">> =",
    "            std::sync::LazyLock::new(|| " ++ a.initializer ++ ");",
    "        &" ++ static, "    \x7d"]

/-- An empty line stands between two accessors of a block. -/
def blockLines (path : String) (accessors : List Accessor) : List String :=
  ["", "impl " ++ path ++ " \x7b"] ++ [""].intercalate (accessors.map Accessor.lines) ++ ["\x7d"]

/-! ## Rendered items -/

theorem header_eq_unlines (root : String) (f : Fingerprint) :
    header root f = unlines (headerLines root f) := by
  unfold header headerLines fingerprintMark
  -- As characters, the two sides differ only in where they are put together.
  simp [unlines, ← String.toList_inj]

theorem renderImport_eq (path : String) : renderImport path = importLine path ++ "\n" := by
  unfold renderImport importLine
  simp [← String.toList_inj]

theorem StaticItem.render_eq (s : StaticItem) : s.render = unlines s.lines := by
  unfold render lines lazyType instanceType
  simp [unlines, ← String.toList_inj]

theorem ModuleItem.render_eq (m : ModuleItem) : m.render = unlines m.lines := by
  have himports : String.join (m.imports.map renderImport) =
      unlines (m.imports.map importLine) := by
    rw [unlines, List.map_map, funext renderImport_eq]
    rfl
  have hstatics : String.join (m.statics.map StaticItem.render) =
      unlines (m.statics.flatMap StaticItem.lines) := by
    rw [unlines_flatMap, funext StaticItem.render_eq]
  unfold render lines
  rw [himports, hstatics, unlines_append, unlines_append, unlines_append]
  simp [unlines, ← String.toList_inj]

theorem Accessor.render_eq (a : Accessor) : a.render = unlines a.lines := by
  unfold render lines lazyType instanceType staticName
  simp [unlines, ← String.toList_inj]

theorem unlines_intercalate (parts : List (List String)) :
    unlines ([""].intercalate parts) = String.intercalate "\n" (parts.map unlines) := by
  induction parts with
  | nil => rfl
  | cons part rest ih =>
      cases rest with
      | nil => simp
      | cons next rest =>
          rw [List.intercalate_cons_cons, unlines_append, unlines_append, ih]
          simp only [List.map_cons, String.intercalate_cons_cons]
          rfl

theorem render_block (path : String) (accessors : List Accessor) :
    (Body.block path accessors).render = unlines (blockLines path accessors) := by
  have haccessors : accessors.map Accessor.render = (accessors.map Accessor.lines).map unlines := by
    rw [List.map_map, funext Accessor.render_eq]
    rfl
  unfold blockLines
  rw [unlines_append, unlines_append, unlines_intercalate, ← haccessors]
  unfold Body.render
  simp [unlines, ← String.toList_inj]

theorem render_modules (items : List ModuleItem) :
    (Body.modules items).render = unlines (items.flatMap ModuleItem.lines) := by
  unfold Body.render
  rw [unlines_flatMap, funext ModuleItem.render_eq]

end Source

end InstanceForge
