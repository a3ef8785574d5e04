import InstanceForge.Emit.Manifest
import InstanceForge.Text.Basic

/-!
# Manifests as Rust source

A manifest is laid out as a source file before it is written. Shared declarations become one
module for each capability, with a static for each type; declarations beside a type become one
`impl` block, with an accessor for each capability. No two modules and no two accessors of a
file have one name.
-/

namespace InstanceForge

namespace Source

structure StaticItem where
  name : String
  capability : String
  path : String
  initializer : String

structure ModuleItem where
  name : String
  imports : List String
  statics : List StaticItem

structure Accessor where
  name : String
  capability : String
  path : String
  initializer : String

/-- What stands below the header of a file. -/
inductive Body where
  | modules (items : List ModuleItem)
  | block (path : String) (accessors : List Accessor)

structure File where
  root : String
  fingerprint : Fingerprint
  body : Body

/-- Names that are taken, each with the name that it was rendered from. -/
abbrev TakenNames := List (String × String)

def reserve (taken : TakenNames) (name source : String) : Except EmitError TakenNames :=
  match taken.lookup name with
  | some first => .error (.duplicateName name first source)
  | none => .ok ((name, source) :: taken)

def identifier (name : String) : Except EmitError String :=
  if Name.isIdentifier name then .ok name else .error (.invalidIdentifier name)

def typePath (name : String) : Except EmitError String :=
  match Name.path? name with
  | some path => .ok path
  | none => .error (.invalidTypePath name)

def dropStart (start cs : List Char) : List Char :=
  if start.isPrefixOf cs then cs.drop start.length else cs

def dropSemicolon (cs : List Char) : List Char :=
  if cs.getLast? = some ';' then cs.dropLast else cs

/-- The path of an import hint, which may be written as a whole `use` item. -/
def importPath (hint : String) : String :=
  String.ofList
    (Text.trimChars (dropSemicolon (dropStart "use ".toList (Text.trimChars hint.toList))))

def moduleName (capability : String) : String :=
  Name.snake capability ++ "_instances"

def layStatics (capability : String) :
    List DerivedDeclaration -> Except EmitError (List StaticItem)
  | [] => .ok []
  | d :: rest => do
      let name <- identifier d.declaration.identifier
      let path <- typePath d.declaration.node.typeName
      let items <- layStatics capability rest
      pure (⟨name, capability, path, d.initializer⟩ :: items)

def layModule (hints : List String) (b : Bundle) : Except EmitError ModuleItem := do
  let capability <- identifier b.capability
  let statics <- layStatics capability b.declarations
  pure ⟨moduleName capability, hints.map importPath, statics⟩

def layModules (hints : List String) :
    TakenNames -> List Bundle -> Except EmitError (List ModuleItem)
  | _, [] => .ok []
  | taken, b :: rest => do
      let taken <- reserve taken (moduleName b.capability) b.capability
      let item <- layModule hints b
      let items <- layModules hints taken rest
      pure (item :: items)

def layAccessors (path : String) :
    TakenNames -> List DerivedDeclaration -> Except EmitError (List Accessor)
  | _, [] => .ok []
  | taken, d :: rest => do
      let capability <- identifier d.declaration.capability
      let source <- identifier d.declaration.identifier
      let name := Name.snake source
      let taken <- reserve taken name source
      let items <- layAccessors path taken rest
      pure (⟨name, capability, path, d.initializer⟩ :: items)

def layBody (m : Manifest) : Except EmitError Body :=
  match m.declarations.scope with
  | .shared => do
      let items <- layModules m.importHints [] m.declarations.bundles
      pure (.modules items)
  | .besideType =>
      match m.declarations.block with
      | .error cause => .error (.broken cause)
      | .ok b => do
          let path <- typePath b.node.typeName
          let accessors <- layAccessors path [] b.declarations
          pure (.block path accessors)

def lay (m : Manifest) : Except EmitError File := do
  let body <- layBody m
  pure ⟨m.root, m.fingerprint, body⟩

/-- The type whose values are computed on their first use. -/
def lazyType : String :=
  "std::sync::LazyLock"

def instanceType (capability path : String) : String :=
  capability ++ "<" ++ path ++ ">"

def StaticItem.render (s : StaticItem) : String :=
  "\n    #[allow(non_upper_case_globals)]\n" ++
    "    pub static " ++ s.name ++ ": " ++ lazyType ++ "<" ++ instanceType s.capability s.path ++
    "> =\n        " ++ lazyType ++ "::new(|| " ++ s.initializer ++ ");\n"

def renderImport (path : String) : String :=
  "    use " ++ path ++ ";\n"

def ModuleItem.render (m : ModuleItem) : String :=
  "\npub mod " ++ m.name ++ " \x7b\n    use super::*;\n" ++
    String.join (m.imports.map renderImport) ++ String.join (m.statics.map StaticItem.render) ++
    "\x7d\n"

def Accessor.staticName (a : Accessor) : String :=
  String.ofList (a.name.toList.map Char.toUpper)

def Accessor.render (a : Accessor) : String :=
  let type := instanceType a.capability a.path
  "    pub fn " ++ a.name ++ "() -> &'static " ++ type ++ " \x7b\n" ++
    "        static " ++ a.staticName ++ ": " ++ lazyType ++ "<" ++ type ++
    "> =\n            " ++ lazyType ++ "::new(|| " ++ a.initializer ++ ");\n" ++
    "        &" ++ a.staticName ++ "\n    \x7d\n"

def Body.render : Body -> String
  | modules items => String.join (items.map ModuleItem.render)
  | block path accessors =>
      "\nimpl " ++ path ++ " \x7b\n" ++
        String.intercalate "\n" (accessors.map Accessor.render) ++ "\x7d\n"

/-- What stands before the fingerprint of a file on its line. -/
def fingerprintMark : String :=
  "// fingerprint: "

def header (root : String) (fingerprint : Fingerprint) : String :=
  "// @generated by cachegen from `" ++ root ++ "`. Do not edit.\n" ++ fingerprintMark ++
    fingerprint.toHex ++ "\n"

def File.render (f : File) : String :=
  header f.root f.fingerprint ++ f.body.render

def render (m : Manifest) : Except EmitError String := do
  let file <- lay m
  pure file.render

def emitter : Emitter where
  name := OutputFormat.rust.name
  emit := render

end Source

end InstanceForge
