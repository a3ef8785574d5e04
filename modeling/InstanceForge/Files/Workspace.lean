import InstanceForge.Files.Path
import InstanceForge.Files.Tree

/-!
# Workspaces

A file tree and the directory that relative paths start from. A path is followed segment by
segment, and every segment needs a directory to look in. A path that is empty, too long or holds
a NUL is refused before that, and a name that is too long where it is looked up. What a program
does to the files is a list of changes; the first that fails ends it, and what was done before
stays done. Programs ask about the files through a `FileReader`, which a workspace is for its own.

What the tree does not decide is left out. Every entry can be read and changed, an operation that
is not refused is done as a whole, so that no write ends on a full disk, and the standard output
and the standard error take whatever is written to them.
-/

namespace InstanceForge

/-- A file tree, and where relative paths start. -/
structure Workspace where
  tree : FileTree
  current : Location

namespace Path

def maxSize : Nat := 4095

def maxNameSize : Nat := 255

/-- Why a path is refused before anything is looked up. -/
def fault? (path : String) : Option FileFault :=
  if path.toList.contains '\x00' then some .nulInName
  else if path = "" then some .notFound
  else if maxSize < path.utf8ByteSize then some .nameTooLong
  else none

end Path

namespace FileTree

def find (t : FileTree) (place : Location) (name : String) : Except FileFault (Option FileEntry) :=
  if Path.maxNameSize < name.utf8ByteSize then .error .nameTooLong
  else .ok (t.get? (place ++ [name]))

def step (t : FileTree) (place : Location) (segment : String) : Except FileFault Location :=
  match t.get? place with
  | none => .error .notFound
  | some (.file _) => .error .notDirectory
  | some .directory =>
      if Path.isIdle segment then .ok place
      else if segment = ".." then .ok place.dropLast
      else
        match t.find place segment with
        | .error e => .error e
        | .ok (some _) => .ok (place ++ [segment])
        | .ok none => .error .notFound

def walk (t : FileTree) : Location -> List String -> Except FileFault Location
  | place, [] => .ok place
  | place, segment :: rest =>
      match t.step place segment with
      | .error e => .error e
      | .ok next => t.walk next rest

end FileTree

namespace Workspace

/-- Where a path starts, and the segments that it follows from there. -/
def start (w : Workspace) (path : String) : Location × List String :=
  match Path.segments path with
  | "" :: rest => ([], rest)
  | parts => (w.current, parts)

def resolve (w : Workspace) (path : String) : Except FileFault Location :=
  match Path.fault? path with
  | some e => .error e
  | none => w.tree.walk (w.start path).1 (w.start path).2

def entry? (w : Workspace) (path : String) : Option FileEntry :=
  match w.resolve path with
  | .ok place => w.tree.get? place
  | .error _ => none

def isPresent (w : Workspace) (path : String) : Bool :=
  (w.entry? path).isSome

def isFile (w : Workspace) (path : String) : Bool :=
  match w.entry? path with
  | some (.file _) => true
  | _ => false

def isDirectory (w : Workspace) (path : String) : Bool :=
  w.entry? path = some .directory

def readText (w : Workspace) (path : String) : Except FileFault String :=
  match w.resolve path with
  | .error e => .error e
  | .ok place =>
      match w.tree.get? place with
      | none => .error .notFound
      | some .directory => .error .isDirectory
      | some (.file (.bytes _)) => .error .notText
      | some (.file (.text s)) => .ok s

def currentPath (w : Workspace) : String :=
  "/" ++ Path.ofSegments w.current

/-- What a path asks to make: a name in a directory, and whether a slash follows the name. -/
structure Target where
  directory : Location
  name : Option String
  slashed : Bool

/-- The directory and the name that a path ends in; there is no name where it leads upwards. -/
def target (w : Workspace) (path : String) : Except FileFault Target :=
  let parts := (w.start path).2
  let named := (parts.reverse.dropWhile (· = "")).reverse
  match Path.fault? path with
  | some e => .error e
  | none =>
      match w.tree.walk (w.start path).1 (named.dropLast ++ ["."]) with
      | .error e => .error e
      | .ok directory =>
          let name := named.getLast?.filter fun s => s != "." && s != ".."
          .ok ⟨directory, name, named.length < parts.length⟩

def set (w : Workspace) (place : Location) (entry : FileEntry) : Workspace :=
  { w with tree := w.tree.set place entry }

def makeDirectory (w : Workspace) (path : String) : Except FileFault Workspace :=
  match w.target path with
  | .error e => .error e
  | .ok ⟨_, none, _⟩ => .error .alreadyExists
  | .ok ⟨directory, some name, _⟩ =>
      match w.tree.find directory name with
      | .error e => .error e
      | .ok (some _) => .error .alreadyExists
      | .ok none => .ok (w.set (directory ++ [name]) .directory)

/-- Makes the first of some directories, and before it those after it that are missing. -/
def makeChain (w : Workspace) : List String -> Workspace × Option FileFault
  | [] => (w, some .notFound)
  | path :: above =>
      if path = "" then (w, none)
      else
        match w.makeDirectory path with
        | .ok made => (made, none)
        | .error .notFound =>
            match w.makeChain above with
            | (made, some e) => (made, some e)
            | (made, none) =>
                match made.makeDirectory path with
                | .ok last => (last, none)
                | .error e => (made, if made.isDirectory path then none else some e)
        | .error e => (w, if w.isDirectory path then none else some e)

def makeDirectories (w : Workspace) (path : String) : Workspace × Option FileFault :=
  w.makeChain (Path.ancestors path)

/-- Writes a text to a file, new or instead of what it holds. -/
def write (w : Workspace) (path text : String) : Except FileFault Workspace :=
  match w.target path with
  | .error e => .error e
  | .ok ⟨_, none, _⟩ => .error .isDirectory
  | .ok ⟨_, some _, true⟩ => .error .isDirectory
  | .ok ⟨directory, some name, false⟩ =>
      match w.tree.find directory name with
      | .error e => .error e
      | .ok (some .directory) => .error .isDirectory
      | .ok _ => .ok (w.set (directory ++ [name]) (.file (.text text)))

/-- Writes a text to a file where nothing is. -/
def create (w : Workspace) (path text : String) : Except FileFault Workspace :=
  match w.target path with
  | .error e => .error e
  | .ok ⟨_, none, _⟩ => .error .alreadyExists
  | .ok ⟨_, some _, true⟩ => .error .isDirectory
  | .ok ⟨directory, some name, false⟩ =>
      match w.tree.find directory name with
      | .error e => .error e
      | .ok (some _) => .error .alreadyExists
      | .ok none => .ok (w.set (directory ++ [name]) (.file (.text text)))

end Workspace

inductive FileChange where
  | makeDirectories (path : String)
  | write (path text : String)
  | create (path text : String)
  deriving DecidableEq

namespace Workspace

def settle (w : Workspace) : Except FileFault Workspace -> Workspace × Option FileFault
  | .ok next => (next, none)
  | .error e => (w, some e)

def change (w : Workspace) : FileChange -> Workspace × Option FileFault
  | .makeDirectories path => w.makeDirectories path
  | .write path text => w.settle (w.write path text)
  | .create path text => w.settle (w.create path text)

/-- Makes changes up to the first that fails. -/
def changeAll (w : Workspace) : List FileChange -> Workspace × Option FileFault
  | [] => (w, none)
  | c :: rest =>
      match w.change c with
      | (next, some e) => (next, some e)
      | (next, none) => next.changeAll rest

end Workspace

/-! ## Reading files -/

class FileReader (m : Type -> Type) where
  /-- The path of the current directory. -/
  currentPath : m String
  /-- Whether a path leads to a file. -/
  isFile : String -> m Bool
  /-- Whether a path leads to anything. -/
  isPresent : String -> m Bool
  /-- The text that a path leads to. -/
  readText : String -> m (Except FileFault String)

instance : FileReader (ReaderM Workspace) where
  currentPath := fun w => w.currentPath
  isFile path := fun w => w.isFile path
  isPresent path := fun w => w.isPresent path
  readText path := fun w => w.readText path

end InstanceForge
