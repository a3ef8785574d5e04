/-!
# File trees

A tree maps locations to files and directories. A location is the list of names on the way from
the root, which is always a directory. A file is what it holds and nothing else: there are no
permissions, links, devices, mounts and times of change.
-/

namespace InstanceForge

inductive FileFault where
  | notFound
  | notDirectory
  | isDirectory
  | alreadyExists
  | notText
  | nameTooLong
  | nulInName
  | other (text : String)
  deriving DecidableEq

def FileFault.message : FileFault -> String
  | notFound => "No such file or directory (os error 2)"
  | notDirectory => "Not a directory (os error 20)"
  | isDirectory => "Is a directory (os error 21)"
  | alreadyExists => "File exists (os error 17)"
  | notText => "stream did not contain valid UTF-8"
  | nameTooLong => "File name too long (os error 36)"
  | nulInName => "file name contained an unexpected NUL byte"
  | other text => text

/-- What a file holds: text, or bytes that encode none. -/
inductive FileContent where
  | text (s : String)
  | bytes (data : List UInt8)
  deriving DecidableEq

def FileContent.ofBytes (data : List UInt8) : FileContent :=
  match String.fromUTF8? ⟨data.toArray⟩ with
  | some s => .text s
  | none => .bytes data

inductive FileEntry where
  | file (content : FileContent)
  | directory
  deriving DecidableEq

/-- The names on the way from the root. -/
abbrev Location := List String

structure FileTree where
  entries : List (Location × FileEntry)

namespace FileTree

def empty : FileTree :=
  ⟨[]⟩

def get? (t : FileTree) : Location -> Option FileEntry
  | [] => some .directory
  | name :: rest => t.entries.lookup (name :: rest)

def erase (t : FileTree) (place : Location) : FileTree :=
  ⟨t.entries.filter fun e => e.1 != place⟩

/-- The tree with an entry at a location, instead of what was there. -/
def set (t : FileTree) (place : Location) (entry : FileEntry) : FileTree :=
  ⟨(place, entry) :: (t.erase place).entries⟩

theorem lookup_filter_ne_of_ne {place other : Location} (h : other ≠ place)
    (entries : List (Location × FileEntry)) :
    (entries.filter fun e => e.1 != place).lookup other = entries.lookup other := by
  induction entries with
  | nil => rfl
  | cons e rest ih =>
      obtain ⟨p, entry⟩ := e
      by_cases hp : p = place
      · have hne : (other == p) = false := by
          simpa [hp] using h
        simp [List.lookup_cons, hp, ih, hp ▸ hne]
      · simp [List.lookup_cons, hp, ih]

theorem get?_set_self (t : FileTree) (name : String) (rest : Location) (entry : FileEntry) :
    (t.set (name :: rest) entry).get? (name :: rest) = some entry := by
  simp [get?, set]

theorem get?_set_of_ne (t : FileTree) {place other : Location} (h : other ≠ place)
    (entry : FileEntry) : (t.set place entry).get? other = t.get? other := by
  cases other with
  | nil => rfl
  | cons name rest =>
      have hne : (name :: rest == place) = false := by
        simpa using h
      simp [get?, set, erase, List.lookup_cons, hne, lookup_filter_ne_of_ne h]

def setDirectories (t : FileTree) (place : Location) : Location -> FileTree
  | [] => t
  | name :: rest =>
      let below := place ++ [name]
      let next := if (t.get? below).isSome then t else t.set below .directory
      next.setDirectories below rest

/-- The tree with an entry at a location, and with directories on the way to it. -/
def put (t : FileTree) (place : Location) (entry : FileEntry) : FileTree :=
  (t.setDirectories [] place.dropLast).set place entry

def files (t : FileTree) : List (Location × FileContent) :=
  t.entries.filterMap fun e =>
    match e.2 with
    | .file content => some (e.1, content)
    | .directory => none

end FileTree

end InstanceForge
