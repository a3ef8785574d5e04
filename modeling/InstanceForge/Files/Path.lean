/-!
# Paths

A path is a text in which slashes separate segments. Joining and taking the parent work on the
text alone: nothing is looked up, and nothing is normalised beyond the end of the path.
-/

namespace InstanceForge

namespace Path

/-- The segments between slashes; there is always a first one. -/
def split : List Char -> List (List Char)
  | [] => [[]]
  | c :: rest =>
      if c = '/' then [] :: split rest
      else
        match split rest with
        | [] => [[c]]
        | segment :: more => (c :: segment) :: more

def unsplit : List (List Char) -> List Char
  | [] => []
  | [segment] => segment
  | segment :: next :: rest => segment ++ '/' :: unsplit (next :: rest)

theorem split_ne_nil (cs : List Char) : split cs ≠ [] := by
  cases cs with
  | nil => simp [split]
  | cons c rest =>
      unfold split
      split
      · simp
      · split <;> simp

theorem unsplit_split (cs : List Char) : unsplit (split cs) = cs := by
  induction cs with
  | nil => rfl
  | cons c rest ih =>
      by_cases hc : c = '/'
      · cases hs : split rest with
        | nil => exact absurd hs (split_ne_nil rest)
        | cons segment more =>
            rw [hs] at ih
            simp [split, hc, hs, unsplit, ih]
      · cases hs : split rest with
        | nil => exact absurd hs (split_ne_nil rest)
        | cons segment more =>
            rw [hs] at ih
            cases more with
            | nil => simpa [split, hc, hs, unsplit] using ih
            | cons next others => simpa [split, hc, hs, unsplit] using ih

def segments (path : String) : List String :=
  (split path.toList).map String.ofList

def ofSegments (parts : List String) : String :=
  String.ofList (unsplit (parts.map String.toList))

theorem ofSegments_segments (path : String) : ofSegments (segments path) = path := by
  simp [ofSegments, segments, Function.comp_def, unsplit_split]

def isAbsolute (path : String) : Bool :=
  path.toList.head? = some '/'

/-- Whether another segment can follow a text at once. -/
def endsOpen (path : String) : Bool :=
  path.toList.isEmpty || path.toList.getLast? = some '/'

/-- A path below a directory; an absolute path stays as it is. -/
def join (directory path : String) : String :=
  if isAbsolute path then path
  else if endsOpen directory then directory ++ path
  else directory ++ "/" ++ path

/-- Whether a segment after the first says nothing. -/
def isIdle (segment : String) : Bool :=
  segment = "" || segment = "."

def trimEnd (parts : List String) : List String :=
  (parts.reverse.dropWhile isIdle).reverse

/-- The path of a first segment and more that follow it; alone, the empty one is the root. -/
def assemble (first : String) (rest : List String) : String :=
  if first = "" && rest.isEmpty then "/" else ofSegments (first :: rest)

/-- The directory that a path names an entry of; a root and the empty path have none. -/
def parent? (path : String) : Option String :=
  match segments path with
  | [] => none
  | first :: rest =>
      match trimEnd rest with
      | [] => if first = "" then none else some ""
      | part :: parts => some (assemble first (trimEnd (part :: parts).dropLast))

/-- The last segment, unless it leads upwards or stays in place. -/
def fileName? (path : String) : Option String :=
  match segments path with
  | [] => none
  | first :: rest =>
      let last := (trimEnd rest).getLast?.getD first
      if last = "" || last = "." || last = ".." then none else some last

def afterLastPoint? : List Char -> Option (List Char)
  | [] => none
  | c :: rest =>
      match afterLastPoint? rest with
      | some found => some found
      | none => if c = '.' then some rest else none

/-- What follows the last point of a file's name; a point in front does not count. -/
def extension? (path : String) : Option String :=
  match fileName? path with
  | none => none
  | some name => (afterLastPoint? (name.toList.drop 1)).map String.ofList

/-- The paths of a directory and of those above it, the nearest first, so many at most. -/
def ancestorsWithin : Nat -> String -> List String
  | 0, path => [path]
  | n + 1, path =>
      match parent? path with
      | some up => path :: ancestorsWithin n up
      | none => [path]

def ancestors (path : String) : List String :=
  ancestorsWithin (segments path).length path

end Path

end InstanceForge
