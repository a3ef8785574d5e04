import InstanceForge.Document.Datum

/-!
# TOML tables under construction

A table remembers how it came to be, because that decides what may still be added to it:
a header may complete a table that exists only because a longer header named it, and a dotted
key may add to a table that dotted keys made, but never to one that a header made.
-/

namespace InstanceForge

namespace Toml

/-- How a table came to be: by its own header, by a longer header, or by a dotted key. -/
inductive Origin where
  | header
  | longerHeader
  | dottedKey
  deriving DecidableEq

/-- What a key stands for: a finished value, a table, or the elements of an array of tables. -/
inductive Item where
  | value (d : Datum)
  | table (origin : Origin) (items : List (String × Item))
  | elements (tables : List (List (String × Item)))

abbrev Items := List (String × Item)

namespace Items

def get? (items : Items) (key : String) : Option Item :=
  (items.find? fun e => e.1 == key).map (·.2)

/-- The items with a key set, in its place or at the end. -/
def set (key : String) (item : Item) : Items -> Items
  | [] => [(key, item)]
  | e :: rest => if e.1 = key then (key, item) :: rest else e :: set key item rest

def changeLast? (change : Items -> Option Items) : List Items -> Option (List Items)
  | [] => none
  | [last] => (change last).map fun t => [t]
  | first :: next :: rest => (changeLast? change (next :: rest)).map fun ts => first :: ts

/--
Changes the table at the end of a path of header segments. Missing tables are made on the way;
in an array of tables the way leads through the last element.
-/
def changeAt? (change : Items -> Option Items) : List String -> Items -> Option Items
  | [], items => change items
  | key :: path, items =>
      match items.get? key with
      | none => (changeAt? change path []).map fun t => items.set key (.table .longerHeader t)
      | some (.table origin inner) =>
          (changeAt? change path inner).map fun t => items.set key (.table origin t)
      | some (.elements tables) =>
          (changeLast? (changeAt? change path) tables).map fun ts => items.set key (.elements ts)
      | some (.value _) => none

def addNew? (key : String) (item : Item) (items : Items) : Option Items :=
  match items.get? key with
  | none => some (items.set key item)
  | some _ => none

/--
Adds a value under a dotted key. The way leads through tables that no header made, and the
value is added only where the key's own way of writing tables ends: a key without dots adds to
the table it stands in, one with dots adds to a table made by dotted keys.
-/
def addDotted? (value : Datum) (origin : Option Origin) :
    List String -> String -> Items -> Option Items
  | [], key, items =>
      if origin = none ∨ origin = some .dottedKey then addNew? key (.value value) items else none
  | step :: path, key, items =>
      match items.get? step with
      | none =>
          (addDotted? value (some .dottedKey) path key []).map fun t =>
            items.set step (.table .dottedKey t)
      | some (.table made inner) =>
          if made = .header then none
          else
            (addDotted? value (some made) path key inner).map fun t =>
              items.set step (.table made t)
      | some (.elements tables) =>
          (changeLast? (addDotted? value (some .header) path key) tables).map fun ts =>
            items.set step (.elements ts)
      | some (.value _) => none

def add? (path : List String) (value : Datum) (items : Items) : Option Items :=
  match path.getLast? with
  | some key => addDotted? value none path.dropLast key items
  | none => none

def addAll? : List (List String × Datum) -> Items -> Option Items
  | [], items => some items
  | (path, value) :: rest, items =>
      match add? path value items with
      | some next => addAll? rest next
      | none => none

end Items

mutual

def Item.toDatum : Item -> Datum
  | .value d => d
  | .table _ items => .table (Item.entries items)
  | .elements tables => .list (Item.elementsData tables)

def Item.entries : List (String × Item) -> List (Literal × Datum)
  | [] => []
  | (key, item) :: rest => (.text key, item.toDatum) :: Item.entries rest

def Item.elementsData : List (List (String × Item)) -> List Datum
  | [] => []
  | items :: rest => .table (Item.entries items) :: Item.elementsData rest

end

structure Header where
  element : Bool
  path : List String

structure Section where
  header : Header
  entries : List (List String × Datum)

namespace Section

def place? (s : Section) (key : String) (items : Items) : Option Items :=
  if s.header.element then
    match Items.addAll? s.entries [], items.get? key with
    | some t, none => some (items.set key (.elements [t]))
    | some t, some (.elements tables) => some (items.set key (.elements (tables ++ [t])))
    | _, _ => none
  else
    match items.get? key with
    | none =>
        (Items.addAll? s.entries []).map fun t => items.set key (.table .header t)
    | some (.table .longerHeader inner) =>
        (Items.addAll? s.entries inner).map fun t => items.set key (.table .header t)
    | some _ => none

def addTo? (s : Section) (items : Items) : Option Items :=
  match s.header.path.getLast? with
  | some key => Items.changeAt? (s.place? key) s.header.path.dropLast items
  | none => none

end Section

/-- The table that the keys before the first header and then the sections define. -/
def assemble? (entries : List (List String × Datum)) (sections : List Section) : Option Datum :=
  match Items.addAll? entries [] with
  | none => none
  | some start =>
      match sections.foldlM (fun items s => s.addTo? items) start with
      | some items => some (.table (Item.entries items))
      | none => none

end Toml

end InstanceForge
