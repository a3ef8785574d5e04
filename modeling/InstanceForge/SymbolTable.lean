/-!
# Symbol tables

Strings numbered in the order in which they are first entered.
-/

namespace InstanceForge

/-- Distinct strings; the number of a string is its position. -/
structure SymbolTable where
  symbols : List String
  nodup : symbols.Nodup

namespace SymbolTable

def empty : SymbolTable :=
  { symbols := [], nodup := List.nodup_nil }

def size (t : SymbolTable) : Nat :=
  t.symbols.length

def find? (t : SymbolTable) (s : String) : Option Nat :=
  t.symbols.idxOf? s

def symbol? (t : SymbolTable) (n : Nat) : Option String :=
  t.symbols[n]?

/-- Enters a string unless it is there, and gives its number. -/
def insert (t : SymbolTable) (s : String) : Nat × SymbolTable :=
  if h : s ∈ t.symbols then (t.symbols.idxOf s, t)
  else
    (t.size,
      { symbols := t.symbols ++ [s]
        nodup := by
          rw [List.nodup_append]
          refine ⟨t.nodup, by simp, ?_⟩
          intro a ha b hb hab
          simp only [List.mem_singleton] at hb
          exact h (by rw [← hb, ← hab]; exact ha) })

def summary (t : SymbolTable) : String :=
  "Interner \x7b len: " ++ toString t.size ++ " \x7d"

end SymbolTable

end InstanceForge
