import InstanceForge.SymbolTable
import Mathlib.Data.List.Nodup

/-!
# Numbers of symbols

A symbol has one number, which stays when other symbols are entered.
-/

namespace InstanceForge

namespace SymbolTable

variable {t : SymbolTable} {s : String} {n : Nat}

/-- A string is found at the number that it has. -/
theorem find?_eq_some_iff : t.find? s = some n ↔ t.symbol? n = some s := by
  rw [find?, symbol?, List.idxOf?_eq_some_iff]
  constructor
  · rintro ⟨h, hs, _⟩
    rw [List.getElem?_eq_getElem h, hs]
  · intro h
    obtain ⟨hlt, rfl⟩ := List.getElem?_eq_some_iff.1 h
    refine ⟨hlt, rfl, ?_⟩
    intro m hm heq
    exact absurd ((List.Nodup.getElem_inj_iff t.nodup).1 heq) (by omega)

theorem insert_of_mem (h : s ∈ t.symbols) : t.insert s = (t.symbols.idxOf s, t) :=
  dif_pos h

theorem symbol?_insert (t : SymbolTable) (s : String) :
    (t.insert s).2.symbol? (t.insert s).1 = some s := by
  by_cases h : s ∈ t.symbols
  · rw [insert_of_mem h]
    exact List.getElem?_idxOf h
  · simp [insert, dif_neg h, symbol?, size]

theorem symbol?_insert_of_eq_some {other : String} (h : t.symbol? n = some other) :
    (t.insert s).2.symbol? n = some other := by
  by_cases hs : s ∈ t.symbols
  · rw [insert_of_mem hs]
    exact h
  · have hlt : n < t.symbols.length := (List.getElem?_eq_some_iff.1 h).1
    simp only [insert, dif_neg hs, symbol?, List.getElem?_append_left hlt]
    exact h

theorem number_unique {m : Nat} (hn : t.symbol? n = some s) (hm : t.symbol? m = some s) :
    n = m := by
  rw [← find?_eq_some_iff] at hn hm
  rw [hn, Option.some.injEq] at hm
  exact hm

end SymbolTable

end InstanceForge
