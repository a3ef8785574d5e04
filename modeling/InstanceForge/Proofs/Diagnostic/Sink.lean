import InstanceForge.Diagnostic.Sink

/-!
# What a sink holds and counts

Diagnostics are held in the order of their emission. As long as nothing is taken, the counts are
those of what is held.
-/

namespace InstanceForge

namespace DiagnosticSink

/-! ## What is held -/

@[simp] theorem held_empty : empty.held = [] := rfl

@[simp] theorem held_emit (sink : DiagnosticSink) (d : Diagnostic) :
    (sink.emit d).held = sink.held ++ [d] := rfl

@[simp] theorem held_emitAll (sink : DiagnosticSink) (ds : List Diagnostic) :
    (sink.emitAll ds).held = sink.held ++ ds := by
  induction ds generalizing sink with
  | nil => simp [emitAll]
  | cons d rest ih =>
      have hrest : (sink.emitAll (d :: rest)).held = ((sink.emit d).emitAll rest).held := rfl
      rw [hrest, ih, held_emit, List.append_assoc, List.singleton_append]

/-! ## Counts -/

def countOf (s : Severity) (ds : List Diagnostic) : Nat :=
  ds.countP fun d => d.severity = s

theorem countOf_append (s : Severity) (ds es : List Diagnostic) :
    countOf s (ds ++ es) = countOf s ds + countOf s es :=
  List.countP_append

theorem tally_countOf (s : Severity) (d : Diagnostic) (ds : List Diagnostic) :
    tally s d (countOf s ds) = countOf s (ds ++ [d]) := by
  by_cases h : d.severity = s <;> simp [tally, countOf, h]

/-- The counts of a sink are those of what it holds. -/
structure Counted (sink : DiagnosticSink) : Prop where
  errors : sink.errors = countOf .error sink.held
  warnings : sink.warnings = countOf .warning sink.held

theorem counted_empty : empty.Counted := ⟨rfl, rfl⟩

theorem Counted.emit {sink : DiagnosticSink} (h : sink.Counted) (d : Diagnostic) :
    (sink.emit d).Counted := by
  constructor
  · show tally .error d sink.errors = countOf .error (sink.held ++ [d])
    rw [h.errors, tally_countOf]
  · show tally .warning d sink.warnings = countOf .warning (sink.held ++ [d])
    rw [h.warnings, tally_countOf]

theorem Counted.emitAll {sink : DiagnosticSink} (h : sink.Counted) (ds : List Diagnostic) :
    (sink.emitAll ds).Counted := by
  induction ds generalizing sink with
  | nil => exact h
  | cons d rest ih => exact ih (h.emit d)

end DiagnosticSink

end InstanceForge
