import InstanceForge.Diagnostic.Basic

/-!
# Sinks of diagnostics

A sink holds diagnostics until they are taken, and counts the errors and warnings that were ever
emitted into it.
-/

namespace InstanceForge

/-- The diagnostics that are held, and the counts of all that were emitted. -/
structure DiagnosticSink where
  held : List Diagnostic
  errors : Nat
  warnings : Nat
  deriving DecidableEq

namespace DiagnosticSink

def empty : DiagnosticSink :=
  { held := [], errors := 0, warnings := 0 }

/-- Adds one to a count of a severity if a diagnostic has it. -/
def tally (s : Severity) (d : Diagnostic) (count : Nat) : Nat :=
  if d.severity = s then count + 1 else count

def emit (sink : DiagnosticSink) (d : Diagnostic) : DiagnosticSink :=
  { held := sink.held ++ [d]
    errors := tally .error d sink.errors
    warnings := tally .warning d sink.warnings }

def emitAll (sink : DiagnosticSink) (ds : List Diagnostic) : DiagnosticSink :=
  ds.foldl emit sink

/-- Takes what is held; the counts stay. -/
def takeAll (sink : DiagnosticSink) : List Diagnostic × DiagnosticSink :=
  (sink.held, { sink with held := [] })

def hasErrors (sink : DiagnosticSink) : Bool :=
  0 < sink.errors

end DiagnosticSink

end InstanceForge
