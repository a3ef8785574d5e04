import InstanceForge.Diagnostic.Record
import InstanceForge.Files.Workspace

/-!
# Command plans

A command only asks about files; what it will change is part of its plan. The plan is carried
out afterwards, and its outcome tells whether a change failed.
-/

namespace InstanceForge

structure Outcome where
  exit : Nat
  stdout : String
  stderr : String
  deriving DecidableEq

/-- A failed command, after what it already wrote. -/
def Outcome.failure (preface message : String) : Outcome :=
  { exit := 1, stdout := "", stderr := preface ++ "error: " ++ message ++ "\n" }

/--
What a command does once it has asked about all files: the changes, what was written before
them, and the outcome if none of them fails.
-/
structure Plan where
  changes : List FileChange
  preface : String
  done : Outcome
  deriving DecidableEq

namespace Plan

def report (outcome : Outcome) : Plan :=
  { changes := [], preface := "", done := outcome }

def failure (preface message : String) : Plan :=
  report (.failure preface message)

def outcome (p : Plan) : Option FileFault -> Outcome
  | none => p.done
  | some fault => .failure p.preface fault.message

end Plan

def Workspace.carryOut (w : Workspace) (p : Plan) : Outcome × Workspace :=
  (p.outcome (w.changeAll p.changes).2, (w.changeAll p.changes).1)

/--
Settings that all commands share. Quiet commands write only what failed; verbose ones may log what
they do, which is no part of their outcome.
-/
structure Globals where
  quiet : Bool
  verbose : Bool
  coloured : Bool
  config : Option String
  deriving DecidableEq

namespace Globals

/-- A text that is written unless a command is to be quiet. -/
def aside (g : Globals) (text : String) : String :=
  if g.quiet then "" else text

/-- The diagnostics that are shown: all, or the errors alone. -/
def shown (g : Globals) (ds : List Diagnostic) : List Diagnostic :=
  ds.filter fun d => d.severity.isError || !g.quiet

def textReport (g : Globals) (ds : List Diagnostic) : String :=
  String.join ((g.shown ds).map (Diagnostic.render g.coloured))

def jsonReport (g : Globals) (ds : List Diagnostic) : String :=
  match g.shown ds with
  | [] => ""
  | d :: rest => Json.pretty (.list ((d :: rest).map Diagnostic.toDatum)) ++ "\n"

end Globals

end InstanceForge
