import InstanceForge.Proofs.Diagnostic.Sink

/-!
# Histories of a sink

A sink is called any number of times: to emit a diagnostic, to take what is held, or to look at
it. What was taken and what is held are together what was emitted, in the order of emission, and
the counts are those of all that was emitted, whatever was taken.
-/

namespace InstanceForge

namespace DiagnosticSink

/-! ## Calls -/

inductive Call where
  | emit (d : Diagnostic)
  | takeAll
  | look

inductive Answer where
  | done
  | taken (ds : List Diagnostic)
  | seen (ds : List Diagnostic)

def answer (sink : DiagnosticSink) : Call -> Answer × DiagnosticSink
  | .emit d => (.done, sink.emit d)
  | .takeAll => (.taken sink.takeAll.1, sink.takeAll.2)
  | .look => (.seen sink.held, sink)

def answerAll (sink : DiagnosticSink) : List Call -> List Answer × DiagnosticSink
  | [] => ([], sink)
  | call :: rest =>
      let (first, next) := sink.answer call
      let (others, last) := next.answerAll rest
      (first :: others, last)

def emitted (calls : List Call) : List Diagnostic :=
  calls.filterMap fun
    | .emit d => some d
    | _ => none

def takenIn (answers : List Answer) : List Diagnostic :=
  answers.flatMap fun
    | .taken ds => ds
    | _ => []

variable {sink : DiagnosticSink} {calls first second : List Call} {answers : List Answer}

theorem answerAll_cons (sink : DiagnosticSink) (call : Call) (calls : List Call) :
    sink.answerAll (call :: calls) =
      ((sink.answer call).1 :: ((sink.answer call).2.answerAll calls).1,
        ((sink.answer call).2.answerAll calls).2) := rfl

theorem answerAll_append (sink : DiagnosticSink) (first second : List Call) :
    sink.answerAll (first ++ second) =
      ((sink.answerAll first).1 ++ ((sink.answerAll first).2.answerAll second).1,
        ((sink.answerAll first).2.answerAll second).2) := by
  induction first generalizing sink with
  | nil => rfl
  | cons call rest ih =>
      rw [List.cons_append, answerAll_cons, ih, answerAll_cons]
      rfl

/-! ## The account of a history -/

/-- What a sink holds and counts after calls, and what was taken in their answers. -/
structure Accounted (calls : List Call) (answers : List Answer) (sink : DiagnosticSink) :
    Prop where
  emitted_eq : takenIn answers ++ sink.held = emitted calls
  errors_eq : sink.errors = countOf .error (emitted calls)
  warnings_eq : sink.warnings = countOf .warning (emitted calls)

theorem accounted_empty : Accounted [] [] empty :=
  ⟨rfl, rfl, rfl⟩

/-- A call that emits nothing keeps the counts. -/
theorem emitted_concat_of_silent {call : Call} (h : ∀ d, call ≠ .emit d) :
    emitted (calls ++ [call]) = emitted calls := by
  cases call with
  | emit d => exact absurd rfl (h d)
  | takeAll => simp [emitted]
  | look => simp [emitted]

theorem Accounted.answer (h : Accounted calls answers sink) (call : Call) :
    Accounted (calls ++ [call]) (answers ++ [(sink.answer call).1]) (sink.answer call).2 := by
  cases call with
  | emit d =>
      have hemitted : emitted (calls ++ [.emit d]) = emitted calls ++ [d] := by simp [emitted]
      have htaken : takenIn (answers ++ [.done]) = takenIn answers := by simp [takenIn]
      refine ⟨?_, ?_, ?_⟩
      · show takenIn (answers ++ [.done]) ++ (sink.held ++ [d]) = _
        rw [htaken, hemitted, ← h.emitted_eq, List.append_assoc]
      · show tally .error d sink.errors = _
        rw [h.errors_eq, hemitted, tally_countOf]
      · show tally .warning d sink.warnings = _
        rw [h.warnings_eq, hemitted, tally_countOf]
  | takeAll =>
      have hemitted : emitted (calls ++ [.takeAll]) = emitted calls :=
        emitted_concat_of_silent nofun
      have htaken : takenIn (answers ++ [.taken sink.held]) = takenIn answers ++ sink.held := by
        simp [takenIn]
      refine ⟨?_, h.errors_eq.trans (by rw [hemitted]), h.warnings_eq.trans (by rw [hemitted])⟩
      show takenIn (answers ++ [.taken sink.held]) ++ [] = _
      rw [List.append_nil, htaken, hemitted, h.emitted_eq]
  | look =>
      have hemitted : emitted (calls ++ [.look]) = emitted calls := emitted_concat_of_silent nofun
      have htaken : takenIn (answers ++ [.seen sink.held]) = takenIn answers := by simp [takenIn]
      refine ⟨?_, h.errors_eq.trans (by rw [hemitted]), h.warnings_eq.trans (by rw [hemitted])⟩
      show takenIn (answers ++ [.seen sink.held]) ++ sink.held = _
      rw [htaken, hemitted, h.emitted_eq]

theorem Accounted.answerAll (h : Accounted first answers sink) (second : List Call) :
    Accounted (first ++ second) (answers ++ (sink.answerAll second).1)
      (sink.answerAll second).2 := by
  -- The calls so far grow at their end, so the induction is over all of them.
  induction second generalizing first answers sink with
  | nil => simpa [DiagnosticSink.answerAll] using h
  | cons call rest ih => simpa [answerAll_cons] using ih (h.answer call)

/-- Errors are reported exactly if one was ever emitted. -/
theorem Accounted.hasErrors_iff (h : Accounted calls answers sink) :
    sink.hasErrors = true ↔ ∃ d ∈ emitted calls, d.severity = .error := by
  rw [hasErrors, decide_eq_true_iff, h.errors_eq, countOf, List.countP_pos_iff]
  simp

/--
After any calls, what was taken so far and then what is held is what was emitted, and the counts
are those of all of it. To take empties the sink and keeps the counts; to look gives what is held,
and all later calls are answered as if it had not been done.
-/
theorem accounted_of_calls (calls : List Call) :
    Accounted calls (empty.answerAll calls).1 (empty.answerAll calls).2 ∧
    ((empty.answerAll calls).2.hasErrors = true ↔ ∃ d ∈ emitted calls, d.severity = .error) ∧
    (∀ after, empty.answerAll (calls ++ .takeAll :: after) =
      let held := (empty.answerAll calls).2.held
      let rest := answerAll { (empty.answerAll calls).2 with held := [] } after
      ((empty.answerAll calls).1 ++ .taken held :: rest.1, rest.2)) ∧
    ∀ after, ∃ later last,
      empty.answerAll (calls ++ after) = ((empty.answerAll calls).1 ++ later, last) ∧
      empty.answerAll (calls ++ .look :: after) =
        ((empty.answerAll calls).1 ++ .seen (empty.answerAll calls).2.held :: later, last) := by
  have haccounted : Accounted calls (empty.answerAll calls).1 (empty.answerAll calls).2 :=
    accounted_empty.answerAll calls
  refine ⟨haccounted, haccounted.hasErrors_iff, fun after => ?_, fun after => ?_⟩
  · rw [answerAll_append, answerAll_cons]
    rfl
  · refine ⟨_, _, answerAll_append empty calls after, ?_⟩
    rw [answerAll_append, answerAll_cons]
    rfl

end DiagnosticSink

end InstanceForge
