import InstanceForge.Diagnostic.Record
import InstanceForge.Proofs.Document.Json.Printer

/-!
# Diagnostics read back

A diagnostic is read back from the object that it is written as. The members that are left out
when they are empty may also be written as empty, so a diagnostic has several spellings; all of
them are read as the diagnostic, and the one that is written again leaves all of these out.
-/

namespace InstanceForge

/-! ## Members of records -/

namespace Decoder

/-- The entries of a record, of which some members are not written. -/
def written (members : List (String × Option Datum)) : List (String × Datum) :=
  members.filterMap fun p => p.2.map fun value => (p.1, value)

def writtenTable (members : List (String × Option Datum)) : List (Literal × Datum) :=
  (written members).map fun e => (.text e.1, e.2)

variable {members : List (String × Option Datum)}

theorem valuesOf_cons (key name : String) (value : Option Datum)
    (members : List (String × Option Datum)) :
    valuesOf key (writtenTable ((name, value) :: members)) =
      (if name = key then value.toList else []) ++ valuesOf key (writtenTable members) := by
  cases value with
  | none => simp [writtenTable, written]
  | some value => by_cases h : name = key <;> simp [valuesOf, writtenTable, written, h]

theorem valuesOf_of_notMem {key : String} (h : key ∉ members.map Prod.fst) :
    valuesOf key (writtenTable members) = [] := by
  induction members with
  | nil => rfl
  | cons p rest ih =>
      obtain ⟨name, value⟩ := p
      rw [List.map_cons, List.mem_cons, not_or] at h
      rw [valuesOf_cons, if_neg (Ne.symm h.1), ih h.2, List.append_nil]

theorem valuesOf_of_mem (hnodup : (members.map Prod.fst).Nodup) {p : String × Option Datum}
    (hp : p ∈ members) : valuesOf p.1 (writtenTable members) = p.2.toList := by
  induction members with
  | nil => cases hp
  | cons q rest ih =>
      obtain ⟨name, value⟩ := q
      obtain ⟨hname, hrest⟩ := List.nodup_cons.1 hnodup
      rw [valuesOf_cons]
      rcases List.mem_cons.1 hp with rfl | hp
      · rw [if_pos rfl, valuesOf_of_notMem hname, List.append_nil]
      · have hne : name ≠ p.1 := fun heq => hname (List.mem_map.2 ⟨p, hp, heq.symm⟩)
        rw [if_neg hne, ih hrest hp, List.nil_append]

theorem member?_writtenTable (hnodup : (members.map Prod.fst).Nodup)
    {p : String × Option Datum} (hp : p ∈ members) :
    member? (writtenTable members) p.1 = some p.2 := by
  rw [member?, valuesOf_of_mem hnodup hp]
  cases p.2 <;> rfl

/-- A record whose members have different names is read with the members that are written. -/
theorem members?_written (format : DocumentFormat) {names : List String} (hnodup : names.Nodup)
    (hnames : members.map Prod.fst = names) :
    members? format names (.ofEntries (written members)) = some (members.map Prod.snd) := by
  subst hnames
  have hmembers : ∀ part : List (String × Option Datum), (∀ p ∈ part, p ∈ members) ->
      (part.map Prod.fst).mapM (member? (writtenTable members)) = some (part.map Prod.snd) := by
    intro part hpart
    induction part with
    | nil => rfl
    | cons p rest ih =>
        rw [List.forall_mem_cons] at hpart
        rw [List.map_cons, List.mapM_cons, member?_writtenTable hnodup hpart.1, ih hpart.2]
        rfl
  have htexts : ((writtenTable members).all fun e => (literalText? e.1).isSome) = true := by
    refine List.all_eq_true.2 fun e he => ?_
    obtain ⟨_, _, rfl⟩ := List.mem_map.1 he
    rfl
  rw [Datum.ofEntries, ← writtenTable, members?, if_pos htexts]
  exact hmembers members fun _ hp => hp

theorem faithful_written (h : ∀ p ∈ members, ∀ value ∈ p.2, Json.Faithful value) :
    Json.Faithful (.ofEntries (written members)) := by
  refine Json.faithful_ofEntries fun e he => ?_
  obtain ⟨p, hp, heq⟩ := List.mem_filterMap.1 he
  obtain ⟨value, hvalue, rfl⟩ := Option.map_eq_some_iff.1 heq
  exact h p hp value hvalue

theorem listOf_text_ofStrings (texts : List String) :
    listOf text (.ofStrings texts) = some texts := by
  rw [Datum.ofStrings, listOf]
  induction texts with
  | nil => rfl
  | cons s rest ih =>
      rw [List.map_cons, List.mapM_cons, ih]
      rfl

end Decoder

/-! ## Codes -/

theorem Category.choice_name (c : Category) :
    Decoder.choice .json byName (.ofString c.name) = some c := by
  cases c <;> rfl

theorem Severity.choice_name (s : Severity) :
    Decoder.choice .json byName (.ofString s.name) = some s := by
  cases s <;> rfl

namespace DiagnosticCode

theorem number?_ofNat (n : Fin 65536) : number? (.ofNat n.val) = some n := by
  have hle : n.val ≤ 65535 := by omega
  have hread : Decoder.natUpTo 65535 (.ofNat n.val) = some n.val := by
    simp [Decoder.natUpTo, Datum.ofNat, Numeral.toNat?_ofNat, hle]
  simp [number?, hread]

def members (c : DiagnosticCode) : List (String × Option Datum) :=
  [("category", some (.ofString c.category.name)), ("number", some (.ofNat c.number.val))]

theorem ofDatum?_toDatum (c : DiagnosticCode) : ofDatum? c.toDatum = some c := by
  have hwritten : c.toDatum = .ofEntries (Decoder.written c.members) := rfl
  have hnames : c.members.map Prod.fst = ["category", "number"] := rfl
  have hmembers := Decoder.members?_written .json (by decide) hnames
  rw [ofDatum?, hwritten, hmembers]
  simp [members, Decoder.required, Category.choice_name, number?_ofNat]

theorem faithful_toDatum (c : DiagnosticCode) : Json.Faithful c.toDatum := by
  refine Json.faithful_ofEntries ?_
  simp only [List.forall_mem_cons]
  exact ⟨Json.faithful_ofString _, .number (Numeral.proper_ofNat _), List.forall_mem_nil _⟩

end DiagnosticCode

/-! ## Spellings -/

/-- A spelling of a diagnostic: which members are written even if they are empty. -/
structure Spelling where
  subject : Bool
  notes : Bool
  help : Bool
  deriving DecidableEq

namespace Spelling

def shortest : Spelling :=
  ⟨false, false, false⟩

/-- A subject as a member, null if there is none and it is written all the same. -/
def subjectMember (isWritten : Bool) : Option String -> Option Datum
  | some subject => some (.ofString subject)
  | none => if isWritten then some .null else none

def textsMember (isWritten : Bool) : List String -> Option Datum
  | [] => if isWritten then some (.list []) else none
  | texts => some (.ofStrings texts)

theorem optional_subjectMember (isWritten : Bool) (subject : Option String) :
    Decoder.optional Decoder.text (subjectMember isWritten subject) = some subject := by
  cases subject with
  | some s => rfl
  | none => cases isWritten <;> rfl

theorem faithful_subjectMember {isWritten : Bool} {subject : Option String} {value : Datum}
    (h : subjectMember isWritten subject = some value) : Json.Faithful value := by
  cases subject with
  | some s =>
      cases h
      exact Json.faithful_ofString s
  | none =>
      cases isWritten with
      | false => cases h
      | true =>
          cases h
          exact .null

theorem faithful_textsMember {isWritten : Bool} {texts : List String} {value : Datum}
    (h : textsMember isWritten texts = some value) : Json.Faithful value := by
  cases texts with
  | cons s rest =>
      cases h
      exact Json.faithful_ofStrings (s :: rest)
  | nil =>
      cases isWritten with
      | false => cases h
      | true =>
          cases h
          exact Json.faithful_ofStrings []

theorem withDefault_textsMember (isWritten : Bool) (texts : List String) :
    Decoder.withDefault [] (Decoder.listOf Decoder.text) (textsMember isWritten texts) =
      some texts := by
  cases texts with
  | nil => cases isWritten <;> rfl
  | cons s rest => exact Decoder.listOf_text_ofStrings (s :: rest)

end Spelling

namespace Diagnostic

variable {d : Diagnostic}

def members (s : Spelling) (d : Diagnostic) : List (String × Option Datum) :=
  [("severity", some (.ofString d.severity.name)), ("code", some d.code.toDatum),
    ("message", some (.ofString d.message)),
    ("subject", Spelling.subjectMember s.subject d.subject),
    ("notes", Spelling.textsMember s.notes d.notes),
    ("help", Spelling.textsMember s.help d.help)]

def spelled (s : Spelling) (d : Diagnostic) : Datum :=
  .ofEntries (Decoder.written (d.members s))

/-- What is written is the shortest spelling. -/
theorem toDatum_eq_spelled (d : Diagnostic) : d.toDatum = d.spelled .shortest := by
  obtain ⟨severity, code, message, subject, notes, help⟩ := d
  cases subject <;> cases notes <;> cases help <;> rfl

theorem ofDatum?_spelled (s : Spelling) (d : Diagnostic) : ofDatum? (d.spelled s) = some d := by
  have hnames : (d.members s).map Prod.fst =
      ["severity", "code", "message", "subject", "notes", "help"] := rfl
  have hmembers := Decoder.members?_written .json (by decide) hnames
  rw [ofDatum?, spelled, hmembers]
  simp only [members, List.map_cons, List.map_nil, Decoder.required, Severity.choice_name,
    DiagnosticCode.ofDatum?_toDatum, Spelling.optional_subjectMember,
    Spelling.withDefault_textsMember, Option.bind_eq_bind, Option.bind_some, Option.pure_def]
  rfl

theorem faithful_spelled (s : Spelling) (d : Diagnostic) : Json.Faithful (d.spelled s) := by
  refine Decoder.faithful_written ?_
  simp only [members, List.forall_mem_cons, Option.mem_def, Option.some.injEq, forall_eq']
  exact ⟨Json.faithful_ofString _, d.code.faithful_toDatum, Json.faithful_ofString _,
    fun _ => Spelling.faithful_subjectMember, fun _ => Spelling.faithful_textsMember,
    fun _ => Spelling.faithful_textsMember, List.forall_mem_nil _⟩

/-! ## Texts -/

/-- The text is the diagnostic in some spelling, with blanks anywhere. -/
def Writes (d : Diagnostic) (text : String) : Prop :=
  ∃ s b cs b', Json.Blanks b ∧ Json.Layout (.value (d.spelled s)) cs ∧ Json.Blanks b' ∧
    text = String.ofList (b ++ (cs ++ b'))

theorem ofJson?_of_writes {text : String} (h : d.Writes text) : ofJson? text = some d := by
  obtain ⟨s, b, cs, b', hb, hlayout, hb', rfl⟩ := h
  have hread : DocumentFormat.json.read (String.ofList (b ++ (cs ++ b'))) = some (d.spelled s) :=
    hlayout.read hb hb'
  rw [ofJson?, hread]
  exact ofDatum?_spelled s d

theorem writes_compact (s : Spelling) (d : Diagnostic) : d.Writes (Json.compact (d.spelled s)) := by
  refine ⟨s, [], _, [], Json.blanks_nil, Json.layout_compact (faithful_spelled s d),
    Json.blanks_nil, ?_⟩
  rw [List.nil_append, List.append_nil, String.ofList_toList]

theorem ofJson?_toJson (d : Diagnostic) : ofJson? d.toJson = some d := by
  refine ofJson?_of_writes ?_
  rw [toJson, toDatum_eq_spelled]
  exact writes_compact .shortest d

theorem toJson_injective : Function.Injective toJson := by
  intro d other h
  have hread := ofJson?_toJson d
  rw [h, ofJson?_toJson other] at hread
  exact (Option.some.inj hread).symm

def keys (d : Diagnostic) : List String :=
  d.entries.map Prod.fst

/-- A member that may be left out is written exactly if it is not empty. -/
theorem mem_keys_iff (d : Diagnostic) :
    ("subject" ∈ d.keys ↔ d.subject ≠ none) ∧ ("notes" ∈ d.keys ↔ d.notes ≠ []) ∧
      ("help" ∈ d.keys ↔ d.help ≠ []) := by
  obtain ⟨severity, code, message, subject, notes, help⟩ := d
  cases subject <;> cases notes <;> cases help <;> simp [keys, entries, subjectEntry, textsEntry]

/--
A diagnostic is read back from its JSON, so what was read from any text is read again from what is
written for it. All texts of a diagnostic, whichever empty members they spell out, come to this one
form, which no other diagnostic has and which leaves out exactly what is empty.
-/
theorem toJson_canonical :
    (∀ d : Diagnostic, ofJson? d.toJson = some d) ∧
      (∀ text d, ofJson? text = some d -> ofJson? d.toJson = some d) ∧
      (∀ (d : Diagnostic) text, d.Writes text ->
        ofJson? text = some d ∧ (ofJson? text).map toJson = some d.toJson) ∧
      (∀ d other : Diagnostic, d.toJson = other.toJson ↔ d = other) ∧
      ∀ d : Diagnostic, d.Writes d.toJson ∧
        ("subject" ∈ d.keys ↔ d.subject ≠ none) ∧ ("notes" ∈ d.keys ↔ d.notes ≠ []) ∧
        ("help" ∈ d.keys ↔ d.help ≠ []) := by
  refine ⟨ofJson?_toJson, fun _ d _ => ofJson?_toJson d, fun d text h => ?_,
    fun _ _ => toJson_injective.eq_iff, fun d => ⟨?_, d.mem_keys_iff⟩⟩
  · rw [ofJson?_of_writes h]
    exact ⟨rfl, rfl⟩
  · rw [toJson, toDatum_eq_spelled]
    exact writes_compact .shortest d

def spelledNote : String :=
  "\x7b\"severity\":\"note\",\"code\":\x7b\"category\":\"Error\",\"number\":3\x7d," ++
    "\"message\":\"\\\"é\\n\",\"subject\":null,\"notes\":[],\"help\":[]\x7d"

def writtenNote : String :=
  "\x7b\"severity\":\"note\",\"code\":\x7b\"category\":\"Error\",\"number\":3\x7d," ++
    "\"message\":\"\\\"é\\n\"\x7d"

theorem toJson_of_spelledNote : ∃ d : Diagnostic, d.severity = .note ∧ d.Writes spelledNote ∧
    ofJson? spelledNote = some d ∧ (ofJson? spelledNote).map toJson = some writtenNote := by
  have hwrites := writes_compact ⟨true, true, true⟩ (bare .note ⟨.error, 3⟩ "\"é\n")
  have htext : Json.compact ((bare .note ⟨.error, 3⟩ "\"é\n").spelled ⟨true, true, true⟩) =
      spelledNote := by decide +kernel
  rw [htext] at hwrites
  obtain ⟨hread, hcanonical⟩ := toJson_canonical.2.2.1 _ _ hwrites
  refine ⟨_, rfl, hwrites, hread, hcanonical.trans (congrArg some ?_)⟩
  decide +kernel

end Diagnostic

end InstanceForge
