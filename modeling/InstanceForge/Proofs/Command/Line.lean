import InstanceForge.Command.Line
import InstanceForge.Proofs.Basic

/-!
# Flags in command lines

A flag that is put in front of the options of a command, and is not given again, is read before
them and changes nothing about how they are read.
-/

namespace InstanceForge

namespace Options

/--
Reads options after some that are given: these stay in front, and one more in front of them that
is not given again is kept there.
-/
def Carries {α : Type} (read : List GivenOption -> Except ArgumentStop (List GivenOption × α)) :
    Prop :=
  ∀ given next a, read given = .ok (next, a) -> given <+: next ∧
    ∀ c : GivenOption, (∀ x ∈ next, x.name ≠ c.name) -> read (c :: given) = .ok (c :: next, a)

variable {rules : List OptionRule} {rule : OptionRule} {value : String}

theorem carries_error {α : Type} (stop : ArgumentStop) :
    Carries fun _ => (.error stop : Except ArgumentStop (List GivenOption × α)) := by
  intro given next a h
  cases h

theorem carries_ok {α : Type} (a : α) : Carries fun given => .ok (given, a) := by
  intro given next b h
  cases h
  exact ⟨List.prefix_refl _, fun _ _ => rfl⟩

/-- A reading that goes on after another one. -/
theorem Carries.andThen {α β : Type}
    {read : List GivenOption -> Except ArgumentStop (List GivenOption × α)} (hread : Carries read)
    {more : α -> List GivenOption -> Except ArgumentStop (List GivenOption × β)}
    (hmore : ∀ a, Carries (more a)) : Carries fun given => read given >>= fun p => more p.2 p.1 := by
  intro given next b h
  obtain ⟨⟨middle, a⟩, hfirst, hsecond⟩ := bind_eq_ok_iff.1 h
  obtain ⟨hstays, hcarry⟩ := hread given middle a hfirst
  obtain ⟨hstays', hcarry'⟩ := hmore a middle next b hsecond
  refine ⟨hstays.trans hstays', fun c hc => ?_⟩
  have hbefore : ∀ x ∈ middle, x.name ≠ c.name := fun x hx => hc x (hstays'.subset hx)
  exact bind_eq_ok_iff.2 ⟨(c :: middle, a), hcarry c hbefore, hcarry' c hc⟩

theorem Carries.ite {α : Type}
    {yes no : List GivenOption -> Except ArgumentStop (List GivenOption × α)} (hyes : Carries yes)
    (hno : Carries no) (b : Bool) : Carries fun given => if b then yes given else no given := by
  cases b with
  | true => exact hyes
  | false => exact hno

theorem Carries.congr {α : Type}
    {read read' : List GivenOption -> Except ArgumentStop (List GivenOption × α)}
    (h : Carries read) (hsame : ∀ given, read' given = read given) : Carries read' := by
  rwa [funext hsame]

theorem give_eq_ok_iff {given next : List GivenOption} :
    give rule value given = .ok next ↔
      (rule.kind ≠ .values -> ∀ x ∈ given, x.name ≠ rule.name) ∧
        (∀ names, rule.kind = .choice names -> value ∈ names) ∧
        next = given ++ [⟨rule.name, value⟩] := by
  have hfree : (rule.kind != .values && given.any (fun g => g.name == rule.name)) = false ↔
      (rule.kind ≠ .values -> ∀ x ∈ given, x.name ≠ rule.name) := by
    by_cases hvalues : rule.kind = .values <;> simp [hvalues]
  rw [← hfree, give]
  cases hgiven : rule.kind != .values && given.any (fun g => g.name == rule.name) with
  | true => simp
  | false =>
      rw [if_neg Bool.false_ne_true]
      cases hkind : rule.kind with
      | choice names => by_cases hvalue : value ∈ names <;> simp [hvalue, eq_comm]
      | flag | value | values | help | version => simp [eq_comm]

theorem carries_give {α : Type} (rule : OptionRule) (value : String) (a : α) :
    Carries fun given => give rule value given >>= fun next => .ok (next, a) := by
  intro given next b h
  obtain ⟨found, hgive, hfound⟩ := bind_eq_ok_iff.1 h
  cases hfound
  obtain ⟨hfree, hvalue, rfl⟩ := give_eq_ok_iff.1 hgive
  refine ⟨List.prefix_append _ _, fun c hc => bind_eq_ok_iff.2 ⟨_, ?_, rfl⟩⟩
  refine give_eq_ok_iff.2 ⟨fun hkind => List.forall_mem_cons.2 ⟨?_, hfree hkind⟩, hvalue, rfl⟩
  exact Ne.symm (hc ⟨rule.name, value⟩ (by simp))

theorem map_eq_bind {α β : Type} (x : Except ArgumentStop α) (f : α -> β) :
    x.map f = x >>= fun a => .ok (f a) := by
  cases x <;> rfl

/-- What an option without a value does, and whether it was given. -/
def giveFlag (rule : OptionRule) (given : List GivenOption) :
    Except ArgumentStop (List GivenOption × Bool) :=
  match give? rule given with
  | .error stop => .error stop
  | .ok (some next) => .ok (next, true)
  | .ok none => .ok (given, false)

theorem carries_giveFlag (rule : OptionRule) : Carries (giveFlag rule) := by
  unfold giveFlag give?
  cases rule.kind with
  | help => exact carries_error .help
  | version => exact carries_error .version
  | value | values | choice names => exact carries_ok false
  | flag =>
      refine (carries_give rule "" true).congr fun given => ?_
      cases give rule "" given <;> rfl

theorem carries_letters (rules : List OptionRule) (cs : List Char) :
    Carries fun given => letters rules given cs := by
  induction cs with
  | nil => exact carries_ok none
  | cons c rest ih =>
      simp only [letters]
      cases rules.find? fun r => r.letter = some c with
      | none => exact carries_error .usage
      | some rule =>
          have hrest := (carries_ok (some rule)).ite (carries_give rule (attached rest) none)
            rest.isEmpty
          refine ((carries_giveFlag rule).andThen fun isGiven => ih.ite hrest isGiven).congr
            fun given => ?_
          simp only [map_eq_bind, giveFlag]
          cases give? rule given with
          | error stop => rfl
          | ok found => cases found <;> rfl

theorem carries_long (rules : List OptionRule) (cs : List Char) :
    Carries fun given => long rules given cs := by
  simp only [long]
  cases rules.find? fun r => r.name = (splitValue cs).1 with
  | none => exact carries_error .usage
  | some rule =>
      simp only [map_eq_bind]
      split
      · exact carries_error .usage
      · exact carries_error .usage
      · exact carries_error .usage
      · exact carries_give rule _ none
      · refine ((carries_giveFlag rule).andThen fun isGiven =>
          (carries_ok none).ite (carries_ok (some rule)) isGiven).congr fun given => ?_
        rw [giveFlag]
        cases give? rule given with
        | error stop => rfl
        | ok found => cases found <;> rfl

theorem carries_option (rules : List OptionRule) (arg : String) :
    Carries fun given => option rules given arg := by
  unfold option
  split
  · exact carries_long rules _
  · exact carries_letters rules _

theorem carries_all (rules : List OptionRule) (count : Nat) (pending : Option OptionRule)
    (args : List String) : Carries fun given => all rules count pending given args := by
  induction args generalizing count pending with
  | nil =>
      cases pending with
      | none => simpa only [all] using carries_ok []
      | some rule => simpa only [all] using carries_error .usage
  | cons arg rest ih =>
      cases pending with
      | some rule =>
          simp only [all]
          refine Carries.ite ?_ (carries_error .usage) (isWord arg)
          refine ((carries_give rule arg ()).andThen fun _ => ih count none).congr fun given => ?_
          cases give rule arg given <;> rfl
      | none =>
          simp only [all, map_eq_bind]
          refine Carries.ite ?_ ?_ (isWord arg)
          · cases count with
            | zero => exact carries_error .usage
            | succ n => exact (ih n none).andThen fun words => carries_ok (arg :: words)
          · split
            · split
              · exact carries_ok rest
              · exact carries_error .usage
            · refine ((carries_option rules arg).andThen fun next => ih count next).congr
                fun given => ?_
              cases option rules given arg <;> rfl

/-! ## Leading options -/

theorem carries_leading (rules : List OptionRule) (pending : Option OptionRule)
    (args : List String) : Carries fun given => leading rules pending given args := by
  induction args generalizing pending with
  | nil =>
      cases pending with
      | none => simpa only [leading] using carries_ok []
      | some rule => simpa only [leading] using carries_error .usage
  | cons arg rest ih =>
      cases pending with
      | some rule =>
          simp only [leading]
          refine Carries.ite ?_ (carries_error .usage) (isWord arg)
          refine ((carries_give rule arg ()).andThen fun _ => ih none).congr fun given => ?_
          cases give rule arg given <;> rfl
      | none =>
          simp only [leading]
          refine Carries.ite (carries_ok (arg :: rest)) ?_ (isWord arg)
          split
          · exact carries_error .usage
          · refine ((carries_option rules arg).andThen fun next => ih next).congr fun given => ?_
            cases option rules given arg <;> rfl

/-- What follows the first word has no part in what is read before it. -/
theorem exists_leading {pending : Option OptionRule} {given next : List GivenOption}
    {args rest : List String} {name : String}
    (h : leading rules pending given args = .ok (next, name :: rest)) :
    ∃ front, args = front ++ name :: rest ∧
      ∀ other, leading rules pending given (front ++ name :: other) = .ok (next, name :: other) := by
  induction args generalizing pending given with
  | nil => cases pending <;> simp [leading] at h
  | cons arg more ih =>
      cases pending with
      | some rule =>
          rw [leading] at h
          split at h
          · next hword =>
              split at h
              · cases h
              · next found hgive =>
                  obtain ⟨front, rfl, hfront⟩ := ih h
                  refine ⟨arg :: front, rfl, fun other => ?_⟩
                  rw [List.cons_append, leading, if_pos hword, hgive]
                  exact hfront other
          · cases h
      | none =>
          rw [leading] at h
          split at h
          · next hword =>
              cases h
              refine ⟨[], rfl, fun other => ?_⟩
              rw [List.nil_append, leading, if_pos hword]
          · next hword =>
              split at h
              · cases h
              · next hdashes =>
                  split at h
                  · cases h
                  · next found pending' hoption =>
                      obtain ⟨front, rfl, hfront⟩ := ih h
                      refine ⟨arg :: front, rfl, fun other => ?_⟩
                      rw [List.cons_append, leading, if_neg hword, if_neg hdashes, hoption]
                      exact hfront other

end Options

namespace CommandLine

def checkFlag : GivenOption :=
  ⟨"check", ""⟩

theorem all_check (rest : List String) :
    Options.all generateRules 0 none [] ("--check" :: rest) =
      Options.all generateRules 0 none [checkFlag] rest := by
  have hoption : Options.option generateRules [] "--check" = .ok ([checkFlag], none) := by
    decide +kernel
  have hword : Options.isWord "--check" = false := by decide +kernel
  rw [Options.all, hword, if_neg Bool.false_ne_true, if_neg (by decide), hoption]

theorem generateOptions_checkFlag (given : List GivenOption) :
    generateOptions (checkFlag :: given) = { generateOptions given with check := true } := rfl

theorem globals_checkFlag (terminal : Bool) (given : List GivenOption) :
    globals terminal (checkFlag :: given) = globals terminal given := rfl

theorem name_ne_of_check {given : List GivenOption} (h : (generateOptions given).check = false) :
    ∀ x ∈ given, x.name ≠ checkFlag.name := by
  intro x hx hname
  have hhas : Options.has given "check" = true :=
    List.any_eq_true.2 ⟨x, hx, by rw [hname]; rfl⟩
  have hno : Options.has given "check" = false := h
  rw [hhas] at hno
  cases hno

/-- Arguments are read with one more option if it is put in front of them. -/
theorem exists_read_cons {terminal : Bool} {args : List String} {i : Invocation}
    (h : read terminal args = .ok i) :
    ∃ own front, i.globals = globals terminal (own ++ front) ∧
      ∀ arg c, Options.isWord arg = false -> arg ≠ "--" ->
        Options.option leadingRules [] arg = .ok ([c], none) ->
        (∀ x ∈ own ++ front, x.name ≠ c.name) ->
        read terminal (arg :: args) = .ok ⟨globals terminal (own ++ c :: front), i.command⟩ := by
  unfold read at h
  split at h
  · cases h
  · cases h
  · next front name rest hleading =>
      split at h
      · cases h
      · next own command hcommand =>
          cases h
          refine ⟨own, front, rfl, fun arg c hword hdashes hoption hfresh => ?_⟩
          have hcarry := (Options.carries_leading leadingRules none args [] front
            (name :: rest) hleading).2 c fun x hx => hfresh x (List.mem_append_right _ hx)
          rw [read, Options.leading, if_neg (by simp [hword]), if_neg hdashes, hoption]
          dsimp only at hcarry ⊢
          rw [hcarry]
          dsimp only
          rw [hcommand]

def quietFlag : GivenOption := ⟨"quiet", ""⟩

theorem globals_quietFlag (terminal : Bool) (own front : List GivenOption) :
    globals terminal (own ++ quietFlag :: front) =
      { globals terminal (own ++ front) with quiet := true } := by
  simp [globals, Options.has, Options.value?, Options.chosen?, quietFlag,
    List.find?_append]

/-- Arguments are read as those of a quiet command if the flag is put in front of them. -/
theorem read_quiet {terminal : Bool} {args : List String} {i : Invocation}
    (h : read terminal args = .ok i) (hloud : i.globals.quiet = false) :
    read terminal ("--quiet" :: args) = .ok ⟨{ i.globals with quiet := true }, i.command⟩ := by
  obtain ⟨own, front, hglobals, hcons⟩ := exists_read_cons h
  have hfresh : ∀ x ∈ own ++ front, x.name ≠ quietFlag.name := by
    intro x hx hname
    rw [hglobals] at hloud
    have hhas : Options.has (own ++ front) "quiet" = true :=
      List.any_eq_true.2 ⟨x, hx, by rw [hname]; rfl⟩
    exact Bool.false_ne_true (hloud.symm.trans hhas)
  rw [hcons "--quiet" quietFlag (by decide +kernel) (by decide) (by decide +kernel) hfresh,
    globals_quietFlag, hglobals]

/-- Arguments that generate are read with a check if the flag is put behind the command. -/
theorem exists_read_check {terminal : Bool} {args : List String} {g : Globals}
    {o : GenerateOptions} (h : read terminal args = .ok ⟨g, .generate o⟩)
    (hcheck : o.check = false) :
    ∃ front rest, args = front ++ "generate" :: rest ∧
      read terminal (front ++ "generate" :: "--check" :: rest) =
        .ok ⟨g, .generate { o with check := true }⟩ := by
  unfold read at h
  split at h
  · cases h
  · cases h
  · next given name rest hleading =>
      obtain ⟨front, hargs, hfront⟩ := Options.exists_leading hleading
      split at h
      · cases h
      · next own c hcommand =>
          rw [Except.ok.injEq, Invocation.mk.injEq] at h
          obtain ⟨rfl, rfl⟩ := h
          unfold command at hcommand
          split at hcommand
          · obtain ⟨_, _, heq⟩ := map_eq_ok_iff.1 hcommand
            cases heq
          · obtain ⟨⟨final, words⟩, hall, heq⟩ := map_eq_ok_iff.1 hcommand
            cases heq
            refine ⟨front, rest, hargs, ?_⟩
            -- the flag is read first, and no option after it is the flag again
            have hcarry := (Options.carries_all generateRules 0 none rest [] final words hall).2
              checkFlag (name_ne_of_check hcheck)
            dsimp only at hcarry
            rw [← all_check] at hcarry
            simp only [read, hfront, command, hcarry, Except.map, generateOptions_checkFlag,
              List.cons_append, globals_checkFlag]
          · obtain ⟨_, _, heq⟩ := map_eq_ok_iff.1 hcommand
            cases heq
          · cases hcommand
          · cases hcommand

end CommandLine

end InstanceForge
