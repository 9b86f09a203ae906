import DecimalScript.Eval.Arguments
import DecimalScript.Eval.Perform
import DecimalScript.Proofs.PositionalBuiltins

/-!
# Calls of library functions

A call with a number of arguments that the function does not take fails before any of them is
evaluated. Else they are evaluated from left to right, and what stops one stops the call. Then the
function does its steps without a panic; what goes wrong in it is a fault of the line of the call
that the program can handle, unless a prompt does not fit the output.
-/

namespace DecimalScript

namespace Builtin

/-! ### Faults of values -/

/-- What goes wrong with values is a fault of a line that the program can handle. -/
def Blames {α : Type} (line : Nat) (result : Except Fault α) : Prop :=
  ∀ fault, result = .error fault → fault.isFatal = false ∧ fault.line = line

namespace Blames

variable {α β : Type} {line : Nat}

/-- A value blames nothing. -/
theorem ok (a : α) : Blames line (.ok a) := nofun

/-- A fault of the line that the program can handle blames the line. -/
theorem error {fault : Fault} (hfatal : fault.isFatal = false) (hline : fault.line = line) :
    Blames line (.error fault : Except Fault α) := by
  rintro _ ⟨⟩
  exact ⟨hfatal, hline⟩

/-- One computation after another blames the line if both do. -/
protected theorem bind {x : Except Fault α} {f : α → Except Fault β} (hx : Blames line x)
    (hf : ∀ a, Blames line (f a)) : Blames line (x >>= f) := by
  cases x with
  | ok a => exact hf a
  | error fault => exact error (hx fault rfl).1 (hx fault rfl).2

/-- An argument that is no number is a fault of the line. -/
theorem numberArg (function : String) (value : Value) :
    Blames line (numberArg function value line) := by
  cases value with
  | number n => exact ok n
  | text _ | boolean _ | array _ | object _ | lambda _ _ _ | nothing => exact error rfl rfl

/-- So is one that is no text. -/
theorem textArg (function : String) (value : Value) :
    Blames line (textArg function value line) := by
  cases value with
  | text s => exact ok s
  | number _ | boolean _ | array _ | object _ | lambda _ _ _ | nothing => exact error rfl rfl

/-- So is one that is no array. -/
theorem arrayArg (function : String) (value : Value) :
    Blames line (arrayArg function value line) := by
  cases value with
  | array items => exact ok items
  | number _ | text _ | boolean _ | object _ | lambda _ _ _ | nothing => exact error rfl rfl

/-- A result that no number can hold is a fault of the line. -/
theorem inRange (function : String) (result : Option Number) :
    Blames line (inRange function result line) := by
  cases result with
  | some n => exact ok _
  | none => exact error rfl rfl

/-- So is a float that no number is near to. -/
theorem ofFloat (function : String) (result : Float) :
    Blames line (ofFloat function result line) := by
  unfold Builtin.ofFloat
  split
  · exact ok _
  · exact error rfl rfl

/-- Only texts, arrays and objects have a length; the rest is a fault of the line. -/
theorem length (a : Value) : Blames line (length a line) := by
  cases a with
  | text _ | array _ | object _ => exact ok _
  | number _ | boolean _ | lambda _ _ _ | nothing => exact error rfl rfl

/-- A power goes wrong only with its arguments and its range. -/
theorem pow (a b : Value) : Blames line (pow a b line) :=
  .bind (numberArg _ _) fun _ => .bind (numberArg _ _) fun _ => by
    split
    · exact inRange _ _
    · exact ofFloat _ _

/-- A root goes wrong with a negative number as well. -/
theorem sqrt (a : Value) : Blames line (sqrt a line) :=
  .bind (numberArg _ _) fun n => by
    split
    · exact error rfl rfl
    · exact ofFloat _ _

/-- A constant that the library lacks is a fault of the line. -/
theorem getConstant (a : Value) : Blames line (getConstant a line) :=
  .bind (textArg _ _) fun name => by
    cases constant? name with
    | some value => exact ok value
    | none => exact error rfl rfl

/-- Looking for something in what holds nothing is a fault of the line. -/
theorem find (a b : Value) : Blames line (find a b line) := by
  unfold Builtin.find
  split
  · exact ok _
  · exact ok _
  · exact error rfl rfl

/-- So is asking it for a field or an element. -/
theorem has (a b : Value) : Blames line (has a b line) := by
  unfold Builtin.has
  split
  · exact .bind (textArg _ _) fun _ => ok _
  · exact ok _
  · exact error rfl rfl

/-- So is reversing it. -/
theorem reverse (a : Value) : Blames line (reverse a line) := by
  unfold Builtin.reverse
  split
  · exact ok _
  · exact ok _
  · exact error rfl rfl

/-- Splitting goes wrong only with its arguments. -/
theorem split (a b : Value) : Blames line (split a b line) :=
  .bind (textArg _ _) fun _ => .bind (textArg _ _) fun _ => by
    split
    · exact ok _
    · exact ok _

/-- So does replacing. -/
theorem replace (a b c : Value) : Blames line (replace a b c line) :=
  .bind (textArg _ _) fun _ => .bind (textArg _ _) fun _ => .bind (textArg _ _) fun _ => by
    split
    · exact ok _
    · exact ok _

end Blames

end Builtin

/-! ### Faults of evaluation -/

/-- What goes wrong in evaluation is a fault of a line that the program can handle. -/
def Eval.Blames {α : Type} (line : Nat) (x : Eval α) : Prop :=
  ∀ m stop after, x m = .error stop after →
    ∃ fault : Fault, stop = .failed (.running fault) ∧ fault.isFatal = false ∧ fault.line = line

namespace Eval.Blames

variable {α β : Type} {line : Nat}

/-- A fault of the line that the program can handle blames the line. -/
theorem raise {fault : Fault} (hfatal : fault.isFatal = false) (hline : fault.line = line) :
    Blames line (Eval.raise fault : Eval α) := by
  rintro m stop after ⟨⟩
  exact ⟨fault, rfl, hfatal, hline⟩

/-- What values blame, evaluation with them does. -/
theorem ofExcept {result : Except Fault α} (h : Builtin.Blames line result) :
    Blames line (Eval.ofExcept result) := by
  cases result with
  | ok a => exact fun m stop after hstop => nomatch hstop
  | error fault => exact raise (h fault rfl).1 (h fault rfl).2

/-- One evaluation after another blames the line if both do. -/
protected theorem bind {x : Eval α} {f : α → Eval β} (hx : Blames line x)
    (hf : ∀ a, Blames line (f a)) : Blames line (x >>= f) := by
  intro m stop after h
  change EStateM.bind x f m = .error stop after at h
  unfold EStateM.bind at h
  cases hfirst : x m with
  | ok a between =>
    rw [hfirst] at h
    exact hf a between stop after h
  | error stop' after' =>
    rw [hfirst] at h
    cases h
    exact hx m stop after hfirst

/-- What is made of a value in the end blames nothing more. -/
protected theorem map {x : Eval α} (hx : Blames line x) (f : α → β) :
    Blames line (do return f (← x)) :=
  .bind hx fun _ _ _ _ h => nomatch h

/-- A draw does not fail. -/
theorem random (bound : Nat) : Blames line (Eval.random bound) := by
  intro m stop after h
  rw [show Eval.random bound m = .ok _ _ from rfl] at h
  cases h

/-- The end of the input is a fault of the line. -/
theorem takeLine : Blames line (Eval.takeLine line) := by
  intro m stop after h
  unfold Eval.takeLine at h
  split at h
  · cases h
    exact ⟨_, rfl, rfl, rfl⟩
  · cases h

/-- So is a line of input that is not valid UTF-8. -/
theorem readLine : Blames line (Eval.readLine line) :=
  .bind takeLine fun bytes => by
    cases lineText bytes with
    | none => exact raise rfl rfl
    | some text => exact fun m stop after h => nomatch h

end Eval.Blames

/-! ### Refusals -/

/-- The text that is written before a line is read: that of the prompt, if there is one. -/
def Builtin.promptText : List Value → String
  | [] => ""
  | prompt :: _ => prompt.display

/-- What a built-in may come to that gives no value: a fault of the line of its call that the
program can handle, or a failure of the output when a prompt is written to it and flushed. -/
inductive Builtin.Refusal (values : List Value) (m : Machine) (line : Nat) : Stop → Prop
  /-- A fault of the line. -/
  | fault {fault : Fault} (hfatal : fault.isFatal = false) (hline : fault.line = line) :
    Refusal values m line (.failed (.running fault))
  /-- The prompt does not fit. -/
  | full (hfull : m.output.fits (promptText values) = false) :
    Refusal values m line (.failed (.io m.output.refusal))
  /-- The output is not flushed. -/
  | unflushed {fault : IoFault}
    (hfault : m.output.flushFault (m.output.written ++ promptText values) = some fault) :
    Refusal values m line (.failed (.io fault))

/-- A built-in that gives a value for all values it accepts, or is refused. -/
def Builtin.Sound (builtin : Builtin) : Prop :=
  ∀ values line answer, builtin.applyTo? values line = some answer →
    ∀ m stop after, answer m = .error stop after → Refusal values m line stop

namespace Builtin.Sound

/-- Nothing goes wrong but faults of the line. -/
theorem of_blames {builtin : Builtin} (h : ∀ values line answer,
    builtin.applyTo? values line = some answer → answer.Blames line) : builtin.Sound := by
  intro values line answer happly m stop after hstop
  obtain ⟨fault, rfl, hfatal, hline⟩ := h values line answer happly m stop after hstop
  exact .fault hfatal hline

/-- A built-in of one value is sound if it only ever blames the line. -/
theorem unary {run : Value → Nat → Eval Value} (h : ∀ a line, (run a line).Blames line) :
    (unary run).Sound := of_blames fun values line answer happly => by
  obtain ⟨a, rfl, rfl⟩ := unary_applies.mp happly
  exact h a line

/-- So is one of two values. -/
theorem binary {run : Value → Value → Nat → Eval Value}
    (h : ∀ a b line, (run a b line).Blames line) :
    (binary run).Sound := of_blames fun values line answer happly => by
  obtain ⟨a, b, rfl, rfl⟩ := binary_applies.mp happly
  exact h a b line

/-- It is enough that the computation with the value blames the line. -/
theorem ofUnary {f : Value → Nat → Except Fault Value} (h : ∀ a line, Blames line (f a line)) :
    (ofUnary f).Sound := unary fun a line => .ofExcept (h a line)

/-- The same holds for two values. -/
theorem ofBinary {f : Value → Value → Nat → Except Fault Value}
    (h : ∀ a b line, Blames line (f a b line)) : (ofBinary f).Sound :=
  binary fun a b line => .ofExcept (h a b line)

/-- The same holds for three values. -/
theorem ofTernary {f : Value → Value → Value → Nat → Except Fault Value}
    (h : ∀ a b c line, Blames line (f a b c line)) :
    (ofTernary f).Sound := of_blames fun values line answer happly => by
  obtain ⟨a, b, c, rfl, rfl⟩ := ternary_applies.mp happly
  exact .ofExcept (h a b c line)

/-- A random fraction is refused only where no number is near to it. -/
theorem randomFraction : (nullary random).Sound := of_blames fun values line answer happly => by
  obtain ⟨rfl, rfl⟩ := nullary_applies.mp happly
  exact .bind (.random _) fun draw => .ofExcept (.ofFloat _ _)

/-- Nothing is drawn between bounds in the wrong order, which are a fault of the line. -/
theorem randomInt : (Builtin.binary randomInt).Sound := binary fun a b line => by
  refine .bind (.ofExcept (.numberArg _ _)) fun low => ?_
  refine .bind (.ofExcept (.numberArg _ _)) fun high => ?_
  by_cases h : high.whole < low.whole
  · simp only [if_pos h]
    exact .raise rfl rfl
  · simp only [if_neg h]
    exact .map (.random _) _

/-- Nothing is drawn from an empty array, which is a fault of the line. -/
theorem choice : (Builtin.unary choice).Sound := unary fun a line => by
  refine .bind (.ofExcept (.arrayArg _ _)) fun items => ?_
  cases items with
  | nil => exact .raise rfl rfl
  | cons first rest => exact .map (.random _) _

/-- Reading a line stops with what the flush before it fails with, or with a fault of the line. -/
theorem stop_of_readText {line : Nat} {m after : Machine} {stop : Stop}
    (h : input.readText line m = .error stop after) :
    (∃ fault, m.output.flush = some fault ∧ stop = .failed (.io fault)) ∨
      ∃ fault : Fault, stop = .failed (.running fault) ∧ fault.isFatal = false ∧
        fault.line = line := by
  change EStateM.bind Eval.flush (fun _ => do return Value.text (← Eval.readLine line)) m = _ at h
  unfold EStateM.bind Eval.flush at h
  cases hflush : m.output.flush with
  | some fault =>
    simp only [hflush] at h
    cases h
    exact .inl ⟨fault, rfl, rfl⟩
  | none =>
    simp only [hflush] at h
    have hread : (do return Value.text (← Eval.readLine line) : Eval Value).Blames line :=
      .map .readLine Value.text
    exact .inr (hread m stop after h)

/-- Reading with a prompt also comes to what the output fails with. -/
theorem input : (optional input).Sound := by
  intro values line answer happly m stop after hstop
  obtain ⟨prompt, rfl, rfl⟩ := optional_applies.mp happly
  cases prompt with
  | none =>
    rcases stop_of_readText hstop with ⟨fault, hflush, rfl⟩ | ⟨fault, rfl, hfatal, hline⟩
    · refine .unflushed ?_
      show m.output.flushFault (m.output.written ++ "") = some fault
      rwa [String.append_empty]
    · exact .fault hfatal hline
  | some prompt =>
    change EStateM.bind (Eval.write prompt.display) (fun _ => input.readText line) m = _ at hstop
    unfold EStateM.bind Eval.write at hstop
    cases hfits : m.output.fits prompt.display with
    | false =>
      simp only [hfits, Bool.false_eq_true, if_false] at hstop
      cases hstop
      exact .full hfits
    | true =>
      simp only [hfits, if_true] at hstop
      rcases stop_of_readText hstop with ⟨fault, hflush, rfl⟩ | ⟨fault, rfl, hfatal, hline⟩
      · exact .unflushed hflush
      · exact .fault hfatal hline

end Builtin.Sound

namespace Library

/-- Every built-in of every library gives a value or is refused. -/
theorem sound_builtins (library : Library) : ∀ entry ∈ library.builtins, entry.2.Sound := by
  cases library with
  | core =>
    simp only [builtins, Builtin.core, List.forall_mem_cons]
    refine ⟨?_, ?_, ?_, .input, by simp⟩
    · exact .ofUnary fun a _ => .length a
    · exact .ofUnary fun _ _ => .ok _
    · exact .ofUnary fun _ _ => .ok _
  | math =>
    simp only [builtins, Builtin.math, List.forall_mem_cons]
    refine ⟨?_, ?_, ?_, ?_, ?_, ?_, ?_, ?_, ?_, ?_, .randomFraction, .randomInt, .choice, ?_,
      by simp⟩
    · exact .ofUnary fun _ _ => .bind (.numberArg _ _) fun _ => .inRange _ _
    · exact .ofBinary fun a b _ => .pow a b
    · exact .ofUnary fun a _ => .sqrt a
    · exact .ofUnary fun _ _ => .bind (.numberArg _ _) fun _ => .inRange _ _
    · exact .ofUnary fun _ _ => .bind (.numberArg _ _) fun _ => .inRange _ _
    · exact .ofUnary fun _ _ => .bind (.numberArg _ _) fun _ => .ofFloat _ _
    · exact .ofUnary fun _ _ => .bind (.numberArg _ _) fun _ => .ofFloat _ _
    · exact .ofUnary fun _ _ => .bind (.numberArg _ _) fun _ => .ofFloat _ _
    · exact .ofBinary fun _ _ _ => .bind (.numberArg _ _) fun _ => .bind (.numberArg _ _) fun _ =>
        .ok _
    · exact .ofBinary fun _ _ _ => .bind (.numberArg _ _) fun _ => .bind (.numberArg _ _) fun _ =>
        .ok _
    · exact .ofUnary fun a _ => .getConstant a
  | util =>
    simp only [builtins, Builtin.util, List.forall_mem_cons]
    refine ⟨?_, ?_, ?_, ?_, ?_, ?_, ?_, ?_, ?_, ?_, ?_, ?_, ?_, ?_, ?_, by simp⟩
    · exact .ofUnary fun _ _ => .ok _
    · exact .ofUnary fun _ _ => .ok _
    · exact .ofUnary fun a _ => .length a
    · exact .ofUnary fun _ _ => .ok _
    · exact .ofUnary fun _ _ => .ok _
    · exact .ofUnary fun _ _ => .ok _
    · exact .ofUnary fun _ _ => .ok _
    · exact .ofBinary fun a b _ => .find a b
    · exact .ofUnary fun _ _ => .ok _
    · exact .ofBinary fun a b _ => .has a b
    · exact .ofUnary fun _ _ => .bind (.arrayArg _ _) fun _ => .ok _
    · exact .ofUnary fun _ _ => .bind (.arrayArg _ _) fun _ => .ok _
    · exact .ofBinary fun _ _ _ => .bind (.arrayArg _ _) fun _ => .ok _
    · exact .ofUnary fun _ _ => .bind (.arrayArg _ _) fun _ => .ok _
    · exact .ofUnary fun a _ => .reverse a
  | text =>
    simp only [builtins, Builtin.text, List.forall_mem_cons]
    refine ⟨?_, ?_, ?_, ?_, ?_, ?_, ?_, by simp⟩
    · exact .ofUnary fun _ _ => .bind (.textArg _ _) fun _ => .ok _
    · exact .ofUnary fun _ _ => .bind (.textArg _ _) fun _ => .ok _
    · exact .ofUnary fun _ _ => .bind (.textArg _ _) fun _ => .ok _
    · exact .ofBinary fun a b _ => .split a b
    · exact .ofBinary fun _ _ _ => .bind (.arrayArg _ _) fun _ => .bind (.textArg _ _) fun _ =>
        .ok _
    · exact .ofBinary fun _ _ _ => .bind (.textArg _ _) fun _ => .bind (.textArg _ _) fun _ =>
        .ok _
    · exact .ofTernary fun a b c _ => .replace a b c

end Library

/-! ### Calls -/

/-- Arguments come to the end that they come to from left to right. -/
theorem Eval.evaluateAll_leftToRight (run : JobRunner) (arguments : List Expr) (m : Machine) :
    LeftToRight run arguments m (evaluateAll run arguments m) := by
  induction arguments generalizing m with
  | nil => exact .done m
  | cons expr rest ih =>
    change LeftToRight run (expr :: rest) m (EStateM.bind (run (.evaluate expr))
      (fun value => EStateM.bind (evaluateAll run rest) fun values => pure (value :: values)) m)
    unfold EStateM.bind
    cases hfirst : run (.evaluate expr) m with
    | error stop after => exact .first hfirst
    | ok value between =>
      have hrest := ih between
      dsimp only
      cases hend : evaluateAll run rest between with
      | error stop after => exact .later hfirst (hend ▸ hrest)
      | ok values after => exact .value hfirst (hend ▸ hrest)

/-- There are as many values as arguments. -/
theorem Eval.LeftToRight.length_eq {run : JobRunner} {arguments : List Expr} {values : List Value}
    {m after : Machine} (h : LeftToRight run arguments m (.ok values after)) :
    values.length = arguments.length := by
  induction arguments generalizing values m with
  | nil =>
    cases h
    rfl
  | cons expr rest ih =>
    cases h with
    | value hfirst hrest => rw [List.length_cons, List.length_cons, ih hrest]

/-- A call with an accepted number of arguments comes to the stop of one of them, or to what the
built-in does with their values. -/
theorem Eval.callBuiltin_of_accepts {run : JobRunner} {name : String} {builtin : Builtin}
    {arguments : List Expr} {line : Nat} (haccepts : builtin.accepts arguments.length = true)
    (m : Machine) :
    (∃ stop after, LeftToRight run arguments m (.error stop after) ∧
      callBuiltin run name builtin arguments line m = .error stop after) ∨
    ∃ values ready answer, LeftToRight run arguments m (.ok values ready) ∧
      builtin.applyTo? values line = some answer ∧
      callBuiltin run name builtin arguments line m = answer ready := by
  have hend := evaluateAll_leftToRight run arguments m
  have hcalled : callBuiltin run name builtin arguments line m =
      EStateM.bind (evaluateAll run arguments) (fun values =>
        (builtin.applyTo? values line).getD
          (raise (.wrongCount name builtin.arityText arguments.length line))) m := by
    rw [callBuiltin, if_pos haccepts]
    rfl
  rw [hcalled, EStateM.bind]
  cases hvalues : evaluateAll run arguments m with
  | error stop after =>
    rw [hvalues] at hend
    exact .inl ⟨stop, after, hend, rfl⟩
  | ok values ready =>
    rw [hvalues] at hend
    have happlies : (builtin.applyTo? values line).isSome = true := by
      rw [Builtin.isSome_applyTo?, hend.length_eq, haccepts]
    obtain ⟨answer, hanswer⟩ := Option.isSome_iff_exists.mp happlies
    refine .inr ⟨values, ready, answer, hend, hanswer, ?_⟩
    show (builtin.applyTo? values line).getD _ ready = answer ready
    rw [hanswer, Option.getD_some]

/-- Built-ins that agree accept the same numbers of values. -/
theorem Positional.Agrees.accepts_eq {positional : Positional} {builtin : Builtin}
    (h : positional.Agrees builtin) (count : Nat) :
    positional.accepts count = builtin.accepts count := by
  rw [accepts, Builtin.accepts, ← h.arity]

namespace Library

/-- A library function is called where the library has one of the name, and nowhere else. A call
with a number of arguments that it does not take is a fault, with the machine as it was. Else the
arguments are evaluated from left to right, and the stop of one is that of the call. Otherwise the
function gets their values. Done by position it gives the same answer without a panic, and if it
gives no value, it is refused. -/
theorem call_safe (run : JobRunner) (library : Library) (name : String) (arguments : List Expr)
    (line : Nat) :
    Option.Rel
      (fun (builtin : Positional) (call : Eval Value) => ∀ m : Machine,
        if builtin.accepts arguments.length then
          (∃ stop after, Eval.LeftToRight run arguments m (.error stop after) ∧
            call m = .error stop after) ∨
          ∃ values ready answer, Eval.LeftToRight run arguments m (.ok values ready) ∧
            call m = answer ready ∧
            ((∀ value ∈ values, value.InMemory) →
              builtin.run values line = Steps.ofEval answer) ∧
            ∀ stop after, answer ready = .error stop after →
              Builtin.Refusal values ready line stop
        else ∃ detail, call m = .error (.failed (.running (.functionCall detail line))) m)
      (library.positional? name) (Eval.callLibrary? run library name arguments line) := by
  have hfound := library.positional?_agrees name
  rw [Eval.callLibrary?]
  generalize library.positional? name = found at hfound ⊢
  generalize hbuiltin : library.builtin? name = entry at hfound ⊢
  cases hfound with
  | none => exact .none
  | @some positional builtin hagrees =>
    have hsound : builtin.Sound := library.sound_builtins _ (NameTable.mem_of_get? hbuiltin)
    refine .some fun m => ?_
    rw [hagrees.accepts_eq]
    dsimp only
    by_cases haccepts : builtin.accepts arguments.length = true
    · rw [if_pos haccepts]
      refine (Eval.callBuiltin_of_accepts haccepts m).imp_right ?_
      rintro ⟨values, ready, answer, hend, hanswer, hcall⟩
      exact ⟨values, ready, answer, hend, hcall,
        fun hmemory => hagrees.run values line answer hmemory hanswer,
        hsound values line answer hanswer ready⟩
    · rw [if_neg haccepts, Eval.callBuiltin, if_neg haccepts]
      exact ⟨_, rfl⟩

/-- The length of a text, asked for without an argument and with one. -/
theorem length_call_safe :
    let run : JobRunner := fun job => Job.perform 5 job
    let word : Expr := .literal 1 (.text "ab")
    ∃ call refused, Eval.callLibrary? run .core "len" [word] 1 = some call ∧
      Eval.callLibrary? run .core "len" [] 1 = some refused ∧
      (∃ detail, refused {} = .error (.failed (.running (.functionCall detail 1))) {}) ∧
      ∃ answer, call {} = answer {} ∧
        Positional.length [.text "ab"] 1 = Steps.ofEval answer := by
  intro run word
  obtain ⟨call, hcall⟩ : ∃ call, Eval.callLibrary? run .core "len" [word] 1 = some call := ⟨_, rfl⟩
  obtain ⟨refused, hrefused⟩ : ∃ call, Eval.callLibrary? run .core "len" [] 1 = some call :=
    ⟨_, rfl⟩
  have hlength : Library.core.positional? "len" = some ⟨1, 1, Positional.length⟩ := rfl
  have hsafe := call_safe run .core "len" [word] 1
  have hmissing := call_safe run .core "len" [] 1
  rw [hlength, hcall] at hsafe
  rw [hlength, hrefused] at hmissing
  cases hsafe with | some hends
  cases hmissing with | some hfails
  refine ⟨call, refused, hcall, hrefused, hfails {}, ?_⟩
  have hword : run (.evaluate word) {} = .ok (.text "ab") {} := rfl
  rcases hends {} with
    ⟨stop, after, hstop, -⟩ | ⟨values, ready, answer, hvalues, hanswer, hsteps, -⟩
  · cases hstop with
    | later hfirst hrest => cases hrest
    | first hfirst => cases hword.symm.trans hfirst
  · cases hvalues with
    | value hfirst hrest =>
      cases hword.symm.trans hfirst
      cases hrest
      refine ⟨answer, hanswer, hsteps ?_⟩
      rintro value hvalue n hn
      cases List.mem_singleton.mp hvalue
      cases hn
      decide

end Library

end DecimalScript
