import DecimalScript.Proofs.Recovery
import DecimalScript.Syntax.Declarations

/-!
# What evaluation does to a machine

However a program goes on, its machine changes by single effects, each of which touches
one part of it, and by brackets: a loop, a scope, a directory, a module load and a
guarded block change the machine at their start and undo that change at their end. A
property of all runs is then one case for each effect and one for each bracket.
-/

namespace DecimalScript

/-- What a line of the reports is about. -/
inductive Notice where
  /-- A loop that passed a limit. -/
  | loop (fault : LoopFault)
  /-- A module that cannot be loaded. -/
  | unloaded (line : Nat) (target : String) (failure : Failure)
  /-- A fault that no handler took. -/
  | uncaught (fault : Fault)

namespace Notice

/-- The line that a notice names. -/
def line : Notice → Nat
  | loop fault => fault.line
  | unloaded line _ _ => line
  | uncaught fault => fault.line

/-- The wording of a notice. -/
def message : Notice → String
  | loop fault => fault.message
  | unloaded _ target failure => Eval.loadFailure target failure
  | uncaught fault => fault.message

/-- A notice as a line of the reports. -/
def text (color : Bool) (notice : Notice) : String :=
  Eval.reportText color notice.line notice.message

/-- Whether a notice is about a loop that passed a limit. -/
def isLoop : Notice → Bool
  | loop _ => true
  | unloaded _ _ _ | uncaught _ => false

end Notice

/-- A limit that loops are at: the innermost one may not take another turn, or no loop may be
entered inside it. -/
def Loop.Stack.Refuses (loops : Loop.Stack) (fault : LoopFault) : Prop :=
  loops.tick = .error fault ∨ ∃ context, loops.push context = .error fault

namespace Machine

/-- A machine to whose reports a line was written, whole or torn. -/
def noting (m : Machine) (notice : Notice) : Machine :=
  { m with errors := m.errors.put (notice.text m.color) }

/-- A machine in which a loop was refused: the loop counts as one with an error, and the refusal
is reported. -/
def refusing (m : Machine) (fault : LoopFault) : Machine :=
  { m.noting (.loop fault) with loops := m.loops.recordError }

/-- All functions of a program are registered under an alias. -/
def Registers (m : Machine) (aliasName : String) (program : Block) : Prop :=
  ∀ name ∈ program.functionNames, (m.functions.get? (Eval.qualified aliasName name)).isSome

/-- An alias may be bound to a library, and to a module file whose functions are registered. -/
def Admits (m : Machine) (aliasName : String) (module : Module) : Prop :=
  ∀ path program, module = .source path program → m.Registers aliasName program

/-- A change of a machine that is made at once. -/
inductive Effect (m : Machine) : Machine → Prop
  /-- Text is printed, input is taken, or random numbers or lambdas are made. -/
  | console (c : Console) (houtput : c.output.toDevice = m.output.toDevice)
      (herrors : c.errors = m.errors) : Effect m (m.withConsole c)
  /-- A fault or an unreadable module is reported. -/
  | reported (notice : Notice) (hkind : notice.isLoop = false) : Effect m (m.noting notice)
  /-- A loop is refused. -/
  | refused {fault : LoopFault} (h : m.loops.Refuses fault) : Effect m (m.refusing fault)
  | define (name : String) (value : Value) : Effect m { m with env := m.env.define name value }
  | write (name : String) (value : Value) : Effect m { m with env := m.env.write name value }
  | register (name : String) (function : Function) :
      Effect m { m with functions := m.functions.set name function }
  | bindModule {aliasName : String} {module : Module} (hadmits : m.Admits aliasName module) :
      Effect m { m with modules := m.modules.set aliasName module }
  /-- The value of a turn is noted. -/
  | advance (current : Number) : Effect m { m with loops := m.loops.advance current }
  /-- A turn is counted. -/
  | tick {loops : Loop.Stack} (h : m.loops.tick = .ok loops) : Effect m { m with loops }

/-- What evaluation does to a machine. -/
inductive Evolves : Machine → Machine → Prop
  | refl (m : Machine) : Evolves m m
  | effect {m after : Machine} (h : Effect m after) : Evolves m after
  | trans {a b c : Machine} (h : Evolves a b) (h' : Evolves b c) : Evolves a c
  /-- A loop is entered and left. -/
  | loop {m after : Machine} {context : Loop.Context} {loops : Loop.Stack}
      (hpush : m.loops.push context = .ok loops) (h : Evolves { m with loops } after) :
      Evolves m { after with loops := after.loops.pop }
  /-- A scope is opened for parameters and closed, by a call or for the constants of a module. -/
  | scope {m after : Machine} (params : List String) (values : List Value) (calls : Nat)
      {env : Environment}
      (h : Evolves { m with
        env := m.env.pushScope.defineAll params values
        callDepth := m.callDepth + calls } after)
      (hclosed : after.env.popScope? = some env) :
      Evolves m { after with env, callDepth := after.callDepth - calls }
  /-- Another directory is entered and left. -/
  | directory {m after : Machine} (dir : Path) (h : Evolves { m with baseDir := dir } after) :
      Evolves m { after with baseDir := m.baseDir }
  /-- A module that is not being loaded already is loaded. -/
  | loading {m after : Machine} (path : Path) (hnew : path.canonical ∉ m.loading)
      (h : Evolves { m with loading := path.canonical :: m.loading } after) :
      Evolves m { after with loading := after.loading.tail }
  /-- A guarded block is left. -/
  | rollback {m after : Machine} (h : Evolves m after) : Evolves m (after.rollback m.env.mark)
  /-- A handler is begun. -/
  | recover {m after : Machine} (failure : String) (fault : Fault) (h : Evolves m after) :
      Evolves m (recover failure fault m after)

/-- Defining or writing a variable is an effect. -/
theorem evolves_assign (m : Machine) (name : String) (value : Value) :
    m.Evolves { m with env := m.env.assign name value } := by
  unfold Environment.assign
  split
  · exact .effect (.write name value)
  · exact .effect (.define name value)

theorem evolves_declare (m : Machine) (name : String) (value : Value) :
    m.Evolves { m with env := m.env.declare name value } := by
  unfold Environment.declare
  split
  · exact .effect (.write name value)
  · exact .effect (.define name value)

/-- Registering a function is an effect. -/
theorem evolves_register (m : Machine) (name : String) (function : Function) :
    m.Evolves { m with functions := m.functions.set name function } :=
  .effect (.register name function)

/-- Effects do not touch the open scopes. -/
theorem Effect.scopes {m after : Machine} (h : m.Effect after) :
    after.env.scopes = m.env.scopes := by
  cases h <;> rfl

/-- The scopes that are open stay so, and every scope that is opened is closed. -/
theorem Evolves.scopes {m after : Machine} (h : m.Evolves after) :
    after.env.scopes = m.env.scopes := by
  induction h with
  | refl m => rfl
  | effect h => exact h.scopes
  | trans _ _ ih ih' => exact ih'.trans ih
  | loop _ _ ih | directory _ _ ih | loading _ _ _ ih => exact ih
  | @scope m after params values calls env _ hclosed ih =>
    have hopened : after.env.scopes = m.env.size :: m.env.scopes :=
      ih.trans (m.env.scopes_opened params values)
    rw [Environment.popScope_of_scopes hopened] at hclosed
    cases hclosed
    rfl
  | rollback _ ih => exact Environment.scopes_restore ih
  | recover failure fault _ ih => exact Environment.scopes_restore ih

/-- No function is ever taken out of the registry. -/
theorem Evolves.isSome_function {m after : Machine} (h : m.Evolves after) {name : String}
    (hname : (m.functions.get? name).isSome) : (after.functions.get? name).isSome := by
  induction h with
  | refl m => exact hname
  | effect h =>
    cases h with
    | register other function => exact (NameTable.isSome_get?_set _ _ _ _).mpr (.inr hname)
    | console | reported | refused | define | write | bindModule | advance | tick => exact hname
  | trans _ _ ih ih' => exact ih' (ih hname)
  | loop _ _ ih | scope _ _ _ _ _ ih | directory _ _ ih | loading _ _ _ ih | rollback _ ih
  | recover _ _ _ ih => exact ih hname

/-- What is registered under an alias stays so. -/
theorem Evolves.registers {m after : Machine} (h : m.Evolves after) {aliasName : String}
    {program : Block} (hm : m.Registers aliasName program) : after.Registers aliasName program :=
  fun name hname => h.isSome_function (hm name hname)

/-- Whether reports are painted, and the device they are written to, is never changed. -/
theorem Evolves.reports {m after : Machine} (h : m.Evolves after) :
    after.color = m.color ∧ after.errors.toDevice = m.errors.toDevice := by
  induction h with
  | refl m => exact ⟨rfl, rfl⟩
  | effect h =>
    cases h with
    | console c _ herrors => exact ⟨rfl, congrArg Sink.toDevice herrors⟩
    | reported | refused => exact ⟨rfl, Sink.toDevice_put _ _⟩
    | define | write | register | bindModule | advance | tick => exact ⟨rfl, rfl⟩
  | trans _ _ ih ih' => exact ⟨ih'.1.trans ih.1, ih'.2.trans ih.2⟩
  | loop _ _ ih | scope _ _ _ _ _ ih | directory _ _ ih | loading _ _ _ ih | rollback _ ih
  | recover _ _ _ ih => exact ih

end Machine

namespace Eval

variable {α β : Type}

/-- An evaluation after one that succeeded. -/
theorem bind_of_ok {x : Eval α} {f : α → Eval β} {a : α} {m after : Machine}
    (h : x m = .ok a after) : (x >>= f) m = f a after := by
  show EStateM.bind x f m = f a after
  unfold EStateM.bind
  rw [h]

/-- An evaluation after one that stopped. -/
theorem bind_of_error {x : Eval α} {f : α → Eval β} {stop : Stop} {m after : Machine}
    (h : x m = .error stop after) : (x >>= f) m = .error stop after := by
  show EStateM.bind x f m = .error stop after
  unfold EStateM.bind
  rw [h]

/-- An evaluation that reads the machine first. -/
theorem get_bind (f : Machine → Eval β) (m : Machine) : (get >>= f) m = f m m := rfl

/-- A report that does not fit stops evaluation. -/
theorem report_eq (notice : Notice) (m : Machine) :
    report notice.line notice.message m =
      if m.errors.fits (notice.text m.color) then .ok () (m.noting notice)
      else .error (.failed (.io m.errors.refusal)) (m.noting notice) := by
  show writeError (notice.text m.color) m = _
  rw [writeError_eq]
  unfold Machine.noting Sink.put
  split <;> rfl

/-- A refusal counts the loop as one with an error, and goes on if it can be reported. -/
theorem refuse_eq (fault : LoopFault) (result : α) (m : Machine) :
    refuse fault result m =
      if m.errors.fits ((Notice.loop fault).text m.color) then .ok result (m.refusing fault)
      else .error (.failed (.io m.errors.refusal)) (m.refusing fault) := by
  have hreport := report_eq (.loop fault) { m with loops := m.loops.recordError }
  show (report fault.line fault.message >>= fun _ => pure result)
    { m with loops := m.loops.recordError } = _
  by_cases hfits : m.errors.fits ((Notice.loop fault).text m.color) = true
  · rw [if_pos hfits] at hreport ⊢
    exact bind_of_ok hreport
  · rw [if_neg hfits] at hreport ⊢
    exact bind_of_error hreport

/-- An evaluation that, from every machine and whatever it ends with, does to the machine what
evaluation does. -/
def Moves (x : Eval α) : Prop := ∀ m : Machine, m.Evolves (Outcome.machine (x m))

namespace Moves

variable {x : Eval α} {f : α → Eval β}

/-- What it ends with a value in. -/
theorem of_ok (hx : Moves x) {m after : Machine} {a : α} (h : x m = .ok a after) :
    m.Evolves after := by
  have hmoves := hx m
  rwa [h] at hmoves

/-- What it stops in. -/
theorem of_error (hx : Moves x) {m after : Machine} {stop : Stop} (h : x m = .error stop after) :
    m.Evolves after := by
  have hmoves := hx m
  rwa [h] at hmoves

/-- A value without an effect. -/
protected theorem pure (a : α) : Moves (pure a : Eval α) := fun m => .refl m

/-- One evaluation after another, from a given machine. -/
theorem bindAt {m : Machine} (hx : m.Evolves (Outcome.machine (x m)))
    (hf : ∀ a, Moves (f a)) : m.Evolves (Outcome.machine ((x >>= f) m)) := by
  show m.Evolves (Outcome.machine (EStateM.bind x f m))
  unfold EStateM.bind
  generalize x m = r at hx ⊢
  cases r with
  | ok a after => exact .trans hx (hf a after)
  | error stop after => exact hx

/-- One evaluation after another. -/
protected theorem bind (hx : Moves x) (hf : ∀ a, Moves (f a)) : Moves (x >>= f) :=
  fun m => bindAt (hx m) hf

/-- What reads the machine and goes on from there. -/
theorem getAt {f : Machine → Eval β}
    (hf : ∀ m : Machine, m.Evolves (Outcome.machine (f m m))) : Moves (get >>= f) :=
  hf

/-- What reads the machine. -/
protected theorem get {f : Machine → Eval β} (hf : ∀ m, Moves (f m)) : Moves (get >>= f) :=
  getAt fun m => hf m m

/-- A change of the machine. -/
protected theorem modify {change : Machine → Machine} (h : ∀ m : Machine, m.Evolves (change m)) :
    Moves (modify change) :=
  h

theorem fail (failure : Failure) : Moves (Eval.fail failure : Eval α) := fun m => .refl m

theorem raise (fault : Fault) : Moves (Eval.raise fault : Eval α) := fun m => .refl m

theorem exhausted : Moves (Eval.exhausted : Eval α) := fun m => .refl m

theorem ofExcept (result : Except Fault α) : Moves (Eval.ofExcept result) := by
  cases result with
  | ok a => exact .pure a
  | error fault => exact .raise fault

/-- Printing. -/
theorem write (text : String) : Moves (Eval.write text) := by
  intro m
  rw [write_eq]
  split
  · exact .effect
      (.console ⟨m.output.append text, m.errors, m.input, m.draws, m.nextLambda⟩ rfl rfl)
  · exact .effect (.console ⟨m.output.tear text, m.errors, m.input, m.draws, m.nextLambda⟩ rfl rfl)

/-- Flushing. -/
theorem flush : Moves Eval.flush := by
  intro m
  rw [machine_flush]
  exact .refl m

/-- Ending a run. -/
theorem abandon (failure : Failure) : Moves (Eval.abandon failure) :=
  .bind flush fun _ => .fail failure

/-- Reporting what is not about a loop. -/
theorem report (notice : Notice) (hkind : notice.isLoop = false) :
    Moves (Eval.report notice.line notice.message) := by
  intro m
  rw [report_eq]
  split <;> exact .effect (.reported notice hkind)

/-- Drawing a random number. -/
theorem random (bound : Nat) : Moves (Eval.random bound) := by
  intro m
  exact .effect (.console ⟨m.output, m.errors, m.input, m.draws.rest, m.nextLambda⟩ rfl rfl)

/-- Making a lambda. -/
theorem newLambda (params : List String) (body : Expr) : Moves (Eval.newLambda params body) := by
  intro m
  exact .effect (.console ⟨m.output, m.errors, m.input, m.draws, m.nextLambda + 1⟩ rfl rfl)

/-- Taking a line off the input. -/
theorem takeLine (line : Nat) : Moves (Eval.takeLine line) := by
  intro m
  unfold Eval.takeLine
  split
  · exact .refl m
  · exact .effect (.console ⟨m.output, m.errors, (m.input.span (· != Token.code '\n')).2.drop 1,
      m.draws, m.nextLambda⟩ rfl rfl)

/-- Reading a line of input. -/
theorem readLine (line : Nat) : Moves (Eval.readLine line) := by
  refine .bind (takeLine line) fun bytes => ?_
  cases Eval.lineText bytes with
  | none => exact .raise _
  | some text => exact .pure text

/-- A refusal is one effect, whether or not its report fits. -/
theorem refuseAt {m : Machine} {fault : LoopFault} (h : m.loops.Refuses fault) (result : α) :
    m.Evolves (Outcome.machine (refuse fault result m)) := by
  rw [refuse_eq]
  split <;> exact .effect (.refused h)

end Moves

end Eval

end DecimalScript
