import DecimalScript.Proofs.Builtins
import DecimalScript.Proofs.Evolution
import DecimalScript.Proofs.InsertedBindings
import DecimalScript.Proofs.UnmentionedNames

/-!
# Machines with one variable more

Two machines that differ in a variable which nothing mentions read the same and change in the same
way. An evaluation ignores the variable if from two such machines it comes to the same result, in two
such machines again. Sequences of such evaluations ignore it, and so do the brackets around them.
-/

namespace DecimalScript

namespace Insertion

open Eval

/-- Two machines differ in a binding that nothing mentions. -/
inductive Related (I : Insertion) : Machine → Machine → Prop
  | intro {m : Machine} {env' : Environment} (henv : I.Env m.env env')
      (havoids : m.Avoids I.binding.name) : Related I m { m with env := env' }

/-- Two outcomes are the same but for the binding. -/
inductive Alike (I : Insertion) {α : Type} (good : α → Prop) : Outcome α → Outcome α → Prop
  | ok {a : α} {m m' : Machine} (hgood : good a) (h : I.Related m m') :
      Alike I good (.ok a m) (.ok a m')
  | error {stop : Stop} {m m' : Machine} (h : I.Related m m') :
      Alike I good (.error stop m) (.error stop m')

/-- An evaluation does the same with the binding as without. -/
def Ignores (I : Insertion) {α : Type} (good : α → Prop) (x : Eval α) : Prop :=
  ∀ m m', I.Related m m' → I.Alike good (x m) (x m')

/-- The values that can come out. -/
def Good (I : Insertion) (value : Value) : Prop := value.Avoids I.binding.name

/-- A flow is good if the value it carries is. -/
def GoodFlow (I : Insertion) : Flow → Prop
  | .giveBack value => I.Good value
  | _ => True

/-- What can come out of a job. -/
def GoodResult (I : Insertion) : {α : Type} → Job α → α → Prop
  | _, .evaluate _ => I.Good
  | _, .execute _ => I.GoodFlow

/-- A job does not mention the binding. -/
def Allows (I : Insertion) {α : Type} : Job α → Prop
  | .evaluate expr => expr.Avoids I.binding.name
  | .execute stmt => stmt.Avoids I.binding.name

/-- A way of doing jobs by which the binding does not matter. -/
structure Runs (I : Insertion) (run : JobRunner) : Prop where
  moves : ∀ {α : Type} (job : Job α), Moves (run job)
  ignores : ∀ {α : Type} (job : Job α), I.Allows job → I.Ignores (I.GoodResult job) (run job)

variable {I : Insertion} {α β : Type} {good : α → Prop} {good' : β → Prop}

namespace Related

variable {m m' : Machine}

theorem inserted (h : I.Related m m') : I.Env m.env m'.env := by
  cases h with
  | intro henv _ => exact henv

theorem avoids (h : I.Related m m') : m.Avoids I.binding.name := by
  cases h with
  | intro _ havoids => exact havoids

/-- All but the variables is the same. -/
theorem machine_eq (h : I.Related m m') : m' = { m with env := m'.env } := by
  cases h
  rfl

theorem get? (h : I.Related m m') {name : String} (hname : name ≠ I.binding.name) :
    m'.env.get? name = m.env.get? name :=
  h.inserted.get? hname

theorem binds (h : I.Related m m') {name : String} (hname : name ≠ I.binding.name) :
    m'.env.binds name = m.env.binds name :=
  h.inserted.binds hname

/-- Both machines change their variables. -/
theorem env (h : I.Related m m') {changed changed' : Environment} (henv : I.Env changed changed')
    (hvalues : changed.Avoids I.binding.name) :
    I.Related { m with env := changed } { m' with env := changed' } := by
  cases h with
  | intro _ havoids => exact .intro henv ⟨hvalues, havoids.functions, havoids.files⟩

/-- Both machines change something else than their variables, functions and files. -/
theorem besides (h : I.Related m m') (change : Machine → Machine)
    (hchange : ∀ (m : Machine) env, change { m with env } = { change m with env } ∧
      (change m).functions = m.functions ∧ (change m).files = m.files) :
    I.Related (change m) (change m') := by
  cases h with
  | @intro env' hinserted havoids =>
    obtain ⟨hother, hfunctions, hfiles⟩ := hchange m env'
    have hsame : (change m).env = m.env := by
      have hself : change m = { change m with env := m.env } := (hchange m m.env).1
      rw [hself]
    rw [hother]
    refine .intro (hsame.symm ▸ hinserted) ⟨?_, ?_, ?_⟩
    · rw [hsame]
      exact havoids.values
    · rw [hfunctions]
      exact havoids.functions
    · rw [hfiles]
      exact havoids.files

end Related

namespace Ignores

variable {x : Eval α} {f : α → Eval β}

/-- A value without an effect. -/
protected theorem pure {a : α} (ha : good a) : I.Ignores good (pure a) := fun _ _ hm => .ok ha hm

/-- One evaluation after another, from given machines. -/
theorem bindAt {m m' : Machine} (hx : I.Alike good (x m) (x m'))
    (hf : ∀ a, good a → I.Ignores good' (f a)) :
    I.Alike good' ((x >>= f) m) ((x >>= f) m') := by
  show I.Alike good' (EStateM.bind x f m) (EStateM.bind x f m')
  unfold EStateM.bind
  generalize x m = r at hx ⊢
  generalize x m' = r' at hx ⊢
  cases hx with
  | ok ha hm => exact hf _ ha _ _ hm
  | error hm => exact .error hm

/-- One evaluation after another. -/
protected theorem bind (hx : I.Ignores good x) (hf : ∀ a, good a → I.Ignores good' (f a)) :
    I.Ignores good' (x >>= f) :=
  fun m m' hm => bindAt (hx m m' hm) hf

/-- What reads the same of the machines, and then does the same. -/
protected theorem get {f : Machine → Eval β}
    (hf : ∀ m m', I.Related m m' → f m' = f m ∧ I.Ignores good' (f m)) :
    I.Ignores good' (get >>= f) := by
  intro m m' hm
  obtain ⟨hsame, hignores⟩ := hf m m' hm
  rw [get_bind, get_bind, hsame]
  exact hignores m m' hm

/-- A change that keeps machines related. -/
protected theorem modify {change : Machine → Machine}
    (h : ∀ m m', I.Related m m' → I.Related (change m) (change m')) :
    I.Ignores (fun _ => True) (modify change) :=
  fun m m' hm => .ok trivial (h m m' hm)

theorem raise (fault : Fault) : I.Ignores good (Eval.raise fault) := fun _ _ hm => .error hm

theorem exhausted : I.Ignores good Eval.exhausted := fun _ _ hm => .error hm

/-- Printing. -/
theorem write (text : String) : I.Ignores (fun _ => True) (Eval.write text) := by
  intro m m' hm
  have hwritten := hm.besides (fun m => { m with output := m.output.append text })
    fun _ _ => ⟨rfl, rfl, rfl⟩
  have htorn := hm.besides (fun m => { m with output := m.output.tear text })
    fun _ _ => ⟨rfl, rfl, rfl⟩
  cases hm with
  | intro henv havoids =>
    rw [write_eq, write_eq]
    dsimp only
    split
    · exact .ok trivial hwritten
    · exact .error htorn

/-- Flushing. -/
theorem flush : I.Ignores (fun _ => True) Eval.flush := by
  intro m m' hm
  cases hm with
  | intro henv havoids =>
    unfold Eval.flush
    dsimp only
    split
    · exact .ok trivial (.intro henv havoids)
    · exact .error (.intro henv havoids)

/-- Reporting. -/
theorem report (line : Nat) (message : String) :
    I.Ignores (fun _ => True) (Eval.report line message) := by
  intro m m' hm
  have hwritten := hm.besides
    (fun m => { m with errors := m.errors.append (reportText m.color line message) })
    fun _ _ => ⟨rfl, rfl, rfl⟩
  have htorn := hm.besides
    (fun m => { m with errors := m.errors.tear (reportText m.color line message) })
    fun _ _ => ⟨rfl, rfl, rfl⟩
  cases hm with
  | intro henv havoids =>
    show I.Alike _ (writeError (reportText _ line message) _) (writeError _ _)
    rw [writeError_eq, writeError_eq]
    dsimp only
    split
    · exact .ok trivial hwritten
    · exact .error htorn

/-- Drawing a random number. -/
theorem random (bound : Nat) : I.Ignores (fun _ => True) (Eval.random bound) := by
  intro m m' hm
  have hdrawn := hm.besides (fun m => { m with draws := m.draws.rest })
    fun _ _ => ⟨rfl, rfl, rfl⟩
  cases hm with
  | intro henv havoids => exact .ok trivial hdrawn

/-- Taking a line off the input. -/
theorem takeLine (line : Nat) : I.Ignores (fun _ => True) (Eval.takeLine line) := by
  intro m m' hm
  have htaken := hm.besides
    (fun m => { m with input := (m.input.span (· != Token.code '\n')).2.drop 1 })
    fun _ _ => ⟨rfl, rfl, rfl⟩
  cases hm with
  | intro henv havoids =>
    unfold Eval.takeLine
    dsimp only
    split
    · exact .error (.intro henv havoids)
    · exact .ok trivial htaken

/-- Making a lambda. -/
theorem newLambda (params : List String) {body : Expr} (hbody : body.Avoids I.binding.name) :
    I.Ignores I.Good (Eval.newLambda params body) := by
  intro m m' hm
  have hmade := hm.besides (fun m => { m with nextLambda := m.nextLambda + 1 })
    fun _ _ => ⟨rfl, rfl, rfl⟩
  cases hm with
  | intro henv havoids => exact .ok (Value.avoids_lambda.mpr hbody) hmade

/-- The binding does not matter for what built-ins are made of. -/
theorem consoleLaw (I : Insertion) : ConsoleLaw I.Good fun good x => I.Ignores good x where
  values := Value.avoids_class _
  pure := .pure
  bind := .bind
  raise _ := raise _
  write := write
  flush := flush
  random := random
  takeLine := takeLine

/-- A result of operators. -/
theorem ofExcept {result : Except Fault α} (h : Meets good result) :
    I.Ignores good (Eval.ofExcept result) :=
  (consoleLaw I).ofExcept h

/-- A change of the variables. -/
theorem modifyEnv {change : Environment → Environment}
    (henv : ∀ env env', I.Env env env' → I.Env (change env) (change env'))
    (hvalues : ∀ env : Environment, env.Avoids I.binding.name →
      (change env).Avoids I.binding.name) :
    I.Ignores (fun _ => True) (Eval.modifyEnv change) := by
  refine .modify fun m m' hm => ?_
  exact hm.env (henv _ _ hm.inserted) (hvalues _ hm.avoids.values)

theorem assign {name : String} (hname : name ≠ I.binding.name) {value : Value}
    (hvalue : I.Good value) : I.Ignores (fun _ => True) (Eval.modifyEnv (·.assign name value)) :=
  modifyEnv (fun _ _ henv => henv.assign hname value) fun _ h => h.assign name hvalue

theorem declare {name : String} (hname : name ≠ I.binding.name) {value : Value}
    (hvalue : I.Good value) : I.Ignores (fun _ => True) (Eval.modifyEnv (·.declare name value)) :=
  modifyEnv (fun _ _ henv => henv.declare hname value) fun _ h => h.declare name hvalue

theorem define (name : String) {value : Value} (hvalue : I.Good value) :
    I.Ignores (fun _ => True) (Eval.modifyEnv (·.define name value)) :=
  modifyEnv (fun _ _ henv => henv.define name value) fun _ h => h.define name hvalue

/-- A change of the loop stack. -/
theorem modifyLoops (change : Loop.Stack → Loop.Stack) :
    I.Ignores (fun _ => True) (Eval.modifyLoops change) :=
  .modify fun _ _ hm => hm.besides (fun m => { m with loops := change m.loops })
    fun _ _ => ⟨rfl, rfl, rfl⟩

theorem refuse (fault : LoopFault) {result : β} (h : good' result) :
    I.Ignores good' (Eval.refuse fault result) :=
  .bind (modifyLoops _) fun _ _ => .bind (report _ _) fun _ _ => .pure h

theorem withLoops (changed : Except LoopFault Loop.Stack) {refused : β} (hrefused : good' refused)
    {body : Eval β} (hbody : I.Ignores good' body) :
    I.Ignores good' (Eval.withLoops changed refused body) := by
  cases changed with
  | error fault => exact refuse fault hrefused
  | ok loops => exact .bind (modifyLoops _) fun _ _ => hbody

/-- A change at the end, whatever the body ended with. -/
theorem afterwards {body : Eval β} {undo undo' : Machine → Machine} {m m' : Machine}
    (hbody : I.Alike good' (body m) (body m'))
    (hundo : ∀ after after', I.Related after after' → I.Related (undo after) (undo' after')) :
    I.Alike good' (Eval.afterwards body undo m) (Eval.afterwards body undo' m') := by
  unfold Eval.afterwards
  generalize body m = r at hbody ⊢
  generalize body m' = r' at hbody ⊢
  cases hbody with
  | ok ha hm => exact .ok ha (hundo _ _ hm)
  | error hm => exact .error (hundo _ _ hm)

/-- A scope that is opened for parameters is closed, whatever the body ends with. -/
theorem leaveScope {m m' : Machine} (hm : I.Related m m') (params : List String)
    {values : List Value} (hvalues : ∀ value ∈ values, I.Good value) (calls line : Nat)
    (detail : String) {body : Eval β} (hmoves : Moves body) (hbody : I.Ignores good' body) :
    I.Alike good'
      (Eval.leaveScope detail line calls (body { m with
        env := m.env.pushScope.defineAll params values
        callDepth := m.callDepth + calls }))
      (Eval.leaveScope detail line calls (body { m' with
        env := m'.env.pushScope.defineAll params values
        callDepth := m'.callDepth + calls })) := by
  have hinserted := hm.inserted
  have hentered : I.Related
      { m with env := m.env.pushScope.defineAll params values, callDepth := m.callDepth + calls }
      { m' with env := m'.env.pushScope.defineAll params values
                callDepth := m'.callDepth + calls } :=
    (hm.env (hinserted.pushScope.defineAll params values)
      (hm.avoids.values.opened params hvalues)).besides
        (fun m => { m with callDepth := m.callDepth + calls }) fun _ _ => ⟨rfl, rfl, rfl⟩
  have hended := hbody _ _ hentered
  -- The scopes are those of the body's start, so the innermost one was opened above the binding.
  have hscopes := (hmoves { m with
    env := m.env.pushScope.defineAll params values
    callDepth := m.callDepth + calls }).scopes.trans (m.env.scopes_opened params values)
  have hclose : ∀ after after', I.Related after after' →
      after.env.scopes = m.env.size :: m.env.scopes →
      ∃ closed closed', after.env.popScope? = some closed ∧ after'.env.popScope? = some closed' ∧
        I.Related { after with env := closed, callDepth := after.callDepth - calls }
          { after' with env := closed', callDepth := after'.callDepth - calls } := by
    intro after after' hafter hopened
    have hopen : I.depth < after.env.depth := by
      rw [Environment.depth, hopened]
      exact Nat.lt_succ_of_le hinserted.depth_le
    obtain ⟨closed, closed', hclosed, hclosed', henv⟩ := hafter.inserted.popScope hopen
    exact ⟨closed, closed', hclosed, hclosed',
      (hafter.env henv (hafter.avoids.values.popScope hclosed)).besides
        (fun m => { m with callDepth := m.callDepth - calls }) fun _ _ => ⟨rfl, rfl, rfl⟩⟩
  generalize body _ = r at hended hscopes ⊢
  generalize body _ = r' at hended ⊢
  cases hended with
  | ok ha hafter =>
    obtain ⟨closed, closed', hclosed, hclosed', hrelated⟩ := hclose _ _ hafter hscopes
    rw [leaveScope_ok hclosed, leaveScope_ok hclosed']
    exact .ok ha hrelated
  | error hafter =>
    obtain ⟨closed, closed', hclosed, hclosed', hrelated⟩ := hclose _ _ hafter hscopes
    rw [leaveScope_error hclosed, leaveScope_error hclosed']
    exact .error hrelated

theorem invoke (params : List String) {values : List Value}
    (hvalues : ∀ value ∈ values, I.Good value) (line : Nat) {body : Eval Value}
    (hmoves : Moves body) (hbody : I.Ignores I.Good body) :
    I.Ignores I.Good (Eval.invoke params values line body) := by
  intro m m' hm
  have hcalled := leaveScope hm params hvalues 1 line "scope stack underflow" hmoves hbody
  cases hm with
  | intro henv havoids =>
    unfold Eval.invoke
    dsimp only
    split
    · exact .error (.intro henv havoids)
    · exact hcalled

theorem inScope {body : Eval β} (hmoves : Moves body) (hbody : I.Ignores good' body) :
    I.Ignores good' (Eval.inScope body) :=
  fun _ _ hm => leaveScope hm [] (List.forall_mem_nil _) 0 0 _ hmoves hbody

theorem inDirectory (dir : Path) {body : Eval β} (hbody : I.Ignores good' body) :
    I.Ignores good' (Eval.inDirectory dir body) := by
  intro m m' hm
  have hentered := hm.besides (fun m => { m with baseDir := dir }) fun _ _ => ⟨rfl, rfl, rfl⟩
  unfold Eval.inDirectory
  rw [congrArg Machine.baseDir hm.machine_eq]
  exact afterwards (hbody _ _ hentered) fun _ _ hafter => hafter.besides
    (fun after => { after with baseDir := m.baseDir }) fun _ _ => ⟨rfl, rfl, rfl⟩

theorem whileLoading (path : Path) {body : Eval β} (hbody : I.Ignores good' body) :
    I.Ignores good' (Eval.whileLoading path body) := by
  intro m m' hm
  have hentered := hm.besides (fun m => { m with loading := path.canonical :: m.loading })
    fun _ _ => ⟨rfl, rfl, rfl⟩
  exact afterwards (hbody _ _ hentered) fun _ _ hafter => hafter.besides
    (fun after => { after with loading := after.loading.tail }) fun _ _ => ⟨rfl, rfl, rfl⟩

end Ignores

end Insertion

end DecimalScript
