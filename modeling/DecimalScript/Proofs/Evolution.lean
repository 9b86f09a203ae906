import DecimalScript.Proofs.Effects

/-!
# Every run evolves

If nested jobs do to a machine only what evaluation does, so does every clause of the
evaluator. Hence every job does, by induction on the bound on nesting, and every program.
-/

namespace DecimalScript

namespace Builtin

/-- A built-in that does to a machine only what evaluation does. -/
def Moves : Builtin → Prop
  | nullary run => ∀ line, Eval.Moves (run line)
  | unary run => ∀ a line, Eval.Moves (run a line)
  | binary run => ∀ a b line, Eval.Moves (run a b line)
  | ternary run => ∀ a b c line, Eval.Moves (run a b c line)
  | optional run => ∀ a line, Eval.Moves (run a line)

/-- A built-in that looks at a value only leaves the machine alone. -/
@[simp] theorem moves_ofUnary (run : Value → Nat → Except Fault Value) : (ofUnary run).Moves :=
  fun _ _ => .ofExcept _

/-- So does one that looks at two values only. -/
@[simp] theorem moves_ofBinary (run : Value → Value → Nat → Except Fault Value) :
    (ofBinary run).Moves :=
  fun _ _ _ => .ofExcept _

/-- So does one that looks at three. -/
@[simp] theorem moves_ofTernary (run : Value → Value → Value → Nat → Except Fault Value) :
    (ofTernary run).Moves :=
  fun _ _ _ _ => .ofExcept _

/-- Reading input writes the prompt, flushes and takes a line. -/
@[simp] theorem moves_input : (optional input).Moves := by
  have hread : ∀ line, Eval.Moves (input.readText line) :=
    fun line => .bind .flush fun _ => .bind (.readLine line) fun _ => .pure _
  intro prompt line
  cases prompt with
  | none => exact hread line
  | some value => exact .bind (.write _) fun _ => hread line

/-- A random fraction takes one draw. -/
@[simp] theorem moves_random : (nullary random).Moves :=
  fun _ => .bind (.random _) fun _ => .ofExcept _

/-- A random integer takes one draw, unless the bounds are in the wrong order. -/
@[simp] theorem moves_randomInt : (binary randomInt).Moves := by
  intro a b line
  refine .bind (.ofExcept _) fun low => .bind (.ofExcept _) fun high => ?_
  have hdraw : ∀ bound, Eval.Moves
      (do return .ofInt (low.whole + (← Eval.random bound)) : Eval Value) :=
    fun bound => .bind (.random bound) fun _ => .pure _
  dsimp only
  split
  · exact .bind (.raise _) fun _ => hdraw _
  · exact hdraw _

/-- A random element takes one draw, unless there is none. -/
@[simp] theorem moves_choice : (unary choice).Moves := by
  intro a line
  refine .bind (.ofExcept _) fun items => ?_
  cases items with
  | nil => exact .raise _
  | cons first rest => exact .bind (.random _) fun _ => .pure _

/-- Applying a built-in. -/
theorem Moves.applyTo {builtin : Builtin} (h : builtin.Moves) {values : List Value} {line : Nat}
    {applied : Eval Value} (happlied : builtin.applyTo? values line = some applied) :
    Eval.Moves applied := by
  unfold applyTo? at happlied
  split at happlied
  · cases happlied
    exact h line
  · cases happlied
    exact h _ line
  · cases happlied
    exact h _ _ line
  · cases happlied
    exact h _ _ _ line
  · cases happlied
    exact h none line
  · cases happlied
    exact h (some _) line
  · cases happlied

end Builtin

/-- Every built-in of every library does only what evaluation does. -/
theorem Library.moves_builtins (library : Library) : ∀ entry ∈ library.builtins, entry.2.Moves := by
  cases library with
  | core => simp [builtins, Builtin.core]
  | math => simp [builtins, Builtin.math]
  | util => simp [builtins, Builtin.util]
  | text => simp [builtins, Builtin.text]

namespace Eval

variable {α : Type}

/-- Closing a scope does the same to the machine whatever a body ended with. -/
theorem machine_leaveScope {detail : String} {line calls : Nat} {r : Outcome α}
    {env : Environment} (h : (Outcome.machine r).env.popScope? = some env) :
    Outcome.machine (leaveScope detail line calls r) =
      { Outcome.machine r with env, callDepth := (Outcome.machine r).callDepth - calls } := by
  cases r with
  | ok value after =>
    rw [Outcome.machine_ok] at h ⊢
    simp only [leaveScope, h]
    rfl
  | error stop after =>
    rw [Outcome.machine_error] at h ⊢
    simp only [leaveScope, h]
    rfl

/-- Closing a scope keeps what a body ended with. -/
theorem leaveScope_ok {detail : String} {line calls : Nat} {value : α} {after : Machine}
    {env : Environment} (h : after.env.popScope? = some env) :
    leaveScope detail line calls (.ok value after) =
      .ok value { after with env, callDepth := after.callDepth - calls } := by
  simp only [leaveScope, h]

/-- Closing a scope keeps the stop that a body ended with. -/
theorem leaveScope_error {detail : String} {line calls : Nat} {stop : Stop} {after : Machine}
    {env : Environment} (h : after.env.popScope? = some env) :
    leaveScope detail line calls (.error stop after : Outcome α) =
      .error stop { after with env, callDepth := after.callDepth - calls } := by
  simp only [leaveScope, h]

/-- A change at the end, after a value. -/
theorem afterwards_ok {body : Eval α} {undo : Machine → Machine} {value : α} {m after : Machine}
    (h : body m = .ok value after) : afterwards body undo m = .ok value (undo after) := by
  simp only [afterwards, h]

/-- A change at the end, after a stop. -/
theorem afterwards_error {body : Eval α} {undo : Machine → Machine} {stop : Stop}
    {m after : Machine} (h : body m = .error stop after) :
    afterwards body undo m = .error stop (undo after) := by
  simp only [afterwards, h]

namespace Moves

/-- A scope that is opened for parameters is closed, whatever the body ends with. -/
theorem leaveScope {m : Machine} (params : List String) (values : List Value) (calls line : Nat)
    (detail : String) {body : Eval α} (hbody : Moves body) :
    m.Evolves (Outcome.machine (Eval.leaveScope detail line calls (body { m with
      env := m.env.pushScope.defineAll params values
      callDepth := m.callDepth + calls }))) := by
  have hinside := hbody { m with
    env := m.env.pushScope.defineAll params values
    callDepth := m.callDepth + calls }
  -- The scopes are those of the body's start, so there is one to close.
  have hscopes := hinside.scopes.trans (m.env.scopes_opened params values)
  have hclosed := Environment.popScope_of_scopes hscopes
  rw [machine_leaveScope hclosed]
  exact .scope params values calls hinside hclosed

/-- A call opens a scope for its parameters and closes it, unless calls are nested too deep. -/
theorem invoke (params : List String) (values : List Value) (line : Nat) {body : Eval Value}
    (hbody : Moves body) : Moves (Eval.invoke params values line body) := by
  intro m
  unfold Eval.invoke
  split
  · exact .refl m
  · exact leaveScope params values 1 line _ hbody

/-- A block of its own opens an empty scope and closes it. -/
theorem inScope {body : Eval α} (hbody : Moves body) : Moves (Eval.inScope body) :=
  fun _ => leaveScope [] [] 0 0 _ hbody

/-- A change at the end, whatever the body ended with. -/
theorem afterwards {m entered : Machine} {body : Eval α} {undo : Machine → Machine}
    (h : m.Evolves (undo (Outcome.machine (body entered)))) :
    m.Evolves (Outcome.machine (Eval.afterwards body undo entered)) := by
  unfold Eval.afterwards
  generalize body entered = r at h ⊢
  cases r with
  | ok value after => exact h
  | error stop after => exact h

/-- What runs in a directory is followed by a return to the former one. -/
theorem inDirectory (dir : Path) {body : Eval α} (hbody : Moves body) :
    Moves (Eval.inDirectory dir body) := by
  intro m
  have hinside := hbody { m with baseDir := dir }
  exact afterwards (.directory dir hinside)

/-- While a file that is not being loaded is, it is among those that are. -/
theorem whileLoading {m : Machine} {path : Path} (hnew : path.canonical ∉ m.loading)
    {body : Eval α} (hbody : Moves body) :
    m.Evolves (Outcome.machine (Eval.whileLoading path body m)) := by
  have hinside := hbody { m with loading := path.canonical :: m.loading }
  exact afterwards (.loading path hnew hinside)

/-- A wrong number of arguments is a fault, with the machine as it was. -/
theorem checkCount (name : String) (expected found line : Nat) :
    Moves (Eval.checkCount name expected found line) := by
  unfold Eval.checkCount
  split
  · exact .pure _
  · exact .raise _

/-- Looking up a variable leaves the machine as it is. -/
theorem readName (name : String) (line : Nat) : Moves (Eval.readName name line) := by
  refine .get fun m => ?_
  cases m.env.get? name with
  | some value => exact .pure _
  | none => exact .raise _

/-- The names of a module are registered one after the other. -/
theorem evolves_registerFunctions (m : Machine) (aliasName : String) (program : Block) :
    m.Evolves { m with functions := registerFunctions aliasName program m.functions } := by
  induction program generalizing m with
  | nil => exact .refl m
  | cons stmt rest ih =>
    cases stmt with
    | define line name params returnType body =>
      have hqualified := m.evolves_register (qualified aliasName name)
        ⟨name, params, returnType, body⟩
      exact .trans hqualified (.trans (Machine.evolves_register _ name _) (ih _))
    | _ => exact ih m

/-- The constants of a module are bound one after the other. -/
theorem evolves_assignConstants (m : Machine) (aliasName : String)
    (found : List (String × Value)) :
    m.Evolves { m with env := assignConstants aliasName m.env found } := by
  induction found generalizing m with
  | nil => exact .refl m
  | cons entry rest ih =>
    obtain ⟨name, value⟩ := entry
    have hfirst := m.evolves_assign (qualified aliasName name) value
    exact .trans hfirst (ih _)

/-- Registering the functions of a module keeps what is registered. -/
theorem isSome_registerFunctions {aliasName name : String} (program : Block)
    {functions : NameTable Function} (h : (functions.get? name).isSome) :
    ((registerFunctions aliasName program functions).get? name).isSome :=
  (evolves_registerFunctions { functions } aliasName program).isSome_function h

/-- All functions of a module are registered. -/
theorem registers_registerFunctions (m : Machine) (aliasName : String) (program : Block) :
    Machine.Registers { m with functions := registerFunctions aliasName program m.functions }
      aliasName program := by
  intro name hname
  show ((registerFunctions aliasName program m.functions).get? _).isSome
  generalize m.functions = functions
  induction program generalizing functions with
  | nil => cases hname
  | cons stmt rest ih =>
    cases stmt with
    | define line first params returnType body =>
      rcases List.mem_cons.mp hname with rfl | hlater
      · refine isSome_registerFunctions rest ?_
        rw [NameTable.isSome_get?_set, NameTable.isSome_get?_set]
        exact .inr (.inl rfl)
      · exact ih hlater _
    | _ => exact ih hname functions

/-- A library can be bound to any alias. -/
theorem bindLibrary (aliasName : String) (library : Library) :
    Moves (Eval.bindModule aliasName (.library library)) :=
  .modify fun _ => .effect (.bindModule nofun)

/-- A turn records its value and declares it. -/
theorem beginTurn (name : String) (current : Number) (value : Value) :
    Moves (Eval.beginTurn name current value) := by
  refine .modify fun m => ?_
  have hdeclare := Machine.evolves_declare { m with loops := m.loops.advance current } name value
  exact .trans (.effect (.advance current)) hdeclare

/-- A range begins a turn as long as it has not passed its stop. -/
theorem enterRange (name : String) (stop step current : Number) :
    Moves (Eval.enterRange name stop step current) := by
  unfold Eval.enterRange
  split
  · exact .bind (beginTurn name current _) fun _ => .pure _
  · exact .pure _

/-- A loop over elements begins a turn for each that is left. -/
theorem enterItems (name : String) (cursor : Nat × List Value) :
    Moves (Eval.enterItems name cursor) := by
  obtain ⟨position, items⟩ := cursor
  cases items with
  | nil => exact .pure _
  | cons item rest => exact .bind (beginTurn name _ item) fun _ => .pure _

/-- An assignment changes one binding. -/
theorem assign (name : String) (value : Value) :
    Moves (modifyEnv (·.assign name value)) :=
  .modify fun m => m.evolves_assign name value

/-- So does one to properties, and a fault changes none. -/
theorem assignProperty (path : PropertyPath) (value : Value) (line : Nat) :
    Moves (Eval.assignProperty path value line) := by
  refine .get fun m => ?_
  dsimp only
  split
  · exact assign _ _
  · exact .raise _

/-- So does one to an element, which is written where the variable is. -/
theorem assignElement (name : String) (index value : Value) (line : Nat) :
    Moves (Eval.assignElement name index value line) := by
  refine .get fun m => ?_
  cases m.env.get? name with
  | none => exact .raise _
  | some target =>
    have hwrite : ∀ changed, Moves (modifyEnv (·.write name changed)) :=
      fun changed => .modify fun _ => .effect (.write name changed)
    exact .bind (.ofExcept _) hwrite

section

variable {run : JobRunner} (hrun : ∀ {β : Type} (job : Job β), Moves (run job))

include hrun

/-- Expressions are evaluated one after the other. -/
theorem evaluateAll (exprs : List Expr) : Moves (Eval.evaluateAll run exprs) := by
  induction exprs with
  | nil => exact .pure _
  | cons expr rest ih => exact .bind (hrun (.evaluate expr)) fun _ => .bind ih fun _ => .pure _

/-- Statements are executed one after the other, up to an exit. -/
theorem executeBlock (block : Block) : Moves (Eval.executeBlock run block) := by
  induction block with
  | nil => exact .pure _
  | cons stmt rest ih =>
    refine .bind (hrun (.execute stmt)) fun flow => ?_
    cases flow with
    | normal => exact ih
    | leave | next | giveBack _ => exact .pure _

/-- A body is a block that may give a value back. -/
theorem bodyValue (block : Block) : Moves (Eval.bodyValue run block) := by
  refine .bind (executeBlock hrun block) fun flow => ?_
  cases flow with
  | giveBack value => exact .pure _
  | normal | leave | next => exact .pure _

/-- A function evaluates its arguments and then its body in a scope of its own. -/
theorem callFunction (function : Function) (arguments : List Expr) (line : Nat) :
    Moves (Eval.callFunction run function arguments line) :=
  .bind (evaluateAll hrun arguments) fun values => .bind (checkCount _ _ _ _) fun _ =>
    invoke _ values line (bodyValue hrun function.body)

/-- So does a lambda. -/
theorem callLambda (params : List String) (body : Expr) (arguments : List Expr) (line : Nat) :
    Moves (Eval.callLambda run params body arguments line) :=
  .bind (evaluateAll hrun arguments) fun values => .bind (checkCount _ _ _ _) fun _ =>
    invoke params values line (hrun (.evaluate body))

/-- A built-in evaluates its arguments and then moves by itself. -/
theorem callBuiltin {builtin : Builtin} (hbuiltin : builtin.Moves) (name : String)
    (arguments : List Expr) (line : Nat) :
    Moves (Eval.callBuiltin run name builtin arguments line) := by
  unfold Eval.callBuiltin
  dsimp only
  split
  · refine .bind (evaluateAll hrun arguments) fun values => ?_
    cases happlied : builtin.applyTo? values line with
    | none => exact .raise _
    | some applied => exact hbuiltin.applyTo happlied
  · exact .raise _

/-- The built-ins of a library move. -/
theorem callLibrary {library : Library} {name : String} {arguments : List Expr} {line : Nat}
    {called : Eval Value} (h : callLibrary? run library name arguments line = some called) :
    Moves called := by
  obtain ⟨builtin, hbuiltin, rfl⟩ := Option.map_eq_some_iff.mp h
  exact callBuiltin hrun (library.moves_builtins (name, builtin) (NameTable.mem_of_get? hbuiltin))
    _ arguments line

/-- To call a value that is no lambda is a fault. -/
theorem callValue (target : Value) (arguments : List Expr) (line : Nat) :
    Moves (Eval.callValue run target arguments line) := by
  cases target with
  | lambda identity params body => exact callLambda hrun params body arguments line
  | number _ | text _ | boolean _ | array _ | object _ | nothing => exact .raise _

/-- A plain name is called as a function, a variable or a core built-in. -/
theorem callName (name : String) (arguments : List Expr) (line : Nat) :
    Moves (Eval.callName run name arguments line) := by
  refine .get fun m => ?_
  dsimp only
  split
  · exact callFunction hrun _ arguments line
  · exact callLambda hrun _ _ arguments line
  · split
    · rename_i hcalled
      exact callLibrary hrun hcalled
    · split
      · exact .raise _
      · exact .raise _

/-- A member of an alias is called as a module function or a built-in of a library. -/
theorem callMember {m : Machine} {aliasName name : String} {arguments : List Expr} {line : Nat}
    {called : Eval Value} (h : callMember? run m aliasName name arguments line = some called) :
    Moves called := by
  unfold callMember? at h
  split at h
  · cases h
    exact callFunction hrun _ arguments line
  · split at h
    · exact callLibrary hrun h
    · cases h

/-- A call is that of a name, of a member or of a value. -/
theorem call (callee : Expr) (arguments : List Expr) (line : Nat) :
    Moves (Eval.call run callee arguments line) := by
  have hresult : Moves (do Eval.callValue run (← run (.evaluate callee)) arguments line) :=
    .bind (hrun (.evaluate callee)) fun target => callValue hrun target arguments line
  unfold Eval.call
  split
  · exact callName hrun _ arguments line
  · refine .get fun m => ?_
    dsimp only
    split
    · rename_i hcalled
      exact callMember hrun hcalled
    · split
      · exact hresult
      · exact .raise _
  · exact hresult

/-- An operator evaluates its operands, the second one only if it has to. -/
theorem binary (op : BinaryOp) (left right : Expr) (line : Nat) :
    Moves (Eval.binary run op left right line) := by
  have hlast : Moves (do return Value.boolean (← run (.evaluate right)).holds) :=
    .bind (hrun (.evaluate right)) fun _ => .pure _
  cases op with
  | both =>
    refine .bind (hrun (.evaluate left)) fun a => ?_
    split
    · exact hlast
    · exact .pure _
  | either =>
    refine .bind (hrun (.evaluate left)) fun a => ?_
    split
    · exact .pure _
    · exact hlast
  | add | subtract | multiply | divide | modulo | equal | notEqual | less | lessEqual | greater
  | greaterEqual =>
    exact .bind (hrun (.evaluate left)) fun _ => .bind (hrun (.evaluate right)) fun _ =>
      .ofExcept _

/-- Reading a property evaluates its target. -/
theorem memberOf (target : Expr) (name : String) (line : Nat) :
    Moves (Eval.memberOf run target name line) :=
  .bind (hrun (.evaluate target)) fun _ => .ofExcept _

/-- A member of an alias may be a constant, for which nothing is evaluated. -/
theorem member (target : Expr) (name : String) (line : Nat) :
    Moves (Eval.member run target name line) := by
  unfold Eval.member
  split
  · refine .get fun m => ?_
    dsimp only
    split
    · exact .pure _
    · exact memberOf hrun _ name line
  · exact memberOf hrun target name line

/-- Reading an element evaluates its target and the index. -/
theorem element (target index : Expr) (line : Nat) :
    Moves (Eval.element run target index line) :=
  .bind (hrun (.evaluate target)) fun _ => .bind (hrun (.evaluate index)) fun _ => .ofExcept _

/-- The fields of an object are evaluated one after the other. -/
theorem fields (done : NameTable Value) (entries : List (String × Expr)) :
    Moves (Eval.fields run done entries) := by
  induction entries generalizing done with
  | nil => exact .pure _
  | cons entry rest ih => exact .bind (hrun (.evaluate entry.2)) fun value => ih _

/-- Every clause of the evaluation of expressions. -/
theorem evaluate (expr : Expr) : Moves (Eval.evaluate run expr) := by
  cases expr with
  | literal line value => exact .pure _
  | var line name => exact readName name line
  | negate line operand => exact .bind (hrun (.evaluate operand)) fun _ => .ofExcept _
  | binary line op left right => exact binary hrun op left right line
  | call line callee arguments => exact call hrun callee arguments line
  | member line target name => exact member hrun target name line
  | index line target position => exact element hrun target position line
  | array line elements => exact .bind (evaluateAll hrun elements) fun _ => .pure _
  | object line entries => exact .bind (fields hrun [] entries) fun _ => .pure _
  | lambda line params body => exact .newLambda params body

/-- The imports of a module are executed in order. -/
theorem importNested (program : Block) : Moves (Eval.importNested run program) := by
  induction program with
  | nil => exact .pure _
  | cons stmt rest ih =>
    cases stmt with
    | use line target aliasName => exact .bind (hrun (.execute _)) fun _ => ih
    | _ => exact ih

/-- The constants of a module are evaluated in order. -/
theorem constants (program : Block) : Moves (Eval.constants run program) := by
  induction program with
  | nil => exact .pure _
  | cons stmt rest ih =>
    cases stmt with
    | declare line name typed expr =>
      refine .bind (hrun (.evaluate expr)) fun value => ?_
      have hdefine : Moves (modify fun m => { m with env := m.env.define name value }) :=
        .modify fun _ => .effect (.define name value)
      exact .bind hdefine fun _ => .bind ih fun _ => .pure _
    | _ => exact ih

/-- A module is installed by registering its functions and then binding its constants. -/
theorem install (path : Path) (program : Block) (aliasName : String) :
    Moves (Eval.install run path program aliasName) := by
  refine .bind (inDirectory path.parent (importNested hrun program)) fun _ => ?_
  refine .bind (.modify fun m => evolves_registerFunctions m aliasName program) fun _ => ?_
  refine .bind (inScope (constants hrun program)) fun found => ?_
  exact .modify fun m => evolves_assignConstants m aliasName found

/-- Once a module is installed, its functions are registered. -/
theorem registers_install {path : Path} {program : Block} {aliasName : String} {m after : Machine}
    (h : Eval.install run path program aliasName m = .ok () after) :
    after.Registers aliasName program := by
  unfold Eval.install at h
  cases himports : Eval.inDirectory path.parent (Eval.importNested run program) m with
  | error stop stopped =>
    rw [bind_of_error himports] at h
    cases h
  | ok done imported =>
    rw [bind_of_ok himports] at h
    have hrest : Moves (do
        let found ← Eval.inScope (Eval.constants run program)
        modify fun m => { m with env := assignConstants aliasName m.env found }) :=
      .bind (inScope (constants hrun program)) fun found =>
        .modify fun m => evolves_assignConstants m aliasName found
    have hevolves := of_ok hrest
      (m := { imported with
        functions := registerFunctions aliasName program imported.functions }) h
    exact hevolves.registers (registers_registerFunctions imported aliasName program)

/-- So they are when the load of the module is over. -/
theorem registers_whileLoading {path : Path} {program : Block} {aliasName : String}
    {m after : Machine}
    (h : Eval.whileLoading path (Eval.install run path program aliasName) m = .ok () after) :
    after.Registers aliasName program := by
  unfold Eval.whileLoading Eval.afterwards at h
  split at h
  · rename_i hinstalled
    have hregisters := registers_install hrun hinstalled
    cases h
    exact hregisters
  · cases h

/-- A file is installed while it counts as being loaded, unless it already is or cannot be read. -/
theorem importFile (target : ModuleRef) (aliasName : String) (line : Nat) :
    Moves (Eval.importFile run target aliasName line) := by
  refine .getAt fun m => ?_
  dsimp only
  generalize Path.ofModule m.baseDir target.text = path
  by_cases hloading : m.loading.contains path.canonical = true
  · simp only [hloading, if_true]
    exact .refl m
  · have hnew : path.canonical ∉ m.loading := by simpa using hloading
    simp only [hloading]
    cases Block.ofFile m.files path with
    | ok program =>
      have hload := whileLoading hnew (install hrun path program aliasName)
      cases hloaded : Eval.whileLoading path (Eval.install run path program aliasName) m with
      | error stop stopped =>
        rw [hloaded] at hload
        simp only [Bool.false_eq_true, if_false]
        rw [bind_of_error hloaded]
        exact hload
      | ok done loaded =>
        rw [hloaded] at hload
        simp only [Bool.false_eq_true, if_false]
        rw [bind_of_ok hloaded]
        refine .trans hload (.effect (.bindModule ?_))
        rintro _ _ ⟨⟩
        exact registers_whileLoading hrun hloaded
    | error stop =>
      cases stop with
      | exhausted => exact .refl m
      | failed failure => exact report (.unloaded line target.text failure) rfl m

/-- An import binds a library or installs a file, after which its alias is bound. -/
theorem importModule (target : ModuleRef) (aliasName : String) (line : Nat) :
    Moves (Eval.importModule run target aliasName line) := by
  unfold Eval.importModule
  split
  · exact bindLibrary aliasName _
  · exact importFile hrun target aliasName line

/-- A turn is refused, or counted and taken. -/
theorem turn (body : Block) : Moves (Eval.turn run body) := by
  refine .getAt fun m => ?_
  cases htick : m.loops.tick with
  | error fault => exact refuseAt (.inl htick) _
  | ok loops =>
    have hcounted : Moves (Eval.countedTurn run body) := by
      refine .bind (executeBlock hrun body) fun flow => ?_
      cases flow with
      | normal | next | leave | giveBack _ => exact .pure _
    exact .trans (.effect (.tick htick)) (hcounted _)

section

variable {σ : Type} {enter : σ → Eval Bool} (henter : ∀ cursor, Moves (enter cursor))

include henter

/-- The turns of a loop, by induction on the bound on their number. -/
theorem loopTurns (next : σ → Option σ) (body : Block) (turns : Nat) (cursor : σ) :
    Moves (Eval.loopTurns run enter next body turns cursor) := by
  induction turns generalizing cursor with
  | zero => exact .exhausted
  | succ turns ih =>
    refine .bind (henter cursor) fun entered => ?_
    cases entered with
    | false => exact .pure _
    | true =>
      refine .bind (turn hrun body) fun ended => ?_
      cases ended with
      | some flow => exact .pure _
      | none =>
        dsimp only
        cases next cursor with
        | none => exact .pure _
        | some following => exact ih following

/-- A loop is refused, or entered and left. -/
theorem executeLoop (context : Loop.Context) (next : σ → Option σ) (body : Block) (first : σ) :
    Moves (Eval.executeLoop run context enter next body first) := by
  refine .getAt fun m => ?_
  have hturns := loopTurns hrun henter next body (m.loops.limits.maxIterations + 1) first
  show m.Evolves (Outcome.machine (withLoops (m.loops.push context) Flow.normal
    (Eval.afterwards _ fun m => { m with loops := m.loops.pop }) m))
  cases hpush : m.loops.push context with
  | error fault => exact refuseAt (.inr ⟨context, hpush⟩) _
  | ok loops => exact afterwards (.loop hpush (hturns { m with loops }))

end

/-- A loop with a condition evaluates it before every turn. -/
theorem executeWhile (condition : Expr) (body : Block) (line : Nat) :
    Moves (Eval.executeWhile run condition body line) := by
  have henter : ∀ _ : Unit, Moves (do return (← run (.evaluate condition)).holds) :=
    fun _ => .bind (hrun (.evaluate condition)) fun _ => .pure _
  exact executeLoop hrun henter _ some body ()

/-- A bound of a loop is evaluated and must be a number. -/
theorem loopBound (expr : Expr) : Moves (Eval.loopBound run expr) := by
  refine .bind (hrun (.evaluate expr)) fun value => ?_
  cases value with
  | number n => exact .pure _
  | text _ | boolean _ | array _ | object _ | lambda _ _ _ | nothing => exact .raise _

/-- A loop over a range is a loop whose turns begin with values of the range. -/
theorem executeRange (name : String) (start stop step : Number) (body : Block) (line : Nat) :
    Moves (Eval.executeRange run name start stop step body line) := by
  rw [executeRange_eq]
  split
  · exact .pure _
  · exact executeLoop hrun (enterRange name stop step) _ _ body start

/-- A loop over elements is a loop whose turns begin with elements. -/
theorem executeItems (name : String) (items : List Value) (body : Block) (line : Nat) :
    Moves (Eval.executeItems run name items body line) :=
  executeLoop hrun (enterItems name) _ _ body (0, items)

/-- A loop evaluates its bounds or elements once and then turns. -/
theorem executeFor (name : String) (iteration : Iteration) (body : Block) (line : Nat) :
    Moves (Eval.executeFor run name iteration body line) := by
  cases iteration with
  | range start stop =>
    exact .bind (loopBound hrun start) fun _ => .bind (loopBound hrun stop) fun _ =>
      executeRange hrun name _ _ _ body line
  | step start stop width | countdown start stop width =>
    exact .bind (loopBound hrun start) fun _ => .bind (loopBound hrun stop) fun _ =>
      .bind (loopBound hrun width) fun _ => executeRange hrun name _ _ _ body line
  | items value =>
    exact .bind (hrun (.evaluate value)) fun _ => .bind (.ofExcept _) fun items =>
      executeItems hrun name items body line

/-- The cases of a choice are evaluated up to the first that is equal. -/
theorem findCase (subject : Value) (cases : List (Expr × Block)) :
    Moves (Eval.findCase run subject cases) := by
  induction cases with
  | nil => exact .pure _
  | cons head rest ih =>
    refine .bind (hrun (.evaluate head.1)) fun value => ?_
    split
    · exact .pure _
    · exact ih

/-- A choice executes the block of one case, or the one without. -/
theorem executeSwitch (subject : Expr) (cases : List (Expr × Block))
    (otherwise : Option Block) : Moves (Eval.executeSwitch run subject cases otherwise) := by
  refine .bind (hrun (.evaluate subject)) fun value => ?_
  refine .bind (findCase hrun value cases) fun found => ?_
  cases found.or otherwise with
  | none => exact .pure _
  | some body =>
    refine .bind (executeBlock hrun body) fun flow => ?_
    cases flow with
    | leave | normal | next | giveBack _ => exact .pure _

/-- A guarded block is rolled back, and so is its handler. -/
theorem executeTry (body : Block) (failure : String) (handler : Block) :
    Moves (Eval.executeTry run body failure handler) := by
  intro m
  have hbody := executeBlock hrun body m
  unfold Eval.executeTry
  dsimp only
  generalize Eval.executeBlock run body m = r at hbody ⊢
  cases r with
  | ok flow after => exact .rollback hbody
  | error stop after =>
    cases stop with
    | exhausted => exact .rollback hbody
    | failed reason =>
      cases reason with
      | io _ | lexical _ | syntactic _ | loop _ => exact .rollback hbody
      | running fault =>
        dsimp only
        split
        · exact .rollback hbody
        · have hstart := Machine.Evolves.recover failure fault hbody
          have hhandler := executeBlock hrun handler (Machine.recover failure fault m after)
          exact afterwards (.rollback (.trans hstart hhandler))

/-- Every clause of the execution of statements. -/
theorem execute (stmt : Stmt) : Moves (Eval.execute run stmt) := by
  cases stmt with
  | use line target aliasName =>
    exact .bind (importModule hrun target aliasName line) fun _ => .pure _
  | declare line name typed expr =>
    refine .bind (hrun (.evaluate expr)) fun value => ?_
    exact .bind (.modify fun m => m.evolves_declare name value) fun _ => .pure _
  | assign line name expr =>
    exact .bind (hrun (.evaluate expr)) fun value => .bind (assign name value) fun _ =>
      .pure _
  | assignIndex line name index expr =>
    exact .bind (hrun (.evaluate index)) fun _ => .bind (hrun (.evaluate expr)) fun _ =>
      .bind (assignElement name _ _ line) fun _ => .pure _
  | assignProperty line path expr =>
    exact .bind (hrun (.evaluate expr)) fun value => .bind (assignProperty path value line)
      fun _ => .pure _
  | define line name params returnType body =>
    exact .bind (.modify fun _ => .effect (.register name _)) fun _ => .pure _
  | branch line condition whenTrue whenFalse =>
    refine .bind (hrun (.evaluate condition)) fun value => ?_
    split
    · exact executeBlock hrun whenTrue
    · exact executeBlock hrun _
  | repeatWhile line condition body => exact executeWhile hrun condition body line
  | repeatOver line name iteration body => exact executeFor hrun name iteration body line
  | select line subject cases otherwise => exact executeSwitch hrun subject cases otherwise
  | attempt line body failure handler => exact executeTry hrun body failure handler
  | print line arguments =>
    exact .bind (evaluateAll hrun arguments) fun _ => .bind (.write _) fun _ => .pure _
  | giveBack line value =>
    cases value with
    | none => exact .pure _
    | some expr => exact .bind (hrun (.evaluate expr)) fun _ => .pure _
  | leave line => exact .pure _
  | next line => exact .pure _
  | evaluate expr => exact .bind (hrun (.evaluate expr)) fun _ => .pure _

/-- One step of a job. -/
theorem step (job : Job α) : Moves (Job.step run job) := by
  cases job with
  | evaluate expr => exact evaluate hrun expr
  | execute stmt => exact execute hrun stmt

/-- The statements of a program, where faults are reported. -/
theorem runStatements (program : Block) : Moves (Eval.runStatements run program) := by
  induction program with
  | nil => exact flush
  | cons stmt rest ih =>
    intro m
    have hfirst := hrun (.execute stmt) m
    unfold Eval.runStatements
    generalize run (.execute stmt) m = r at hfirst ⊢
    cases r with
    | ok flow after =>
      cases flow with
      | giveBack value => exact .trans hfirst (flush after)
      | normal | leave | next => exact .trans hfirst (ih after)
    | error stop after =>
      cases stop with
      | exhausted => exact hfirst
      | failed failure =>
        cases failure with
        | io _ | lexical _ | syntactic _ | loop _ => exact .trans hfirst (abandon _ after)
        | running fault =>
          dsimp only
          split
          · exact .trans hfirst (abandon _ after)
          · have hothers : Moves (do Eval.report fault.line fault.message
                                     Eval.runStatements run rest) :=
              .bind (report (.uncaught fault) rfl) fun _ => ih
            exact .trans hfirst (hothers after)

end

end Moves

end Eval

/-- Every job evolves its machine, by induction on the bound on nesting. -/
theorem Job.moves_perform {α : Type} (depth : Nat) (job : Job α) :
    Eval.Moves (Job.perform depth job) := by
  induction depth generalizing α with
  | zero => exact .exhausted
  | succ depth ih => exact Eval.Moves.step (fun nested => ih nested) job

/-- Every program evolves its machine. -/
theorem Eval.moves_runProgram (program : Block) : Eval.Moves (Eval.runProgram program) :=
  fun m => Moves.runStatements (fun job => Job.moves_perform _ job) program m

end DecimalScript
