import DecimalScript.Proofs.InsertedMachines

/-!
# Variables that nothing uses

A machine with one variable more does the same as without it, if nothing mentions the name of the
variable. The two evaluations go on in step: each clause of the evaluator looks up the same, decides
the same and makes the same changes, and syntax that it hands on mentions no more than it was given.
-/

namespace DecimalScript

namespace Insertion

open Eval

variable {I : Insertion} {run : JobRunner}

/-- The binding is not that of a qualified name. -/
theorem qualified_ne (I : Insertion) (aliasName name : String) :
    qualified aliasName name ≠ I.binding.name :=
  (ne_qualified I.plain aliasName name).symm

/-- A constant of an alias is the same, and mentions no more than the machine. -/
theorem Related.constantOf? {m m' : Machine} (h : I.Related m m') {aliasName : String}
    (haliasName : aliasName ≠ I.binding.name) (name : String) :
    Eval.constantOf? m' aliasName name = Eval.constantOf? m aliasName name := by
  have hlibrary : m'.library? aliasName = m.library? aliasName := by
    rw [h.machine_eq]
    rfl
  rw [Eval.constantOf?, Eval.constantOf?, h.binds haliasName, h.get? (I.qualified_ne _ _), hlibrary]

/-- A constant that an alias gives mentions the binding no more than the variables do. -/
theorem Related.good_constantOf? {m m' : Machine} (h : I.Related m m') {aliasName name : String}
    {value : Value} (hconstant : Eval.constantOf? m aliasName name = some value) :
    I.Good value := by
  unfold Eval.constantOf? at hconstant
  split at hconstant
  · cases hconstant
  · split at hconstant
    · rename_i hget
      cases hconstant
      exact h.avoids.values.of_get? hget
    · split at hconstant
      · exact (Value.avoids_class _).libraryConstant hconstant
      · cases hconstant

namespace Ignores

/-- Comparing numbers of arguments reads no variables. -/
theorem checkCount (name : String) (expected found line : Nat) :
    I.Ignores (fun _ => True) (Eval.checkCount name expected found line) := by
  unfold Eval.checkCount
  split
  · exact .pure trivial
  · exact .raise _

/-- Another name is read from the same binding in both machines. -/
theorem readName {name : String} (hname : name ≠ I.binding.name) (line : Nat) :
    I.Ignores I.Good (Eval.readName name line) := by
  refine .get fun m m' hm => ⟨by rw [hm.get? hname], ?_⟩
  cases hget : m.env.get? name with
  | some value => exact .pure (hm.avoids.values.of_get? hget)
  | none => exact .raise _

/-- A loop variable of another name is bound in both. -/
theorem beginTurn {name : String} (hname : name ≠ I.binding.name) (current : Number)
    {value : Value} (hvalue : I.Good value) :
    I.Ignores (fun _ => True) (Eval.beginTurn name current value) :=
  .bind (modifyLoops (·.advance current)) fun _ _ => .declare hname hvalue

/-- Whether a range has a further turn is told from numbers alone. -/
theorem enterRange {name : String} (hname : name ≠ I.binding.name) (stop step current : Number) :
    I.Ignores (fun _ => True) (Eval.enterRange name stop step current) := by
  unfold Eval.enterRange
  split
  · exact .bind (beginTurn hname current ((Value.avoids_class _).number _)) fun _ _ => .pure trivial
  · exact .pure trivial

/-- A path whose base has another name is written in both. -/
theorem assignProperty {path : PropertyPath} (hbase : path.base ≠ I.binding.name) {value : Value}
    (hvalue : I.Good value) (line : Nat) :
    I.Ignores (fun _ => True) (Eval.assignProperty path value line) := by
  refine .get fun m m' hm => ?_
  have htarget : propertyTarget m'.env path = propertyTarget m.env path := by
    unfold propertyTarget
    rw [hm.binds hbase, hm.binds (I.qualified_ne _ _)]
  have hname : (propertyTarget m.env path).1 ≠ I.binding.name := by
    unfold propertyTarget
    split
    · exact I.qualified_ne _ _
    · exact hbase
  refine ⟨by simp only [htarget, hm.get? hname], ?_⟩
  dsimp only
  cases hset : ((m.env.get? (propertyTarget m.env path).1).getD (.object [])).setPath
      (propertyTarget m.env path).2 value with
  | error fault => exact .raise _
  | ok changed =>
    have htargetGood : I.Good ((m.env.get? (propertyTarget m.env path).1).getD (.object [])) := by
      cases hget : m.env.get? (propertyTarget m.env path).1 with
      | none => exact (Value.avoids_class _).empty
      | some target => exact hm.avoids.values.of_get? hget
    exact .assign hname ((Value.avoids_class _).setPath hvalue _ htargetGood hset)

/-- So is an element of a variable of another name. -/
theorem assignElement {name : String} (hname : name ≠ I.binding.name) (index : Value)
    {value : Value} (hvalue : I.Good value) (line : Nat) :
    I.Ignores (fun _ => True) (Eval.assignElement name index value line) := by
  refine .get fun m m' hm => ⟨by rw [hm.get? hname], ?_⟩
  cases hget : m.env.get? name with
  | none => exact .raise _
  | some target =>
    have htarget : I.Good target := hm.avoids.values.of_get? hget
    have hwrite : ∀ changed, I.Good changed →
        I.Ignores (fun _ => True) (Eval.modifyEnv (·.write name changed)) :=
      fun changed hchanged => .modifyEnv (fun _ _ henv => henv.write hname changed)
        fun _ h => h.write name hchanged
    exact .bind (.ofExcept ((Value.avoids_class _).withElement htarget hvalue index line)) hwrite

section

variable (hrun : I.Runs run)

include hrun

/-- An expression that avoids the binding has the same value in both. -/
theorem evaluateOne {expr : Expr} (h : expr.Avoids I.binding.name) :
    I.Ignores I.Good (run (.evaluate expr)) :=
  hrun.ignores (.evaluate expr) h

/-- So have several of them, from left to right. -/
theorem evaluateAll {exprs : List Expr} (h : ∀ expr ∈ exprs, expr.Avoids I.binding.name) :
    I.Ignores (fun values => ∀ value ∈ values, I.Good value) (Eval.evaluateAll run exprs) := by
  induction exprs with
  | nil => exact .pure (List.forall_mem_nil _)
  | cons expr rest ih =>
    obtain ⟨hfirst, hrest⟩ := List.forall_mem_cons.mp h
    exact .bind (evaluateOne hrun hfirst) fun _ hvalue => .bind (ih hrest) fun _ hvalues =>
      .pure (List.forall_mem_cons.mpr ⟨hvalue, hvalues⟩)

/-- A block that avoids the binding ends in the same flow. -/
theorem executeBlock {block : Block} (h : block.Avoids I.binding.name) :
    I.Ignores I.GoodFlow (Eval.executeBlock run block) := by
  induction block with
  | nil => exact .pure trivial
  | cons stmt rest ih =>
    obtain ⟨hfirst, hrest⟩ := List.forall_mem_cons.mp h
    refine .bind (hrun.ignores (.execute stmt) hfirst) fun flow hflow => ?_
    cases flow with
    | normal => exact ih hrest
    | leave | next => exact .pure trivial
    | giveBack value => exact .pure hflow

/-- The body of a function is worth the same. -/
theorem bodyValue {block : Block} (h : block.Avoids I.binding.name) :
    I.Ignores I.Good (Eval.bodyValue run block) := by
  refine .bind (executeBlock hrun h) fun flow hflow => ?_
  cases flow with
  | giveBack value => exact .pure hflow
  | normal | leave | next => exact .pure (Value.avoids_class _).nothing

/-- A call passes over the binding: the scope of its parameters is opened above it. -/
theorem callFunction {function : Function} (hbody : function.body.Avoids I.binding.name)
    {arguments : List Expr} (harguments : ∀ expr ∈ arguments, expr.Avoids I.binding.name)
    (line : Nat) : I.Ignores I.Good (Eval.callFunction run function arguments line) :=
  .bind (evaluateAll hrun harguments) fun _ hvalues => .bind (checkCount _ _ _ _) fun _ _ =>
    .invoke _ hvalues line (.bodyValue hrun.moves function.body) (bodyValue hrun hbody)

/-- So does a call of a lambda. -/
theorem callLambda (params : List String) {body : Expr} (hbody : body.Avoids I.binding.name)
    {arguments : List Expr} (harguments : ∀ expr ∈ arguments, expr.Avoids I.binding.name)
    (line : Nat) : I.Ignores I.Good (Eval.callLambda run params body arguments line) :=
  .bind (evaluateAll hrun harguments) fun _ hvalues => .bind (checkCount _ _ _ _) fun _ _ =>
    .invoke params hvalues line (hrun.moves (.evaluate body)) (evaluateOne hrun hbody)

/-- Built-ins read their arguments and no variables. -/
theorem callLibrary {library : Library} {name : String} {arguments : List Expr} {line : Nat}
    {called : Eval Value} (h : callLibrary? run library name arguments line = some called)
    (harguments : ∀ expr ∈ arguments, expr.Avoids I.binding.name) : I.Ignores I.Good called := by
  obtain ⟨builtin, hbuiltin, rfl⟩ := Option.map_eq_some_iff.mp h
  have htame := Library.tame_of_builtin? (consoleLaw I) hbuiltin
  unfold Eval.callBuiltin
  dsimp only
  split
  · refine .bind (evaluateAll hrun harguments) fun values hvalues => ?_
    cases happlied : builtin.applyTo? values line with
    | none => exact .raise _
    | some applied => exact htame.applyTo hvalues happlied
  · exact .raise _

/-- What a good value is called with is passed to the body of a lambda that avoids the binding. -/
theorem callValue {target : Value} (htarget : I.Good target) {arguments : List Expr}
    (harguments : ∀ expr ∈ arguments, expr.Avoids I.binding.name) (line : Nat) :
    I.Ignores I.Good (Eval.callValue run target arguments line) := by
  cases target with
  | lambda identity params body =>
    exact callLambda hrun params (Value.avoids_lambda.mp htarget) harguments line
  | number _ | text _ | boolean _ | array _ | object _ | nothing => exact .raise _

/-- A name that is called is another name, and stands for the same lambda or function. -/
theorem callName {name : String} (hname : name ≠ I.binding.name) {arguments : List Expr}
    (harguments : ∀ expr ∈ arguments, expr.Avoids I.binding.name) (line : Nat) :
    I.Ignores I.Good (Eval.callName run name arguments line) := by
  refine .get fun m m' hm => ⟨?_, ?_⟩
  · rw [congrArg Machine.functions hm.machine_eq, hm.get? hname]
  · dsimp only
    split
    · rename_i hfunction
      exact callFunction hrun (hm.avoids.functions _ _ hfunction) harguments line
    · rename_i hget
      exact callLambda hrun _ (Value.avoids_lambda.mp (hm.avoids.values.of_get? hget)) harguments
        line
    · split
      · rename_i hcalled
        exact callLibrary hrun hcalled harguments
      · split
        · exact .raise _
        · exact .raise _

/-- A function behind an alias is the same one. -/
theorem callMember {m m' : Machine} (hm : I.Related m m') {aliasName name : String}
    {arguments : List Expr} {line : Nat} {called : Eval Value}
    (h : callMember? run m aliasName name arguments line = some called)
    (harguments : ∀ expr ∈ arguments, expr.Avoids I.binding.name) : I.Ignores I.Good called := by
  unfold callMember? at h
  split at h
  · rename_i hfunction
    cases h
    exact callFunction hrun (hm.avoids.functions _ _ hfunction) harguments line
  · split at h
    · exact callLibrary hrun h harguments
    · cases h

/-- A call ends alike, whether its callee is a name, a member of an alias or another value. -/
theorem call {line : Nat} {callee : Expr} {arguments : List Expr}
    (h : (Expr.call line callee arguments).Avoids I.binding.name) :
    I.Ignores I.Good (Eval.call run callee arguments line) := by
  obtain ⟨hcallee, harguments⟩ :=
    List.forall_mem_cons.mp (fun _ => h.part : ∀ part ∈ callee :: arguments, _)
  have hresult : I.Ignores I.Good
      (do Eval.callValue run (← run (.evaluate callee)) arguments line) :=
    .bind (evaluateOne hrun hcallee) fun _ htarget => callValue hrun htarget harguments line
  unfold Eval.call
  split
  · exact callName hrun hcallee.var_ne harguments line
  · rename_i inner aliasName name
    have htarget : (Expr.var inner aliasName).Avoids I.binding.name :=
      hcallee.part List.mem_cons_self
    have halias : aliasName ≠ I.binding.name := htarget.var_ne
    refine .get fun m m' hm => ⟨?_, ?_⟩
    · have hsame : callMember? run m' aliasName name arguments line =
          callMember? run m aliasName name arguments line := by
        rw [hm.machine_eq]
        rfl
      rw [hsame, hm.binds halias]
    · dsimp only
      split
      · rename_i hcalled
        exact callMember hrun hm hcalled harguments
      · split
        · exact hresult
        · exact .raise _
  · exact hresult

/-- An operator may leave its right operand out, in both machines alike. -/
theorem binary (op : BinaryOp) {left right : Expr} (hleft : left.Avoids I.binding.name)
    (hright : right.Avoids I.binding.name) (line : Nat) :
    I.Ignores I.Good (Eval.binary run op left right line) := by
  have law := Value.avoids_class I.binding.name
  have hlast : I.Ignores I.Good (do return Value.boolean (← run (.evaluate right)).holds) :=
    .bind (evaluateOne hrun hright) fun _ _ => .pure (law.boolean _)
  cases op with
  | both =>
    refine .bind (evaluateOne hrun hleft) fun a _ => ?_
    split
    · exact hlast
    · exact .pure (law.boolean _)
  | either =>
    refine .bind (evaluateOne hrun hleft) fun a _ => ?_
    split
    · exact .pure (law.boolean _)
    · exact hlast
  | add | subtract | multiply | divide | modulo | equal | notEqual | less | lessEqual | greater
  | greaterEqual =>
    exact .bind (evaluateOne hrun hleft) fun _ ha => .bind (evaluateOne hrun hright) fun _ hb =>
      .ofExcept (law.applyBinary ha hb _ line)

/-- A member of a value is read from the value. -/
theorem memberOf {target : Expr} (h : target.Avoids I.binding.name) (name : String) (line : Nat) :
    I.Ignores I.Good (Eval.memberOf run target name line) :=
  .bind (evaluateOne hrun h) fun _ ha => .ofExcept ((Value.avoids_class _).member ha name line)

/-- A member of a name is one of a variable or of an alias, of the same in both. -/
theorem member {target : Expr} (h : target.Avoids I.binding.name) (name : String) (line : Nat) :
    I.Ignores I.Good (Eval.member run target name line) := by
  unfold Eval.member
  split
  · refine .get fun m m' hm => ⟨by rw [hm.constantOf? h.var_ne], ?_⟩
    dsimp only
    split
    · rename_i hconstant
      exact .pure (hm.good_constantOf? hconstant)
    · exact memberOf hrun h name line
  · exact memberOf hrun h name line

/-- The fields of an object are evaluated in order, around those that are done. -/
theorem fields {entries : List (String × Expr)}
    (h : ∀ expr ∈ entries.map (·.2), expr.Avoids I.binding.name) {done : NameTable Value}
    (hdone : I.Good (.object done)) :
    I.Ignores (fun found => I.Good (.object found)) (Eval.fields run done entries) := by
  induction entries generalizing done with
  | nil => exact .pure hdone
  | cons entry rest ih =>
    obtain ⟨hfirst, hrest⟩ := List.forall_mem_cons.mp h
    exact .bind (evaluateOne hrun hfirst) fun _ hvalue =>
      ih hrest ((Value.avoids_class _).set hdone hvalue)

/-- Every clause of the evaluation of expressions. -/
theorem evaluate {expr : Expr} (h : expr.Avoids I.binding.name) :
    I.Ignores I.Good (Eval.evaluate run expr) := by
  have law := Value.avoids_class I.binding.name
  have hparts : ∀ part ∈ expr.parts, part.Avoids I.binding.name := fun _ => h.part
  cases expr with
  | literal line value =>
    cases value with
    | number n => exact .pure (law.number n)
    | text s => exact .pure (law.text s)
    | boolean b => exact .pure (law.boolean b)
  | var line name => exact readName h.var_ne line
  | negate line operand =>
    exact .bind (evaluateOne hrun (hparts operand List.mem_cons_self)) fun a _ =>
      .ofExcept (law.negated a line)
  | binary line op left right =>
    exact binary hrun op (hparts left List.mem_cons_self)
      (hparts right (List.mem_cons_of_mem _ List.mem_cons_self)) line
  | call line callee arguments => exact call hrun h
  | member line target name => exact member hrun (hparts target List.mem_cons_self) name line
  | index line target position =>
    exact .bind (evaluateOne hrun (hparts target List.mem_cons_self)) fun _ ha =>
      .bind (evaluateOne hrun (hparts position (List.mem_cons_of_mem _ List.mem_cons_self)))
        fun b _ => .ofExcept (law.element ha b line)
  | array line elements =>
    exact .bind (evaluateAll hrun hparts) fun _ hitems => .pure (law.array.mpr hitems)
  | object line entries => exact .bind (fields hrun hparts law.empty) fun _ hfound => .pure hfound
  | lambda line params body => exact .newLambda params h.lambdaBody

/-- A module imports the same modules first. -/
theorem importNested {program : Block} (h : program.Avoids I.binding.name) :
    I.Ignores (fun _ => True) (Eval.importNested run program) := by
  induction program with
  | nil => exact .pure trivial
  | cons stmt rest ih =>
    obtain ⟨hfirst, hrest⟩ := List.forall_mem_cons.mp h
    cases stmt with
    | use line target aliasName =>
      exact .bind (hrun.ignores (.execute (.use line target aliasName)) hfirst) fun _ _ => ih hrest
    | _ => exact ih hrest

/-- The constants of a module are evaluated in a scope above the binding. -/
theorem constants {program : Block} (h : program.Avoids I.binding.name) :
    I.Ignores (fun found => ∀ entry ∈ found, I.Good entry.2) (Eval.constants run program) := by
  induction program with
  | nil => exact .pure (List.forall_mem_nil _)
  | cons stmt rest ih =>
    obtain ⟨hfirst, hrest⟩ := List.forall_mem_cons.mp h
    cases stmt with
    | declare line name typed expr =>
      have hexpr : expr.Avoids I.binding.name := hfirst.expr List.mem_cons_self
      exact .bind (evaluateOne hrun hexpr) fun _ hvalue => .bind (.define name hvalue) fun _ _ =>
        .bind (ih hrest) fun _ hfound => .pure (List.forall_mem_cons.mpr ⟨hvalue, hfound⟩)
    | _ => exact ih hrest

omit hrun in
/-- The constants of a module are bound one after the other. -/
theorem assignConstants (aliasName : String) {found : List (String × Value)}
    (hfound : ∀ entry ∈ found, I.Good entry.2) :
    I.Ignores (fun _ => True)
      (Eval.modifyEnv fun env => Eval.assignConstants aliasName env found) := by
  refine .modifyEnv (fun env env' henv => ?_) fun env hvalues => ?_
  · induction found generalizing env env' with
    | nil => exact henv
    | cons entry rest ih =>
      exact ih (List.forall_mem_cons.mp hfound).2 _ _ (henv.assign (I.qualified_ne _ _) entry.2)
  · induction found generalizing env with
    | nil => exact hvalues
    | cons entry rest ih =>
      obtain ⟨hfirst, hrest⟩ := List.forall_mem_cons.mp hfound
      exact ih hrest _ (hvalues.assign (qualified aliasName entry.1) hfirst)

omit hrun in
/-- Registered functions avoid the binding as the module does. -/
theorem registerFunctions (aliasName : String) {program : Block}
    (h : program.Avoids I.binding.name) :
    I.Ignores (fun _ => True) (modify fun m : Machine =>
      { m with functions := Eval.registerFunctions aliasName program m.functions }) := by
  refine .modify fun m m' hm => ?_
  cases hm with
  | intro henv havoids => exact .intro henv (havoids.registerFunctions aliasName h)

/-- A module that avoids the binding is installed alike. -/
theorem install (path : Path) {program : Block} (h : program.Avoids I.binding.name)
    (aliasName : String) :
    I.Ignores (fun _ => True) (Eval.install run path program aliasName) :=
  .bind (.inDirectory path.parent (importNested hrun h)) fun _ _ =>
    .bind (registerFunctions aliasName h) fun _ _ =>
      .bind (.inScope (.constants hrun.moves program) (constants hrun h)) fun _ hfound =>
        assignConstants aliasName hfound

omit hrun in
/-- An alias is bound beside the variables. -/
theorem bindModule (aliasName : String) (module : Module) :
    I.Ignores (fun _ => True) (Eval.bindModule aliasName module) :=
  .modify fun _ _ hm => hm.besides
    (fun m => { m with modules := m.modules.set aliasName module }) fun _ _ => ⟨rfl, rfl, rfl⟩

/-- The files of the machines avoid the binding, so what is loaded from them does. -/
theorem importFile (target : ModuleRef) (aliasName : String) (line : Nat) :
    I.Ignores (fun _ => True) (Eval.importFile run target aliasName line) := by
  refine .get fun m m' hm => ⟨by rw [hm.machine_eq], ?_⟩
  dsimp only
  split
  · exact .pure trivial
  · split
    · exact .exhausted
    · exact .report _ _
    · rename_i program hread
      have hprogram := hm.avoids.files _ program hread
      exact .bind (.whileLoading _ (install hrun _ hprogram aliasName)) fun _ _ =>
        bindModule aliasName _

/-- A library or a file is imported alike. -/
theorem importModule (target : ModuleRef) (aliasName : String) (line : Nat) :
    I.Ignores (fun _ => True) (Eval.importModule run target aliasName line) := by
  unfold Eval.importModule
  split
  · exact bindModule aliasName _
  · exact importFile hrun target aliasName line

/-- A turn that is counted runs the same body. -/
theorem turn {body : Block} (h : body.Avoids I.binding.name) :
    I.Ignores (fun ended => ∀ flow, ended = some flow → I.GoodFlow flow)
      (Eval.turn run body) := by
  have hcounted : I.Ignores (fun ended => ∀ flow, ended = some flow → I.GoodFlow flow)
      (Eval.countedTurn run body) := by
    refine .bind (executeBlock hrun h) fun flow hflow => ?_
    cases flow with
    | normal | next => exact .pure nofun
    | leave =>
      refine .pure ?_
      rintro _ ⟨⟩
      trivial
    | giveBack value =>
      refine .pure ?_
      rintro _ ⟨⟩
      exact hflow
  have hrefused : ∀ flow, some Flow.normal = some flow → I.GoodFlow flow := by
    rintro _ ⟨⟩
    trivial
  exact .get fun m m' hm =>
    ⟨by rw [congrArg Machine.loops hm.machine_eq], .withLoops _ hrefused hcounted⟩

section

variable {σ : Type} (Valid : σ → Prop) {enter : σ → Eval Bool}
  (henter : ∀ cursor, Valid cursor → I.Ignores (fun _ => True) (enter cursor))
  {next : σ → Option σ}
  (hnext : ∀ cursor following, Valid cursor → next cursor = some following → Valid following)

include henter hnext

/-- The turns of a loop, by induction on the bound on their number. -/
theorem loopTurns {body : Block} (h : body.Avoids I.binding.name) (turns : Nat) {cursor : σ}
    (hcursor : Valid cursor) :
    I.Ignores I.GoodFlow (Eval.loopTurns run enter next body turns cursor) := by
  induction turns generalizing cursor with
  | zero => exact .exhausted
  | succ turns ih =>
    refine .bind (henter cursor hcursor) fun entered _ => ?_
    cases entered with
    | false => exact .pure trivial
    | true =>
      refine .bind (turn hrun h) fun ended hended => ?_
      cases ended with
      | some flow => exact .pure (hended flow rfl)
      | none =>
        dsimp only
        cases hfollowing : next cursor with
        | none => exact .pure trivial
        | some following => exact ih (hnext cursor following hcursor hfollowing)

/-- A loop is refused or entered alike, since the loops in progress are the same. -/
theorem executeLoop (context : Loop.Context) {body : Block} (h : body.Avoids I.binding.name)
    {first : σ} (hfirst : Valid first) :
    I.Ignores I.GoodFlow (Eval.executeLoop run context enter next body first) := by
  refine .get fun m m' hm => ⟨by rw [congrArg Machine.loops hm.machine_eq], ?_⟩
  dsimp only
  generalize m.loops.limits.maxIterations + 1 = turns
  have hturns := loopTurns hrun Valid henter hnext h turns hfirst
  have hinside : I.Ignores I.GoodFlow (Eval.afterwards
      (Eval.loopTurns run enter next body turns first) fun m => { m with loops := m.loops.pop }) :=
    fun m m' hm => afterwards (hturns m m' hm) fun _ _ hafter => hafter.besides
      (fun m => { m with loops := m.loops.pop }) fun _ _ => ⟨rfl, rfl, rfl⟩
  exact .get fun m m' hm =>
    ⟨by rw [congrArg Machine.loops hm.machine_eq], .withLoops _ trivial hinside⟩

end

/-- A condition that avoids the binding is asked alike. -/
theorem executeWhile {condition : Expr} (hcondition : condition.Avoids I.binding.name)
    {body : Block} (h : body.Avoids I.binding.name) (line : Nat) :
    I.Ignores I.GoodFlow (Eval.executeWhile run condition body line) :=
  executeLoop hrun (fun _ => True)
    (fun _ _ => .bind (evaluateOne hrun hcondition) fun _ _ => .pure trivial)
    (fun _ _ _ _ => trivial) _ h trivial

/-- A bound of a range is the same number. -/
theorem loopBound {expr : Expr} (h : expr.Avoids I.binding.name) :
    I.Ignores (fun _ => True) (Eval.loopBound run expr) := by
  refine .bind (evaluateOne hrun h) fun value _ => ?_
  cases value with
  | number n => exact .pure trivial
  | text _ | boolean _ | array _ | object _ | lambda _ _ _ | nothing => exact .raise _

/-- A range runs the same turns, with a loop variable of another name. -/
theorem executeRange {name : String} (hname : name ≠ I.binding.name) (start stop step : Number)
    {body : Block} (h : body.Avoids I.binding.name) (line : Nat) :
    I.Ignores I.GoodFlow (Eval.executeRange run name start stop step body line) := by
  unfold Eval.executeRange
  split
  · exact .pure trivial
  · exact executeLoop hrun (fun _ => True)
      (fun current _ => enterRange hname stop step current) (fun _ _ _ _ => trivial) _ h trivial

/-- So does an iteration over good values. -/
theorem executeItems {name : String} (hname : name ≠ I.binding.name) {items : List Value}
    (hitems : ∀ item ∈ items, I.Good item) {body : Block} (h : body.Avoids I.binding.name)
    (line : Nat) : I.Ignores I.GoodFlow (Eval.executeItems run name items body line) := by
  refine executeLoop hrun (fun cursor => ∀ item ∈ cursor.2, I.Good item)
    (fun cursor hcursor => ?_) (fun cursor following hcursor hnext => ?_) _ h hitems
  · obtain ⟨position, left⟩ := cursor
    cases left with
    | nil => exact .pure trivial
    | cons item rest =>
      exact .bind (beginTurn hname _ (hcursor item List.mem_cons_self)) fun _ _ => .pure trivial
  · cases hnext
    exact fun item hitem => hcursor item (List.mem_of_mem_tail hitem)

/-- So does every iteration whose expressions avoid the binding. -/
theorem executeFor {name : String} (hname : name ≠ I.binding.name) {iteration : Iteration}
    (hiteration : ∀ expr ∈ iteration.exprs, expr.Avoids I.binding.name) {body : Block}
    (h : body.Avoids I.binding.name) (line : Nat) :
    I.Ignores I.GoodFlow (Eval.executeFor run name iteration body line) := by
  cases iteration with
  | range start stop =>
    obtain ⟨hstart, hrest⟩ := List.forall_mem_cons.mp hiteration
    exact .bind (loopBound hrun hstart) fun _ _ =>
      .bind (loopBound hrun (hrest stop List.mem_cons_self)) fun _ _ =>
        executeRange hrun hname _ _ _ h line
  | step start stop width | countdown start stop width =>
    obtain ⟨hstart, hrest⟩ := List.forall_mem_cons.mp hiteration
    obtain ⟨hstop, hlast⟩ := List.forall_mem_cons.mp hrest
    exact .bind (loopBound hrun hstart) fun _ _ => .bind (loopBound hrun hstop) fun _ _ =>
      .bind (loopBound hrun (hlast width List.mem_cons_self)) fun _ _ =>
        executeRange hrun hname _ _ _ h line
  | items value =>
    exact .bind (evaluateOne hrun (hiteration value List.mem_cons_self)) fun _ hvalue =>
      .bind (.ofExcept ((Value.avoids_class _).loopItems hvalue line)) fun _ hitems =>
        executeItems hrun hname hitems h line

/-- The same case is selected, and its body avoids the binding. -/
theorem findCase (subject : Value) {cases : List (Expr × Block)}
    (hvalues : ∀ expr ∈ cases.map (·.1), expr.Avoids I.binding.name)
    (hbodies : Block.Avoids I.binding.name (cases.flatMap (·.2))) :
    I.Ignores (fun found => Block.Avoids I.binding.name (found.getD []))
      (Eval.findCase run subject cases) := by
  induction cases with
  | nil => exact .pure (List.forall_mem_nil _)
  | cons head rest ih =>
    obtain ⟨hvalue, hrest⟩ := List.forall_mem_cons.mp hvalues
    rw [List.flatMap_cons] at hbodies
    obtain ⟨hbody, hothers⟩ := List.forall_mem_append.mp hbodies
    refine .bind (evaluateOne hrun hvalue) fun value _ => ?_
    split
    · exact .pure hbody
    · exact ih hrest hothers

/-- A selection runs the body of the same case. -/
theorem executeSwitch {subject : Expr} (hsubject : subject.Avoids I.binding.name)
    {cases : List (Expr × Block)} (hvalues : ∀ expr ∈ cases.map (·.1), expr.Avoids I.binding.name)
    (hbodies : Block.Avoids I.binding.name (cases.flatMap (·.2))) {otherwise : Option Block}
    (hotherwise : Block.Avoids I.binding.name (otherwise.getD [])) :
    I.Ignores I.GoodFlow (Eval.executeSwitch run subject cases otherwise) := by
  refine .bind (evaluateOne hrun hsubject) fun value _ => ?_
  refine .bind (findCase hrun value hvalues hbodies) fun found hfound => ?_
  have hchosen : Block.Avoids I.binding.name ((found.or otherwise).getD []) := by
    cases found with
    | none => exact hotherwise
    | some body => exact hfound
  cases hbody : found.or otherwise with
  | none => exact .pure trivial
  | some body =>
    rw [hbody] at hchosen
    refine .bind (executeBlock hrun hchosen) fun flow hflow => ?_
    cases flow with
    | leave | normal | next => exact .pure trivial
    | giveBack value => exact .pure hflow

/-- A guarded block is rolled back to the same bindings, and so is its handler. -/
theorem executeTry {body handler : Block} (hbody : body.Avoids I.binding.name)
    (hhandler : handler.Avoids I.binding.name) (failure : String) :
    I.Ignores I.GoodFlow (Eval.executeTry run body failure handler) := by
  intro m m' hm
  have hrestore : ∀ after after', I.Related after after' →
      I.Related (after.rollback m.env.mark) (after'.rollback m'.env.mark) := by
    intro after after' hafter
    exact hafter.env (hm.inserted.restore hafter.inserted)
      (hafter.avoids.values.restore m.env.mark)
  have hended := executeBlock hrun hbody m m' hm
  unfold Eval.executeTry
  dsimp only
  generalize Eval.executeBlock run body m = r at hended ⊢
  generalize Eval.executeBlock run body m' = r' at hended ⊢
  cases hended with
  | ok hflow hafter => exact .ok hflow (hrestore _ _ hafter)
  | @error stop after after' hafter =>
    cases stop with
    | exhausted => exact .error (hrestore _ _ hafter)
    | failed reason =>
      cases reason with
      | io _ | lexical _ | syntactic _ | loop _ => exact .error (hrestore _ _ hafter)
      | running fault =>
        dsimp only
        split
        · exact .error (hrestore _ _ hafter)
        · have hstart : I.Related (Machine.recover failure fault m after)
              (Machine.recover failure fault m' after') := by
            have htext : I.Good (.text fault.description) := (Value.avoids_class _).text _
            have henv := (hm.inserted.restore hafter.inserted).define failure
              (.text fault.description)
            have hvalues := (hafter.avoids.values.restore m.env.mark).define failure htext
            have hdepths : m'.loops = m.loops ∧ m'.callDepth = m.callDepth := by
              rw [hm.machine_eq]
              exact ⟨rfl, rfl⟩
            unfold Machine.recover
            rw [hdepths.1, hdepths.2]
            exact (hafter.env henv hvalues).besides (fun after => { after with
              loops := after.loops.unwindTo m.loops.depth
              callDepth := m.callDepth }) fun _ _ => ⟨rfl, rfl, rfl⟩
          exact afterwards (executeBlock hrun hhandler _ _ hstart) hrestore

/-- Every clause of the execution of statements. -/
theorem execute {stmt : Stmt} (h : stmt.Avoids I.binding.name) :
    I.Ignores I.GoodFlow (Eval.execute run stmt) := by
  have hexprs : ∀ expr ∈ stmt.exprs, expr.Avoids I.binding.name := fun _ => h.expr
  have hstmts : Block.Avoids I.binding.name stmt.stmts := fun _ => h.stmt
  cases stmt with
  | use line target aliasName =>
    exact .bind (importModule hrun target aliasName line) fun _ _ => .pure trivial
  | declare line name typed expr =>
    exact .bind (evaluateOne hrun (hexprs expr List.mem_cons_self)) fun _ hvalue =>
      .bind (.declare (h.ne rfl) hvalue) fun _ _ => .pure trivial
  | assign line name expr =>
    exact .bind (evaluateOne hrun (hexprs expr List.mem_cons_self)) fun _ hvalue =>
      .bind (.assign (h.ne rfl) hvalue) fun _ _ => .pure trivial
  | assignIndex line name index expr =>
    obtain ⟨hindex, hvalue⟩ := List.forall_mem_cons.mp hexprs
    exact .bind (evaluateOne hrun hindex) fun index _ =>
      .bind (evaluateOne hrun (hvalue expr List.mem_cons_self)) fun _ hvalue =>
        .bind (assignElement (h.ne rfl) index hvalue line) fun _ _ => .pure trivial
  | assignProperty line path expr =>
    exact .bind (evaluateOne hrun (hexprs expr List.mem_cons_self)) fun _ hvalue =>
      .bind (assignProperty (h.ne rfl) hvalue line) fun _ _ => .pure trivial
  | define line name params returnType body =>
    refine .bind (.modify fun m m' hm => ?_) fun _ _ => .pure trivial
    cases hm with
    | intro henv havoids => exact .intro henv (havoids.register name _ h.definitionBody)
  | branch line condition whenTrue whenFalse =>
    obtain ⟨htrue, hfalse⟩ := List.forall_mem_append.mp hstmts
    refine .bind (evaluateOne hrun (hexprs condition List.mem_cons_self)) fun value _ => ?_
    split
    · exact executeBlock hrun htrue
    · exact executeBlock hrun hfalse
  | repeatWhile line condition body =>
    exact executeWhile hrun (hexprs condition List.mem_cons_self) hstmts line
  | repeatOver line name iteration body => exact executeFor hrun (h.ne rfl) hexprs hstmts line
  | select line subject cases otherwise =>
    obtain ⟨hsubject, hvalues⟩ := List.forall_mem_cons.mp hexprs
    obtain ⟨hbodies, hotherwise⟩ := List.forall_mem_append.mp hstmts
    exact executeSwitch hrun hsubject hvalues hbodies hotherwise
  | attempt line body failure handler =>
    obtain ⟨hbody, hhandler⟩ := List.forall_mem_append.mp hstmts
    exact executeTry hrun hbody hhandler failure
  | print line arguments =>
    exact .bind (evaluateAll hrun hexprs) fun _ _ => .bind (.write _) fun _ _ => .pure trivial
  | giveBack line value =>
    cases value with
    | none => exact .pure (Value.avoids_class _).nothing
    | some expr =>
      exact .bind (evaluateOne hrun (hexprs expr List.mem_cons_self)) fun _ hvalue => .pure hvalue
  | leave line => exact .pure trivial
  | next line => exact .pure trivial
  | evaluate expr =>
    exact .bind (evaluateOne hrun (hexprs expr List.mem_cons_self)) fun _ _ => .pure trivial

end

end Ignores

/-- The binding does not matter for any job that does not mention it, by induction on the bound on
nesting. -/
theorem runs_perform (I : Insertion) (depth : Nat) : I.Runs (Job.perform depth) := by
  induction depth with
  | zero => exact ⟨Job.moves_perform 0, fun _ _ => .exhausted⟩
  | succ depth ih =>
    refine ⟨Job.moves_perform (depth + 1), fun job hjob => ?_⟩
    cases job with
    | evaluate expr => exact Ignores.evaluate ih hjob
    | execute stmt => exact Ignores.execute ih hjob

end Insertion

end DecimalScript
