import DecimalScript.Proofs.Expressions
import DecimalScript.Proofs.Loops
import DecimalScript.Proofs.ReadingPrograms

/-!
# Comparing executions of statements

Two executions of a statement agree if the nested jobs of its parts do and, inside calls
and modules being loaded, those of all legal syntax. Variables, functions and aliases are
changed by statements in the ways that every comparison respects.
-/

namespace DecimalScript

namespace Comparison

variable {C inner : Comparison} {run run' : JobRunner} {hits : Bool}

/-- Assigning writes a variable or makes one. -/
theorem assign_env {m m' : Machine} (hm : C.related m m') {value : Value} (hvalue : C.good value)
    (name : String) :
    C.related { m with env := m.env.assign name value } { m' with env := m.env.assign name value } ∧
      C.change .stmt m { m with env := m.env.assign name value } := by
  refine bind name hm hvalue ?_
  unfold Environment.assign
  split
  · exact .inr rfl
  · exact .inl rfl

/-- Declaring writes a variable or makes one. -/
theorem declare_env {m m' : Machine} (hm : C.related m m') {value : Value} (hvalue : C.good value)
    (name : String) :
    C.related { m with env := m.env.declare name value }
      { m' with env := m.env.declare name value } ∧
      C.change .stmt m { m with env := m.env.declare name value } := by
  refine bind name hm hvalue ?_
  unfold Environment.declare
  split
  · exact .inr rfl
  · exact .inl rfl

theorem assign {value : Value} (hvalue : C.good value) (name : String) :
    C.Holds .stmt hits (fun _ => True) (Eval.modifyEnv (·.assign name value))
      (Eval.modifyEnv (·.assign name value)) := by
  refine .modify fun m m' hm => ?_
  have h := assign_env hm hvalue name
  obtain ⟨loops, maxCalls, rfl⟩ := C.view hm
  exact h

theorem declare {value : Value} (hvalue : C.good value) (name : String) :
    C.Holds .stmt hits (fun _ => True) (Eval.modifyEnv (·.declare name value))
      (Eval.modifyEnv (·.declare name value)) := by
  refine .modify fun m m' hm => ?_
  have h := declare_env hm hvalue name
  obtain ⟨loops, maxCalls, rfl⟩ := C.view hm
  exact h

theorem assignElement {value : Value} (hvalue : C.good value) (name : String) (index : Value)
    (line : Nat) :
    C.Holds .stmt hits (fun _ => True) (Eval.assignElement name index value line)
      (Eval.assignElement name index value line) := by
  refine .get fun m m' hm => ?_
  have hbinding : ∀ target, m.env.get? name = some target → C.good target :=
    fun _ => C.good_of_get? hm
  obtain ⟨loops, maxCalls, rfl⟩ := C.view hm
  dsimp only
  split
  · exact .raise rfl
  · rename_i target htarget
    refine .bind (.ofExcept (C.values.withElement (hbinding target htarget) hvalue index line))
      fun changed hchanged => .modify fun m m' hm => ?_
    have h := bind name hm hchanged (.inr rfl)
    obtain ⟨loops, maxCalls, rfl⟩ := C.view hm
    exact h

theorem assignProperty (path : PropertyPath) {value : Value} (hvalue : C.good value) (line : Nat) :
    C.Holds .stmt hits (fun _ => True) (Eval.assignProperty path value line)
      (Eval.assignProperty path value line) := by
  refine .get fun m m' hm => ?_
  have htarget : ∀ name, C.good ((m.env.get? name).getD (.object [])) := by
    intro name
    cases h : m.env.get? name with
    | none => exact C.values.empty
    | some target => exact C.good_of_get? hm h
  obtain ⟨loops, maxCalls, rfl⟩ := C.view hm
  dsimp only
  split
  · rename_i changed hchanged
    exact assign (C.values.setPath hvalue _ (htarget _) hchanged) _
  · exact .raise rfl

/-- Printing values. -/
theorem print (values : List Value) :
    C.Holds .stmt hits (fun _ => True) (Eval.print values) (Eval.print values) :=
  .write _

/-- Entering a turn notes its value and binds the loop variable. -/
theorem beginTurn (name : String) (current : Number) {value : Value} (hvalue : C.good value) :
    C.Holds .turn hits (fun _ => True) (Eval.beginTurn name current value)
      (Eval.beginTurn name current value) := by
  refine .modify fun m m' hm => ?_
  have hadvance := advance current hm
  have hdeclare := declare_env hadvance.1 hvalue name
  obtain ⟨loops, maxCalls, rfl⟩ := C.view hm
  exact ⟨hdeclare.1, C.trans hadvance.2 (⟨hdeclare.2.1.turn_of_stmt, hdeclare.2.2⟩)⟩

theorem enterRange (name : String) (stop step current : Number) :
    C.Holds .turn hits (fun _ => True) (Eval.enterRange name stop step current)
      (Eval.enterRange name stop step current) := by
  unfold Eval.enterRange
  split
  · exact .bind (beginTurn name current (C.values.number _)) fun _ _ => .pure trivial
  · exact .pure trivial

/-- The items of a loop over good items stay good. -/
theorem enterItems (name : String) {cursor : Nat × List Value}
    (h : ∀ item ∈ cursor.2, C.good item) :
    C.Holds .turn hits (fun _ => True) (Eval.enterItems name cursor)
      (Eval.enterItems name cursor) := by
  obtain ⟨position, items⟩ := cursor
  cases items with
  | nil => exact .pure trivial
  | cons item rest =>
    exact .bind (beginTurn name _ (h item List.mem_cons_self)) fun _ _ => .pure trivial

theorem loopBound {expr : Expr}
    (h : C.Holds .value false C.good (run (.evaluate expr)) (run' (.evaluate expr))) :
    C.Holds .stmt false (fun _ => True) (Eval.loopBound run expr) (Eval.loopBound run' expr) := by
  refine .bind (.stmt h) fun value _ => ?_
  cases value with
  | number n => exact .pure trivial
  | text _ | boolean _ | array _ | object _ | lambda _ _ _ | nothing => exact .raise rfl

/-- A loop without conditions on its cursor. -/
theorem executeWhile {condition : Expr} {body : Block}
    (hcondition : C.Evaluates run run' [condition]) (hbody : C.Executes run run' body)
    (line : Nat) :
    C.Holds .stmt true C.goodFlow (Eval.executeWhile run condition body line)
      (Eval.executeWhile run' condition body line) := by
  have henter : ∀ cursor : Unit, True → C.Holds .turn false (fun _ => True)
      (do return (← run (.evaluate condition)).holds)
      (do return (← run' (.evaluate condition)).holds) :=
    fun _ _ => .bind (.turn (.stmt (evaluates_cons hcondition).1)) fun _ _ => .pure trivial
  exact executeLoop henter (fun _ _ _ _ => trivial) (executeBlock hbody) rfl trivial

theorem executeRange (name : String) (start stop step : Number) {body : Block}
    (hbody : C.Executes run run' body) (line : Nat) :
    C.Holds .stmt true C.goodFlow (Eval.executeRange run name start stop step body line)
      (Eval.executeRange run' name start stop step body line) := by
  have henter : ∀ current : Number, True → C.Holds .turn false (fun _ => True)
      (Eval.enterRange name stop step current) (Eval.enterRange name stop step current) :=
    fun current _ => enterRange name stop step current
  unfold Eval.executeRange
  split
  · exact .pure trivial
  · exact executeLoop henter (fun _ _ _ _ => trivial) (executeBlock hbody) rfl trivial

theorem executeItems (name : String) {items : List Value} (hitems : ∀ item ∈ items, C.good item)
    {body : Block} (hbody : C.Executes run run' body) (line : Nat) :
    C.Holds .stmt true C.goodFlow (Eval.executeItems run name items body line)
      (Eval.executeItems run' name items body line) := by
  have henter : ∀ cursor : Nat × List Value, (∀ item ∈ cursor.2, C.good item) →
      C.Holds .turn false (fun _ => True) (Eval.enterItems name cursor)
        (Eval.enterItems name cursor) :=
    fun _ => enterItems name
  refine executeLoop henter ?_ (executeBlock hbody) rfl hitems
  intro cursor following hcursor hnext item hitem
  cases hnext
  exact hcursor item (List.mem_of_mem_tail hitem)

theorem executeFor (name : String) {iteration : Iteration} {body : Block}
    (hexprs : C.Evaluates run run' iteration.exprs) (hbody : C.Executes run run' body)
    (line : Nat) :
    C.Holds .stmt true C.goodFlow (Eval.executeFor run name iteration body line)
      (Eval.executeFor run' name iteration body line) := by
  cases iteration with
  | range start stop =>
    obtain ⟨hstart, hrest⟩ := evaluates_cons hexprs
    exact .bind (loopBound hstart) fun _ _ => .bind (loopBound (evaluates_cons hrest).1) fun _ _ =>
      executeRange name _ _ _ hbody line
  | step start stop width | countdown start stop width =>
    obtain ⟨hstart, hrest⟩ := evaluates_cons hexprs
    obtain ⟨hstop, hlast⟩ := evaluates_cons hrest
    exact .bind (loopBound hstart) fun _ _ => .bind (loopBound hstop) fun _ _ =>
      .bind (loopBound (evaluates_cons hlast).1) fun _ _ => executeRange name _ _ _ hbody line
  | items value =>
    exact .bind (.stmt (evaluates_cons hexprs).1) fun v hv =>
      .bind (.ofExcept (C.values.loopItems hv line)) fun _ hitems =>
        executeItems name hitems hbody line

/-- A case that is found is one of the cases. -/
theorem findCase (subject : Value) {cases : List (Expr × Block)}
    (hexprs : C.Evaluates run run' (cases.map (·.1)))
    (hbodies : C.Executes run run' (cases.flatMap (·.2))) :
    C.Holds .stmt false (fun found => ∀ body ∈ found, C.Executes run run' body)
      (Eval.findCase run subject cases) (Eval.findCase run' subject cases) := by
  induction cases with
  | nil => exact .pure (by simp)
  | cons head rest ih =>
    obtain ⟨expr, body⟩ := head
    obtain ⟨hfirst, hothers⟩ := evaluates_cons hexprs
    rw [List.flatMap_cons] at hbodies
    refine .bind (.stmt hfirst) fun value _ => ?_
    split
    · refine .pure fun found hfound => ?_
      cases hfound
      exact fun stmt hstmt => hbodies stmt (List.mem_append_left _ hstmt)
    · exact ih hothers fun stmt hstmt => hbodies stmt (List.mem_append_right _ hstmt)

theorem executeSwitch {subject : Expr} {cases : List (Expr × Block)} {otherwise : Option Block}
    (hexprs : C.Evaluates run run' (subject :: cases.map (·.1)))
    (hstmts : C.Executes run run' (cases.flatMap (·.2) ++ otherwise.getD [])) :
    C.Holds .stmt false C.goodFlow (Eval.executeSwitch run subject cases otherwise)
      (Eval.executeSwitch run' subject cases otherwise) := by
  obtain ⟨hsubject, hcases⟩ := evaluates_cons hexprs
  refine .bind (.stmt hsubject) fun value _ => .bind (findCase value hcases
    fun stmt hstmt => hstmts stmt (List.mem_append_left _ hstmt)) fun found hfound => ?_
  have hchosen : ∀ body ∈ found.or otherwise, C.Executes run run' body := by
    intro body hbody
    rcases Option.or_eq_some_iff.mp hbody with h | ⟨_, h⟩
    · exact hfound body h
    · exact fun stmt hstmt => hstmts stmt (List.mem_append_right _ (by rw [h]; exact hstmt))
  generalize found.or otherwise = chosen at hchosen
  cases chosen with
  | none => exact .pure trivial
  | some body =>
    refine .bind (executeBlock (hchosen body rfl)) fun flow hflow => ?_
    cases flow with
    | leave | normal | next => exact .pure trivial
    | giveBack value => exact .pure hflow

/-- The imports of a module. -/
theorem importNested {program : Block} (h : C.Executes run run' program) :
    C.Holds .stmt false (fun _ => True) (Eval.importNested run program)
      (Eval.importNested run' program) := by
  induction program with
  | nil => exact .pure trivial
  | cons stmt rest ih =>
    obtain ⟨hfirst, hrest⟩ := List.forall_mem_cons.mp h
    cases stmt with
    | use line target aliasName => exact .bind hfirst fun _ _ => ih hrest
    | _ => exact ih hrest

/-- Registering the functions of a module. -/
theorem registerFunctions (aliasName : String) {program : Block}
    (hlegal : ∀ stmt ∈ program, C.legalStmt stmt) {m m' : Machine} (hm : C.related m m') :
    C.related { m with functions := Eval.registerFunctions aliasName program m.functions }
        { m' with functions := Eval.registerFunctions aliasName program m.functions } ∧
      C.change .stmt m
        { m with functions := Eval.registerFunctions aliasName program m.functions } := by
  induction program generalizing m m' with
  | nil =>
    obtain ⟨loops, maxCalls, rfl⟩ := C.view hm
    exact ⟨hm, C.refl .stmt m⟩
  | cons stmt rest ih =>
    obtain ⟨hfirst, hrest⟩ := List.forall_mem_cons.mp hlegal
    cases stmt with
    | define line name params returnType body =>
      have hbody : ∀ stmt ∈ (⟨name, params, returnType, body⟩ : Function).body, C.legalStmt stmt :=
        C.definition hfirst
      have hqualified := register (Eval.qualified aliasName name) hm hbody
      have hplain := register name hqualified.1 hbody
      have hothers := ih hrest hplain.1
      exact ⟨hothers.1, C.trans hqualified.2 (C.trans hplain.2 hothers.2)⟩
    | _ => exact ih hrest hm

/-- The constants of a module, each bound while the later ones are evaluated. -/
theorem constants {program : Block} (hlegal : ∀ stmt ∈ program, C.legalStmt stmt)
    (hruns : C.Runs run run') :
    C.Holds .stmt false (fun found => ∀ entry ∈ found, C.good entry.2)
      (Eval.constants run program) (Eval.constants run' program) := by
  induction program with
  | nil => exact .pure (by simp)
  | cons stmt rest ih =>
    obtain ⟨hfirst, hrest⟩ := List.forall_mem_cons.mp hlegal
    cases stmt with
    | declare line name typed expr =>
      refine .bind (.stmt (hruns (.evaluate expr) (C.initializer hfirst))) fun value hvalue => ?_
      have hdefine : C.Holds .stmt false (fun _ => True)
          (modify fun m => { m with env := m.env.define name value })
          (modify fun m => { m with env := m.env.define name value }) := by
        refine .modify fun m m' hm => ?_
        have h := bind name hm hvalue (.inl rfl)
        obtain ⟨loops, maxCalls, rfl⟩ := C.view hm
        exact h
      refine .bind hdefine fun _ _ => .bind (ih hrest) fun found hfound => .pure ?_
      exact List.forall_mem_cons.mpr ⟨hvalue, hfound⟩
    | _ => exact ih hrest

/-- Binding constants under their qualified names. -/
theorem assignConstants (aliasName : String) {found : List (String × Value)}
    (hfound : ∀ entry ∈ found, C.good entry.2) {m m' : Machine} (hm : C.related m m') :
    C.related { m with env := Eval.assignConstants aliasName m.env found }
        { m' with env := Eval.assignConstants aliasName m.env found } ∧
      C.change .stmt m { m with env := Eval.assignConstants aliasName m.env found } := by
  induction found generalizing m m' with
  | nil =>
    obtain ⟨loops, maxCalls, rfl⟩ := C.view hm
    exact ⟨hm, C.refl .stmt m⟩
  | cons entry rest ih =>
    obtain ⟨name, value⟩ := entry
    obtain ⟨hfirst, hrest⟩ := List.forall_mem_cons.mp hfound
    have hassign := assign_env hm hfirst (Eval.qualified aliasName name)
    have hothers := ih hrest hassign.1
    exact ⟨hothers.1, C.trans hassign.2 hothers.2⟩

/-- Making a module available, where all of it is legal. -/
theorem install {path : Path} {program : Block} (aliasName : String)
    (hdir : C.directory path.parent) (hlegal : ∀ stmt ∈ program, C.legalStmt stmt)
    (hruns : C.Runs run run') :
    C.Holds .stmt false (fun _ => True) (Eval.install run path program aliasName)
      (Eval.install run' path program aliasName) := by
  have hnested := importNested fun stmt hstmt => hruns (.execute stmt) (hlegal stmt hstmt)
  have hregister : C.Holds .stmt false (fun _ => True)
      (modify fun m => { m with
        functions := Eval.registerFunctions aliasName program m.functions })
      (modify fun m => { m with
        functions := Eval.registerFunctions aliasName program m.functions }) := by
    refine .modify fun m m' hm => ?_
    have h := registerFunctions aliasName hlegal hm
    obtain ⟨loops, maxCalls, rfl⟩ := C.view hm
    exact h
  refine .bind (inDirectory hdir hnested) fun _ _ => .bind hregister fun _ _ =>
    .bind (.stmt (scope (constants hlegal hruns))) fun found hfound => .modify fun m m' hm => ?_
  have h := assignConstants aliasName hfound hm
  obtain ⟨loops, maxCalls, rfl⟩ := C.view hm
  exact h

theorem bindAlias (aliasName : String) (module : Module) :
    C.Holds .stmt hits (fun _ => True) (Eval.bindModule aliasName module)
      (Eval.bindModule aliasName module) := by
  refine .modify fun m m' hm => ?_
  have h := bindModule aliasName module hm
  obtain ⟨loops, maxCalls, rfl⟩ := C.view hm
  exact h

section

variable (hopens : C.Opens inner) (hinner : inner.Runs run run')

include hopens hinner

/-- Loading a module file. A file that cannot be read is reported. -/
theorem importFile {target : ModuleRef} {aliasName : String} {line : Nat}
    (hlegal : C.legalStmt (.use line target aliasName)) :
    C.Holds .stmt false (fun _ => True) (Eval.importFile run target aliasName line)
      (Eval.importFile run' target aliasName line) := by
  refine .getAt fun m m' hm => ?_
  obtain ⟨loops, maxCalls, rfl⟩ := C.view hm
  dsimp only
  generalize hpath : Path.ofModule m.baseDir target.text = path
  by_cases hloading : m.loading.contains path.canonical = true
  · simp only [hloading, if_true]
    exact Criteria.Holds.pure trivial _ _ hm
  · have hnew : path.canonical ∉ m.loading := by simpa using hloading
    simp only [hloading]
    cases hfile : Block.ofFile m.files path with
    | ok program =>
      have hprogram := hopens.file hm hlegal hfile
      have hload := hopens.whileLoading hm hlegal hpath.symm hnew hfile
        (install aliasName (hpath ▸ hopens.parent hm hlegal) hprogram hinner)
      exact Criteria.Holds.bindAt hload fun _ _ => bindAlias aliasName _
    | error stop =>
      cases stop with
      | exhausted => exact absurd hfile (Block.ofFile_ne_exhausted _ _)
      | failed failure =>
        exact Criteria.Holds.report line (Eval.loadFailure target.text failure) _ _ hm

theorem importModule {target : ModuleRef} {aliasName : String} {line : Nat}
    (hlegal : C.legalStmt (.use line target aliasName)) :
    C.Holds .stmt false (fun _ => True) (Eval.importModule run target aliasName line)
      (Eval.importModule run' target aliasName line) := by
  unfold Eval.importModule
  split
  · exact bindAlias _ _
  · exact importFile hopens hinner hlegal

/-- Two executions of a statement agree if those of its parts do. -/
theorem execute {stmt : Stmt} (hlegal : C.legalStmt stmt)
    (hexprs : C.Evaluates run run' stmt.exprs) (hstmts : C.Executes run run' stmt.stmts) :
    C.Holds .stmt true C.goodFlow (Eval.execute run stmt) (Eval.execute run' stmt) := by
  cases stmt with
  | use line target aliasName =>
    exact .bind (importModule hopens hinner hlegal) fun _ _ => .pure trivial
  | declare line name typed expr =>
    exact .bind (.stmt (evaluates_cons hexprs).1) fun _ hvalue =>
      .bind (declare hvalue name) fun _ _ => .pure trivial
  | assign line name expr =>
    exact .bind (.stmt (evaluates_cons hexprs).1) fun _ hvalue =>
      .bind (assign hvalue name) fun _ _ => .pure trivial
  | assignIndex line name index expr =>
    obtain ⟨hindex, hrest⟩ := evaluates_cons hexprs
    exact .bind (.stmt hindex) fun _ _ => .bind (.stmt (evaluates_cons hrest).1) fun _ hvalue =>
      .bind (assignElement hvalue name _ line) fun _ _ => .pure trivial
  | assignProperty line path expr =>
    exact .bind (.stmt (evaluates_cons hexprs).1) fun _ hvalue =>
      .bind (assignProperty path hvalue line) fun _ _ => .pure trivial
  | define line name params returnType body =>
    have hregister : C.Holds .stmt false (fun _ => True)
        (modify fun m => { m with
          functions := m.functions.set name ⟨name, params, returnType, body⟩ })
        (modify fun m => { m with
          functions := m.functions.set name ⟨name, params, returnType, body⟩ }) := by
      refine .modify fun m m' hm => ?_
      have hbody : ∀ stmt ∈ (⟨name, params, returnType, body⟩ : Function).body, C.legalStmt stmt :=
        C.definition hlegal
      have h := register name hm hbody
      obtain ⟨loops, maxCalls, rfl⟩ := C.view hm
      exact h
    exact .bind hregister fun _ _ => .pure trivial
  | branch line condition whenTrue whenFalse =>
    refine .bind (.stmt (evaluates_cons hexprs).1) fun value _ => .loud ?_
    split
    · exact executeBlock fun stmt hstmt => hstmts stmt (List.mem_append_left _ hstmt)
    · exact executeBlock fun stmt hstmt => hstmts stmt (List.mem_append_right _ hstmt)
  | repeatWhile line condition body => exact executeWhile hexprs hstmts line
  | repeatOver line name iteration body => exact executeFor name hexprs hstmts line
  | select line subject cases otherwise => exact .loud (executeSwitch hexprs hstmts)
  | attempt line body failure handler =>
    exact .loud (attempt failure
      (executeBlock fun stmt hstmt => hstmts stmt (List.mem_append_left _ hstmt))
      (executeBlock fun stmt hstmt => hstmts stmt (List.mem_append_right _ hstmt)))
  | print line arguments =>
    exact .bind (.stmt (evaluateAll hexprs)) fun values _ =>
      .bind (print values) fun _ _ => .pure trivial
  | giveBack line value =>
    cases value with
    | none => exact .pure C.values.nothing
    | some expr =>
      exact .bind (.stmt (evaluates_cons hexprs).1) fun _ hvalue => .pure hvalue
  | leave line => exact .pure trivial
  | next line => exact .pure trivial
  | evaluate expr => exact .bind (.stmt (evaluates_cons hexprs).1) fun _ _ => .pure trivial

end

end Comparison

end DecimalScript
