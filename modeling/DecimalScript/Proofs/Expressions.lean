import DecimalScript.Proofs.Brackets
import DecimalScript.Proofs.Builtins
import DecimalScript.Syntax.Parts

/-!
# Comparing evaluations of expressions

Two evaluations of an expression agree if the nested evaluations of its parts do and,
inside calls, those of all legal syntax. Only a call can show that a limit was hit.
-/

namespace DecimalScript

namespace Comparison

variable {C inner : Comparison} {run run' : JobRunner}

/-- Agreement on expressions is one on the first and one on the others. -/
theorem evaluates_cons {expr : Expr} {rest : List Expr} (h : C.Evaluates run run' (expr :: rest)) :
    C.Holds .value false C.good (run (.evaluate expr)) (run' (.evaluate expr)) ∧
      C.Evaluates run run' rest :=
  List.forall_mem_cons.mp h

/-- The values of expressions. -/
theorem evaluateAll {exprs : List Expr} (h : C.Evaluates run run' exprs) :
    C.Holds .value false (fun values => ∀ value ∈ values, C.good value)
      (Eval.evaluateAll run exprs) (Eval.evaluateAll run' exprs) := by
  induction exprs with
  | nil => exact .pure (by simp)
  | cons expr rest ih =>
    obtain ⟨hfirst, hrest⟩ := evaluates_cons h
    refine .bind hfirst fun value hvalue => .bind (ih hrest) fun values hvalues => .pure ?_
    exact List.forall_mem_cons.mpr ⟨hvalue, hvalues⟩

/-- Statements one after the other. -/
theorem executeBlock {block : Block} (h : C.Executes run run' block) :
    C.Holds .stmt false C.goodFlow (Eval.executeBlock run block)
      (Eval.executeBlock run' block) := by
  induction block with
  | nil => exact .pure trivial
  | cons stmt rest ih =>
    obtain ⟨hfirst, hrest⟩ := List.forall_mem_cons.mp h
    refine .bind hfirst fun flow hflow => ?_
    cases flow with
    | normal => exact ih hrest
    | leave | next => exact .pure trivial
    | giveBack value => exact .pure hflow

/-- The value of a function body. -/
theorem bodyValue {block : Block} (h : C.Executes run run' block) :
    C.Holds .stmt false C.good (Eval.bodyValue run block) (Eval.bodyValue run' block) := by
  refine .bind (executeBlock h) fun flow hflow => ?_
  cases flow with
  | giveBack value => exact .pure hflow
  | normal | leave | next => exact .pure C.values.nothing

/-- The number of arguments is refused by a fault that can be handled. -/
theorem checkCount (name : String) (expected found line : Nat) :
    C.Holds .value false (fun _ => True) (Eval.checkCount name expected found line)
      (Eval.checkCount name expected found line) := by
  unfold Eval.checkCount
  split
  · exact .pure trivial
  · exact .raise rfl

section

variable (hopens : C.Opens inner) (hinner : inner.Runs run run')

include hopens hinner

/-- A function agrees if its body is legal and its arguments agree. -/
theorem callFunction {function : Function} {arguments : List Expr}
    (hbody : ∀ stmt ∈ function.body, C.legalStmt stmt)
    (harguments : C.Evaluates run run' arguments) (line : Nat) :
    C.Holds .value true C.good (Eval.callFunction run function arguments line)
      (Eval.callFunction run' function arguments line) := by
  refine .bind (evaluateAll harguments) fun values hvalues => ?_
  refine .bind (checkCount _ _ _ _) fun _ _ => ?_
  exact hopens.invoke hvalues (bodyValue fun stmt hstmt =>
    hinner (.execute stmt) (hopens.legalStmt (hbody stmt hstmt)))

/-- So does a lambda. -/
theorem callLambda {params : List String} {body : Expr} {arguments : List Expr}
    (hbody : C.legalExpr body) (harguments : C.Evaluates run run' arguments) (line : Nat) :
    C.Holds .value true C.good (Eval.callLambda run params body arguments line)
      (Eval.callLambda run' params body arguments line) := by
  refine .bind (evaluateAll harguments) fun values hvalues => ?_
  refine .bind (checkCount _ _ _ _) fun _ _ => ?_
  exact hopens.invoke hvalues (.stmt (hinner (.evaluate body) (hopens.legalExpr hbody)))

omit hopens hinner in
/-- A built-in agrees if it is tame and its arguments agree. -/
theorem callBuiltin {builtin : Builtin}
    (htame : builtin.Tame C.good fun good x => C.Holds .value false good x x)
    {arguments : List Expr} (harguments : C.Evaluates run run' arguments) (name : String) (line : Nat) :
    C.Holds .value true C.good (Eval.callBuiltin run name builtin arguments line)
      (Eval.callBuiltin run' name builtin arguments line) := by
  unfold Eval.callBuiltin
  dsimp only
  split
  · refine .bind (evaluateAll harguments) fun values hvalues => .loud ?_
    cases h : builtin.applyTo? values line with
    | none => exact .raise rfl
    | some applied => exact htame.applyTo hvalues h
  · exact .raise rfl

/-- A good value that is called is a lambda with a legal body, or no lambda. -/
theorem callValue {target : Value} (htarget : C.good target) {arguments : List Expr}
    (harguments : C.Evaluates run run' arguments) (line : Nat) :
    C.Holds .value true C.good (Eval.callValue run target arguments line)
      (Eval.callValue run' target arguments line) := by
  cases target with
  | lambda identity params body =>
    exact callLambda hopens hinner (C.lambda.mp htarget) harguments line
  | number _ | text _ | boolean _ | array _ | object _ | nothing => exact .raise rfl

omit hopens hinner in
/-- A library function is there for both ways of doing nested jobs or for none. -/
theorem callLibrary (library : Library) (name : String) {arguments : List Expr}
    (harguments : C.Evaluates run run' arguments) (line : Nat) :
    Option.Rel (C.Holds .value true C.good) (Eval.callLibrary? run library name arguments line)
      (Eval.callLibrary? run' library name arguments line) := by
  unfold Eval.callLibrary?
  cases hbuiltin : library.builtin? name with
  | none => exact .none
  | some builtin =>
    exact .some (callBuiltin (Library.tame_of_builtin? C.consoleLaw hbuiltin) harguments _ line)

/-- A name stands for what both machines bind to it. -/
theorem callName (name : String) {arguments : List Expr}
    (harguments : C.Evaluates run run' arguments) (line : Nat) :
    C.Holds .value true C.good (Eval.callName run name arguments line)
      (Eval.callName run' name arguments line) := by
  refine .get fun m m' hm => ?_
  have hfunction : ∀ function, m.functions.get? name = some function →
      ∀ stmt ∈ function.body, C.legalStmt stmt := fun _ => C.function hm
  have hbinding : ∀ value, m.env.get? name = some value → C.good value := fun _ => C.good_of_get? hm
  have hcore := callLibrary .core name harguments line
  obtain ⟨loops, maxCalls, rfl⟩ := C.view hm
  dsimp only
  split
  · rename_i hf
    exact callFunction hopens hinner (hfunction _ hf) harguments line
  · rename_i hb
    exact callLambda hopens hinner (C.lambda.mp (hbinding _ hb)) harguments line
  · generalize Eval.callLibrary? run .core name arguments line = called at hcore ⊢
    generalize Eval.callLibrary? run' .core name arguments line = called' at hcore ⊢
    cases hcore with
    | some h => exact h
    | none =>
      dsimp only
      split
      · exact .raise rfl
      · exact .raise rfl

/-- A member of an alias is callable in both machines or in none. -/
theorem callMember {m m' : Machine} (hm : C.related m m') (aliasName name : String)
    {arguments : List Expr} (harguments : C.Evaluates run run' arguments) (line : Nat) :
    Option.Rel (C.Holds .value true C.good) (Eval.callMember? run m aliasName name arguments line)
      (Eval.callMember? run' m' aliasName name arguments line) := by
  have hfunction : ∀ function, m.functions.get? (Eval.qualified aliasName name) = some function →
      ∀ stmt ∈ function.body, C.legalStmt stmt := fun _ => C.function hm
  obtain ⟨loops, maxCalls, rfl⟩ := C.view hm
  unfold Eval.callMember?
  dsimp only
  split
  · rename_i hf
    exact .some (callFunction hopens hinner (hfunction _ hf) harguments line)
  · rw [show Machine.library? { m with loops := loops, maxCallDepth := maxCalls } aliasName =
      m.library? aliasName from rfl]
    cases m.library? aliasName with
    | some library => exact callLibrary library name harguments line
    | none => exact .none

/-- A call of what an expression evaluates to. -/
theorem callResult {callee : Expr} {arguments : List Expr}
    (h : C.Evaluates run run' (callee :: arguments)) (line : Nat) :
    C.Holds .value true C.good
      (do Eval.callValue run (← run (.evaluate callee)) arguments line)
      (do Eval.callValue run' (← run' (.evaluate callee)) arguments line) := by
  obtain ⟨hcallee, harguments⟩ := evaluates_cons h
  exact .bind hcallee fun target htarget => callValue hopens hinner htarget harguments line

/-- A call agrees if its callee and its arguments do. -/
theorem call {callee : Expr} {arguments : List Expr}
    (h : C.Evaluates run run' (callee :: arguments)) (line : Nat) :
    C.Holds .value true C.good (Eval.call run callee arguments line)
      (Eval.call run' callee arguments line) := by
  have hresult := callResult hopens hinner h line
  have harguments := (evaluates_cons h).2
  unfold Eval.call
  split
  · exact callName hopens hinner _ harguments line
  · rename_i aliasName name
    refine .get fun m m' hm => ?_
    have hmember := callMember hopens hinner hm aliasName name harguments line
    obtain ⟨loops, maxCalls, rfl⟩ := C.view hm
    generalize Eval.callMember? run m aliasName name arguments line = called at hmember ⊢
    generalize Eval.callMember? run' _ aliasName name arguments line = called' at hmember ⊢
    cases hmember with
    | some h => exact h
    | none =>
      dsimp only
      split
      · exact hresult
      · exact .raise rfl
  · exact hresult

end

/-- A variable has the same good value in both machines. -/
theorem readName (name : String) (line : Nat) :
    C.Holds .value false C.good (Eval.readName name line) (Eval.readName name line) := by
  refine .get fun m m' hm => ?_
  have hbinding : ∀ value, m.env.get? name = some value → C.good value := fun _ => C.good_of_get? hm
  obtain ⟨loops, maxCalls, rfl⟩ := C.view hm
  dsimp only
  split
  · rename_i value hb
    exact .pure (hbinding value hb)
  · exact .raise rfl

/-- Both operands are evaluated, except that the first may decide. -/
theorem binary (op : BinaryOp) {left right : Expr} (h : C.Evaluates run run' [left, right])
    (line : Nat) :
    C.Holds .value false C.good (Eval.binary run op left right line)
      (Eval.binary run' op left right line) := by
  obtain ⟨hleft, hrest⟩ := evaluates_cons h
  obtain ⟨hright, _⟩ := evaluates_cons hrest
  have hlast : C.Holds .value false C.good
      (do return .boolean (← run (.evaluate right)).holds)
      (do return .boolean (← run' (.evaluate right)).holds) :=
    .bind hright fun _ _ => .pure (C.values.boolean _)
  cases op with
  | both =>
    refine .bind hleft fun a _ => ?_
    split
    · exact hlast
    · exact .pure (C.values.boolean _)
  | either =>
    refine .bind hleft fun a _ => ?_
    split
    · exact .pure (C.values.boolean _)
    · exact hlast
  | add | subtract | multiply | divide | modulo | equal | notEqual | less | lessEqual | greater
  | greaterEqual =>
    exact .bind hleft fun a ha => .bind hright fun b hb =>
      .ofExcept (C.values.applyBinary ha hb _ line)

/-- A property agrees if its target does. -/
theorem memberOf {target : Expr} (h : C.Evaluates run run' [target]) (name : String) (line : Nat) :
    C.Holds .value false C.good (Eval.memberOf run target name line)
      (Eval.memberOf run' target name line) :=
  .bind (evaluates_cons h).1 fun _ ha => .ofExcept (C.values.member ha name line)

/-- The constant of an alias is the value of a variable or of a library. -/
theorem good_constantOf {m m' : Machine} (hm : C.related m m') {aliasName name : String}
    {value : Value} (h : Eval.constantOf? m aliasName name = some value) : C.good value := by
  unfold Eval.constantOf? at h
  split at h
  · cases h
  · split at h
    · rename_i hb
      cases h
      exact C.good_of_get? hm hb
    · split at h
      · exact C.values.libraryConstant h
      · cases h

/-- A member is a constant of both machines or of none. -/
theorem member {target : Expr} (h : C.Evaluates run run' [target]) (name : String) (line : Nat) :
    C.Holds .value false C.good (Eval.member run target name line)
      (Eval.member run' target name line) := by
  unfold Eval.member
  split
  · rename_i aliasName
    refine .get fun m m' hm => ?_
    have hconstant : ∀ value, Eval.constantOf? m aliasName name = some value → C.good value :=
      fun _ => good_constantOf hm
    obtain ⟨loops, maxCalls, rfl⟩ := C.view hm
    rw [show Eval.constantOf? { m with loops := loops, maxCallDepth := maxCalls } aliasName name =
      Eval.constantOf? m aliasName name from rfl]
    cases hvalue : Eval.constantOf? m aliasName name with
    | some value => exact .pure (hconstant value hvalue)
    | none => exact memberOf h name line
  · exact memberOf h name line

/-- An element agrees if its target and its index do. -/
theorem element {target position : Expr} (h : C.Evaluates run run' [target, position])
    (line : Nat) :
    C.Holds .value false C.good (Eval.element run target position line)
      (Eval.element run' target position line) := by
  obtain ⟨htarget, hrest⟩ := evaluates_cons h
  exact .bind htarget fun a ha => .bind (evaluates_cons hrest).1 fun b _ =>
    .ofExcept (C.values.element ha b line)

/-- The fields of an object agree if their values do. -/
theorem fields {entries : List (String × Expr)}
    (h : C.Evaluates run run' (entries.map (·.2))) {done : NameTable Value}
    (hdone : C.good (.object done)) :
    C.Holds .value false (fun found => C.good (.object found)) (Eval.fields run done entries)
      (Eval.fields run' done entries) := by
  induction entries generalizing done with
  | nil => exact .pure hdone
  | cons entry rest ih =>
    obtain ⟨hfirst, hrest⟩ := evaluates_cons h
    exact .bind hfirst fun value hvalue => ih hrest (C.values.set hdone hvalue)

/-- Two evaluations of an expression agree if those of its parts do. -/
theorem evaluate (hopens : C.Opens inner) (hinner : inner.Runs run run') {expr : Expr}
    (hlegal : C.legalExpr expr) (hparts : C.Evaluates run run' expr.parts) :
    C.Holds .value true C.good (Eval.evaluate run expr) (Eval.evaluate run' expr) := by
  cases expr with
  | literal line value =>
    cases value with
    | number n => exact .pure (C.values.number n)
    | text s => exact .pure (C.values.text s)
    | boolean b => exact .pure (C.values.boolean b)
  | var line name => exact .loud (readName name line)
  | negate line operand =>
    exact .bind (evaluates_cons hparts).1 fun a _ => .ofExcept (C.values.negated a line)
  | binary line op left right => exact .loud (binary op hparts line)
  | call line callee arguments => exact call hopens hinner hparts line
  | member line target name => exact .loud (member hparts name line)
  | index line target position => exact .loud (element hparts line)
  | array line elements =>
    exact .bind (evaluateAll hparts) fun items hitems => .pure (C.values.array.mpr hitems)
  | object line entries =>
    exact .bind (fields hparts C.values.empty) fun found hfound => .pure hfound
  | lambda line params body => exact .newLambda (C.lambdaBody hlegal)

end Comparison

end DecimalScript
