import DecimalScript.Proofs.AliasMembers
import DecimalScript.Proofs.Capacity
import DecimalScript.Proofs.Loading
import DecimalScript.Proofs.UnusedVariables

/-!
# Calling a member and calling what it is

A lambda that is a property of a variable is called as if it had a name of its own: a call of the
member does what a call of a variable does that holds the lambda and that nothing else uses. A lambda
that is a constant of a module is only ever read, and a call of that member is refused.
-/

namespace DecimalScript

open Eval

/-- A name that nothing in a machine uses, and that a program could give to a variable. -/
structure Machine.Unused (m : Machine) (name : String) : Prop where
  plain : PlainName name
  avoids : m.Avoids name
  function : m.functions.get? name = none

/-- Without functions and files, a machine mentions what its variables mention. -/
theorem Environment.Avoids.machine {m : Machine} {name : String} (h : m.env.Avoids name)
    (hfunctions : m.functions = []) (hfiles : m.files.entries = []) : m.Avoids name where
  values := h
  functions := by
    intro title function hfound
    rw [hfunctions] at hfound
    cases hfound
  files := by
    intro path program hprogram
    unfold Block.ofFile at hprogram
    split at hprogram
    · cases hprogram
    · rename_i hread
      obtain ⟨-, place, hplace⟩ := FileTree.of_read hread
      rw [hfiles] at hplace
      cases hplace

/-- Whatever evaluation does, the scopes stay nested. -/
theorem Machine.Evolves.nested {m after : Machine} (h : m.Evolves after) (hm : m.env.Nested) :
    after.env.Nested := by
  intro mark hmark
  rw [h.scopes] at hmark
  have hsize := h.names_suffix.length_le
  rw [← Environment.size_eq_length_names, ← Environment.size_eq_length_names] at hsize
  exact Nat.le_trans (hm mark hmark) hsize

/-- In all machines that runs lead to, the scopes are nested. -/
theorem Machine.Reachable.nested {m : Machine} (h : m.Reachable) : m.env.Nested := by
  induction h with
  | fresh hfresh =>
    rw [hfresh.env]
    exact List.forall_mem_nil _
  | program program _ ih => exact (Eval.moves_runProgram program _).nested ih
  | block block _ ih =>
    exact (Moves.executeBlock (fun job => Job.moves_perform _ job) block _).nested ih
  | expr expr _ ih => exact (Job.moves_perform _ (.evaluate expr) _).nested ih
  | library hcalled _ ih =>
    obtain ⟨builtin, hbuiltin, rfl⟩ := Option.map_eq_some_iff.mp hcalled
    exact (Moves.callBuiltin (fun job => Job.moves_perform _ job) (Library.moves_builtins _ (_, builtin)
      (NameTable.mem_of_get? hbuiltin)) _ _ _ _).nested ih
  | surroundings files input output errors _ ih => exact ih

variable {m : Machine} {aliasName name fresh : String} {value : Value} {depth : Nat}

/-- Where a member is no function of a module or library, a call of it calls its value if a variable
has the name of the alias, and is refused otherwise. -/
theorem perform_call_of_none (hfunction : m.functions.get? (qualified aliasName name) = none)
    (hlibrary : ∀ library, m.library? aliasName = some library → library.builtin? name = none)
    (inner innermost depth line : Nat) (arguments : List Expr) :
    let callee : Expr := .member inner (.var innermost aliasName) name
    Job.perform (depth + 1) (.evaluate (.call line callee arguments)) m =
      if m.env.binds aliasName then
        (do callValue (Job.perform depth) (← Job.perform depth (.evaluate callee)) arguments line :
          Eval Value) m
      else .error (.failed (.running (.undefinedFunction (qualified aliasName name) line))) m := by
  intro callee
  have hnone : callMember? (Job.perform depth) m aliasName name arguments line = none := by
    unfold callMember?
    rw [hfunction]
    cases hfound : m.library? aliasName with
    | none => rfl
    | some library =>
      dsimp only
      rw [callLibrary?, hlibrary library hfound]
      rfl
  show call (Job.perform depth) callee arguments line m = _
  rw [call, get_bind, hnone]
  cases m.env.binds aliasName with
  | true => rfl
  | false => rfl

/-- A machine and the one with a new variable do the same if nothing mentions it. What is left of
the second is what is left of the first, with the variable. -/
theorem Insertion.Ignores.onTop {α : Type} {good : α → Prop} {x : Eval α} (hm : m.env.Nested)
    (havoids : m.Avoids fresh) (hplain : PlainName fresh)
    (hx : (Insertion.onTop m.env hplain value).Ignores good x)
    (hkept : Machine.Changed .value m (Outcome.machine (x m))) :
    x { m with env := m.env.define fresh value } =
      Outcome.mapMachine (fun after => { after with env := after.env.define fresh value }) (x m) := by
  have hended := hx m { m with env := m.env.define fresh value }
    (.intro (Insertion.env_onTop hm hplain value) havoids)
  have hback : ∀ after after', (Insertion.onTop m.env hplain value).Related after after' →
      Machine.Changed .value m after →
      after' = { after with env := after.env.define fresh value } := by
    intro after after' hrelated hchanged
    have hsize : after.env.size = m.env.size := by
      rw [Environment.size_eq_length_names, Environment.size_eq_length_names, hchanged.2.1]
    have hdepth : after.env.depth = m.env.depth := congrArg List.length hchanged.kept.scopes
    rw [hrelated.machine_eq, hrelated.inserted.eq_define hsize hdepth]
    rfl
  generalize x m = r at hended hkept ⊢
  generalize x _ = r' at hended ⊢
  cases hended with
  | ok _ hrelated => rw [hback _ _ hrelated hkept]; rfl
  | error hrelated => rw [hback _ _ hrelated hkept]; rfl

section

variable {identity inner innermost : Nat} {params : List String} {body : Expr} {seen : Machine}

/-- A call of a variable that holds a lambda calls the lambda, if no function has its name. -/
theorem perform_call_var (hfunction : m.functions.get? name = none)
    (hget : m.env.get? name = some (.lambda identity params body)) (depth line inner : Nat)
    (arguments : List Expr) :
    Job.perform (depth + 1) (.evaluate (.call line (.var inner name) arguments)) m =
      callLambda (Job.perform depth) params body arguments line m := by
  show callName (Job.perform depth) name arguments line m = _
  rw [callName, get_bind, hfunction, hget]

/-- Where a member is a lambda but no function of a module or library, a call of it does the same as
a call of a new variable that holds the lambda, with the same result and effects, if a variable has
the name of the alias. Otherwise the member is a constant, and the call is refused: nothing is
evaluated. The scopes are nested in all machines that runs lead to. -/
theorem member_call_as_variable_call {reading : Nat} (hscopes : m.env.Nested)
    (hfunction : m.functions.get? (qualified aliasName name) = none)
    (hlibrary : ∀ library, m.library? aliasName = some library → library.builtin? name = none)
    (hread : Job.perform reading (.evaluate (.member inner (.var innermost aliasName) name)) m =
      .ok (.lambda identity params body) seen) (depth line : Nat) (arguments : List Expr) :
    let lambda : Value := .lambda identity params body
    let called := Job.perform (depth + 3)
      (.evaluate (.call line (.member inner (.var innermost aliasName) name) arguments)) m
    (m.env.binds aliasName = true → ∀ fresh, m.Unused fresh →
      (∀ argument ∈ arguments, argument.Avoids fresh) → ∀ innermost,
        Job.perform (depth + 3) (.evaluate (.call line (.var innermost fresh) arguments))
            { m with env := m.env.define fresh lambda } =
          Outcome.mapMachine (fun after => { after with env := after.env.define fresh lambda })
            called) ∧
    (m.env.binds aliasName = false →
      called = .error (.failed (.running (.undefinedFunction (qualified aliasName name) line))) m) := by
  intro lambda called
  constructor
  · intro hbound fresh hunused harguments position
    obtain ⟨target, hget, hmember, -⟩ := Job.property_of_perform hbound hread
    have hbody : body.Avoids fresh := by
      have hgood := (Value.avoids_class fresh).member (hunused.avoids.values.of_get? hget) name inner
      rw [hmember] at hgood
      exact Value.avoids_lambda.mp hgood
    have hcallee := Job.perform_member_var hget name inner innermost depth
    rw [hmember] at hcallee
    have hcalled : called = callLambda (Job.perform (depth + 2)) params body arguments line m := by
      show Job.perform (depth + 3) _ m = _
      rw [perform_call_of_none hfunction hlibrary, if_pos hbound]
      exact bind_of_ok hcallee
    have hvariable := perform_call_var (m := { m with env := m.env.define fresh lambda })
      hunused.function (Environment.get?_define_self m.env fresh lambda) (depth + 2) line position
      arguments
    have hkept := Job.changed_perform (depth + 3) (.evaluate
      (.call line (.member inner (.var innermost aliasName) name) arguments)) m
    rw [show Job.perform (depth + 3) _ m = _ from hcalled] at hkept
    rw [hvariable, hcalled]
    exact Insertion.Ignores.onTop hscopes hunused.avoids hunused.plain
      (.callLambda (Insertion.runs_perform _ (depth + 2)) params hbody harguments line) hkept
  · intro hfree
    show Job.perform (depth + 3) _ m = _
    rw [perform_call_of_none hfunction hlibrary, hfree, if_neg Bool.false_ne_true]

end

/-- The lambda that makes an array of one element. -/
def singletonLambda : Value := .lambda 0 ["x"] (.array 1 [.var 1 "x"])

/-- A variable with the lambda as a property, and a constant of a module that is the lambda. -/
def twoMembers : Machine :=
  { env := { bindings := [⟨"a", .object [("n", singletonLambda)]⟩, ⟨"m.n", singletonLambda⟩] } }

/-- The property is called like a variable that holds it, and the constant is not called. -/
theorem property_called_and_constant_refused :
    let called := fun callee => Job.perform 4
      (.evaluate (.call 2 callee [.literal 2 (.boolean true)]))
    let bound : Machine := { twoMembers with env := twoMembers.env.define "g" singletonLambda }
    twoMembers.Unused "g" ∧
    called (.member 2 (.var 2 "a") "n") twoMembers = .ok (.array [.boolean true]) twoMembers ∧
    called (.var 2 "g") bound = .ok (.array [.boolean true]) bound ∧
    called (.member 2 (.var 2 "m") "n") twoMembers =
      .error (.failed (.running (.undefinedFunction "m.n" 2))) twoMembers := by
  intro called bound
  have hlambda : singletonLambda.Avoids "g" := Value.avoids_lambda.mpr (by decide)
  have hvalues : twoMembers.env.Avoids "g" := List.forall_mem_cons.mpr
    ⟨Value.avoids_object.mpr (List.forall_mem_singleton.mpr hlambda),
      List.forall_mem_singleton.mpr hlambda⟩
  have hunused : twoMembers.Unused "g" := ⟨by decide, hvalues.machine rfl rfl, rfl⟩
  have hcalled : called (.member 2 (.var 2 "a") "n") twoMembers =
      .ok (.array [.boolean true]) twoMembers := rfl
  have hscopes : twoMembers.env.Nested := List.forall_mem_nil _
  have hread : Job.perform 2 (.evaluate (.member 2 (.var 2 "a") "n")) twoMembers =
      .ok singletonLambda twoMembers := rfl
  have hconstant : Job.perform 2 (.evaluate (.member 2 (.var 2 "m") "n")) twoMembers =
      .ok singletonLambda twoMembers := rfl
  obtain ⟨hproperty, -⟩ := member_call_as_variable_call hscopes rfl nofun hread 1 2
    [.literal 2 (.boolean true)]
  obtain ⟨-, hrefused⟩ := member_call_as_variable_call hscopes rfl nofun hconstant 1 2
    [.literal 2 (.boolean true)]
  have hvariable := hproperty rfl "g" hunused (List.forall_mem_singleton.mpr (by decide)) 2
  rw [show Job.perform _ _ twoMembers = _ from hcalled] at hvariable
  exact ⟨hunused, hcalled, hvariable, hrefused rfl⟩

/-- An import of a module and a call of its constant. -/
def constantCall : Block := [
  .use 1 (.path "./m") "m",
  .print 2 [.call 2 (.member 2 (.var 2 "m") "f") [.literal 2 (.boolean true)]]]

/-- The constant is a lambda, a variable that holds it is called, and the call of the constant is
refused. -/
theorem constant_call_refused :
    let loaded := Outcome.machine
      (Eval.runProgram (constantCall.take 1) (besideModule "let f = x => [x];"))
    let after := Outcome.machine (Eval.runProgram (constantCall.drop 1) loaded)
    let asVariable := Outcome.machine (Eval.runProgram [
      .declare 2 "g" none (.member 2 (.var 2 "m") "f"),
      .print 3 [.call 3 (.var 3 "g") [.literal 3 (.boolean true)]]] loaded)
    loaded.Reachable ∧ loaded.functions.get? "m.f" = none ∧ loaded.functions.get? "g" = none ∧
      (loaded.modules.get? "m").isSome ∧ loaded.library? "m" = none ∧
      asVariable.output.written = "[True]\n" ∧ asVariable.errors.written = "" ∧
      after.output.written = "" ∧
      after.errors.written = "Line 2: Function call failed: undefined function 'm.f'\n" := by
  intro loaded after asVariable
  exact ⟨.program _ (.fresh ⟨rfl, rfl, rfl, rfl, rfl, rfl, rfl⟩), by decide +kernel,
    by decide +kernel, by decide +kernel, by decide +kernel, by decide +kernel, by decide +kernel,
    by decide +kernel, by decide +kernel⟩

end DecimalScript
