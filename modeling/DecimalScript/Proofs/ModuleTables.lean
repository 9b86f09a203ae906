import DecimalScript.Eval.Nested
import DecimalScript.Proofs.Loading
import DecimalScript.Proofs.PlainNames
import DecimalScript.Proofs.QuietExpressions
import DecimalScript.Proofs.Variables

/-!
# What a module writes into the tables

The functions of a module are registered one after the other, so under each of its names the last
definition counts. Constants that do not call are evaluated one after the other in sight of the ones
before them, and nothing else is seen of that once their scope is closed. They are then bound under
qualified names, of which the last value counts too, and the variables without a dot in their names
are left alone.
-/

namespace DecimalScript

namespace Environment

/-- The bindings whose names have no dot, newest first. -/
def plain (env : Environment) : List Binding := env.bindings.filter fun b => PlainName b.name

theorem plain_rebind {name : String} (h : ¬PlainName name) (value : Value)
    (bindings : List Binding) :
    (rebind name value bindings).filter (fun b => PlainName b.name) =
      bindings.filter fun b => PlainName b.name := by
  induction bindings with
  | nil => rfl
  | cons b rest ih =>
    unfold rebind
    split
    · rename_i hname
      have hb : ¬PlainName b.name := eq_of_beq hname ▸ h
      simp [hb]
    · simp only [List.filter_cons, ih]

/-- Assigning a name with a dot leaves the others alone. -/
theorem plain_assign {env : Environment} {name : String} (h : ¬PlainName name) (value : Value) :
    (env.assign name value).plain = env.plain := by
  unfold assign
  split
  · exact plain_rebind h value env.bindings
  · simp [define, plain, h]

end Environment

namespace Eval

variable {aliasName name : String} {program before later : Block}

theorem not_plainName_qualified (aliasName name : String) : ¬PlainName (qualified aliasName name) :=
  fun h => ne_qualified h aliasName name rfl

/-! ### Functions -/

theorem registerFunctions_append (aliasName : String) (before later : Block)
    (functions : NameTable Function) :
    registerFunctions aliasName (before ++ later) functions =
      registerFunctions aliasName later (registerFunctions aliasName before functions) := by
  induction before generalizing functions with
  | nil => rfl
  | cons stmt rest ih =>
    cases stmt with
    | define line first params returnType body => exact ih _
    | _ => exact ih functions

/-- Only the names of the functions are registered. -/
theorem get?_registerFunctions_of_not_registers (h : ¬program.Registers aliasName name)
    (functions : NameTable Function) :
    (registerFunctions aliasName program functions).get? name = functions.get? name := by
  induction program generalizing functions with
  | nil => rfl
  | cons stmt rest ih =>
    have hrest : ¬Block.Registers rest aliasName name := fun ⟨defined, hdefined, hname⟩ =>
      h ⟨defined, (List.sublist_cons_self stmt rest).filterMap _ |>.subset hdefined, hname⟩
    cases stmt with
    | define line first params returnType body =>
      have hfirst : ¬(name = first ∨ name = qualified aliasName first) :=
        fun hname => h ⟨first, List.mem_cons_self, hname⟩
      obtain ⟨hplain, hqualified⟩ := not_or.mp hfirst
      rw [registerFunctions, ih hrest, NameTable.get?_set_of_ne _ hplain,
        NameTable.get?_set_of_ne _ hqualified]
    | _ => exact ih hrest functions

/-- Of the definitions of a name the last one is registered, under the plain and the qualified
name. -/
theorem get?_registerFunctions_last {line : Nat} {params : List Parameter}
    {returnType : Option TypeName} {body : Block}
    (hsplit : program = before ++ .define line name params returnType body :: later)
    (hlast : name ∉ later.functionNames)
    (hplain : ∀ defined ∈ program.functionNames, PlainName defined)
    (functions : NameTable Function) :
    let table := registerFunctions aliasName program functions
    table.get? (qualified aliasName name) = some ⟨name, params, returnType, body⟩ ∧
      table.get? name = some ⟨name, params, returnType, body⟩ := by
  have hnames : program.functionNames =
      before.functionNames ++ name :: later.functionNames := by
    rw [hsplit, Block.functionNames, List.filterMap_append]
    rfl
  have hname : PlainName name := hplain name (by rw [hnames]; simp)
  have hlater : ∀ defined ∈ later.functionNames, PlainName defined :=
    fun defined hdefined => hplain defined (by rw [hnames]; simp [hdefined])
  have hfree : ¬later.Registers aliasName name := by
    rintro ⟨defined, hdefined, rfl | hsame⟩
    · exact hlast hdefined
    · exact ne_qualified hname aliasName defined hsame
  have hfreeQualified : ¬later.Registers aliasName (qualified aliasName name) := by
    rintro ⟨defined, hdefined, hsame | hsame⟩
    · exact ne_qualified (hlater defined hdefined) aliasName name hsame.symm
    · exact hlast (qualified_injective hsame ▸ hdefined)
  dsimp only
  rw [hsplit, registerFunctions_append, registerFunctions,
    get?_registerFunctions_of_not_registers hfree,
    get?_registerFunctions_of_not_registers hfreeQualified, NameTable.get?_set_self,
    NameTable.get?_set_of_ne _ (ne_qualified hname aliasName name).symm, NameTable.get?_set_self]
  exact ⟨rfl, rfl⟩

/-! ### Constants -/

variable {run : JobRunner}

/-- A constant is evaluated and bound before the ones behind it. -/
theorem constants_declare_eq_ok {line : Nat} {typed : Option TypeName} {expr : Expr}
    {found : List (String × Value)} {m after : Machine} :
    constants run (.declare line name typed expr :: later) m = .ok found after ↔
      ∃ value next rest, run (.evaluate expr) m = .ok value next ∧
        constants run later { next with env := next.env.define name value } = .ok rest after ∧
          found = (name, value) :: rest := by
  rw [constants]
  constructor
  · intro h
    cases hvalue : run (.evaluate expr) m with
    | error stop stopped =>
      rw [bind_of_error hvalue] at h
      cases h
    | ok value next =>
      rw [bind_of_ok hvalue] at h
      cases hrest : constants run later { next with env := next.env.define name value } with
      | error stop stopped =>
        have hstopped := (bind_of_error hrest).symm.trans h
        cases hstopped
      | ok rest done =>
        have hdone := (bind_of_ok hrest).symm.trans h
        cases hdone
        exact ⟨value, next, rest, rfl, hrest, rfl⟩
  · rintro ⟨value, next, rest, hvalue, hrest, rfl⟩
    rw [bind_of_ok hvalue]
    exact bind_of_ok hrest

/-- The constants of two programs in a row are evaluated one after the other. -/
theorem constants_append {found : List (String × Value)} {m after : Machine}
    (h : constants run (before ++ later) m = .ok found after) :
    ∃ earlier ready rest, constants run before m = .ok earlier ready ∧
      constants run later ready = .ok rest after ∧ found = earlier ++ rest := by
  induction before generalizing found m with
  | nil => exact ⟨[], m, found, rfl, h, rfl⟩
  | cons stmt others ih =>
    cases stmt with
    | declare line first typed expr =>
      obtain ⟨value, next, behind, hvalue, hbehind, rfl⟩ := constants_declare_eq_ok.mp h
      obtain ⟨earlier, ready, rest, hearlier, hrest, rfl⟩ := ih hbehind
      exact ⟨(first, value) :: earlier, ready, rest,
        constants_declare_eq_ok.mpr ⟨value, next, earlier, hvalue, hearlier, rfl⟩, hrest, rfl⟩
    | _ => exact ih h

/-- Evaluating the constants of a program that do not call binds them, and makes lambdas. -/
theorem constants_quiet (hquiet : ∀ expr : Expr, expr.calls = false → Quiet (run (.evaluate expr)))
    (hcalls : program.constantsCall = false) {found : List (String × Value)} {m after : Machine}
    (h : constants run program m = .ok found after) :
    ∃ nextLambda, after = { m with
      env := m.env.defineAll program.constantNames (found.map (·.2)), nextLambda } := by
  induction program generalizing found m with
  | nil =>
    cases h
    exact ⟨_, rfl⟩
  | cons stmt others ih =>
    obtain ⟨hfirst, hothers⟩ := Bool.or_eq_false_iff.mp hcalls
    cases stmt with
    | declare line first typed expr =>
      obtain ⟨value, next, behind, hvalue, hbehind, rfl⟩ := constants_declare_eq_ok.mp h
      obtain ⟨_, rfl⟩ := (hquiet expr hfirst).of_ok hvalue
      obtain ⟨nextLambda, rfl⟩ := ih hothers hbehind
      exact ⟨nextLambda, rfl⟩
    | _ => exact ih hothers h

/-- The scope of constants is closed to the variables that there were. -/
theorem popScope?_defineAll (env : Environment) (names : List String) (values : List Value) :
    (env.pushScope.defineAll names values).popScope? = some env := by
  obtain ⟨added, hbindings, -⟩ := env.pushScope.bindings_defineAll names values
  have hkept : keepOldest env.size (added ++ env.bindings) = env.bindings :=
    keepOldest_of_suffix (List.suffix_append added env.bindings)
  rw [Environment.popScope_of_scopes (env.scopes_opened names values), hbindings]
  exact congrArg (fun bindings => some (Environment.mk bindings env.scopes)) hkept

/-! ### Qualified constants -/

/-- A constant that is not among those that are bound keeps its value. -/
theorem get?_assignConstants_of_not_mem {found : List (String × Value)}
    (h : name ∉ found.map (·.1)) (env : Environment) :
    (assignConstants aliasName env found).get? (qualified aliasName name) =
      env.get? (qualified aliasName name) := by
  induction found generalizing env with
  | nil => rfl
  | cons entry rest ih =>
    obtain ⟨hfirst, hrest⟩ := not_or.mp (mt List.mem_cons.mpr h)
    have hother : qualified aliasName name ≠ qualified aliasName entry.1 :=
      fun hsame => hfirst (qualified_injective hsame)
    exact (ih hrest _).trans (Environment.get?_assign_of_ne hother env entry.2)

/-- Of the values of a constant the last one is bound. -/
theorem get?_assignConstants_last {value : Value} {earlier rest : List (String × Value)}
    (h : name ∉ rest.map (·.1)) (env : Environment) :
    (assignConstants aliasName env (earlier ++ (name, value) :: rest)).get?
      (qualified aliasName name) = some value := by
  rw [assignConstants, List.foldl_append]
  exact (get?_assignConstants_of_not_mem h _).trans (Environment.get?_assign_self _ _ _)

/-- Binding constants under an alias leaves the variables without a dot in their names alone. -/
theorem plain_assignConstants (aliasName : String) (env : Environment)
    (found : List (String × Value)) : (assignConstants aliasName env found).plain = env.plain := by
  induction found generalizing env with
  | nil => rfl
  | cons entry rest ih =>
    exact (ih _).trans (Environment.plain_assign (not_plainName_qualified _ _) entry.2)

end Eval

end DecimalScript
