import DecimalScript.Proofs.DistinctFields
import DecimalScript.Proofs.PropertyWrites

/-!
# Writing one member of an alias and reading another

Writing a constant that a module declares leaves the other members of the alias alone. Writing any
other member finds neither a variable of that name nor a constant, so it makes a variable with the
name of the alias, and from then on a member of that name is a property of the variable.
-/

namespace DecimalScript

open Eval

variable {m before : Machine} {aliasName written read : String} {value kept : Value}

/-- The path of a single member of an alias. -/
def PropertyPath.single (base name : String) : PropertyPath := ⟨base, name, [], Nat.zero_le 2⟩

/-- A constant that is bound is where a member of the alias is written. -/
theorem propertyTarget_single_of_binds {env : Environment} (hfree : env.binds aliasName = false)
    (hbound : env.binds (qualified aliasName written) = true) :
    propertyTarget env (.single aliasName written) = (qualified aliasName written, []) := by
  have hconstant :
      (!env.binds aliasName && env.binds (qualified aliasName written)) = true := by
    rw [hfree, hbound]
    rfl
  exact if_pos hconstant

/-- What is no bound constant is written as a property of a variable. -/
theorem propertyTarget_single_of_free {env : Environment}
    (hunbound : env.binds (qualified aliasName written) = false) :
    propertyTarget env (.single aliasName written) = (aliasName, [written]) := by
  have hconstant :
      ¬ (!env.binds aliasName && env.binds (qualified aliasName written)) = true := by
    rw [hunbound, Bool.and_false]
    exact Bool.false_ne_true
  exact if_neg hconstant

/-- Writing one constant of an alias leaves the others as they were. -/
theorem constantOf?_assign (hne : read ≠ written) (m : Machine) (value : Value) :
    constantOf? { m with env := m.env.assign (qualified aliasName written) value } aliasName read =
      constantOf? m aliasName read := by
  have hbase : (aliasName == qualified aliasName written) = false :=
    beq_eq_false_iff_ne.mpr (alias_ne_qualified aliasName written)
  have hother : qualified aliasName read ≠ qualified aliasName written :=
    fun heq => hne (qualified_injective heq)
  unfold constantOf?
  dsimp only
  rw [Environment.binds_assign, hbase, Bool.false_or, Environment.get?_assign_of_ne hother]
  rfl

/-- Evaluating an expression binds no name and unbinds none. -/
theorem binds_of_perform {expr : Expr} {depth : Nat}
    (h : Job.perform depth (.evaluate expr) m = .ok value before) (name : String) :
    before.env.binds name = m.env.binds name := by
  have hnames : before.env.names = m.env.names := by
    have hchanged := Job.changed_perform depth (.evaluate expr) m
    rw [h] at hchanged
    exact hchanged.2.1
  rw [Bool.eq_iff_iff, Environment.binds_iff, Environment.binds_iff, hnames]

/-- After one member of an alias was assigned, another one that was read before has its value if the
one that was assigned is a constant that was bound, and else it is not found. -/
theorem alias_member_after_write {expr : Expr} {depth reading line inner : Nat} {seen : Machine}
    (hfree : m.env.binds aliasName = false) (hne : read ≠ written)
    (hvalue : Job.perform depth (.evaluate expr) m = .ok value before)
    (hread : Job.perform reading (.evaluate (.member line (.var inner aliasName) read)) before =
      .ok kept seen) :
    ∃ after,
      (∀ line, Job.perform (depth + 1)
        (.execute (.assignProperty line (.single aliasName written) expr)) m =
          .ok .normal after) ∧
      ∀ line inner depth,
        Job.perform (depth + 2) (.evaluate (.member line (.var inner aliasName) read)) after =
          if m.env.binds (qualified aliasName written) then .ok kept after
          else .error (.failed (.running (.noProperty read line))) after := by
  rw [← binds_of_perform hvalue] at hfree ⊢
  obtain ⟨hconstant, -⟩ := Job.constantOf?_of_perform hfree hread
  cases hbound : before.env.binds (qualified aliasName written) with
  | true =>
    refine ⟨_, perform_assignProperty_ok hvalue (propertyTarget_single_of_binds hfree hbound) rfl,
      fun line inner depth => ?_⟩
    rw [if_pos rfl]
    exact Job.perform_member_constant ((constantOf?_assign hne before value).trans hconstant)
      line inner (depth + 1)
  | false =>
    have hset : ((before.env.get? aliasName).getD (.object [])).setPath [written] value =
        .ok (.object [(written, value)]) := by
      rw [Environment.get?_eq_none hfree]
      rfl
    refine ⟨_, perform_assignProperty_ok hvalue (propertyTarget_single_of_free hbound) hset,
      fun line inner depth => ?_⟩
    rw [if_neg Bool.false_ne_true,
      Job.perform_member_var (before.env.get?_assign_self aliasName _) read line inner depth]
    have hlacks : NameTable.get? [(written, value)] read = none := by
      simpa [NameTable.get?] using hne
    rw [Value.member, hlacks]
    rfl

/-- A constant of a module, and another one that is assigned. -/
theorem declared_member_keeps_other :
    let m : Machine :=
      { env := { bindings := [⟨"m.c", .boolean true⟩, ⟨"m.d", .boolean false⟩] } }
    let write : Stmt := .assignProperty 1 (.single "m" "d") (.literal 1 (.boolean true))
    let read : Expr := .member 2 (.var 2 "m") "c"
    ∃ after, Job.perform 2 (.execute write) m = .ok .normal after ∧
      Job.perform 2 (.evaluate read) m = .ok (.boolean true) m ∧
      Job.perform 2 (.evaluate read) after = .ok (.boolean true) after := by
  intro m write read
  have hfree : m.env.binds "m" = false := rfl
  have hne : "c" ≠ "d" := by decide
  have hvalue : Job.perform 1 (.evaluate (.literal 1 (.boolean true))) m = .ok (.boolean true) m :=
    rfl
  have hbefore : Job.perform 2 (.evaluate read) m = .ok (.boolean true) m := rfl
  obtain ⟨after, hwrite, hread⟩ := alias_member_after_write hfree hne hvalue hbefore
  exact ⟨after, hwrite 1, hbefore, hread 2 2 0⟩

/-- A machine beside a module file. -/
def besideModule (source : String) : Machine := {
  files := { entries := [(["m.myco".toList], .file (Text.bytesOf source))] }
  color := false }

/-- An import of a module and a use of its constant, and then an assignment of a member that the
module does not declare and the same use again. -/
def undeclaredMember : Block := [
  .use 1 (.path "./m") "m", .print 2 [.member 2 (.var 2 "m") "c"],
  .assignProperty 3 (.single "m" "d") (.literal 3 (.boolean true)),
  .print 4 [.member 4 (.var 4 "m") "c"]]

/-- The constant is read before the assignment, and not found after it. -/
theorem undeclared_member_hides_constant :
    let loaded :=
      Outcome.machine (Eval.runProgram (undeclaredMember.take 2) (besideModule "let c = 1;"))
    let after := Outcome.machine (Eval.runProgram (undeclaredMember.drop 2) loaded)
    loaded.Reachable ∧ loaded.env.binds "m" = false ∧ (loaded.modules.get? "m").isSome ∧
      loaded.output.written = "1\n" ∧ loaded.errors.written = "" ∧
      after.output.written = "1\n" ∧
      after.errors.written = "Line 4: Invalid operation: object has no property 'c'\n" := by
  intro loaded after
  exact ⟨.program _ (.fresh ⟨rfl, rfl, rfl, rfl, rfl, rfl, rfl⟩), by decide +kernel,
    by decide +kernel, by decide +kernel, by decide +kernel, by decide +kernel, by decide +kernel⟩

end DecimalScript
