import DecimalScript.Eval.InPlace
import DecimalScript.Proofs.MemberReads
import DecimalScript.Proofs.PlainNames
import DecimalScript.Proofs.PropertyPaths

/-!
# Reading properties after assigning them

A property assignment and the expression that reads the same path settle in the same way which
variable the path begins at: the constant of a module if no variable has the name of the alias, or
else the base. What was assigned is therefore read back, and assigning it again changes nothing.
-/

namespace DecimalScript

open Eval

variable {m before after : Machine} {path : PropertyPath} {value target : Value} {line depth : Nat}

/-- A path is read at the variable that it is assigned at. -/
theorem perform_toExpr {name : String} {properties : List String}
    (htarget : propertyTarget m.env path = (name, properties)) (hget : m.env.get? name = some target)
    (hfollow : target.follow line properties = .ok value) (hdepth : path.depth ≤ depth) :
    Job.perform depth (.evaluate (path.toExpr line)) m = .ok value m := by
  obtain ⟨depth, rfl⟩ := Nat.exists_eq_add_of_le' hdepth
  have hsum : depth + path.depth = depth + 2 + path.rest.length := by
    simp only [PropertyPath.depth, PropertyPath.properties, List.length_cons]
    omega
  rw [hsum]
  unfold propertyTarget at htarget
  split at htarget
  · rename_i hconstant
    rw [Bool.and_eq_true, Bool.not_eq_true'] at hconstant
    cases htarget
    exact Job.perform_members (fun _ _ => Expr.noConfusion)
      (Job.perform_member_constant (constantOf?_of_get? hconstant.1 hget) line line (depth + 1))
      hfollow
  · cases htarget
    rw [PropertyPath.properties, Value.follow] at hfollow
    have hread := Job.perform_member_var hget path.first line line depth
    cases hinner : target.member path.first line with
    | error fault =>
      rw [hinner] at hfollow
      cases hfollow
    | ok inner =>
      rw [hinner] at hfollow hread
      exact Job.perform_members (fun _ _ => Expr.noConfusion) hread hfollow

/-- After an assignment a path begins at the variable that was assigned. -/
theorem propertyTarget_assign (env : Environment) (path : PropertyPath) (value : Value) :
    propertyTarget (env.assign (propertyTarget env path).1 value) path =
      propertyTarget env path := by
  by_cases hconstant : (!env.binds path.base && env.binds (qualified path.base path.first)) = true
  · have hbase : (path.base == qualified path.base path.first) = false :=
      beq_eq_false_iff_ne.mpr (alias_ne_qualified path.base path.first)
    have htarget : propertyTarget env path = (qualified path.base path.first, path.rest) :=
      if_pos hconstant
    rw [htarget, propertyTarget, Environment.binds_assign, Environment.binds_assign, hbase,
      beq_self_eq_true, Bool.false_or, Bool.true_or]
    rw [Bool.and_eq_true] at hconstant
    rw [hconstant.1, Bool.true_and, if_pos rfl]
  · have htarget : propertyTarget env path = (path.base, path.properties) := if_neg hconstant
    rw [htarget, propertyTarget, Environment.binds_assign, beq_self_eq_true, Bool.true_or,
      Bool.not_true, Bool.false_and, if_neg Bool.false_ne_true]

section Assignment

variable {expr : Expr} {name : String} {properties : List String} {changed : Value}
  {fault : Value.PathFault}

/-- A property assignment whose value was evaluated and can be written. -/
theorem perform_assignProperty_ok (h : Job.perform depth (.evaluate expr) m = .ok value before)
    (htarget : propertyTarget before.env path = (name, properties))
    (hset : ((before.env.get? name).getD (.object [])).setPath properties value = .ok changed)
    (line : Nat) :
    Job.perform (depth + 1) (.execute (.assignProperty line path expr)) m =
      .ok .normal { before with env := before.env.assign name changed } := by
  have hassign : assignProperty path value line before =
      .ok () { before with env := before.env.assign name changed } := by
    rw [assignProperty, get_bind, htarget]
    dsimp only
    rw [hset]
    rfl
  exact (bind_of_ok h).trans (bind_of_ok hassign)

/-- A property assignment whose value was evaluated but cannot be written. -/
theorem perform_assignProperty_error (h : Job.perform depth (.evaluate expr) m = .ok value before)
    (htarget : propertyTarget before.env path = (name, properties))
    (hset : ((before.env.get? name).getD (.object [])).setPath properties value = .error fault)
    (line : Nat) :
    Job.perform (depth + 1) (.execute (.assignProperty line path expr)) m =
      .error (.failed (.running (.cannotSet fault line))) before := by
  have hassign : assignProperty path value line before =
      .error (.failed (.running (.cannotSet fault line))) before := by
    rw [assignProperty, get_bind, htarget]
    dsimp only
    rw [hset]
    rfl
  exact (bind_of_ok h).trans (bind_of_error hassign)

/-- A property assignment evaluates its value first. -/
theorem exists_value_of_assignProperty {flow : Flow}
    (h : Job.perform (depth + 1) (.execute (.assignProperty line path expr)) m = .ok flow after) :
    ∃ value before, Job.perform depth (.evaluate expr) m = .ok value before := by
  cases hvalue : Job.perform depth (.evaluate expr) m with
  | ok value before => exact ⟨value, before, rfl⟩
  | error stop before =>
    have hstop : Job.perform (depth + 1) (.execute (.assignProperty line path expr)) m =
        .error stop before := bind_of_error hvalue
    rw [hstop] at h
    cases h

end Assignment

/-- What a property assignment did to the machine in which its value had been evaluated. -/
structure PropertyWrite (path : PropertyPath) (value : Value) (before after : Machine) : Prop where
  /-- Nothing but the variables changed. -/
  machine : after = { before with env := after.env }
  /-- One variable was assigned, and in its value nothing changed but what the path leads to. -/
  binding : ∃ old new,
    before.env.Assigned (propertyTarget before.env path).1 old new after.env ∧
      old.WrittenAt (propertyTarget before.env path).2 value new
  /-- The path is read as the value, which changes nothing. -/
  read : ∀ line depth, path.depth ≤ depth →
    Job.perform depth (.evaluate (path.toExpr line)) after = .ok value after
  /-- Assigning the value again changes nothing. -/
  again : ∀ expr line depth, Job.perform depth (.evaluate expr) after = .ok value after →
    Job.perform (depth + 1) (.execute (.assignProperty line path expr)) after = .ok .normal after

/-- A property assignment that succeeds writes the value that its expression had. -/
theorem property_assignment_writes {expr : Expr} {flow : Flow}
    (h : Job.perform (depth + 1) (.execute (.assignProperty line path expr)) m = .ok flow after) :
    flow = .normal ∧ ∃ value before,
      Job.perform depth (.evaluate expr) m = .ok value before ∧
        PropertyWrite path value before after := by
  obtain ⟨value, before, hvalue⟩ := exists_value_of_assignProperty h
  obtain ⟨name, properties, htarget⟩ :
      ∃ name properties, propertyTarget before.env path = (name, properties) := ⟨_, _, rfl⟩
  cases hset : ((before.env.get? name).getD (.object [])).setPath properties value with
  | error fault =>
    rw [perform_assignProperty_error hvalue htarget hset] at h
    cases h
  | ok changed =>
    rw [perform_assignProperty_ok hvalue htarget hset] at h
    cases h
    refine ⟨rfl, value, before, hvalue, ?_⟩
    have hstays : propertyTarget (before.env.assign name changed) path = (name, properties) := by
      have hassign := propertyTarget_assign before.env path changed
      rwa [htarget] at hassign
    have hget := before.env.get?_assign_self name changed
    have hwritten := Value.writtenAt_of_setPath hset
    refine ⟨rfl, ?_, fun line depth hdepth => ?_, fun expr line depth hexpr => ?_⟩
    · rw [htarget]
      refine ⟨_, changed, ?_, hwritten⟩
      cases hold : before.env.get? name with
      | some old => exact Environment.assigned_of_get? hold changed
      | none =>
        exact Environment.assigned_of_free (Environment.binds_of_get?_eq_none hold) changed
    · exact perform_toExpr hstays hget (hwritten.written line) hdepth
    · have hagain : (((before.env.assign name changed).get? name).getD (.object [])).setPath
          properties value = .ok changed := by
        rw [hget]
        exact Value.setPath_of_written hset
      rw [perform_assignProperty_ok hexpr hstays hagain]
      dsimp only
      rw [Environment.assign_of_get? hget]

/-- A property of a property of a variable that does not exist. -/
theorem nested_property_written :
    let path : PropertyPath := ⟨"a", "b", ["c"], Nat.le_succ 1⟩
    let yes : Expr := .literal 1 (.boolean true)
    let after : Machine :=
      { env := { bindings := [⟨"a", .object [("b", .object [("c", .boolean true)])]⟩] } }
    Job.perform 2 (.execute (.assignProperty 1 path yes)) {} = .ok .normal after ∧
      PropertyWrite path (.boolean true) {} after := by
  intro path yes after
  have hruns : Job.perform 2 (.execute (.assignProperty 1 path yes)) {} = .ok .normal after := rfl
  obtain ⟨-, value, before, hvalue, hwrite⟩ := property_assignment_writes hruns
  cases hvalue
  exact ⟨hruns, hwrite⟩

end DecimalScript
