import DecimalScript.Proofs.PropertyWrites

/-!
# Assignments that fail

An assignment to an element or property fails at a value that has no such part. Up to there nothing
is missing on the way, so carrying out a property assignment on the variables themselves makes
nothing before it fails. The machine is then the one that evaluating the operands has left.
-/

namespace DecimalScript

open Eval

variable {m mid before after : Machine} {path : PropertyPath} {value : Value} {line depth : Nat}

/-- Assigning a property in place changes the variables as assigning a changed value does, and
leaves them alone if it fails. -/
theorem Eval.assignInPlace_eq {env : Environment} {name : String} {properties : List String}
    (htarget : propertyTarget env path = (name, properties)) (value : Value) :
    assignInPlace env path value =
      match ((env.get? name).getD (.object [])).setPath properties value with
      | .ok changed => (env.assign name changed, none)
      | .error fault => (env, some fault) := by
  unfold assignInPlace
  rw [htarget]
  dsimp only
  rw [Value.assignInPlace_eq]
  cases hget : env.get? name with
  | some target =>
    have hbound : env.binds name = true := Environment.binds_of_get? hget
    rw [if_pos hbound, hget, Option.getD_some, Option.getD_some]
    cases target.setPath properties value with
    | ok changed =>
      dsimp only
      rw [Environment.assign, if_pos hbound]
    | error fault =>
      dsimp only
      rw [Environment.write_of_get? hget]
  | none =>
    have hfree : ¬ env.binds name = true := by simp [Environment.binds_of_get?_eq_none hget]
    obtain ⟨changed, hchanged⟩ := Value.exists_setPath_empty properties value
    rw [if_neg hfree, Environment.get?_define_self, Option.getD_some, Option.getD_none, hchanged]
    dsimp only
    rw [Environment.write_define, Environment.assign, if_neg hfree]

/-- A property assignment whose value was evaluated comes to assigning the property in place. -/
theorem perform_assignProperty_inPlace {expr : Expr}
    (h : Job.perform depth (.evaluate expr) m = .ok value before) (line : Nat) :
    Job.perform (depth + 1) (.execute (.assignProperty line path expr)) m =
      match assignInPlace before.env path value with
      | (env, none) => .ok .normal { before with env }
      | (env, some fault) => .error (.failed (.running (.cannotSet fault line)))
          { before with env } := by
  obtain ⟨name, properties, htarget⟩ :
      ∃ name properties, propertyTarget before.env path = (name, properties) := ⟨_, _, rfl⟩
  rw [assignInPlace_eq htarget]
  cases hset : ((before.env.get? name).getD (.object [])).setPath properties value with
  | ok changed => exact perform_assignProperty_ok h htarget hset line
  | error fault => exact perform_assignProperty_error h htarget hset line

/-- Assigning in place leaves the variables alone if it fails. -/
theorem assignInPlace_of_fault {env : Environment} {fault : Value.PathFault}
    (h : (assignInPlace env path value).2 = some fault) :
    assignInPlace env path value = (env, some fault) := by
  obtain ⟨name, properties, htarget⟩ :
      ∃ name properties, propertyTarget env path = (name, properties) := ⟨_, _, rfl⟩
  rw [assignInPlace_eq htarget] at h ⊢
  cases hset : ((env.get? name).getD (.object [])).setPath properties value with
  | ok changed =>
    rw [hset] at h
    cases h
  | error fault =>
    rw [hset] at h
    cases h
    rfl

/-- Assigning an element leaves the machine alone if it fails. -/
theorem assignElement_of_error {name : String} {index : Value} {stop : Stop}
    (h : assignElement name index value line m = .error stop after) : after = m := by
  rw [assignElement, get_bind] at h
  cases hget : m.env.get? name with
  | none =>
    rw [hget] at h
    cases h
    rfl
  | some target =>
    rw [hget] at h
    dsimp only at h
    cases hset : target.withElement index value line with
    | ok changed =>
      rw [hset] at h
      cases h
    | error fault =>
      rw [hset] at h
      cases h
      rfl

/-- An assignment to an element or property that fails after its expressions were evaluated leaves
the machine as they left it, also where it is carried out in place. -/
theorem failed_assignment_changes_nothing (depth : Nat) (m : Machine) :
    (∀ line name index expr position value mid before stop after,
      Job.perform depth (.evaluate index) m = .ok position mid →
      Job.perform depth (.evaluate expr) mid = .ok value before →
      Job.perform (depth + 1) (.execute (.assignIndex line name index expr)) m =
        .error stop after → after = before) ∧
    ∀ line path expr value before stop after,
      Job.perform depth (.evaluate expr) m = .ok value before →
      Job.perform (depth + 1) (.execute (.assignProperty line path expr)) m = .error stop after →
      after = before ∧ ∃ fault, stop = .failed (.running (.cannotSet fault line)) ∧
        assignInPlace before.env path value = (before.env, some fault) := by
  constructor
  · intro line name index expr position value mid before stop after hindex hvalue hstop
    have hassign : Job.perform (depth + 1) (.execute (.assignIndex line name index expr)) m =
        (assignElement name position value line >>= fun _ => pure .normal) before :=
      (bind_of_ok hindex).trans (bind_of_ok hvalue)
    rw [hassign] at hstop
    cases helement : assignElement name position value line before with
    | ok _ changed =>
      rw [bind_of_ok helement] at hstop
      cases hstop
    | error _ left =>
      rw [bind_of_error helement] at hstop
      cases hstop
      exact assignElement_of_error helement
  · intro line path expr value before stop after hvalue hstop
    rw [perform_assignProperty_inPlace hvalue] at hstop
    cases hfault : (assignInPlace before.env path value).2 with
    | none =>
      rw [← Prod.eta (assignInPlace before.env path value), hfault] at hstop
      cases hstop
    | some fault =>
      have hleft := assignInPlace_of_fault hfault
      rw [hleft] at hstop
      cases hstop
      exact ⟨rfl, fault, rfl, hleft⟩

/-- An element and a property, neither of which can be assigned. -/
theorem failed_element_and_property_assignment :
    let m : Machine := { env := { bindings := [⟨"a", .object [("b", .boolean true)]⟩] } }
    let no : Expr := .literal 1 (.boolean false)
    let path : PropertyPath := ⟨"a", "b", ["c"], Nat.le_succ 1⟩
    (∃ stop, Job.perform 2 (.execute (.assignIndex 1 "a" no no)) m = .error stop m) ∧
      ∃ stop, Job.perform 2 (.execute (.assignProperty 1 path no)) m = .error stop m := by
  intro m no path
  obtain ⟨hindex, hproperty⟩ := failed_assignment_changes_nothing 1 m
  constructor
  · have hstop : ∃ stop after,
        Job.perform 2 (.execute (.assignIndex 1 "a" no no)) m = .error stop after := ⟨_, _, rfl⟩
    obtain ⟨stop, after, hstop⟩ := hstop
    have hkept := hindex 1 "a" no no (.boolean false) (.boolean false) m m stop after rfl rfl hstop
    exact ⟨stop, hkept ▸ hstop⟩
  · have hstop : ∃ stop after,
        Job.perform 2 (.execute (.assignProperty 1 path no)) m = .error stop after := ⟨_, _, rfl⟩
    obtain ⟨stop, after, hstop⟩ := hstop
    have hkept := (hproperty 1 path no (.boolean false) m stop after rfl hstop).1
    exact ⟨stop, hkept ▸ hstop⟩

end DecimalScript
