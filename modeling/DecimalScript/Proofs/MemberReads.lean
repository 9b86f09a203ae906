import DecimalScript.Proofs.Effects
import DecimalScript.Proofs.Variables
import DecimalScript.Value.Path

/-!
# Reading members

A member of a name is a property of the variable of that name, if there is one, and else a constant
of the module or library that the name is an alias of. A member of anything else is a property of
its value. Reading names and constants changes nothing.
-/

namespace DecimalScript

open Eval

variable {m after : Machine} {value target : Value} {base name : String} {depth : Nat}

namespace Eval

/-- Where a variable has the name of an alias, the alias has no constants. -/
theorem constantOf?_of_binds (h : m.env.binds base = true) (name : String) :
    constantOf? m base name = none :=
  if_pos h

/-- A constant of a module. -/
theorem constantOf?_of_get? (hfree : m.env.binds base = false)
    (h : m.env.get? (qualified base name) = some value) :
    constantOf? m base name = some value := by
  rw [constantOf?, hfree, if_neg Bool.false_ne_true, h]

end Eval

namespace Job

/-- Reading a variable. -/
theorem perform_var (h : m.env.get? name = some value) (line depth : Nat) :
    perform (depth + 1) (.evaluate (.var line name)) m = .ok value m := by
  show readName name line m = _
  rw [readName, get_bind, h]
  rfl

/-- Reading a variable that does not exist. -/
theorem perform_var_of_free (h : m.env.binds name = false) (line depth : Nat) :
    perform (depth + 1) (.evaluate (.var line name)) m =
      .error (.failed (.running (.undefinedVariable name line))) m := by
  show readName name line m = _
  rw [readName, get_bind, Environment.get?_eq_none h]
  rfl

/-- Reading a property of what an expression evaluates to that is no variable. -/
theorem perform_member {expr : Expr} (hexpr : ∀ line name, expr ≠ .var line name)
    (h : perform depth (.evaluate expr) m = .ok target after) (line : Nat) (name : String) :
    perform (depth + 1) (.evaluate (.member line expr name)) m =
      ofExcept (target.member name line) after := by
  have hmember : perform (depth + 1) (.evaluate (.member line expr name)) m =
      memberOf (perform depth) expr name line m := by
    cases expr with
    | var line name => exact absurd rfl (hexpr line name)
    | _ => rfl
  rw [hmember]
  exact bind_of_ok h

/-- Reading a constant of an alias. -/
theorem perform_member_constant (h : constantOf? m base name = some value)
    (line inner depth : Nat) :
    perform (depth + 1) (.evaluate (.member line (.var inner base) name)) m = .ok value m := by
  show member (perform depth) (.var inner base) name line m = _
  rw [member, get_bind, h]
  rfl

/-- Reading a member of a name that is not a constant of an alias. -/
theorem perform_member_of_none (h : constantOf? m base name = none) (line inner depth : Nat) :
    perform (depth + 1) (.evaluate (.member line (.var inner base) name)) m =
      memberOf (perform depth) (.var inner base) name line m := by
  show member (perform depth) (.var inner base) name line m = _
  rw [member, get_bind, h]

/-- Reading a property of a variable. -/
theorem perform_member_var (h : m.env.get? base = some target) (name : String)
    (line inner depth : Nat) :
    perform (depth + 2) (.evaluate (.member line (.var inner base) name)) m =
      ofExcept (target.member name line) m := by
  rw [perform_member_of_none (constantOf?_of_binds (Environment.binds_of_get? h) name)]
  exact bind_of_ok (perform_var h inner depth)

/-- Where a variable has the name, its property is read, and nothing changes. -/
theorem property_of_perform {line inner : Nat} (hbound : m.env.binds base = true)
    (h : perform depth (.evaluate (.member line (.var inner base) name)) m = .ok value after) :
    ∃ target, m.env.get? base = some target ∧ target.member name line = .ok value ∧ after = m := by
  rw [Environment.binds_eq_isSome] at hbound
  obtain ⟨target, hget⟩ := Option.isSome_iff_exists.mp hbound
  refine ⟨target, hget, ?_⟩
  match depth with
  | 0 => cases h
  | 1 =>
    rw [perform_member_of_none (constantOf?_of_binds (Environment.binds_of_get? hget) name)] at h
    cases h
  | depth + 2 =>
    rw [perform_member_var hget] at h
    cases hmember : target.member name line with
    | error fault =>
      rw [hmember] at h
      cases h
    | ok found =>
      rw [hmember] at h
      cases h
      exact ⟨rfl, rfl⟩

/-- Where no variable has the name of an alias, only its constants are read, and nothing changes. -/
theorem constantOf?_of_perform {line inner : Nat} (hfree : m.env.binds base = false)
    (h : perform depth (.evaluate (.member line (.var inner base) name)) m = .ok value after) :
    constantOf? m base name = some value ∧ after = m := by
  cases depth with
  | zero => cases h
  | succ depth =>
    cases hconstant : constantOf? m base name with
    | some constant =>
      rw [perform_member_constant hconstant] at h
      cases h
      exact ⟨rfl, rfl⟩
    | none =>
      rw [perform_member_of_none hconstant] at h
      cases depth with
      | zero => cases h
      | succ depth =>
        have hstop : memberOf (perform (depth + 1)) (.var inner base) name line m = _ :=
          bind_of_error (perform_var_of_free hfree inner depth)
        rw [hstop] at h
        cases h

/-- Reading properties one below the other follows them, by induction on their list. -/
theorem perform_members {properties : List String} {expr : Expr} {line : Nat}
    (hexpr : ∀ line name, expr ≠ .var line name)
    (h : perform depth (.evaluate expr) m = .ok target m)
    (hfollow : target.follow line properties = .ok value) :
    perform (depth + properties.length) (.evaluate (properties.foldl (.member line) expr)) m =
      .ok value m := by
  induction properties generalizing expr target depth with
  | nil =>
    cases hfollow
    exact h
  | cons name rest ih =>
    rw [Value.follow] at hfollow
    cases hinner : target.member name line with
    | error fault =>
      rw [hinner] at hfollow
      cases hfollow
    | ok inner =>
      rw [hinner] at hfollow
      have hread := perform_member hexpr h line name
      rw [hinner] at hread
      have hrest := ih (fun _ _ => Expr.noConfusion) hread hfollow
      rwa [List.length_cons, Nat.add_comm rest.length 1, ← Nat.add_assoc]

end Job

end DecimalScript
