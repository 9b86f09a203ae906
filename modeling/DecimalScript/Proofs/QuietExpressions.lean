import DecimalScript.Eval.Perform
import DecimalScript.Eval.Watch
import DecimalScript.Syntax.Calls

/-!
# Expressions that do not call

Evaluating an expression that does not call reads the machine and makes lambdas, each of which takes
an identity. Nothing else of the machine changes, whether the expression has a value or not.
-/

namespace DecimalScript

namespace Eval

variable {α β : Type}

/-- An evaluation that changes no more of a machine than the identity of the next lambda. -/
def Quiet (x : Eval α) : Prop :=
  ∀ m : Machine, ∃ nextLambda, Outcome.machine (x m) = { m with nextLambda }

namespace Quiet

variable {x : Eval α} {f : α → Eval β}

/-- A value changes nothing. -/
protected theorem pure (a : α) : Quiet (pure a : Eval α) := fun m => ⟨m.nextLambda, rfl⟩

/-- A fault changes nothing. -/
theorem raise (fault : Fault) : Quiet (Eval.raise fault : Eval α) := fun m => ⟨m.nextLambda, rfl⟩

/-- Running out of depth changes nothing. -/
theorem exhausted : Quiet (Eval.exhausted : Eval α) := fun m => ⟨m.nextLambda, rfl⟩

/-- Nor does a computation with values. -/
theorem ofExcept (result : Except Fault α) : Quiet (Eval.ofExcept result) := by
  cases result with
  | ok a => exact .pure a
  | error fault => exact .raise fault

/-- A lambda takes the identity of the next one. -/
theorem newLambda (params : List String) (body : Expr) : Quiet (Eval.newLambda params body) :=
  fun m => ⟨m.nextLambda + 1, rfl⟩

/-- What it ends with a value in. -/
theorem of_ok (hx : Quiet x) {m after : Machine} {a : α} (h : x m = .ok a after) :
    ∃ nextLambda, after = { m with nextLambda } := by
  have hquiet := hx m
  rwa [h] at hquiet

/-- What reads the machine. -/
protected theorem get {f : Machine → Eval β} (hf : ∀ m, Quiet (f m)) : Quiet (get >>= f) :=
  fun m => hf m m

/-- One evaluation after another. -/
protected theorem bind (hx : Quiet x) (hf : ∀ a, Quiet (f a)) : Quiet (x >>= f) := by
  intro m
  obtain ⟨first, hfirst⟩ := hx m
  show ∃ nextLambda, Outcome.machine (EStateM.bind x f m) = { m with nextLambda }
  unfold EStateM.bind
  generalize x m = r at hfirst ⊢
  cases r with
  | error stop after => exact ⟨first, hfirst⟩
  | ok a after =>
    rw [Outcome.machine_ok] at hfirst
    obtain ⟨second, hsecond⟩ := hf a after
    refine ⟨second, hsecond.trans ?_⟩
    rw [hfirst]

variable {run : JobRunner}

/-- Expressions in a row are quiet if each of them is. -/
theorem evaluateAll {exprs : List Expr} (h : ∀ expr ∈ exprs, Quiet (run (.evaluate expr))) :
    Quiet (Eval.evaluateAll run exprs) := by
  induction exprs with
  | nil => exact .pure []
  | cons expr rest ih =>
    obtain ⟨hfirst, hrest⟩ := List.forall_mem_cons.mp h
    exact .bind hfirst fun value => .bind (ih hrest) fun values => .pure _

/-- An object literal is quiet if the values of its fields are. -/
theorem fields {entries : List (String × Expr)}
    (h : ∀ expr ∈ entries.map (·.2), Quiet (run (.evaluate expr))) (done : NameTable Value) :
    Quiet (Eval.fields run done entries) := by
  induction entries generalizing done with
  | nil => exact .pure done
  | cons entry rest ih =>
    obtain ⟨name, expr⟩ := entry
    obtain ⟨hfirst, hrest⟩ := List.forall_mem_cons.mp h
    exact .bind hfirst fun value => ih hrest _

/-- Looking up a variable changes nothing. -/
theorem readName (name : String) (line : Nat) : Quiet (Eval.readName name line) := by
  refine .get fun m => ?_
  cases m.env.get? name with
  | some value => exact .pure value
  | none => exact .raise _

/-- An operator is quiet if its operands are, the second of which may not be evaluated. -/
theorem binary {left right : Expr} (hleft : Quiet (run (.evaluate left)))
    (hright : Quiet (run (.evaluate right))) (op : BinaryOp) (line : Nat) :
    Quiet (Eval.binary run op left right line) := by
  have hstrict : ∀ op : BinaryOp, Quiet (do
      let a ← run (.evaluate left)
      let b ← run (.evaluate right)
      Eval.ofExcept (a.applyBinary op b line) : Eval Value) :=
    fun op => .bind hleft fun a => .bind hright fun b => .ofExcept _
  cases op with
  | both =>
    refine .bind hleft fun a => ?_
    split
    · exact .bind hright fun b => .pure _
    · exact .pure _
  | either =>
    refine .bind hleft fun a => ?_
    split
    · exact .pure _
    · exact .bind hright fun b => .pure _
  | _ => exact hstrict _

/-- Reading a property is quiet if finding its target is. -/
theorem memberOf {target : Expr} (h : Quiet (run (.evaluate target))) (name : String) (line : Nat) :
    Quiet (Eval.memberOf run target name line) :=
  .bind h fun _ => .ofExcept _

/-- So is reading a member, which may be a constant of an alias. -/
theorem member {target : Expr} (h : Quiet (run (.evaluate target))) (name : String) (line : Nat) :
    Quiet (Eval.member run target name line) := by
  cases target with
  | var _ aliasName =>
    refine .get fun m => ?_
    cases constantOf? m aliasName name with
    | some value => exact .pure value
    | none => exact memberOf h name line
  | _ => exact memberOf h name line

/-- An expression that does not call is quiet if its parts are. -/
theorem evaluate {expr : Expr} (hcalls : expr.calls = false)
    (hparts : ∀ part ∈ expr.parts, Quiet (run (.evaluate part))) :
    Quiet (Eval.evaluate run expr) := by
  cases expr with
  | literal line value => exact .pure _
  | var line name => exact readName name line
  | negate line operand => exact .bind (hparts operand List.mem_cons_self) fun _ => .ofExcept _
  | binary line op left right =>
    exact binary (hparts left (by simp [Expr.parts])) (hparts right (by simp [Expr.parts])) op line
  | call => cases hcalls
  | member line target name => exact member (hparts target List.mem_cons_self) name line
  | index line target position =>
    exact .bind (hparts target (by simp [Expr.parts])) fun a =>
      .bind (hparts position (by simp [Expr.parts])) fun b => .ofExcept _
  | array line elements => exact .bind (evaluateAll hparts) fun _ => .pure _
  | object line entries => exact .bind (fields hparts []) fun _ => .pure _
  | lambda line params body => exact newLambda params body

end Quiet

end Eval

/-- Evaluating an expression that does not call is quiet at any nesting. -/
theorem Job.quiet_perform (depth : Nat) {expr : Expr} (h : expr.calls = false) :
    Eval.Quiet (Job.perform depth (.evaluate expr)) := by
  induction depth generalizing expr with
  | zero => exact .exhausted
  | succ depth ih =>
    show Eval.Quiet (Eval.evaluate (fun nested => Job.perform depth nested) expr)
    exact .evaluate h fun part hpart => ih (Expr.calls_of_mem_parts h hpart)

end DecimalScript
