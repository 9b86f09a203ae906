import DecimalScript.Syntax.Parts

/-!
# Calls in syntax trees

An expression calls if it holds a call that is made when it is evaluated. A call in the body of a
lambda is not: the body runs only when the lambda is called itself.
-/

namespace DecimalScript

mutual

/-- Whether an expression holds a call outside the bodies of its lambdas. -/
def Expr.calls : Expr → Bool
  | .literal _ _ | .var _ _ | .lambda _ _ _ => false
  | .negate _ operand => operand.calls
  | .binary _ _ left right => left.calls || right.calls
  | .call _ _ _ => true
  | .member _ target _ => target.calls
  | .index _ target position => target.calls || position.calls
  | .array _ elements => Expr.callsAny elements
  | .object _ fields => Expr.callsFields fields

/-- Whether one of several expressions calls. -/
def Expr.callsAny : List Expr → Bool
  | [] => false
  | expr :: rest => expr.calls || Expr.callsAny rest

/-- Whether one of the fields of an object calls. -/
def Expr.callsFields : List (String × Expr) → Bool
  | [] => false
  | (_, expr) :: rest => expr.calls || Expr.callsFields rest

end

namespace Expr

theorem calls_of_callsAny {exprs : List Expr} (h : callsAny exprs = false) {expr : Expr}
    (hexpr : expr ∈ exprs) : expr.calls = false := by
  induction exprs with
  | nil => cases hexpr
  | cons first rest ih =>
    obtain ⟨hfirst, hrest⟩ := Bool.or_eq_false_iff.mp h
    rcases List.mem_cons.mp hexpr with rfl | hlater
    · exact hfirst
    · exact ih hrest hlater

theorem callsAny_map_fields (fields : List (String × Expr)) :
    callsAny (fields.map (·.2)) = callsFields fields := by
  induction fields with
  | nil => rfl
  | cons field rest ih =>
    obtain ⟨name, expr⟩ := field
    rw [List.map_cons, callsAny, callsFields, ih]

/-- The parts of an expression that does not call do not either. -/
theorem calls_of_mem_parts {expr part : Expr} (h : expr.calls = false) (hpart : part ∈ expr.parts) :
    part.calls = false := by
  cases expr with
  | literal | var | lambda => cases hpart
  | call => cases h
  | negate line operand => exact List.mem_singleton.mp hpart ▸ h
  | member line target name => exact List.mem_singleton.mp hpart ▸ h
  | array line elements => exact calls_of_callsAny h hpart
  | binary line op left right =>
    exact calls_of_callsAny (by simpa [callsAny, calls, parts] using h) hpart
  | index line target position =>
    exact calls_of_callsAny (by simpa [callsAny, calls, parts] using h) hpart
  | object line fields =>
    rw [calls, ← callsAny_map_fields] at h
    exact calls_of_callsAny h hpart

end Expr

/-- Whether a constant of a program calls. -/
def Block.constantsCall (program : Block) : Bool := program.any fun
  | .declare _ _ _ value => value.calls
  | _ => false

end DecimalScript
