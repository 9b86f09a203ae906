import DecimalScript.Syntax.Leaves
import DecimalScript.Syntax.Parts

/-!
# Names that syntax does not mention

A tree mentions a name if one of its leaves is the name, as a variable, a parameter, a member or a
type. What a tree does not mention none of its parts mentions, nor do the bodies of its lambdas and
definitions.
-/

namespace DecimalScript

variable {name : String} {leaf : Leaf}

/-- An expression does not mention a name. -/
def Expr.Avoids (name : String) (expr : Expr) : Prop := Leaf.name name ∉ expr.leaves

/-- A statement does not mention a name. -/
def Stmt.Avoids (name : String) (stmt : Stmt) : Prop := Leaf.name name ∉ stmt.leaves

/-- No statement of a block mentions a name. -/
def Block.Avoids (name : String) (block : Block) : Prop := ∀ stmt ∈ block, stmt.Avoids name

instance (name : String) (expr : Expr) : Decidable (expr.Avoids name) :=
  inferInstanceAs (Decidable (Leaf.name name ∉ expr.leaves))

instance (name : String) (stmt : Stmt) : Decidable (stmt.Avoids name) :=
  inferInstanceAs (Decidable (Leaf.name name ∉ stmt.leaves))

instance (name : String) (block : Block) : Decidable (Block.Avoids name block) :=
  inferInstanceAs (Decidable (∀ stmt ∈ block, stmt.Avoids name))

namespace Expr

/-- A leaf of an expression is one of its list. -/
theorem mem_leavesAll {expr : Expr} {exprs : List Expr} (hexpr : expr ∈ exprs)
    (hleaf : leaf ∈ expr.leaves) : leaf ∈ leavesAll exprs := by
  induction exprs with
  | nil => cases hexpr
  | cons first rest ih =>
    rw [leavesAll]
    rcases List.mem_cons.mp hexpr with rfl | hlater
    · exact List.mem_append_left _ hleaf
    · exact List.mem_append_right _ (ih hlater)

/-- A leaf of the value of a field is one of the object. -/
theorem mem_leavesFields {field : String × Expr} {fields : List (String × Expr)}
    (hfield : field ∈ fields) (hleaf : leaf ∈ field.2.leaves) : leaf ∈ leavesFields fields := by
  induction fields with
  | nil => cases hfield
  | cons first rest ih =>
    obtain ⟨title, expr⟩ := first
    rw [leavesFields]
    refine List.mem_cons_of_mem _ ?_
    rcases List.mem_cons.mp hfield with rfl | hlater
    · exact List.mem_append_left _ hleaf
    · exact List.mem_append_right _ (ih hlater)

/-- The leaves of a part are leaves of the expression. -/
theorem mem_leaves_of_mem_parts {expr part : Expr} (hpart : part ∈ expr.parts)
    (hleaf : leaf ∈ part.leaves) : leaf ∈ expr.leaves := by
  cases expr with
  | literal | var | lambda => cases hpart
  | negate line operand =>
    rw [List.mem_singleton.mp hpart] at hleaf
    exact List.mem_cons_of_mem _ hleaf
  | binary line op left right =>
    obtain rfl | rfl : part = left ∨ part = right := by simpa [parts] using hpart
    all_goals rw [leaves, List.mem_append, List.mem_cons]
    · exact .inl hleaf
    · exact .inr (.inr hleaf)
  | call line callee arguments =>
    rw [leaves, List.mem_append]
    rcases List.mem_cons.mp hpart with rfl | hargument
    · exact .inl hleaf
    · exact .inr (mem_leavesAll hargument hleaf)
  | member line target title =>
    rw [List.mem_singleton.mp hpart] at hleaf
    exact List.mem_append_left _ hleaf
  | index line target position =>
    obtain rfl | rfl : part = target ∨ part = position := by simpa [parts] using hpart
    all_goals rw [leaves, List.mem_append]
    · exact .inl hleaf
    · exact .inr hleaf
  | array line elements => exact mem_leavesAll hpart hleaf
  | object line fields =>
    obtain ⟨field, hfield, rfl⟩ := List.mem_map.mp hpart
    exact mem_leavesFields hfield hleaf

/-- The parts of an expression mention no more than it does. -/
theorem Avoids.part {expr part : Expr} (h : expr.Avoids name) (hpart : part ∈ expr.parts) :
    part.Avoids name :=
  fun hleaf => h (mem_leaves_of_mem_parts hpart hleaf)

/-- The body of a lambda mentions no more than the lambda does. -/
theorem Avoids.lambdaBody {line : Nat} {params : List String} {body : Expr}
    (h : (lambda line params body).Avoids name) : body.Avoids name :=
  fun hleaf => h (List.mem_append_right _ hleaf)

/-- A variable that does not mention a name is another one. -/
theorem Avoids.var_ne {line : Nat} {other : String} (h : (var line other).Avoids name) :
    other ≠ name := by
  rintro rfl
  exact h (List.mem_singleton.mpr rfl)

end Expr

/-- The leaves of what tells a loop what to run over are leaves of the loop. -/
theorem Iteration.mem_leaves {iteration : Iteration} {expr : Expr} (hexpr : expr ∈ iteration.exprs)
    (hleaf : leaf ∈ expr.leaves) : leaf ∈ iteration.leaves := by
  cases iteration with
  | range start stop =>
    obtain rfl | rfl : expr = start ∨ expr = stop := by simpa [exprs] using hexpr
    all_goals rw [leaves, List.mem_append]
    · exact .inl hleaf
    · exact .inr hleaf
  | step start stop width | countdown start stop width =>
    obtain rfl | rfl | rfl : expr = start ∨ expr = stop ∨ expr = width := by
      simpa [exprs] using hexpr
    all_goals rw [leaves, List.mem_append, List.mem_append]
    · exact .inl hleaf
    · exact .inr (.inl hleaf)
    · exact .inr (.inr hleaf)
  | items value =>
    rw [List.mem_singleton.mp hexpr] at hleaf
    exact hleaf

namespace Stmt

/-- A leaf of a statement is one of its block. -/
theorem mem_leavesAll {stmt : Stmt} {block : Block} (hstmt : stmt ∈ block)
    (hleaf : leaf ∈ stmt.leaves) : leaf ∈ leavesAll block := by
  induction block with
  | nil => cases hstmt
  | cons first rest ih =>
    rw [leavesAll]
    rcases List.mem_cons.mp hstmt with rfl | hlater
    · exact List.mem_append_left _ hleaf
    · exact List.mem_append_right _ (ih hlater)

/-- So it is where the block may be missing. -/
theorem mem_leavesOption {stmt : Stmt} {block : Option Block} (hstmt : stmt ∈ block.getD [])
    (hleaf : leaf ∈ stmt.leaves) : leaf ∈ leavesOption block := by
  cases block with
  | none => cases hstmt
  | some body => exact mem_leavesAll hstmt hleaf

/-- A leaf of the value of a case is one of the cases. -/
theorem mem_leavesCases_of_value {value : Expr} {cases : List (Expr × Block)}
    (hvalue : value ∈ cases.map (·.1)) (hleaf : leaf ∈ value.leaves) :
    leaf ∈ leavesCases cases := by
  induction cases with
  | nil => cases hvalue
  | cons first rest ih =>
    obtain ⟨head, body⟩ := first
    rw [leavesCases, List.mem_append, List.mem_append]
    rcases List.mem_cons.mp hvalue with rfl | hlater
    · exact .inl hleaf
    · exact .inr (.inr (ih hlater))

/-- So is a leaf of its block. -/
theorem mem_leavesCases_of_body {stmt : Stmt} {cases : List (Expr × Block)}
    (hstmt : stmt ∈ cases.flatMap (·.2)) (hleaf : leaf ∈ stmt.leaves) :
    leaf ∈ leavesCases cases := by
  induction cases with
  | nil => cases hstmt
  | cons first rest ih =>
    obtain ⟨head, body⟩ := first
    rw [leavesCases, List.mem_append, List.mem_append]
    rw [List.flatMap_cons] at hstmt
    rcases List.mem_append.mp hstmt with hbody | hlater
    · exact .inr (.inl (mem_leavesAll hbody hleaf))
    · exact .inr (.inr (ih hlater))

/-- The leaves of an expression of a statement are leaves of the statement. -/
theorem mem_leaves_of_mem_exprs {stmt : Stmt} {expr : Expr} (hexpr : expr ∈ stmt.exprs)
    (hleaf : leaf ∈ expr.leaves) : leaf ∈ stmt.leaves := by
  cases stmt with
  | use | define | attempt | leave | next => cases hexpr
  | declare line title typed value =>
    rw [List.mem_singleton.mp hexpr] at hleaf
    exact List.mem_cons_of_mem _ (List.mem_append_right _ hleaf)
  | assign line title value =>
    rw [List.mem_singleton.mp hexpr] at hleaf
    exact List.mem_cons_of_mem _ hleaf
  | assignIndex line title index value =>
    obtain rfl | rfl : expr = index ∨ expr = value := by simpa [exprs] using hexpr
    · exact List.mem_cons_of_mem _ (List.mem_append_left _ hleaf)
    · exact List.mem_cons_of_mem _ (List.mem_append_right _ hleaf)
  | assignProperty line path value =>
    rw [List.mem_singleton.mp hexpr] at hleaf
    exact List.mem_cons_of_mem _ (List.mem_append_right _ hleaf)
  | branch line condition whenTrue whenFalse =>
    rw [List.mem_singleton.mp hexpr] at hleaf
    exact List.mem_append_left _ hleaf
  | repeatWhile line condition body =>
    rw [List.mem_singleton.mp hexpr] at hleaf
    exact List.mem_append_left _ hleaf
  | repeatOver line title iteration body =>
    exact List.mem_cons_of_mem _ (List.mem_append_left _ (Iteration.mem_leaves hexpr hleaf))
  | select line subject cases otherwise =>
    rw [leaves, List.mem_append, List.mem_append]
    rcases List.mem_cons.mp hexpr with rfl | hvalue
    · exact .inl hleaf
    · exact .inr (.inl (mem_leavesCases_of_value hvalue hleaf))
  | print line arguments => exact Expr.mem_leavesAll hexpr hleaf
  | giveBack line value =>
    cases value with
    | none => cases hexpr
    | some value =>
      rw [List.mem_singleton.mp hexpr] at hleaf
      exact hleaf
  | evaluate value =>
    rw [List.mem_singleton.mp hexpr] at hleaf
    exact hleaf

/-- The leaves of a statement of a statement are leaves of the statement. -/
theorem mem_leaves_of_mem_stmts {stmt part : Stmt} (hpart : part ∈ stmt.stmts)
    (hleaf : leaf ∈ part.leaves) : leaf ∈ stmt.leaves := by
  cases stmt with
  | branch line condition whenTrue whenFalse =>
    refine List.mem_append_right _ (List.mem_append.mpr ?_)
    rcases List.mem_append.mp hpart with htrue | hfalse
    · exact .inl (mem_leavesAll htrue hleaf)
    · exact .inr (mem_leavesOption hfalse hleaf)
  | repeatWhile line condition body => exact List.mem_append_right _ (mem_leavesAll hpart hleaf)
  | repeatOver line title iteration body =>
    exact List.mem_cons_of_mem _ (List.mem_append_right _ (mem_leavesAll hpart hleaf))
  | select line subject cases otherwise =>
    refine List.mem_append_right _ (List.mem_append.mpr ?_)
    rcases List.mem_append.mp hpart with hcase | hdefault
    · exact .inl (mem_leavesCases_of_body hcase hleaf)
    · exact .inr (mem_leavesOption hdefault hleaf)
  | attempt line body failure handler =>
    rw [leaves, List.mem_append, List.mem_cons]
    rcases List.mem_append.mp hpart with hbody | hhandler
    · exact .inl (mem_leavesAll hbody hleaf)
    · exact .inr (.inr (mem_leavesAll hhandler hleaf))
  | use | declare | assign | assignIndex | assignProperty | define | print | giveBack | leave
  | next | evaluate => cases hpart

/-- The expressions of a statement mention no more than it does. -/
theorem Avoids.expr {stmt : Stmt} {expr : Expr} (h : stmt.Avoids name)
    (hexpr : expr ∈ stmt.exprs) : expr.Avoids name :=
  fun hleaf => h (mem_leaves_of_mem_exprs hexpr hleaf)

/-- The statements of a statement mention no more than it does. -/
theorem Avoids.stmt {stmt part : Stmt} (h : stmt.Avoids name) (hpart : part ∈ stmt.stmts) :
    part.Avoids name :=
  fun hleaf => h (mem_leaves_of_mem_stmts hpart hleaf)

/-- The body of a definition mentions no more than the definition does. -/
theorem Avoids.definitionBody {line : Nat} {title : String} {params : List Parameter}
    {returnType : Option TypeName} {body : Block}
    (h : (define line title params returnType body).Avoids name) : Block.Avoids name body :=
  fun _ hstmt hleaf => h (List.mem_cons_of_mem _ (List.mem_append_right _
    (List.mem_append_right _ (mem_leavesAll hstmt hleaf))))

/-- A statement that does not mention a name declares or assigns another one. -/
theorem Avoids.ne {stmt : Stmt} {other : String} {rest : List Leaf} (h : stmt.Avoids name)
    (hleaves : stmt.leaves = .name other :: rest) : other ≠ name := by
  rintro rfl
  exact h (hleaves ▸ List.mem_cons_self)

end Stmt

end DecimalScript
