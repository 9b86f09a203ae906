import DecimalScript.Syntax.Imports
import DecimalScript.Syntax.Size

/-!
# Immediate parts of syntax trees

What is evaluated or executed as part of a tree: the operands of an expression, the
expressions of a statement and the statements of its blocks. The bodies of lambdas and
definitions are left out, since they run in calls only. Parts are smaller than the tree,
and a tree without imports has no part with one.
-/

namespace DecimalScript

namespace Expr

/-- The expressions that an expression is computed from. -/
def parts : Expr → List Expr
  | .literal _ _ | .var _ _ | .lambda _ _ _ => []
  | .negate _ operand => [operand]
  | .binary _ _ left right => [left, right]
  | .call _ callee arguments => callee :: arguments
  | .member _ target _ => [target]
  | .index _ target position => [target, position]
  | .array _ elements => elements
  | .object _ fields => fields.map (·.2)

/-- Every expression has a node. -/
theorem size_pos (expr : Expr) : 0 < expr.size := by
  cases expr <;> simp only [size] <;> omega

/-- An expression of a list is no larger than the list. -/
theorem size_le_of_mem {expr : Expr} {exprs : List Expr} (h : expr ∈ exprs) :
    expr.size ≤ sizeAll exprs := by
  induction exprs with
  | nil => cases h
  | cons head rest ih =>
    simp only [sizeAll]
    rcases List.mem_cons.mp h with rfl | hrest
    · omega
    · have := ih hrest
      omega

/-- The fields of an object are as large as their values. -/
theorem sizeAll_map_fields (fields : List (String × Expr)) :
    sizeAll (fields.map (·.2)) = sizeFields fields := by
  induction fields with
  | nil => rfl
  | cons head rest ih =>
    obtain ⟨name, expr⟩ := head
    simp only [List.map_cons, sizeAll, sizeFields, ih]

/-- The parts of an expression are smaller than it. -/
theorem size_lt_of_mem_parts {expr part : Expr} (h : part ∈ expr.parts) :
    part.size < expr.size := by
  have hle := size_le_of_mem h
  have hall : sizeAll expr.parts < expr.size := by
    cases expr with
    | object line fields =>
      simp only [parts, sizeAll_map_fields, size]
      omega
    | _ =>
      simp only [parts, sizeAll, size]
      omega
  omega

end Expr

/-- The expressions that tell what a loop runs over. -/
def Iteration.exprs : Iteration → List Expr
  | .range start stop => [start, stop]
  | .step start stop width | .countdown start stop width => [start, stop, width]
  | .items value => [value]

/-- What a loop runs over is as large as its expressions. -/
theorem Iteration.sizeAll_exprs (iteration : Iteration) :
    Expr.sizeAll iteration.exprs = iteration.size := by
  cases iteration <;> simp only [exprs, Expr.sizeAll, size] <;> omega

namespace Stmt

/-- The expressions that are evaluated as part of a statement. -/
def exprs : Stmt → List Expr
  | .use _ _ _ | .define _ _ _ _ _ | .attempt _ _ _ _ | .leave _ | .next _ => []
  | .declare _ _ _ value | .assign _ _ value | .assignProperty _ _ value => [value]
  | .assignIndex _ _ index value => [index, value]
  | .branch _ condition _ _ | .repeatWhile _ condition _ => [condition]
  | .repeatOver _ _ iteration _ => iteration.exprs
  | .select _ subject cases _ => subject :: cases.map (·.1)
  | .print _ arguments => arguments
  | .giveBack _ value => value.toList
  | .evaluate value => [value]

/-- The statements that are executed as part of a statement. -/
def stmts : Stmt → Block
  | .branch _ _ whenTrue whenFalse => whenTrue ++ whenFalse.getD []
  | .repeatWhile _ _ body | .repeatOver _ _ _ body => body
  | .select _ _ cases otherwise => cases.flatMap (·.2) ++ otherwise.getD []
  | .attempt _ body _ handler => body ++ handler
  | .use _ _ _ | .declare _ _ _ _ | .assign _ _ _ | .assignIndex _ _ _ _
  | .assignProperty _ _ _ | .define _ _ _ _ _ | .print _ _ | .giveBack _ _ | .leave _ | .next _
  | .evaluate _ => []

/-- Every statement has a node. -/
theorem size_pos (stmt : Stmt) : 0 < stmt.size := by
  cases stmt with
  | giveBack line value => cases value <;> simp only [size] <;> omega
  | _ =>
    simp only [size]
    omega

/-- A statement of a block is no larger than the block. -/
theorem size_le_of_mem {stmt : Stmt} {block : Block} (h : stmt ∈ block) :
    stmt.size ≤ sizeAll block := by
  induction block with
  | nil => cases h
  | cons head rest ih =>
    simp only [sizeAll]
    rcases List.mem_cons.mp h with rfl | hrest
    · omega
    · have := ih hrest
      omega

/-- Blocks in a row are as large as both. -/
@[simp] theorem sizeAll_append (first second : Block) :
    sizeAll (first ++ second) = sizeAll first + sizeAll second := by
  induction first with
  | nil => simp [sizeAll]
  | cons stmt rest ih =>
    simp only [List.cons_append, sizeAll, ih]
    omega

/-- A missing block is as large as an empty one. -/
@[simp] theorem sizeAll_getD (block : Option Block) :
    sizeAll (block.getD []) = sizeOption block := by
  cases block <;> rfl

/-- Cases are as large as their values and their blocks. -/
theorem sizeCases_eq (cases : List (Expr × List Stmt)) :
    sizeCases cases = Expr.sizeAll (cases.map (·.1)) + sizeAll (cases.flatMap (·.2)) := by
  induction cases with
  | nil => rfl
  | cons head rest ih =>
    obtain ⟨value, body⟩ := head
    simp only [sizeCases, List.map_cons, Expr.sizeAll, List.flatMap_cons, sizeAll_append, ih]
    omega

/-- The parts of a statement are together smaller than it. -/
theorem size_parts_lt (stmt : Stmt) :
    Expr.sizeAll stmt.exprs + sizeAll stmt.stmts < stmt.size := by
  cases stmt with
  | select line subject cases otherwise =>
    simp only [exprs, stmts, Expr.sizeAll, sizeAll_append, sizeAll_getD, size, sizeCases_eq]
    omega
  | repeatOver line name iteration body =>
    simp only [exprs, stmts, Iteration.sizeAll_exprs, size]
    omega
  | giveBack line value =>
    cases value <;> simp only [exprs, stmts, Option.toList, Expr.sizeAll, sizeAll, size] <;> omega
  | _ =>
    simp only [exprs, stmts, Expr.sizeAll, sizeAll, sizeAll_append, sizeAll_getD, size]
    omega

/-- An expression of a statement is smaller than the statement. -/
theorem size_lt_of_mem_exprs {stmt : Stmt} {part : Expr} (h : part ∈ stmt.exprs) :
    part.size < stmt.size := by
  have := Expr.size_le_of_mem h
  have := stmt.size_parts_lt
  omega

/-- So is a statement inside it. -/
theorem size_lt_of_mem_stmts {stmt part : Stmt} (h : part ∈ stmt.stmts) :
    part.size < stmt.size := by
  have := size_le_of_mem h
  have := stmt.size_parts_lt
  omega

/-- A block imports nothing if none of its statements does. -/
theorem importsAny_eq_false {block : Block} :
    importsAny block = false ↔ ∀ stmt ∈ block, stmt.imports = false := by
  induction block with
  | nil => simp [importsAny]
  | cons stmt rest ih => simp [importsAny, ih]

/-- Blocks in a row import what one of them does. -/
@[simp] theorem importsAny_append (first second : Block) :
    importsAny (first ++ second) = (importsAny first || importsAny second) := by
  induction first with
  | nil => simp [importsAny]
  | cons stmt rest ih => simp [importsAny, ih, Bool.or_assoc]

/-- A missing block imports nothing. -/
@[simp] theorem importsAny_getD (block : Option Block) :
    importsAny (block.getD []) = importsOption block := by
  cases block <;> rfl

/-- Cases import what their blocks do. -/
theorem importsCases_eq (cases : List (Expr × List Stmt)) :
    importsCases cases = importsAny (cases.flatMap (·.2)) := by
  induction cases with
  | nil => rfl
  | cons head rest ih =>
    obtain ⟨value, body⟩ := head
    simp only [importsCases, List.flatMap_cons, importsAny_append, ih]

/-- The parts of a statement without imports have none. -/
theorem imports_of_mem_stmts {stmt part : Stmt} (h : stmt.imports = false)
    (hpart : part ∈ stmt.stmts) : part.imports = false := by
  have hall : importsAny stmt.stmts = false := by
    cases stmt with
    | select line subject cases otherwise =>
      simpa only [stmts, importsAny_append, importsAny_getD, imports, importsCases_eq] using h
    | branch line condition whenTrue whenFalse =>
      simpa only [stmts, importsAny_append, importsAny_getD, imports] using h
    | attempt line body failure handler =>
      simpa only [stmts, importsAny_append, imports] using h
    | repeatWhile line condition body => simpa only [stmts, imports] using h
    | repeatOver line name iteration body => simpa only [stmts, imports] using h
    | _ => rfl
  exact importsAny_eq_false.mp hall part hpart

end Stmt

end DecimalScript
