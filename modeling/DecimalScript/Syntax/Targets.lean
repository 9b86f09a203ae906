import DecimalScript.Syntax.Parts

/-!
# Import targets in syntax trees

The targets of a tree are those of all imports in it, also in the bodies of the functions
that it defines.
-/

namespace DecimalScript

mutual

/-- What a statement imports. -/
def Stmt.targets : Stmt → List ModuleRef
  | .use _ target _ => [target]
  | .define _ _ _ _ body => Stmt.targetsAll body
  | .branch _ _ whenTrue whenFalse => Stmt.targetsAll whenTrue ++ Stmt.targetsOption whenFalse
  | .repeatWhile _ _ body => Stmt.targetsAll body
  | .repeatOver _ _ _ body => Stmt.targetsAll body
  | .select _ _ cases otherwise => Stmt.targetsCases cases ++ Stmt.targetsOption otherwise
  | .attempt _ body _ handler => Stmt.targetsAll body ++ Stmt.targetsAll handler
  | .declare _ _ _ _ | .assign _ _ _ | .assignIndex _ _ _ _ | .assignProperty _ _ _
  | .print _ _ | .giveBack _ _ | .leave _ | .next _ | .evaluate _ => []

/-- What a block imports. -/
def Stmt.targetsAll : List Stmt → List ModuleRef
  | [] => []
  | stmt :: rest => stmt.targets ++ Stmt.targetsAll rest

/-- What a block that may be absent imports. -/
def Stmt.targetsOption : Option (List Stmt) → List ModuleRef
  | none => []
  | some body => Stmt.targetsAll body

/-- What the cases of a selection import. -/
def Stmt.targetsCases : List (Expr × List Stmt) → List ModuleRef
  | [] => []
  | (_, body) :: rest => Stmt.targetsAll body ++ Stmt.targetsCases rest

end

namespace Stmt

/-- The targets of a block are those of its statements. -/
theorem targetsAll_eq (block : Block) : targetsAll block = block.flatMap targets := by
  induction block with
  | nil => rfl
  | cons stmt rest ih => rw [targetsAll, ih, List.flatMap_cons]

/-- Blocks in a row have the targets of both. -/
@[simp] theorem targetsAll_append (first second : Block) :
    targetsAll (first ++ second) = targetsAll first ++ targetsAll second := by
  simp [targetsAll_eq]

/-- A missing block has none. -/
@[simp] theorem targetsAll_getD (block : Option Block) :
    targetsAll (block.getD []) = targetsOption block := by
  cases block <;> rfl

/-- Cases have those of their blocks. -/
theorem targetsCases_eq (cases : List (Expr × List Stmt)) :
    targetsCases cases = targetsAll (cases.flatMap (·.2)) := by
  induction cases with
  | nil => rfl
  | cons head rest ih =>
    obtain ⟨value, body⟩ := head
    simp only [targetsCases, List.flatMap_cons, targetsAll_append, ih]

/-- What a statement of a block imports, the block imports. -/
theorem mem_targetsAll {stmt : Stmt} {block : Block} {target : ModuleRef} (h : stmt ∈ block)
    (htarget : target ∈ stmt.targets) : target ∈ targetsAll block := by
  rw [targetsAll_eq]
  exact List.mem_flatMap.mpr ⟨stmt, h, htarget⟩

/-- What a part of a statement imports, the statement imports. -/
theorem mem_targets_of_mem_stmts {stmt part : Stmt} {target : ModuleRef} (hpart : part ∈ stmt.stmts)
    (h : target ∈ part.targets) : target ∈ stmt.targets := by
  have hall := mem_targetsAll hpart h
  cases stmt with
  | select line subject cases otherwise =>
    simpa only [stmts, targetsAll_append, targetsAll_getD, targets, targetsCases_eq] using hall
  | branch line condition whenTrue whenFalse =>
    simpa only [stmts, targetsAll_append, targetsAll_getD, targets] using hall
  | attempt line body failure handler =>
    simpa only [stmts, targetsAll_append, targets] using hall
  | repeatWhile line condition body => simpa only [stmts, targets] using hall
  | repeatOver line name iteration body => simpa only [stmts, targets] using hall
  | _ => cases hpart

end Stmt

end DecimalScript
