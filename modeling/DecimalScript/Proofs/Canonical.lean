import DecimalScript.Proofs.GrammarPrograms
import DecimalScript.Syntax.Canonical

/-!
# What is read is canonical

Whatever a production replaces is canonical if its pieces are, and tokens have nothing
that could fail to be. So all that tokens spell is canonical.
-/

namespace DecimalScript

/-- Expressions are canonical if each of them is. -/
theorem Expr.canonicalAll_iff {exprs : List Expr} :
    CanonicalAll exprs ↔ ∀ expr ∈ exprs, expr.Canonical := by
  induction exprs with
  | nil => simp [CanonicalAll]
  | cons expr rest ih => simp [CanonicalAll, ih]

/-- Fields are canonical if their values are. -/
theorem Expr.canonicalFields_iff {fields : List (String × Expr)} :
    CanonicalFields fields ↔ ∀ field ∈ fields, field.2.Canonical := by
  induction fields with
  | nil => simp [CanonicalFields]
  | cons field rest ih => simp [CanonicalFields, ih]

/-- A block is canonical if its statements are. -/
theorem Stmt.canonicalAll_iff {body : Block} :
    CanonicalAll body ↔ ∀ stmt ∈ body, stmt.Canonical := by
  induction body with
  | nil => simp [CanonicalAll]
  | cons stmt rest ih => simp [CanonicalAll, ih]

/-- Cases are canonical if their values and bodies are. -/
theorem Stmt.canonicalCases_iff {cases : List (Expr × Block)} :
    CanonicalCases cases ↔ ∀ item ∈ cases, item.1.Canonical ∧ CanonicalAll item.2 := by
  induction cases with
  | nil => simp [CanonicalCases]
  | cons item rest ih => simp [CanonicalCases, ih, and_assoc]

/-- An operand may be bound by a declaration. -/
theorem Expr.Canonical.initializer {expr : Expr} (h : expr.Canonical) :
    expr.CanonicalInitializer := by
  cases expr with
  | lambda line params body => exact h.elim
  | _ => exact h

namespace Piece

/-- Whether what a piece stands for is canonical. -/
def Canonical : Piece → Prop
  | mark _ | leaf _ | semicolon => True
  | expression _ expr | operand expr | primary expr => expr.Canonical
  | initializer expr => expr.CanonicalInitializer
  | chain whole | stmt whole => whole.Canonical

/-- Tokens that the tree does not keep have nothing that could fail to be canonical. -/
@[simp] theorem canonical_mark (kind : TokenKind) : (mark kind).Canonical := trivial

/-- Nor have those that it keeps. -/
@[simp] theorem canonical_leaf (kept : Leaf) : (leaf kept).Canonical := trivial

@[simp] theorem canonical_semicolon : semicolon.Canonical := trivial

/-- A place for an expression passes the question on, at every level. -/
@[simp] theorem canonical_expression (level : Nat) (expr : Expr) :
    (expression level expr).Canonical ↔ expr.Canonical := Iff.rfl

@[simp] theorem canonical_operand (expr : Expr) :
    (operand expr).Canonical ↔ expr.Canonical := Iff.rfl

@[simp] theorem canonical_primary (expr : Expr) :
    (primary expr).Canonical ↔ expr.Canonical := Iff.rfl

/-- What a declaration binds may be a lambda. -/
@[simp] theorem canonical_initializer (expr : Expr) :
    (initializer expr).Canonical ↔ expr.CanonicalInitializer := Iff.rfl

/-- A chain of branches is canonical as the statement between whose words it stands. -/
@[simp] theorem canonical_chain (whole : Stmt) : (chain whole).Canonical ↔ whole.Canonical :=
  Iff.rfl

@[simp] theorem canonical_stmt (whole : Stmt) : (stmt whole).Canonical ↔ whole.Canonical :=
  Iff.rfl

/-- Commas between items change nothing. -/
@[simp] theorem canonical_commas (items : List (List Piece)) :
    (∀ piece ∈ commas items, piece.Canonical) ↔
      ∀ item ∈ items, ∀ piece ∈ item, piece.Canonical := by
  fun_induction commas items with
  | case1 => simp
  | case2 item => simp
  | case3 item next rest ih => simp [or_imp, forall_and, ih]

/-- Expressions between commas are canonical if the list of them is. -/
@[simp] theorem canonical_expressions (exprs : List Expr) :
    (∀ piece ∈ expressions exprs, piece.Canonical) ↔ Expr.CanonicalAll exprs := by
  rw [expressions, canonical_commas, Expr.canonicalAll_iff]
  simp

/-- Fields between commas are canonical if the list of them is. -/
theorem canonical_fields (fields : List (String × Expr)) :
    (∀ piece ∈ commas (fields.map Expr.fieldPieces), piece.Canonical) ↔
      Expr.CanonicalFields fields := by
  rw [canonical_commas, Expr.canonicalFields_iff, List.forall_mem_map]
  simp [Expr.fieldPieces]

/-- The pieces of a block are canonical if the block is. -/
@[simp] theorem canonical_block (body : Block) :
    (∀ piece ∈ block body, piece.Canonical) ↔ Stmt.CanonicalAll body := by
  rw [block, Stmt.canonicalAll_iff]
  simp

/-- The pieces of cases are canonical if the cases are. -/
theorem canonical_cases (cases : List (Expr × Block)) :
    (∀ piece ∈ cases.flatMap Stmt.casePieces, piece.Canonical) ↔ Stmt.CanonicalCases cases := by
  rw [Stmt.canonicalCases_iff, List.forall_mem_flatMap]
  simp [Stmt.casePieces]

/-- The pieces of a default are canonical if there is none or it is. -/
@[simp] theorem canonical_otherwise (body : Option Block) :
    (∀ piece ∈ Stmt.otherwisePieces body, piece.Canonical) ↔ Stmt.CanonicalOption body := by
  cases body with
  | none => simp [Stmt.otherwisePieces, Stmt.CanonicalOption]
  | some body => simp [Stmt.otherwisePieces, Stmt.CanonicalOption]

/-- The pieces of an iteration are canonical if the iteration is. -/
@[simp] theorem canonical_iteration (iteration : Iteration) :
    (∀ piece ∈ iteration.pieces, piece.Canonical) ↔ iteration.Canonical := by
  cases iteration <;> simp [Iteration.pieces, Iteration.Canonical]

end Piece

/-- What a production replaces is canonical if its pieces are. -/
theorem Production.canonical {piece : Piece} {parts : List Piece} (h : Production piece parts)
    (hparts : ∀ part ∈ parts, part.Canonical) : piece.Canonical := by
  cases h with
  | negate line value => exact ⟨value, rfl⟩
  | expression expr => exact (hparts _ (List.mem_singleton_self _)).initializer
  | giveBack line value => cases value <;> simp_all [Stmt.Canonical]
  | object line fields =>
    simp only [List.forall_mem_cons, List.forall_mem_append] at hparts
    exact (Piece.canonical_fields fields).mp hparts.2.1
  | select line subject cases otherwise =>
    simp only [List.forall_mem_cons, List.forall_mem_append] at hparts
    obtain ⟨-, hsubject, -, hcases, hotherwise, -⟩ := hparts
    exact ⟨hsubject, (Piece.canonical_cases cases).mp hcases,
      (Piece.canonical_otherwise otherwise).mp hotherwise⟩
  | _ =>
    simp_all [or_imp, forall_and, Expr.Canonical, Expr.CanonicalInitializer, Stmt.Canonical,
      Stmt.CanonicalOption, Stmt.CanonicalAll, Stmt.signature]

/-- What tokens spell is canonical. -/
theorem Spells.canonical {pieces : List Piece} {tokens rest : List Token}
    (h : Spells pieces tokens rest) : ∀ piece ∈ pieces, piece.Canonical := by
  induction h with
  | nil => exact List.forall_mem_nil _
  | mark _ _ _ _ ih => exact List.forall_mem_cons.mpr ⟨trivial, ih⟩
  | leaf _ _ _ ih => exact List.forall_mem_cons.mpr ⟨trivial, ih⟩
  | expand hproduction _ ih =>
    obtain ⟨hparts, hpieces⟩ := List.forall_mem_append.mp ih
    exact List.forall_mem_cons.mpr ⟨hproduction.canonical hparts, hpieces⟩

/-- A program that is read is canonical. -/
theorem Block.canonical_of_ofTokens {tokens : List Token} {program : Block}
    (h : ofTokens tokens = .ok program) : Stmt.CanonicalAll program := by
  obtain ⟨rest, hspells, _⟩ := spells_of_ofTokens h
  exact (Piece.canonical_block program).mp hspells.canonical

end DecimalScript
