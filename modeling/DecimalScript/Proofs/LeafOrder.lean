import Mathlib.Data.List.Forall2
import DecimalScript.Proofs.GrammarPrograms

/-!
# Programs keep their tokens in order

A production distributes the leaves of what it replaces over its pieces, from left to
right. So the leaves of what tokens spell are these tokens, in order and each once, but
for the tokens that only shape the tree; and the leaves of a program are the tokens of its
source that a tree keeps.
-/

namespace DecimalScript

namespace Piece

/-- The leaves of a piece. -/
def leaves : Piece → List Leaf
  | mark _ | semicolon => []
  | leaf kept => [kept]
  | expression _ expr | operand expr | primary expr | initializer expr => expr.leaves
  | chain whole | stmt whole => whole.leaves

/-- Commas between items hold no leaves. -/
@[simp] theorem leaves_commas (items : List (List Piece)) :
    (commas items).flatMap leaves = items.flatMap fun item => item.flatMap leaves := by
  fun_induction commas items with
  | case1 => rfl
  | case2 item => simp
  | case3 item next rest ih => simp_all [leaves]

/-- The leaves of a block are those of its statements. -/
@[simp] theorem leaves_block (body : Block) :
    (block body).flatMap leaves = Stmt.leavesAll body := by
  induction body with
  | nil => rfl
  | cons stmt rest ih =>
    rw [block, List.map_cons, List.flatMap_cons, ← block, ih]
    rfl

/-- The leaves of a list are those of its expressions. -/
@[simp] theorem leaves_expressions (exprs : List Expr) :
    (expressions exprs).flatMap leaves = Expr.leavesAll exprs := by
  rw [expressions, leaves_commas]
  induction exprs with
  | nil => rfl
  | cons expr rest ih =>
    rw [List.map_cons, List.flatMap_cons, ih]
    simp [leaves, Expr.leavesAll]

/-- Each field has its name before the leaves of its value. -/
@[simp] theorem leaves_fields (fields : List (String × Expr)) :
    (fields.map Expr.fieldPieces).flatMap (fun item => item.flatMap leaves) =
      Expr.leavesFields fields := by
  induction fields with
  | nil => rfl
  | cons field rest ih =>
    obtain ⟨name, expr⟩ := field
    rw [List.map_cons, List.flatMap_cons, ih]
    simp [Expr.fieldPieces, leaves, Expr.leavesFields]

/-- An annotation keeps the name of a type, unless it is one of the language. -/
@[simp] theorem leaves_annotation (mark : Symbol) (typed : Option TypeName) :
    (TypeName.annotation mark typed).flatMap leaves = TypeName.leaves typed := by
  cases typed with
  | none => rfl
  | some typed => cases typed <;> rfl

/-- Each parameter has its name before that of its type. -/
@[simp] theorem leaves_parameters (params : List Parameter) :
    (params.map Parameter.pieces).flatMap (fun item => item.flatMap leaves) =
      params.flatMap Parameter.leaves := by
  simp only [List.flatMap_map, Parameter.pieces, List.flatMap_cons, leaves_annotation]
  rfl

/-- Names in a list are leaves themselves. -/
@[simp] theorem leaves_names (names : List String) :
    (names.map fun id => [name id]).flatMap (fun item => item.flatMap leaves) =
      names.map Leaf.name := by
  rw [List.flatMap_map]
  exact List.map_eq_flatMap.symm

/-- The cases of a choice have the leaves of their values before those of their blocks. -/
@[simp] theorem leaves_cases (cases : List (Expr × Block)) :
    (cases.flatMap Stmt.casePieces).flatMap leaves = Stmt.leavesCases cases := by
  induction cases with
  | nil => rfl
  | cons item rest ih =>
    obtain ⟨value, body⟩ := item
    rw [List.flatMap_cons, List.flatMap_append, ih]
    simp [Stmt.casePieces, leaves, Stmt.leavesCases]

/-- The word before the block without a case is no leaf. -/
@[simp] theorem leaves_otherwise (body : Option Block) :
    (Stmt.otherwisePieces body).flatMap leaves = Stmt.leavesOption body := by
  cases body with
  | none => rfl
  | some body => simp [Stmt.otherwisePieces, leaves, Stmt.leavesOption]

/-- The properties of a path are leaves, and the dots are not. -/
@[simp] theorem leaves_path (path : PropertyPath) :
    path.pieces.flatMap leaves = path.properties.map Leaf.name := by
  rw [PropertyPath.pieces]
  induction path.properties with
  | nil => rfl
  | cons property rest ih =>
    rw [List.flatMap_cons, List.flatMap_append, ih]
    rfl

/-- What a loop runs over has the leaves of its expressions. -/
@[simp] theorem leaves_iteration (iteration : Iteration) :
    iteration.pieces.flatMap leaves = iteration.leaves := by
  cases iteration <;> simp [Iteration.pieces, Iteration.leaves, leaves]

end Piece

/-- A production keeps the leaves in order. -/
theorem Production.leaves {piece : Piece} {parts : List Piece} (h : Production piece parts) :
    piece.leaves = parts.flatMap Piece.leaves := by
  cases h with
  | negate line value => rfl
  | define line id params returnType body h =>
    have hnone : ∀ introduction ∈ [[], [Piece.word .funcWord], [Piece.word .letWord]],
        introduction.flatMap Piece.leaves = [] := by simp [Piece.leaves]
    rw [List.flatMap_append, hnone _ h]
    simp [Stmt.signature, Piece.leaves, Stmt.leaves]
  | giveBack line value => cases value <;> simp [Piece.leaves, Stmt.leaves]
  | _ => simp [Piece.leaves, Stmt.leaves, Expr.leaves, Stmt.leavesAll, Stmt.leavesOption]

/-- Tokens are those that pieces are spelled by if they keep the leaves of the pieces in order, and
there is no end marker among them. -/
theorem Spells.leaves {pieces : List Piece} {tokens rest : List Token}
    (h : Spells pieces tokens rest) :
    ∃ consumed, tokens = consumed ++ rest ∧ (∀ token ∈ consumed, token.kind ≠ .endMarker) ∧
      List.Forall₂ Leaf.Matches (pieces.flatMap Piece.leaves) (Token.kept consumed) := by
  induction h with
  | nil => exact ⟨[], rfl, List.forall_mem_nil _, .nil⟩
  | @mark pieces kind token tokens rest hkind hleaf hend _ ih =>
    obtain ⟨consumed, rfl, hmarker, hleaves⟩ := ih
    refine ⟨token :: consumed, rfl, ?_, ?_⟩
    · exact List.forall_mem_cons.mpr ⟨hkind ▸ hend, hmarker⟩
    · have hkept : Token.kept (token :: consumed) = Token.kept consumed := by
        simp [Token.kept, hkind, hleaf]
      rw [hkept]
      exact hleaves
  | @leaf pieces leaf token tokens rest hmatch hleaf _ ih =>
    obtain ⟨consumed, rfl, hmarker, hleaves⟩ := ih
    refine ⟨token :: consumed, rfl, ?_, ?_⟩
    · refine List.forall_mem_cons.mpr ⟨fun hend => ?_, hmarker⟩
      rw [hend] at hleaf
      cases hleaf
    · have hkept : Token.kept (token :: consumed) = token.kind :: Token.kept consumed := by
        simp [Token.kept, hleaf]
      rw [hkept]
      exact .cons hmatch hleaves
  | expand hproduction _ ih =>
    rw [List.flatMap_append, ← hproduction.leaves] at ih
    exact ih

/-- Tokens before an end marker, none of which is one, are those before the first. -/
theorem Token.beforeEnd_append {consumed rest : List Token}
    (hconsumed : ∀ token ∈ consumed, token.kind ≠ .endMarker)
    (hrest : (Parse.tokenAt rest 0).kind = .endMarker) :
    beforeEnd (consumed ++ rest) = consumed := by
  have hstop : rest.takeWhile (fun token => token.kind != .endMarker) = [] := by
    cases rest with
    | nil => rfl
    | cons token rest =>
      have hkind : token.kind = .endMarker := hrest
      simp [hkind]
  rw [beforeEnd, List.takeWhile_append_of_pos (by simpa using hconsumed), hstop, List.append_nil]

/-- End markers are not kept: where only the last token is one, all kept tokens are before it. -/
theorem Token.kept_beforeEnd {tokens : List Token} (hclosed : Closed tokens)
    (honce : ∀ token ∈ tokens.dropLast, token.kind ≠ .endMarker) :
    kept (beforeEnd tokens) = kept tokens := by
  have hne := hclosed.ne_nil
  have hlast : (tokens.getLast hne).kind = .endMarker := by
    rw [Closed, List.getLast?_eq_some_getLast hne] at hclosed
    exact Option.some.inj hclosed
  have hsplit := List.dropLast_concat_getLast hne
  have hbefore : beforeEnd tokens = tokens.dropLast := by
    conv => lhs; rw [← hsplit]
    exact beforeEnd_append honce hlast
  rw [hbefore]
  conv => rhs; rw [← hsplit]
  simp [kept, hlast, TokenKind.isLeaf, Parse.binaryOp?]

/-- The leaves of a program are the tokens of its source that a tree keeps, in order and each once.
Reading ends at the first end marker; if only the last token is one, no token is left out. -/
theorem leaves_in_order {tokens : List Token} {program : Block}
    (h : Block.ofTokens tokens = .ok program) :
    List.Forall₂ Leaf.Matches (Stmt.leavesAll program) (Token.kept (Token.beforeEnd tokens)) ∧
      (Closed tokens → (∀ token ∈ tokens.dropLast, token.kind ≠ .endMarker) →
        List.Forall₂ Leaf.Matches (Stmt.leavesAll program) (Token.kept tokens)) := by
  obtain ⟨rest, hspells, hend⟩ := Block.spells_of_ofTokens h
  obtain ⟨consumed, rfl, hmarker, hleaves⟩ := hspells.leaves
  rw [Piece.leaves_block] at hleaves
  have hbefore : List.Forall₂ Leaf.Matches (Stmt.leavesAll program)
      (Token.kept (Token.beforeEnd (consumed ++ rest))) := by
    rw [Token.beforeEnd_append hmarker hend]
    exact hleaves
  refine ⟨hbefore, fun hclosed honce => ?_⟩
  rw [← Token.kept_beforeEnd hclosed honce]
  exact hbefore

/-- A loop over a range with a negative start, whose end is read ahead before it is taken. -/
def rangeLoop : List Token :=
  [⟨.keyword .forWord, "for", 1⟩, ⟨.identifier "i", "i", 1⟩, ⟨.keyword .inWord, "in", 1⟩,
    ⟨.symbol .minus, "-", 1⟩, ⟨.number .one, "1", 1⟩, ⟨.symbol .colon, ":", 1⟩,
    ⟨.identifier "n", "n", 1⟩, ⟨.symbol .dot, ".", 1⟩, ⟨.identifier "size", "size", 1⟩,
    ⟨.symbol .colon, ":", 1⟩, ⟨.keyword .endWord, "end", 1⟩, .endOn 1]

/-- The program that the loop is. -/
def rangeLoopProgram : Block :=
  [.repeatOver 1 "i" (.range (.negate 1 (.literal 1 (.number .one)))
    (.member 1 (.var 1 "n") "size")) []]

/-- The leaves of a loop from minus one to a property are those of its tokens that a tree keeps. -/
theorem leaves_of_rangeLoop : Block.ofTokens rangeLoop = .ok rangeLoopProgram ∧
    List.Forall₂ Leaf.Matches (Stmt.leavesAll rangeLoopProgram) (Token.kept rangeLoop) :=
  ⟨rfl, (@leaves_in_order rangeLoop _ rfl).2 (by decide) (by decide)⟩

end DecimalScript
