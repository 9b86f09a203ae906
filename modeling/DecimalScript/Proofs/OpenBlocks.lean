import DecimalScript.Proofs.CutTexts
import DecimalScript.Proofs.LeafOrder
import DecimalScript.Prompt.Guesses
import DecimalScript.Syntax.Definitions

/-!
# Blocks and brackets that programs leave open

Tokens are tallied one by one. What a part of a tree is written as closes its own brackets and its
own blocks, only the blocks of definitions are closed without being opened: nothing but a guess
tells where they start. So a program leaves no bracket open, and as many blocks as more definitions
are guessed in it than it has.
-/

namespace DecimalScript

namespace Prompt

attribute [simp] bracketChange

/-! ### Tallies -/

/-- What was counted up to a token. -/
structure Tally where
  /-- The number of blocks left open, those of definitions not counted as opened. -/
  blocks : Int
  /-- The number of brackets left open. -/
  brackets : Int
  /-- Whether the last token is the word for an alternative. -/
  afterElse : Bool

/-- By how much a token changes the number of open blocks without a guess. -/
@[simp] def Tally.change (tally : Tally) (kind : TokenKind) : Int :=
  match kind with
  | .keyword .ifWord => if tally.afterElse then 0 else 1
  | .keyword .whileWord | .keyword .forWord | .keyword .switchWord | .keyword .tryWord => 1
  | .keyword .endWord => -1
  | _ => 0

/-- Whether a token is the word for an alternative. -/
@[simp] def isElse : TokenKind → Bool
  | .keyword .elseWord => true
  | _ => false

/-- The word that continues a chain of conditions is one of the reserved words. -/
theorem isElse_eq (kind : TokenKind) : isElse kind = (kind == .keyword .elseWord) := by
  cases kind with
  | keyword word => cases word <;> rfl
  | _ => rfl

/-- The tally after one more token. -/
@[simp] def Tally.token (tally : Tally) (kind : TokenKind) : Tally :=
  ⟨tally.blocks + tally.change kind, tally.brackets + bracketChange kind, isElse kind⟩

/-- The tally after tokens. -/
def Tally.tokens (tally : Tally) (tokens : List Token) : Tally :=
  tokens.foldl (fun tally token => tally.token token.kind) tally

/-- A token changes the number of open blocks as the tally has it, and by one more where it is
guessed to open a definition. -/
theorem blockChange_eq (tally : Tally) {previous : Option Token} (token : Token)
    (rest : List Token) (h : tally.afterElse = previous.any (·.isKeyword .elseWord)) :
    blockChange previous token rest =
      tally.change token.kind + (if startsDefinition previous token rest then 1 else 0 : Nat) := by
  unfold blockChange Tally.change startsDefinition
  rw [h]
  cases token.kind with
  | keyword word => cases word <;> simp
  | identifier name => cases opensDefinition previous token rest <;> simp
  | _ => simp

/-- Blocks are those that words open and close, and those that are guessed. -/
theorem openBlocks_eq (tally : Tally) {previous : Option Token} (tokens : List Token)
    (h : tally.afterElse = previous.any (·.isKeyword .elseWord)) :
    tally.blocks + openBlocks previous tokens =
      (tally.tokens tokens).blocks + guessedDefinitions previous tokens := by
  induction tokens generalizing tally previous with
  | nil => simp [openBlocks, guessedDefinitions, Tally.tokens]
  | cons token rest ih =>
    have hnext := @ih (tally.token token.kind) (some token) (isElse_eq token.kind)
    have hrest : (tally.tokens (token :: rest)).blocks =
        ((tally.token token.kind).tokens rest).blocks := rfl
    have hblocks : (tally.token token.kind).blocks = tally.blocks + tally.change token.kind := rfl
    rw [openBlocks, guessedDefinitions, blockChange_eq tally token rest h, hrest]
    omega

/-- The tally has as many open brackets as are counted at once. -/
theorem openBrackets_eq (tally : Tally) (tokens : List Token) :
    tally.brackets + openBrackets tokens = (tally.tokens tokens).brackets := by
  induction tokens generalizing tally with
  | nil => simp [openBrackets, Tally.tokens]
  | cons token rest ih =>
    rw [openBrackets, ← Int.add_assoc]
    exact ih (tally.token token.kind)

/-! ### Tallies of pieces -/

/-- The tally after a piece. A part of a tree does not follow the word for an alternative, or the
tally is off; it closes the blocks of its definitions. -/
@[simp] def Tally.piece (tally : Tally) : Piece → Option Tally
  | .mark kind => some (tally.token kind)
  | .chain stmt | .stmt stmt =>
    if tally.afterElse then none else some { tally with blocks := tally.blocks - stmt.definitions }
  | .leaf _ | .semicolon | .expression _ _ | .operand _ | .primary _ | .initializer _ =>
    if tally.afterElse then none else some tally

/-- The tally after pieces. -/
def Tally.pieces (tally : Tally) (pieces : List Piece) : Option Tally :=
  pieces.foldlM Tally.piece tally

/-- No pieces leave a tally as it is. -/
@[simp] theorem Tally.pieces_nil {tally : Tally} : tally.pieces [] = some tally := rfl

/-- Pieces are counted from the first one on. -/
@[simp] theorem Tally.pieces_cons {tally : Tally} {piece : Piece} {rest : List Piece} :
    tally.pieces (piece :: rest) = (tally.piece piece).bind (·.pieces rest) := rfl

/-- Pieces behind others are counted behind them. -/
@[simp] theorem Tally.pieces_append {tally : Tally} {first second : List Piece} :
    tally.pieces (first ++ second) = (tally.pieces first).bind (·.pieces second) :=
  List.foldlM_append

/-- Pieces change the number of open blocks by some number and leave the brackets as they are. -/
abbrev Changes (pieces : List Piece) (change : Int) : Prop :=
  ∀ blocks brackets, Tally.pieces ⟨blocks, brackets, false⟩ pieces =
    some ⟨blocks + change, brackets, false⟩

/-- No pieces change nothing. -/
theorem Changes.nil : Changes [] 0 := fun blocks brackets => by simp

/-- Changes of pieces in a row add up. -/
theorem Changes.append {first second : List Piece} {m n : Int} (hfirst : Changes first m)
    (hsecond : Changes second n) : Changes (first ++ second) (m + n) := by
  intro blocks brackets
  rw [Tally.pieces_append, hfirst, Option.bind_some, hsecond, Int.add_assoc]

/-- The same for the blocks that definitions close. -/
theorem Changes.closing {first second : List Piece} {m n : Nat} (hfirst : Changes first (-m))
    (hsecond : Changes second (-n)) : Changes (first ++ second) (-(m + n : Nat)) := by
  rw [Int.natCast_add, Int.neg_add]
  exact hfirst.append hsecond

/-- The statements of a block close the blocks of their definitions. -/
@[simp] theorem changes_block (body : Block) :
    Changes (Piece.block body) (-Stmt.definitionsAll body) := by
  induction body with
  | nil => exact .nil
  | cons stmt rest ih =>
    have hstmt : Changes [.stmt stmt] (-stmt.definitions) := fun blocks brackets => by
      simp [Int.sub_eq_add_neg]
    exact hstmt.closing ih

/-- Items with commas between them leave everything as it is if each item does. -/
theorem changes_commas {items : List (List Piece)} (h : ∀ item ∈ items, Changes item 0) :
    Changes (Piece.commas items) 0 := by
  fun_induction Piece.commas items with
  | case1 => exact .nil
  | case2 item => exact h item (List.mem_singleton_self item)
  | case3 item next rest ih =>
    obtain ⟨hitem, hrest⟩ := List.forall_mem_cons.mp h
    have hcomma : Changes [.symbol .comma] 0 := fun blocks brackets => by simp
    exact hitem.append (hcomma.append (ih hrest))

/-- A list of expressions leaves blocks and brackets as they are. -/
@[simp] theorem changes_expressions (exprs : List Expr) : Changes (Piece.expressions exprs) 0 := by
  refine changes_commas fun item hitem => ?_
  obtain ⟨expr, -, rfl⟩ := List.mem_map.mp hitem
  exact fun blocks brackets => by simp

/-- A type and its mark leave everything as it is. -/
theorem changes_typeName {mark : Symbol} (typed : Option TypeName)
    (h : mark = .colon ∨ mark = .arrow) : Changes (TypeName.annotation mark typed) 0 := by
  intro blocks brackets
  rcases typed with _ | _ | _ | name
  · simp [TypeName.annotation]
  all_goals rcases h with rfl | rfl
  all_goals simp [TypeName.annotation, TypeName.pieces]

/-- So do parameters. -/
@[simp] theorem changes_parameters (params : List Parameter) :
    Changes (Piece.commas (params.map Parameter.pieces)) 0 := by
  refine changes_commas fun item hitem => ?_
  obtain ⟨param, -, rfl⟩ := List.mem_map.mp hitem
  intro blocks brackets
  simp [Parameter.pieces, changes_typeName]

/-- So do names. -/
@[simp] theorem changes_names (names : List String) :
    Changes (Piece.commas (names.map fun name => [.name name])) 0 := by
  refine changes_commas fun item hitem => ?_
  obtain ⟨name, -, rfl⟩ := List.mem_map.mp hitem
  exact fun blocks brackets => by simp

/-- So do the fields of an object literal. -/
@[simp] theorem changes_fields (fields : List (String × Expr)) :
    Changes (Piece.commas (fields.map Expr.fieldPieces)) 0 := by
  refine changes_commas fun item hitem => ?_
  obtain ⟨field, -, rfl⟩ := List.mem_map.mp hitem
  intro blocks brackets
  simp [Expr.fieldPieces]

/-- The names of a path leave everything as it is. -/
@[simp] theorem changes_path (path : PropertyPath) : Changes path.pieces 0 := by
  rw [PropertyPath.pieces]
  induction path.properties with
  | nil => exact .nil
  | cons property rest ih =>
    have hproperty : Changes [.symbol .dot, .name property] 0 := fun blocks brackets => by simp
    exact hproperty.append ih

/-- What a loop runs over leaves blocks and brackets as they are. -/
@[simp] theorem changes_iteration (iteration : Iteration) : Changes iteration.pieces 0 := by
  intro blocks brackets
  cases iteration
  all_goals simp [Iteration.pieces]

/-- The cases of a choice close the blocks of their definitions. -/
@[simp] theorem changes_cases (cases : List (Expr × Block)) :
    Changes (cases.flatMap Stmt.casePieces) (-Stmt.definitionsCases cases) := by
  induction cases with
  | nil => exact .nil
  | cons item rest ih =>
    have hitem : Changes (Stmt.casePieces item) (-Stmt.definitionsAll item.2) := by
      intro blocks brackets
      simp [Stmt.casePieces]
    exact hitem.closing ih

/-- The block without a case closes those of its definitions. -/
@[simp] theorem changes_otherwise (body : Option Block) :
    Changes (Stmt.otherwisePieces body) (-Stmt.definitionsOption body) := by
  intro blocks brackets
  cases body
  all_goals simp [Stmt.otherwisePieces]

/-- A part of a tree is written with the brackets it opens closed, and with as many closing words
more than opening ones as it has definitions. -/
theorem pieces_of_production {piece : Piece} {parts : List Piece} (h : Production piece parts)
    (blocks brackets : Int) :
    Tally.pieces ⟨blocks, brackets, false⟩ parts = Tally.piece ⟨blocks, brackets, false⟩ piece := by
  cases h with
  | declare line id typed value =>
    simp [changes_typeName typed (.inl rfl)]
  | @define introduction line id params returnType body h =>
    have hintroduction : Changes introduction 0 := by
      intro blocks brackets
      simp only [List.mem_cons, List.not_mem_nil, or_false] at h
      rcases h with rfl | rfl | rfl
      all_goals simp
    rw [Tally.pieces_append, hintroduction]
    simp [changes_typeName returnType (.inr rfl), Stmt.signature]
    omega
  | giveBack line value => cases value <;> simp
  | _ => simp <;> omega

/-- A token that a tree keeps opens and closes nothing. -/
theorem token_of_leaf {kind : TokenKind} (h : kind.isLeaf = true) (blocks brackets : Int) :
    Tally.token ⟨blocks, brackets, false⟩ kind = ⟨blocks, brackets, false⟩ := by
  cases kind with
  | keyword word => cases word <;> cases h <;> simp
  | symbol symbol => cases symbol <;> cases h <;> simp
  | endMarker => cases h
  | _ => simp

/-- What tokens spell is tallied as they are. -/
theorem tokens_of_spells {pieces : List Piece} {tokens rest : List Token} {tally after : Tally}
    (h : Spells pieces tokens rest) (hpieces : tally.pieces pieces = some after) :
    tally.tokens tokens = after.tokens rest := by
  induction h generalizing tally with
  | nil =>
    cases hpieces
    rfl
  | @mark pieces kind token tokens rest hkind hleaf hend _ ih =>
    have hnext := ih hpieces
    rw [← hkind] at hnext
    exact hnext
  | @leaf pieces leaf token tokens rest hmatch hleaf _ ih =>
    rw [Tally.pieces_cons, Option.bind_eq_some_iff] at hpieces
    obtain ⟨next, hleaf', hnext⟩ := hpieces
    obtain ⟨blocks, brackets, afterElse⟩ := tally
    cases afterElse with
    | true => cases hleaf'
    | false =>
      cases hleaf'
      rw [Tally.tokens, List.foldl_cons, token_of_leaf hleaf]
      exact ih hnext
  | @expand piece parts pieces tokens rest hproduction _ ih =>
    rw [Tally.pieces_cons, Option.bind_eq_some_iff] at hpieces
    obtain ⟨next, hpiece, hnext⟩ := hpieces
    obtain ⟨blocks, brackets, afterElse⟩ := tally
    cases afterElse with
    | true => cases hproduction <;> cases hpiece
    | false =>
      refine ih ?_
      rw [Tally.pieces_append, pieces_of_production hproduction, hpiece]
      exact hnext

/-! ### Finished programs -/

/-- All tokens of a program but the end marker spell its statements. -/
theorem spells_program {front : List Token} {line : Nat} {program : Block}
    (hfront : ∀ token ∈ front, token.kind ≠ .endMarker)
    (h : Block.ofTokens (front ++ [Token.endOn line]) = .ok program) :
    Spells (Piece.block program) (front ++ [Token.endOn line]) [Token.endOn line] := by
  obtain ⟨rest, hspells, hend⟩ := Block.spells_of_ofTokens h
  obtain ⟨consumed, hsplit, hconsumed, -⟩ := hspells.leaves
  have hsame : front = consumed := by
    have hbefore := congrArg Token.beforeEnd hsplit
    rwa [Token.beforeEnd_append hfront rfl, Token.beforeEnd_append hconsumed hend] at hbefore
  rw [hsame, List.append_cancel_left_eq] at hsplit
  rwa [← hsplit] at hspells

/-- A program leaves open as many blocks as more definitions are guessed in it than it has, and no
bracket. -/
theorem open_of_program {front : List Token} {line : Nat} {program : Block}
    (hfront : ∀ token ∈ front, token.kind ≠ .endMarker)
    (h : Block.ofTokens (front ++ [Token.endOn line]) = .ok program) :
    openBlocks none (front ++ [Token.endOn line]) =
        guessedDefinitions none (front ++ [Token.endOn line]) - Stmt.definitionsAll program ∧
      openBrackets (front ++ [Token.endOn line]) = 0 := by
  have htally := tokens_of_spells (spells_program hfront h) (changes_block program 0 0)
  have hblocks := @openBlocks_eq ⟨0, 0, false⟩ none (front ++ [Token.endOn line]) rfl
  have hbrackets := openBrackets_eq ⟨0, 0, false⟩ (front ++ [Token.endOn line])
  rw [htally] at hblocks hbrackets
  simp only [Tally.tokens, List.foldl_cons, List.foldl_nil, Tally.token, Tally.change,
    Token.endOn, bracketChange] at hblocks hbrackets ⊢
  omega

/-- A finished program is taken for one unless too many definitions are guessed: a text that is read
as a program counts as complete exactly if no more of its tokens are taken for the start of a
definition than there are definitions in the program. -/
theorem finished_program_complete_iff (text : String) (tokens : List Token) (program : Block)
    (htokens : Token.ofSource (Text.bytesOf text) = .ok tokens)
    (hprogram : Block.ofTokens tokens = .ok program) :
    isComplete text = true ↔
      guessedDefinitions none tokens ≤ Stmt.definitionsAll program := by
  have haccounts := Token.accounts_of_ofSource (Text.bytesOf text)
  rw [htokens] at haccounts
  obtain ⟨cuts, last, htiles, hlast, rfl⟩ := haccounts
  have hfront : ∀ token ∈ cuts.map Token.Cut.token, token.kind ≠ .endMarker := by
    intro token htoken
    obtain ⟨cut, hcut, rfl⟩ := List.mem_map.mp htoken
    exact (htiles.found cut hcut).1
  obtain ⟨hblocks, hbrackets⟩ := open_of_program hfront hprogram
  unfold isComplete
  split
  · rename_i hblank
    have hnone := htiles.nil_of_blank hlast (List.isEmpty_iff.mp hblank)
    subst hnone
    exact iff_of_true rfl (Nat.zero_le _)
  · rw [htokens]
    simp only [hblocks, hbrackets, Bool.and_eq_true, decide_eq_true_eq]
    omega

/-- A definition that is guessed counts as complete with its closing word. -/
theorem guessed_definition_complete : isComplete "f(): end" = true := by
  have htokens : Token.ofSource (Text.bytesOf "f(): end") = .ok [
      ⟨.identifier "f", "f", 1⟩, ⟨.symbol .leftParen, "(", 1⟩, ⟨.symbol .rightParen, ")", 1⟩,
      ⟨.symbol .colon, ":", 1⟩, ⟨.keyword .endWord, "end", 1⟩, Token.endOn 1] := by decide +kernel
  exact (finished_program_complete_iff "f(): end" _ [.define 1 "f" [] none []] htokens rfl).mpr
    (by decide +kernel)

/-- A call in a condition is taken for the start of a definition if it starts a line, so a text that
is read as a program is held back. -/
theorem call_starting_line_holds_back :
    ∃ tokens program, Token.ofSource (Text.bytesOf "if a and\nf(): end") = .ok tokens ∧
      Block.ofTokens tokens = .ok program ∧ isComplete "if a and\nf(): end" = false := by
  have htokens : Token.ofSource (Text.bytesOf "if a and\nf(): end") = .ok [
      ⟨.keyword .ifWord, "if", 1⟩, ⟨.identifier "a", "a", 1⟩, ⟨.keyword .andWord, "and", 1⟩,
      ⟨.identifier "f", "f", 2⟩, ⟨.symbol .leftParen, "(", 2⟩, ⟨.symbol .rightParen, ")", 2⟩,
      ⟨.symbol .colon, ":", 2⟩, ⟨.keyword .endWord, "end", 2⟩, Token.endOn 2] := by decide +kernel
  refine ⟨_, [.branch 1 (.binary 1 .both (.var 1 "a") (.call 2 (.var 2 "f") [])) [] none],
    htokens, rfl, ?_⟩
  decide +kernel

end Prompt

end DecimalScript
