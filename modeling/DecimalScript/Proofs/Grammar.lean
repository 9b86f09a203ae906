import DecimalScript.Proofs.Reading
import DecimalScript.Syntax.Grammar

/-!
# Reading expressions follows the grammar

Where reading succeeds, the tokens it consumed spell what it gives. A phrase that goes on
from what was already read is given tokens that spell that, and its result is spelled from
their start. The reader of operators stops before an operator only if it binds no tighter
than asked for; this is what makes its left operands fit the next operator.
-/

namespace DecimalScript

namespace Spells

variable {pieces more : List Piece} {start tokens rest : List Token}

/-- Pieces that are spelled one behind the other are spelled together. -/
theorem append (h : Spells pieces start tokens) (hmore : Spells more tokens rest) :
    Spells (pieces ++ more) start rest := by
  induction h with
  | nil => exact hmore
  | mark hkind hleaf hend _ ih => exact .mark hkind hleaf hend (ih hmore)
  | leaf hmatch hleaf _ ih => exact .leaf hmatch hleaf (ih hmore)
  | expand hproduction _ ih =>
    have hall := ih hmore
    rw [List.append_assoc] at hall
    exact .expand hproduction hall

/-- The pieces of a production spell what it replaces. -/
theorem produce {piece : Piece} {parts : List Piece} (h : Spells parts tokens rest)
    (hproduction : Production piece parts) : Spells [piece] tokens rest :=
  .expand hproduction (by rwa [List.append_nil])

end Spells

namespace Piece

/-- Items with a comma after each of them. -/
def followed (items : List (List Piece)) : List Piece :=
  items.flatMap fun item => item ++ [symbol .comma]

/-- One more item at the end, with commas only between the items. -/
theorem commas_append (items : List (List Piece)) (item : List Piece) :
    commas (items ++ [item]) = followed items ++ item := by
  induction items with
  | nil => rfl
  | cons first rest ih =>
    have hrest : commas (first :: (rest ++ [item])) =
        first ++ symbol .comma :: commas (rest ++ [item]) := by
      cases rest <;> rfl
    rw [List.cons_append, hrest, ih]
    simp [followed]

/-- One more item at the end, with a comma behind it as well. -/
theorem followed_append (items : List (List Piece)) (item : List Piece) :
    followed (items ++ [item]) = followed items ++ (item ++ [symbol .comma]) := by
  rw [followed, List.flatMap_append]
  simp [followed]

/-- The same for items that are gathered with the last one in front, as readers do. -/
theorem commas_reverse {α : Type} (pieces : α → List Piece) (item : α) (done : List α) :
    commas ((item :: done).reverse.map pieces) =
      followed (done.reverse.map pieces) ++ pieces item := by
  rw [List.reverse_cons, List.map_append]
  exact commas_append _ _

/-- The same with a comma behind each item. -/
theorem followed_reverse {α : Type} (pieces : α → List Piece) (item : α) (done : List α) :
    followed ((item :: done).reverse.map pieces) =
      followed (done.reverse.map pieces) ++ (pieces item ++ [symbol .comma]) := by
  rw [List.reverse_cons, List.map_append]
  exact followed_append _ _

/-- A comma behind each item is one between them and one at the end. -/
theorem followed_eq_commas {items : List (List Piece)} (h : items ≠ []) :
    followed items = commas items ++ [symbol .comma] := by
  rw [← List.dropLast_concat_getLast h, commas_append, followed_append, List.append_assoc]

end Piece

namespace Parse

variable {α β : Type} {tokens : List Token}

/-- Whatever reading gives, and whatever it leaves, is as stated. -/
def Ensures (x : Parse α) (tokens : List Token) (post : α → List Token → Prop) : Prop :=
  ∀ value rest, x tokens = .ok (value, rest) → post value rest

namespace Ensures

variable {P : α → List Token → Prop} {Q : β → List Token → Prop}

/-- A value ensures what holds where it is given. -/
theorem pure {value : α} (h : P value tokens) : Ensures (pure value) tokens P := by
  rintro _ _ ⟨⟩
  exact h

/-- A fault ensures anything. -/
theorem failAt (fault : SyntaxFault) (token : Token) :
    Ensures (failAt fault token : Parse α) tokens P := nofun

/-- What the first ensures is what the second starts from. -/
theorem bind {x : Parse α} {f : α → Parse β} (hx : Ensures x tokens P)
    (hf : ∀ value rest, P value rest → Ensures (f value) rest Q) :
    Ensures (x >>= f) tokens Q := by
  intro value rest h
  change Except.bind (x tokens) _ = _ at h
  cases hread : x tokens with
  | error stop =>
    rw [hread] at h
    cases h
  | ok result =>
    rw [hread] at h
    exact hf _ _ (hx _ _ hread) value rest h

/-- What is made of a value in the end. -/
theorem map {x : Parse α} {f : α → β} (hx : Ensures x tokens fun value => Q (f value)) :
    Ensures (f <$> x) tokens Q := by
  rw [← bind_pure_comp]
  exact hx.bind fun _ _ h => .pure h

/-- Two things that are ensured are ensured together. -/
theorem and {other : α → List Token → Prop} {x : Parse α} (hx : Ensures x tokens P)
    (hother : Ensures x tokens other) :
    Ensures x tokens fun value rest => P value rest ∧ other value rest :=
  fun value rest hread => ⟨hx value rest hread, hother value rest hread⟩

/-- What is ensured may be weakened. -/
theorem mono {weaker : α → List Token → Prop} {x : Parse α} (hx : Ensures x tokens P)
    (h : ∀ value rest, P value rest → weaker value rest) : Ensures x tokens weaker :=
  fun value rest hread => h value rest (hx value rest hread)

/-- A look at a token leaves the tokens as they are. -/
theorem peek {position : Nat} {f : Token → Parse α}
    (h : Ensures (f (tokenAt tokens position)) tokens P) :
    Ensures (peek position >>= f) tokens P := by
  cases tokens with
  | nil => nofun
  | cons token rest => exact h

/-- A fault at the next token ensures anything. -/
theorem fail (fault : SyntaxFault) : Ensures (fail fault : Parse α) tokens P :=
  peek (failAt fault _)

/-- A symbol that is found is what the token there is. -/
theorem symbolAt {position : Nat} {symbol : Symbol} {f : Bool → Parse α}
    (h : ∀ answer, (answer = true → (tokenAt tokens position).kind = .symbol symbol) →
      Ensures (f answer) tokens P) :
    Ensures (symbolAt position symbol >>= f) tokens P := by
  cases tokens with
  | nil => nofun
  | cons token rest => exact h _ kind_of_isSymbol

/-- So is a word. -/
theorem wordNext {word : Keyword} {f : Bool → Parse α}
    (h : ∀ answer, (answer = true → (tokenAt tokens 0).kind = .keyword word) →
      Ensures (f answer) tokens P) :
    Ensures (wordNext word >>= f) tokens P := by
  cases tokens with
  | nil => nofun
  | cons token rest => exact h _ kind_of_isKeyword

/-- A step is only seen after a colon, and where a number or a minus sign starts it. -/
theorem stepNext {f : Bool → Parse α}
    (h : ∀ answer, (answer = true → (tokenAt tokens 0).kind = .symbol .colon ∧
      (tokenAt tokens 1).kind.startsStep = true) → Ensures (f answer) tokens P) :
    Ensures (stepNext >>= f) tokens P := by
  unfold Parse.stepNext
  rw [bind_assoc]
  refine symbolAt fun answer hanswer => ?_
  cases answer with
  | false => exact h false nofun
  | true =>
    simp only [if_true, bind_assoc]
    refine peek ?_
    split
    · rename_i hkind
      exact h true fun _ => ⟨hanswer rfl, hkind ▸ rfl⟩
    · rename_i hkind
      simp only [bind_assoc]
      exact peek (h _ fun _ => ⟨hanswer rfl, hkind ▸ rfl⟩)
    · exact h false nofun

/-- What is tried ensures its property if it succeeds, and consumes nothing if not. -/
theorem attempt {x : Parse α} {f : Option α → Parse β} (hx : Ensures x tokens P)
    (hsome : ∀ value rest, P value rest → Ensures (f (some value)) rest Q)
    (hnone : Ensures (f none) tokens Q) : Ensures (attempt x >>= f) tokens Q := by
  refine bind (P := fun value rest => (∃ result, value = some result ∧ P result rest) ∨
    value = none ∧ rest = tokens) ?_ ?_
  · intro value rest h
    unfold Parse.attempt at h
    split at h
    · rename_i result after hread
      cases h
      exact .inl ⟨result, rfl, hx _ _ hread⟩
    · cases h
      exact .inr ⟨rfl, rfl⟩
    · cases h
  · rintro _ rest (⟨result, rfl, hpost⟩ | ⟨rfl, rfl⟩)
    · exact hsome result rest hpost
    · exact hnone

/-- What is only looked at consumes nothing, whatever the answer. -/
theorem ahead {question : Parse Bool} {f : Bool → Parse α}
    (h : ∀ answer, Ensures (f answer) tokens P) :
    Ensures (ahead question >>= f) tokens P := by
  refine bind (P := fun _ rest => rest = tokens) ?_ ?_
  · intro value rest h
    unfold Parse.ahead at h
    split at h <;> cases h <;> rfl
  · rintro answer _ rfl
    exact h answer

end Ensures

/-- What is left after a number of tokens. -/
theorem ensures_skip (count : Nat) :
    Ensures (skip count) tokens fun _ rest => count < tokens.length ∧ rest = tokens.drop count := by
  intro _ rest h
  unfold skip at h
  split at h
  · rename_i hlt
    cases h
    exact ⟨hlt, rfl⟩
  · cases h

/-- A token that shapes the tree is consumed. -/
theorem ensures_mark {kind : TokenKind} (h : (tokenAt tokens 0).kind = kind)
    (hleaf : kind.isLeaf = false) (hend : kind ≠ .endMarker) :
    Ensures (skip 1) tokens fun _ rest => Spells [.mark kind] tokens rest := by
  refine (ensures_skip 1).mono ?_
  rintro _ _ ⟨hlt, rfl⟩
  cases tokens with
  | nil => cases hlt
  | cons token rest => exact .mark h hleaf hend .nil

/-- A token that the tree keeps is consumed. -/
theorem ensures_leaf {leaf : Leaf} (hmatch : leaf.Matches (tokenAt tokens 0).kind)
    (hleaf : (tokenAt tokens 0).kind.isLeaf = true) :
    Ensures (skip 1) tokens fun _ rest => Spells [.leaf leaf] tokens rest := by
  refine (ensures_skip 1).mono ?_
  rintro _ _ ⟨hlt, rfl⟩
  cases tokens with
  | nil => cases hlt
  | cons token rest => exact .leaf hmatch hleaf .nil

/-- A token that the tree keeps is consumed as it is. -/
theorem ensures_token {kind : TokenKind} (h : (tokenAt tokens 0).kind = kind)
    (hleaf : kind.isLeaf = true) :
    Ensures (skip 1) tokens fun _ rest => Spells [.leaf (.token kind)] tokens rest :=
  ensures_leaf h (h ▸ hleaf)

/-- An expected symbol is spelled by its token, which the tree does not keep. -/
theorem ensures_expect (symbol : Symbol) (fault : SyntaxFault)
    (hleaf : (TokenKind.symbol symbol).isLeaf = false) :
    Ensures (expect symbol fault) tokens fun _ rest => Spells [.symbol symbol] tokens rest := by
  refine Ensures.symbolAt fun answer hanswer => ?_
  cases answer with
  | true => exact ensures_mark (hanswer rfl) hleaf nofun
  | false => exact .fail fault

/-- So is an expected word. -/
theorem ensures_expectWord (word : Keyword) (fault : SyntaxFault)
    (hleaf : (TokenKind.keyword word).isLeaf = false) :
    Ensures (expectWord word fault) tokens fun _ rest => Spells [.word word] tokens rest := by
  refine Ensures.wordNext fun answer hanswer => ?_
  cases answer with
  | true => exact ensures_mark (hanswer rfl) hleaf nofun
  | false => exact .fail fault

/-- A name is spelled by its token, which the tree keeps. -/
theorem ensures_identifier (place : NamePlace) :
    Ensures (identifier place) tokens fun name rest => Spells [.name name] tokens rest := by
  refine Ensures.peek ?_
  split
  · rename_i hkind
    exact (ensures_token hkind rfl).bind fun _ _ hrest => .pure hrest
  · exact .fail _

/-- The end of a statement is spelled by a semicolon or by nothing. -/
theorem ensures_skipSemicolon :
    Ensures skipSemicolon tokens fun _ rest => Spells [.semicolon] tokens rest := by
  refine Ensures.symbolAt fun answer hanswer => ?_
  cases answer with
  | true => exact (ensures_mark (hanswer rfl) rfl nofun).mono fun _ _ h => h.produce .present
  | false => exact .pure (Spells.nil.produce .absent)

/-- A type is spelled by its name, and by the brackets of an array. -/
theorem ensures_typeName :
    Ensures typeName tokens fun typed rest => Spells typed.pieces tokens rest := by
  refine Ensures.peek ?_
  split
  · rename_i hkind
    exact (ensures_mark hkind rfl nofun).bind fun _ _ hrest => .pure hrest
  · rename_i hkind
    exact (ensures_mark hkind rfl nofun).bind fun _ _ hrest => .pure hrest
  · rename_i hkind
    exact (ensures_token hkind rfl).bind fun _ _ hrest => .pure hrest
  · exact .fail _

/-- The annotation behind a symbol is spelled by both, or by nothing. -/
theorem ensures_typeAfter (symbol : Symbol) (hleaf : (TokenKind.symbol symbol).isLeaf = false) :
    Ensures (typeAfter symbol) tokens fun typed rest =>
      Spells (TypeName.annotation symbol typed) tokens rest := by
  refine Ensures.symbolAt fun answer hanswer => ?_
  cases answer with
  | true =>
    refine (ensures_mark (hanswer rfl) hleaf nofun).bind fun _ _ hmark => ?_
    exact ensures_typeName.bind fun _ _ htyped => .pure (hmark.append htyped)
  | false => exact .pure .nil

end Parse

/-- The next token is no operator that binds tighter than a level. -/
def Stops (level : Nat) (tokens : List Token) : Prop :=
  ∀ op, Parse.binaryOp? (Parse.tokenAt tokens 0).kind = some op → op.level ≤ level

namespace Phrase

/-- The tokens before a phrase spell what was already read of it. A left operand is spelled so that
the next operator may follow it. -/
def Before : {α : Type} → Phrase α → List Token → List Token → Prop
  | _, .expression _, start, tokens => start = tokens
  | _, .operators level left, start, tokens => ∀ tightness,
    tightness = level ∨ (∃ op, Parse.binaryOp? (Parse.tokenAt tokens 0).kind = some op ∧
      tightness < op.level) → Spells [.expression tightness left] start tokens
  | _, .suffixes head, start, tokens => Spells [.operand head] start tokens
  | _, .arguments done, start, tokens => Spells (Piece.expressions done.reverse) start tokens
  | _, .elements done, start, tokens =>
    Spells (Piece.followed (done.reverse.map fun e => [.expression 0 e])) start tokens
  | _, .fields done, start, tokens =>
    Spells (Piece.followed (done.reverse.map Expr.fieldPieces)) start tokens
  | _, .parameters done, start, tokens =>
    Spells (Piece.commas (done.reverse.map Parameter.pieces)) start tokens
  | _, .lambdaNames done, start, tokens =>
    Spells (Piece.commas (done.reverse.map fun name => [.name name])) start tokens
  | _, .statements done, start, tokens => Spells (Piece.block done.reverse) start tokens
  | _, .branch _, start, tokens => start = tokens
  | _, .cases done, start, tokens =>
    Spells (done.reverse.flatMap Stmt.casePieces) start tokens

/-- The tokens that a phrase consumed, with those before it, spell what it gives. -/
def After : {α : Type} → Phrase α → List Token → α → List Token → Prop
  | _, .expression level, start, expr, rest
  | _, .operators level _, start, expr, rest =>
    Spells [.expression level expr] start rest ∧ Stops level rest
  | _, .suffixes _, start, expr, rest => Spells [.operand expr] start rest
  | _, .arguments _, start, exprs, rest =>
    Spells (Piece.expressions exprs ++ [.symbol .rightParen]) start rest
  | _, .elements _, start, exprs, rest =>
    Spells (Piece.expressions exprs ++ [.symbol .rightSquare]) start rest
  | _, .fields _, start, named, rest =>
    Spells (Piece.commas (named.map Expr.fieldPieces) ++ [.symbol .rightBrace]) start rest
  | _, .parameters _, start, params, rest =>
    Spells (Piece.commas (params.map Parameter.pieces) ++ [.symbol .rightParen]) start rest
  | _, .lambdaNames _, start, names, rest =>
    Spells (Piece.commas (names.map fun name => [.name name]) ++ [.symbol .rightParen]) start rest
  | _, .statements _, start, block, rest => Spells (Piece.block block) start rest
  | _, .branch _, start, stmt, rest => Spells [.chain stmt] start rest
  | _, .cases _, start, items, rest => Spells (items.flatMap Stmt.casePieces) start rest

end Phrase

/-- Whatever a reader gives for a phrase is spelled by what it consumed. -/
def FollowsGrammar (read : PhraseReader) : Prop :=
  ∀ {α : Type} (phrase : Phrase α) (start tokens : List Token), phrase.Before start tokens →
    Parse.Ensures (read phrase) tokens (phrase.After start)

namespace Parse

section Expressions

variable {read : PhraseReader} (hread : FollowsGrammar read) {tokens : List Token}

include hread

/-- Behind its bracket, an array is spelled by its elements and the other bracket. -/
theorem ensures_arrayRest (line : Nat) :
    Ensures (arrayRest read line) tokens fun expr rest => ∃ elements, expr = .array line elements ∧
      Spells (Piece.expressions elements ++ [.symbol .rightSquare]) tokens rest := by
  refine Ensures.symbolAt fun answer hanswer => ?_
  cases answer with
  | true =>
    exact (ensures_mark (hanswer rfl) rfl nofun).bind fun _ _ hclose => .pure ⟨[], rfl, hclose⟩
  | false =>
    exact (hread (.elements []) tokens tokens .nil).bind fun _ _ h => .pure ⟨_, rfl, h⟩

/-- Behind its brace, an object is spelled by its fields and the other brace. -/
theorem ensures_objectRest (line : Nat) :
    Ensures (objectRest read line) tokens fun expr rest => ∃ fields, expr = .object line fields ∧
      Spells (Piece.commas (fields.map Expr.fieldPieces) ++ [.symbol .rightBrace])
        tokens rest := by
  refine Ensures.symbolAt fun answer hanswer => ?_
  cases answer with
  | true =>
    exact (ensures_mark (hanswer rfl) rfl nofun).bind fun _ _ hclose => .pure ⟨[], rfl, hclose⟩
  | false =>
    exact (hread (.fields []) tokens tokens .nil).bind fun _ _ h => .pure ⟨_, rfl, h⟩

/-- An innermost expression is spelled by its own tokens. -/
theorem ensures_primary :
    Ensures (primary read) tokens fun expr rest => Spells [.primary expr] tokens rest := by
  refine Ensures.peek ?_
  generalize (tokenAt tokens 0).line = line
  split
  case h_1 hkind =>
    exact (ensures_token hkind rfl).bind fun _ _ h => .pure (h.produce (.literal line (.number _)))
  case h_2 hkind =>
    exact (ensures_token hkind rfl).bind fun _ _ h => .pure (h.produce (.literal line (.text _)))
  case h_3 hkind =>
    exact (ensures_token hkind rfl).bind fun _ _ h =>
      .pure (h.produce (.literal line (.boolean true)))
  case h_4 hkind =>
    exact (ensures_token hkind rfl).bind fun _ _ h =>
      .pure (h.produce (.literal line (.boolean false)))
  case h_5 hkind =>
    exact (ensures_token hkind rfl).bind fun _ _ h => .pure (h.produce (.var line _))
  case h_6 hkind =>
    refine (ensures_token hkind rfl).bind fun _ rest hminus => Ensures.peek ?_
    split
    · rename_i hnumber
      refine (ensures_token hnumber rfl).bind fun _ _ hvalue => ?_
      exact .pure ((hminus.append hvalue).produce (.negate line _))
    · exact .fail _
  case h_7 hkind =>
    refine (ensures_mark hkind rfl nofun).bind fun _ _ hopen => ?_
    refine (hread (.expression 0) _ _ rfl).bind fun inner _ hinner => ?_
    refine (ensures_expect .rightParen _ rfl).bind fun _ _ hclose => ?_
    exact .pure ((hopen.append (hinner.1.append hclose)).produce (.paren inner))
  case h_8 hkind =>
    refine (ensures_mark hkind rfl nofun).bind fun _ _ hopen => ?_
    refine (ensures_arrayRest hread line).mono ?_
    rintro _ _ ⟨elements, rfl, helements⟩
    exact (hopen.append helements).produce (.array line elements)
  case h_9 hkind =>
    refine (ensures_mark hkind rfl nofun).bind fun _ _ hopen => ?_
    refine (ensures_objectRest hread line).mono ?_
    rintro _ _ ⟨fields, rfl, hfields⟩
    exact (hopen.append hfields).produce (.object line fields)
  case h_10 => exact .fail _

/-- What was read already is spelled as an operand, and so is what it is the head of. -/
theorem ensures_suffixes {head : Expr} {start : List Token}
    (hhead : Spells [.operand head] start tokens) :
    Ensures (suffixes read head) tokens fun expr rest => Spells [.operand expr] start rest := by
  refine Ensures.peek ?_
  split
  · rename_i hkind
    refine (ensures_mark hkind rfl nofun).bind fun _ _ hdot => ?_
    refine (ensures_identifier _).bind fun name _ hname => ?_
    exact hread (.suffixes _) start _
      ((hhead.append (hdot.append hname)).produce (.member head name))
  · rename_i hkind
    refine (ensures_mark hkind rfl nofun).bind fun _ _ hopen => ?_
    refine (hread (.expression 0) _ _ rfl).bind fun position _ hposition => ?_
    refine (ensures_expect .rightSquare _ rfl).bind fun _ _ hclose => ?_
    exact hread (.suffixes _) start _
      ((hhead.append (hopen.append (hposition.1.append hclose))).produce (.index head position))
  · rename_i hkind
    refine (ensures_mark hkind rfl nofun).bind fun _ _ hopen => ?_
    refine (hread (.arguments []) _ _ .nil).bind fun arguments _ harguments => ?_
    exact hread (.suffixes _) start _
      ((hhead.append (hopen.append harguments)).produce (.call head arguments))
  · exact .pure hhead

/-- An operand is a negation, or an innermost expression with its suffixes. -/
theorem ensures_operand :
    Ensures (operand read) tokens fun expr rest => Spells [.operand expr] tokens rest :=
  (ensures_primary hread).bind fun head _ hhead =>
    hread (.suffixes head) tokens _ (hhead.produce (.primary head))

omit hread in
/-- The token of an operator is one that the tree keeps. -/
theorem kind_of_binaryOp {kind : TokenKind} {op : BinaryOp} (h : binaryOp? kind = some op) :
    kind = op.kind := by
  unfold binaryOp? at h
  split at h <;> cases h <;> rfl

/-- The left operand is spelled from the start, and each operator that is tight enough is spelled
with its right operand. It stops in front of the others. -/
theorem ensures_operators {level : Nat} {left : Expr} {start : List Token}
    (hleft : (Phrase.operators level left).Before start tokens) :
    Ensures (operators read level left) tokens fun expr rest =>
      Spells [.expression level expr] start rest ∧ Stops level rest := by
  refine Ensures.peek ?_
  split
  · rename_i hnone
    refine .pure ⟨hleft level (.inl rfl), fun op hop => ?_⟩
    rw [hnone] at hop
    cases hop
  · rename_i op hop
    have hkind := kind_of_binaryOp hop
    split
    · rename_i hlevel
      refine (ensures_token hkind (by cases op <;> rfl)).bind fun _ _ hsign => ?_
      refine (hread (.expression op.level) _ _ rfl).bind fun right rest hright => ?_
      refine hread (.operators level _) start _ fun tightness htightness => ?_
      -- the right operand ended before an operator that binds no tighter than this one
      have htight : tightness < op.level := by
        obtain rfl | ⟨next, hnext, hlt⟩ := htightness
        · exact hlevel
        · exact Nat.lt_of_lt_of_le hlt (hright.2 next hnext)
      have hoperand := hleft (op.level - 1) (.inr ⟨op, hop, by omega⟩)
      exact (hoperand.append (hsign.append hright.1)).produce (.binary left right htight)
    · rename_i hlevel
      refine .pure ⟨hleft level (.inl rfl), fun next hnext => ?_⟩
      rw [hop] at hnext
      cases hnext
      omega

/-- An expression is spelled at its level, and no operator of the level follows. -/
theorem ensures_expression (level : Nat) :
    Ensures (expression read level) tokens fun expr rest =>
      Spells [.expression level expr] tokens rest ∧ Stops level rest :=
  (ensures_operand hread).bind fun left _ hleft =>
    hread (.operators level left) tokens _ fun tightness _ =>
      hleft.produce (.operand tightness left)

omit hread in
/-- A list in parentheses ends, or another item follows the items and their commas. -/
theorem ensures_listed {α : Type} {done : List α} {pieces : α → List Piece} {item : Parse (List α)}
    {start : List Token} (fault : SyntaxFault)
    (hdone : Spells (Piece.commas (done.reverse.map pieces)) start tokens)
    (hitem : ∀ rest, Spells (Piece.followed (done.reverse.map pieces)) start rest →
      Ensures item rest fun values last =>
        Spells (Piece.commas (values.map pieces) ++ [.symbol .rightParen]) start last) :
    Ensures (listed done fault item) tokens fun values last =>
      Spells (Piece.commas (values.map pieces) ++ [.symbol .rightParen]) start last := by
  refine Ensures.symbolAt fun answer hanswer => ?_
  cases answer with
  | true =>
    exact (ensures_mark (hanswer rfl) rfl nofun).bind fun _ _ hclose =>
      .pure (hdone.append hclose)
  | false =>
    cases done with
    | nil => exact hitem tokens hdone
    | cons first others =>
      refine (ensures_expect .comma _ rfl).bind fun _ _ hcomma => hitem _ ?_
      rw [Piece.followed_eq_commas (by simp)]
      exact hdone.append hcomma

omit hread in
/-- After an item of a list in brackets a comma follows it, or the list ends. -/
theorem ensures_itemEnd {α : Type} {done : List α} {item : α} {pieces : α → List Piece}
    {more : Parse (List α)} {start : List Token} {close : Symbol} (trailing missing : SyntaxFault)
    (hleaf : (TokenKind.symbol close).isLeaf = false)
    (hdone : Spells (Piece.followed (done.reverse.map pieces)) start rest)
    (hitem : Spells (pieces item) rest tokens)
    (hmore : ∀ rest, Spells (Piece.followed ((item :: done).reverse.map pieces)) start rest →
      Ensures more rest fun values last =>
        Spells (Piece.commas (values.map pieces) ++ [.symbol close]) start last) :
    Ensures (itemEnd close trailing missing more (item :: done).reverse) tokens
      fun values last =>
        Spells (Piece.commas (values.map pieces) ++ [.symbol close]) start last := by
  refine Ensures.symbolAt fun comma hcomma => ?_
  cases comma with
  | true =>
    refine (ensures_mark (hcomma rfl) rfl nofun).bind fun _ rest hrest => ?_
    refine Ensures.symbolAt fun closed _ => ?_
    cases closed with
    | true => exact .fail _
    | false =>
      refine hmore rest ?_
      rw [Piece.followed_reverse]
      exact hdone.append (hitem.append hrest)
  | false =>
    refine (ensures_expect close _ hleaf).bind fun _ rest hclose => .pure ?_
    rw [Piece.commas_reverse]
    exact (hdone.append hitem).append hclose

/-- Arguments are spelled with those that were read already, up to the parenthesis. -/
theorem ensures_arguments {done : List Expr} {start : List Token}
    (hdone : (Phrase.arguments done).Before start tokens) :
    Ensures (arguments read done) tokens ((Phrase.arguments done).After start) := by
  refine ensures_listed _ hdone fun rest hrest => ?_
  refine (ensures_expression hread 0).bind fun argument after hafter => ?_
  refine hread (.arguments _) start after ?_
  rw [Phrase.Before, Piece.expressions, Piece.commas_reverse]
  exact hrest.append hafter.1

/-- Elements are spelled with those that were read already, up to the bracket. -/
theorem ensures_elements {done : List Expr} {start : List Token}
    (hdone : (Phrase.elements done).Before start tokens) :
    Ensures (elements read done) tokens ((Phrase.elements done).After start) := by
  refine (ensures_expression hread 0).bind fun element after hafter => ?_
  exact ensures_itemEnd _ _ rfl hdone hafter.1 fun rest hrest =>
    hread (.elements _) start rest hrest

omit hread in
/-- The name of a field is a name or a text. -/
theorem ensures_fieldName : Ensures fieldName tokens fun name rest =>
    Spells [.leaf (.field name)] tokens rest := by
  have hone {name : String} (hmatch : (Leaf.field name).Matches (tokenAt tokens 0).kind)
      (hleaf : (tokenAt tokens 0).kind.isLeaf = true) :
      Ensures (do skip 1; return name) tokens fun name rest =>
        Spells [.leaf (.field name)] tokens rest :=
    (ensures_leaf hmatch hleaf).bind fun _ _ hrest => .pure hrest
  refine Ensures.peek ?_
  split
  · rename_i hkind
    exact hone (.inl hkind) (hkind ▸ rfl)
  · rename_i hkind
    exact hone (.inr hkind) (hkind ▸ rfl)
  · exact .fail _

/-- Fields are spelled with those that were read already, up to the brace. -/
theorem ensures_fields {done : List (String × Expr)} {start : List Token}
    (hdone : (Phrase.fields done).Before start tokens) :
    Ensures (fields read done) tokens ((Phrase.fields done).After start) := by
  refine ensures_fieldName.bind fun name first hname => ?_
  refine (ensures_expect .colon _ rfl).bind fun _ second hcolon => ?_
  refine (hread (.expression 0) _ _ rfl).bind fun value third hvalue => ?_
  have hfield : Spells (Expr.fieldPieces (name, value)) tokens third :=
    hname.append (hcolon.append hvalue.1)
  exact ensures_itemEnd _ _ rfl hdone hfield fun rest hrest => hread (.fields _) start rest hrest

/-- The parameters of a lambda are spelled with those that were read already. -/
theorem ensures_lambdaNames {done : List String} {start : List Token}
    (hdone : (Phrase.lambdaNames done).Before start tokens) :
    Ensures (lambdaNames read done) tokens ((Phrase.lambdaNames done).After start) := by
  refine ensures_listed _ hdone fun rest hrest => ?_
  refine (ensures_identifier _).bind fun name after hname => ?_
  refine hread (.lambdaNames _) start after ?_
  rw [Phrase.Before, Piece.commas_reverse]
  exact hrest.append hname

omit hread in
/-- A lambda starts with a name or a parenthesis. -/
theorem lead_of_startsLambda (h : startsLambda tokens = true) :
    (∃ name, (tokenAt tokens 0).kind = .identifier name) ∨
      (tokenAt tokens 0).kind = .symbol .leftParen := by
  unfold startsLambda at h
  split at h
  · rename_i name hkind
    exact .inl ⟨name, hkind⟩
  · rename_i hkind
    exact .inr hkind
  · cases h

/-- What starts like a lambda is spelled as one. -/
theorem ensures_lambda (hstarts : startsLambda tokens = true) :
    Ensures (lambda read) tokens fun expr rest => Spells [.initializer expr] tokens rest := by
  refine Ensures.peek ?_
  have hbody {params : List String} {pieces : List Piece} {first : List Token}
      (hproduction : ∀ body, Production (.initializer (.lambda (tokenAt tokens 0).line params body))
        (pieces ++ [.symbol .fatArrow, .expression 0 body]))
      (hparams : Spells pieces tokens first) :
      Ensures (do
        expect .fatArrow .missingFatArrow
        return Expr.lambda (tokenAt tokens 0).line params (← read (.expression 0))) first
        fun expr rest => Spells [.initializer expr] tokens rest := by
    refine (ensures_expect .fatArrow _ rfl).bind fun _ _ harrow => ?_
    refine (hread (.expression 0) _ _ rfl).bind fun body _ hbody => .pure ?_
    exact (hparams.append (harrow.append hbody.1)).produce (hproduction body)
  obtain ⟨name, hkind⟩ | hkind := lead_of_startsLambda hstarts
  · refine (ensures_token hkind rfl).bind fun _ first hname => ?_
    rw [hkind]
    exact hbody (.lambdaName _ name) hname
  · refine (ensures_mark hkind rfl nofun).bind fun _ first hopen => ?_
    rw [hkind]
    refine (hread (.lambdaNames []) _ _ .nil).bind fun params after hparams => ?_
    refine hbody (fun body => ?_) (hopen.append hparams)
    have hproduction := Production.lambda (tokenAt tokens 0).line params body
    simpa using hproduction

/-- What a declaration binds is spelled as a lambda or as an expression. -/
theorem ensures_initializer :
    Ensures (initializer read) tokens fun expr rest => Spells [.initializer expr] tokens rest := by
  intro value rest h
  change (if startsLambda tokens then lambda read else expression read 0) tokens = _ at h
  by_cases hstarts : startsLambda tokens = true
  · rw [if_pos hstarts] at h
    exact ensures_lambda hread hstarts value rest h
  · rw [if_neg hstarts] at h
    exact (ensures_expression hread 0 value rest h).1.produce (.expression value)

end Expressions

end Parse

end DecimalScript
