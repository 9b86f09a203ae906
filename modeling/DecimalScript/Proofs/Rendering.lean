import DecimalScript.Proofs.Grammar
import DecimalScript.Proofs.ReadingPrograms
import DecimalScript.Syntax.Canonical
import DecimalScript.Syntax.Render

/-!
# Written expressions are read back

Reading an operand that was written gives the operand and goes on with its suffixes, and
reading an expression gives it and goes on with the operators after it; whatever follows
decides where they end. A left operand is followed by its operator, which binds no tighter
than the operators in it, and a right operand by one that binds no tighter than its own.
-/

namespace DecimalScript

/-- Without a bound on nesting, a phrase is read by its rule. -/
theorem Phrase.read_eq {α : Type} (phrase : Phrase α) (tokens : List Token) :
    phrase.read tokens = phrase.rule Phrase.read tokens :=
  (congrFun (Phrase.rule_read_eq_read phrase) tokens).symm

namespace Parse

variable {α : Type} {token : Token} {more : List Token}

/-- As many tokens are consumed as stand before others. -/
theorem skip_append (front : List Token) (h : more ≠ []) :
    skip front.length (front ++ more) = .ok ((), more) := by
  have hlength := List.length_pos_iff.mpr h
  have hlt : front.length < (front ++ more).length := by
    rw [List.length_append]
    omega
  rw [skip, if_pos hlt, List.drop_left]

/-- One token is skipped where more follow it. -/
theorem skip_one (h : more ≠ []) : skip 1 (token :: more) = .ok ((), more) :=
  skip_append [token] h

/-- So are two. -/
theorem skip_two {second : Token} (h : more ≠ []) :
    skip 2 (token :: second :: more) = .ok ((), more) :=
  skip_append [token, second] h

/-- A token ahead is looked at. -/
theorem peek_bind (position : Nat) (f : Token → Parse α) :
    (peek position >>= f) (token :: more) =
      f (tokenAt (token :: more) position) (token :: more) := rfl

/-- A choice by the next symbol takes the first way where it is there. -/
theorem ifSymbol_true {symbol : Symbol} {x y : Parse α} (h : token.isSymbol symbol = true) :
    (symbolAt 0 symbol >>= fun answer => if answer = true then x else y) (token :: more) =
      x (token :: more) := by
  change (if token.isSymbol symbol = true then x else y) _ = _
  rw [if_pos h]

/-- It takes the second way where it is not. -/
theorem ifSymbol_false {symbol : Symbol} {x y : Parse α} (h : token.isSymbol symbol = false) :
    (symbolAt 0 symbol >>= fun answer => if answer = true then x else y) (token :: more) =
      y (token :: more) := by
  change (if token.isSymbol symbol = true then x else y) _ = _
  rw [if_neg (Bool.eq_false_iff.mp h)]

/-- A choice by the next word takes the first way where it is there. -/
theorem ifWord_true {word : Keyword} {x y : Parse α} (h : token.isKeyword word = true) :
    (wordNext word >>= fun answer => if answer = true then x else y) (token :: more) =
      x (token :: more) := by
  change (if token.isKeyword word = true then x else y) _ = _
  rw [if_pos h]

/-- It takes the second way where it is not. -/
theorem ifWord_false {word : Keyword} {x y : Parse α} (h : token.isKeyword word = false) :
    (wordNext word >>= fun answer => if answer = true then x else y) (token :: more) =
      y (token :: more) := by
  change (if token.isKeyword word = true then x else y) _ = _
  rw [if_neg (Bool.eq_false_iff.mp h)]

/-- An expected symbol that is there is used. -/
theorem expect_next {symbol : Symbol} (fault : SyntaxFault) (htoken : token.isSymbol symbol = true)
    (h : more ≠ []) : expect symbol fault (token :: more) = .ok ((), more) :=
  (ifSymbol_true htoken).trans (skip_one h)

/-- So is an expected word. -/
theorem expectWord_next {word : Keyword} (fault : SyntaxFault)
    (htoken : token.isKeyword word = true) (h : more ≠ []) :
    expectWord word fault (token :: more) = .ok ((), more) :=
  (ifWord_true htoken).trans (skip_one h)

/-- A name that is there is used and read. -/
theorem identifier_next {name : String} (place : NamePlace) (htoken : token.kind = .identifier name)
    (h : more ≠ []) : identifier place (token :: more) = .ok (name, more) := by
  obtain ⟨kind, lexeme, line⟩ := token
  cases htoken
  exact (bind_of_ok (skip_one h) : (skip 1 >>= fun _ => pure name) _ = _)

/-- An expected symbol is used where it was written. -/
theorem expect_written {line : Nat} {symbol : Symbol} (fault : SyntaxFault) (h : more ≠ []) :
    expect symbol fault (.sign line symbol :: more) = .ok ((), more) :=
  expect_next fault (beq_self_eq_true _) h

/-- So is an expected word. -/
theorem expectWord_written {line : Nat} {word : Keyword} (fault : SyntaxFault) (h : more ≠ []) :
    expectWord word fault (.word line word :: more) = .ok ((), more) :=
  expectWord_next fault (beq_self_eq_true _) h

/-- A name is read where it was written. -/
theorem identifier_written {line : Nat} {name : String} (place : NamePlace) (h : more ≠ []) :
    identifier place (.name line name :: more) = .ok (name, more) :=
  identifier_next place rfl h

end Parse

/-- Tokens that may follow an operand at a place that asks for operators tighter than a level: no
suffix starts here, and no operator that belongs into the operand. -/
structure Follows (level : Nat) (tokens : List Token) : Prop where
  /-- There is a token. -/
  ne_nil : tokens ≠ []
  /-- It starts no suffix. -/
  no_suffix : (Parse.tokenAt tokens 0).kind ∉
    [.symbol .dot, .symbol .leftSquare, .symbol .leftParen]
  /-- If it is an operator, it does not bind tighter than those in the operand. -/
  loose : Stops (level + 1) tokens

/-- Whether a token ends every expression before it. -/
def TokenKind.isDelimiter : TokenKind → Bool
  | .symbol .comma | .symbol .rightParen | .symbol .rightSquare | .symbol .rightBrace
  | .symbol .colon | .symbol .semicolon | .symbol .equal => true
  | _ => false

/-- A delimiter stops an expression of any level. -/
theorem stops_of_isDelimiter {token : Token} {more : List Token} (level : Nat)
    (h : token.kind.isDelimiter = true) : Stops level (token :: more) := by
  intro op hop
  change Parse.binaryOp? token.kind = some op at hop
  unfold TokenKind.isDelimiter at h
  split at h <;> simp_all [Parse.binaryOp?]

/-- A delimiter may follow an expression of any level. -/
theorem Follows.of_isDelimiter {token : Token} {more : List Token} (level : Nat)
    (h : token.kind.isDelimiter = true) : Follows level (token :: more) where
  ne_nil := List.cons_ne_nil _ _
  no_suffix hsuffix := by
    change token.kind ∈ _ at hsuffix
    simp only [List.mem_cons, List.not_mem_nil, or_false] at hsuffix
    rcases hsuffix with hkind | hkind | hkind <;> rw [hkind] at h <;> cases h
  loose := stops_of_isDelimiter _ h

namespace Phrase

variable {tokens : List Token} {expr : Expr}

/-- An operand ends where no suffix starts. -/
theorem read_suffixes_of_follows {level : Nat} (h : Follows level tokens) :
    read (.suffixes expr) tokens = .ok (expr, tokens) := by
  obtain ⟨hne, hsuffix, _⟩ := h
  cases tokens with
  | nil => exact absurd rfl hne
  | cons token more =>
    rw [read_eq]
    obtain ⟨kind, lexeme, line⟩ := token
    change kind ∉ _ at hsuffix
    cases kind with
    | symbol symbol => cases symbol <;> first | rfl | exact absurd (by decide) hsuffix
    | _ => rfl

/-- What follows a left operand depends on the operator that the next token is. -/
theorem read_operators_cons (level : Nat) (left : Expr) (token : Token) (more : List Token) :
    read (.operators level left) (token :: more) =
      (match Parse.binaryOp? token.kind with
        | none => pure left
        | some op => if level < op.level then (do
            Parse.skip 1
            let right ← read (.expression op.level)
            read (.operators level (.binary left.line op left right)))
          else pure left : Parse Expr) (token :: more) := by
  rw [read_eq]
  rfl

/-- An expression ends where no operator follows that binds tighter than asked for. -/
theorem read_operators_of_stops {level : Nat} (hne : tokens ≠ []) (h : Stops level tokens) :
    read (.operators level expr) tokens = .ok (expr, tokens) := by
  cases tokens with
  | nil => exact absurd rfl hne
  | cons token more =>
    rw [read_operators_cons]
    cases hop : Parse.binaryOp? token.kind with
    | none => rfl
    | some op =>
      have hlevel : ¬ level < op.level := Nat.not_lt_of_le (h op hop)
      simp only [if_neg hlevel]
      rfl

/-- An operator that binds tighter than asked for takes its right operand. -/
theorem read_operators_of_lt {token : Token} {more rest : List Token} {op : BinaryOp}
    {left right : Expr} {level : Nat} (hop : Parse.binaryOp? token.kind = some op)
    (hlevel : level < op.level) (hmore : more ≠ [])
    (hright : read (.expression op.level) more = .ok (right, rest)) :
    read (.operators level left) (token :: more) =
      read (.operators level (.binary left.line op left right)) rest := by
  rw [read_operators_cons, hop]
  simp only [if_pos hlevel]
  exact (Parse.bind_of_ok (Parse.skip_one hmore)).trans (Parse.bind_of_ok hright)

end Phrase

/-- Reading an expression that was written, whatever follows it. -/
structure Expr.ReadsBack (expr : Expr) : Prop where
  /-- As an operand, it is followed by its suffixes. -/
  operand : ∀ rest, rest ≠ [] →
    Parse.operand Phrase.read (expr.toTokens 5 ++ rest) = Phrase.read (.suffixes expr) rest
  /-- At any place, it is followed by operators that do not belong into it. -/
  expression : ∀ level place rest, level ≤ place → Follows place rest →
    Phrase.read (.expression level) (expr.toTokens place ++ rest) =
      Phrase.read (.operators level expr) rest

namespace Expr

open Parse

variable {expr : Expr} {rest : List Token}

/-- An expression that is no operation is written the same everywhere. -/
theorem ReadsBack.of_operand (hplace : ∀ place, expr.toTokens place = expr.toTokens 5)
    (hoperand : ∀ rest, rest ≠ [] →
      Parse.operand Phrase.read (expr.toTokens 5 ++ rest) = Phrase.read (.suffixes expr) rest) :
    expr.ReadsBack where
  operand := hoperand
  expression level place rest _ hfollows := by
    have hread : Parse.operand Phrase.read (expr.toTokens place ++ rest) = .ok (expr, rest) := by
      rw [hplace, hoperand rest hfollows.ne_nil, Phrase.read_suffixes_of_follows hfollows]
    exact (Phrase.read_eq _ _).trans (bind_of_ok hread)

/-- What is written the same in every place is read back if it is read as a primary expression. -/
theorem ReadsBack.of_primary (hplace : ∀ place, expr.toTokens place = expr.toTokens 5)
    (hprimary : ∀ rest, rest ≠ [] →
      Parse.primary Phrase.read (expr.toTokens 5 ++ rest) = .ok (expr, rest)) : expr.ReadsBack :=
  .of_operand hplace fun rest hrest => bind_of_ok (hprimary rest hrest)

/-- Before a delimiter an expression is read back as a whole. -/
theorem ReadsBack.whole (h : expr.ReadsBack) {token : Token} (place : Nat)
    (htoken : token.kind.isDelimiter = true) :
    Phrase.read (.expression 0) (expr.toTokens place ++ token :: rest) =
      .ok (expr, token :: rest) := by
  rw [h.expression 0 place _ (Nat.zero_le _) (.of_isDelimiter _ htoken)]
  exact Phrase.read_operators_of_stops (List.cons_ne_nil _ _) (stops_of_isDelimiter _ htoken)

/-- A literal is one token. -/
theorem readsBack_literal (line : Nat) (value : Literal) : (literal line value).ReadsBack := by
  refine .of_primary (fun _ => rfl) fun rest hrest => (peek_bind 0 _).trans ?_
  cases value with
  | number value => exact bind_of_ok (skip_one hrest)
  | text value => exact bind_of_ok (skip_one hrest)
  | boolean value => cases value <;> exact bind_of_ok (skip_one hrest)

/-- So is a variable. -/
theorem readsBack_var (line : Nat) (name : String) : (var line name).ReadsBack :=
  .of_primary (fun _ => rfl) fun _ hrest => (peek_bind 0 _).trans (bind_of_ok (skip_one hrest))

/-- A negated number is a sign and a number. -/
theorem readsBack_negate (line : Nat) (value : Number) :
    (negate line (.literal line (.number value))).ReadsBack := by
  refine .of_primary (fun _ => rfl) fun rest hrest => (peek_bind 0 _).trans ?_
  refine (bind_of_ok (skip_one (List.cons_ne_nil _ _))).trans ?_
  exact (peek_bind 0 _).trans (bind_of_ok (skip_one hrest))

/-- A member is read back behind its target. -/
theorem readsBack_member {target : Expr} (name : String) (h : target.ReadsBack) :
    (member target.line target name).ReadsBack := by
  refine .of_operand (fun _ => rfl) fun rest hrest => ?_
  simp only [toTokens, List.append_assoc, List.cons_append, List.nil_append]
  rw [h.operand _ (List.cons_ne_nil _ _), Phrase.read_eq]
  refine (peek_bind 0 _).trans ?_
  refine (bind_of_ok (skip_one (List.cons_ne_nil _ _))).trans ?_
  exact bind_of_ok (identifier_written _ hrest)

/-- An element is read back behind its target, with its index in brackets. -/
theorem readsBack_index {target position : Expr} (h : target.ReadsBack)
    (hposition : position.ReadsBack) : (index target.line target position).ReadsBack := by
  refine .of_operand (fun _ => rfl) fun rest hrest => ?_
  simp only [toTokens, List.append_assoc, List.cons_append, List.nil_append]
  rw [h.operand _ (List.cons_ne_nil _ _), Phrase.read_eq]
  refine (peek_bind 0 _).trans ?_
  refine (bind_of_ok (skip_one (List.append_ne_nil_of_right_ne_nil _ (by simp)))).trans ?_
  refine (bind_of_ok (hposition.whole 0 rfl)).trans ?_
  exact bind_of_ok (expect_written _ hrest)

/-- An operation is read back without parentheses if its operands are. -/
theorem read_binary {op : BinaryOp} {left right : Expr} {level place : Nat}
    (hleft : left.ReadsBack) (hright : right.ReadsBack) (hlevel : level ≤ place)
    (hplace : place < op.level) (hrest : Follows place rest) :
    Phrase.read (.expression level)
        (left.toTokens (op.level - 1) ++
          .written left.line op.kind :: (right.toTokens op.level ++ rest)) =
      Phrase.read (.operators level (binary left.line op left right)) rest := by
  have hoperator : Parse.binaryOp? op.kind = some op := by cases op <;> rfl
  have hnext : Follows (op.level - 1)
      (.written left.line op.kind :: (right.toTokens op.level ++ rest)) := by
    refine ⟨List.cons_ne_nil _ _, ?_, fun other hother => ?_⟩
    · cases op <;> simp [BinaryOp.kind, tokenAt, Token.written]
    · change Parse.binaryOp? op.kind = some other at hother
      rw [hoperator] at hother
      cases hother
      omega
  have hstop : Stops op.level rest := fun other hother => by
    have := hrest.loose other hother
    omega
  have hafter : Follows op.level rest :=
    ⟨hrest.ne_nil, hrest.no_suffix, fun other hother => Nat.le_succ_of_le (hstop other hother)⟩
  have hoperand : Phrase.read (.expression op.level) (right.toTokens op.level ++ rest) =
      .ok (right, rest) := by
    rw [hright.expression _ _ _ (Nat.le_refl _) hafter]
    exact Phrase.read_operators_of_stops hrest.ne_nil hstop
  rw [hleft.expression _ _ _ (by omega) hnext]
  exact Phrase.read_operators_of_lt hoperator (by omega)
    (List.append_ne_nil_of_right_ne_nil _ hrest.ne_nil) hoperand

/-- An operator is read back between its operands, each in parentheses if it binds less tightly. -/
theorem readsBack_binary (op : BinaryOp) {left right : Expr} (hleft : left.ReadsBack)
    (hright : right.ReadsBack) : (binary left.line op left right).ReadsBack := by
  have hmax : op.level ≤ 5 := by cases op <;> decide
  have hmin : 0 < op.level := by cases op <;> decide
  -- in parentheses the operation stands at the loosest place
  have hparen {place : Nat} (hplace : op.level ≤ place) (rest : List Token) (hrest : rest ≠ []) :
      Parse.operand Phrase.read ((binary left.line op left right).toTokens place ++ rest) =
        Phrase.read (.suffixes (binary left.line op left right)) rest := by
    rw [toTokens, if_pos hplace]
    simp only [List.cons_append, List.append_assoc, List.nil_append]
    refine bind_of_ok ((peek_bind 0 _).trans ?_)
    refine (bind_of_ok (skip_one (List.append_ne_nil_of_right_ne_nil _ (by simp)))).trans ?_
    have hclose : Follows 0 (.sign left.line .rightParen :: rest) := .of_isDelimiter 0 rfl
    have hinner := read_binary hleft hright (Nat.le_refl 0) hmin hclose
    rw [Phrase.read_operators_of_stops (List.cons_ne_nil _ _) (stops_of_isDelimiter 0 rfl)]
      at hinner
    exact (bind_of_ok hinner).trans (bind_of_ok (expect_written _ hrest))
  refine ⟨fun rest hrest => hparen hmax rest hrest, fun level place rest hlevel hrest => ?_⟩
  by_cases hplace : op.level ≤ place
  · have hread := hparen hplace rest hrest.ne_nil
    rw [Phrase.read_suffixes_of_follows hrest] at hread
    exact (Phrase.read_eq _ _).trans (bind_of_ok hread)
  · rw [toTokens, if_neg hplace, List.append_assoc, List.cons_append]
    exact read_binary hleft hright hlevel (by omega) hrest

end Expr

namespace Parse

section Lists

variable {α : Type} {loop item : List α → Parse (List α)} {write : α → List Token}
  {fault trailing missing : SyntaxFault} {close : Symbol} {more : List Token}

/-- After some items of a list comes a comma or the end of the list. -/
theorem listRest_append (line : Nat) (items : List (List Token)) (close : Symbol)
    (more : List Token) : ∃ token rest,
    Token.listRest line items ++ .sign line close :: more = token :: rest ∧
      (token.kind = .symbol .comma ∨ token.kind = .symbol close) := by
  cases items with
  | nil => exact ⟨_, _, rfl, .inr rfl⟩
  | cons item rest => exact ⟨_, _, rfl, .inl rfl⟩

/-- After the first of them, items of a list in parentheses are read back. -/
theorem listRest_written (line : Nat) {items : List α} (hmore : more ≠ [])
    (hloop : ∀ done tokens, loop done tokens = listed done fault (item done) tokens)
    (hitem : ∀ x ∈ items, ∀ done token rest,
      token.kind = .symbol .comma ∨ token.kind = .symbol .rightParen →
      item done (write x ++ token :: rest) = loop (x :: done) (token :: rest))
    (first : α) (done : List α) :
    loop (first :: done) (Token.listRest line (items.map write) ++
      .sign line .rightParen :: more) = .ok ((first :: done).reverse ++ items, more) := by
  induction items generalizing first done with
  | nil =>
    rw [hloop, List.append_nil]
    exact (ifSymbol_true rfl).trans (bind_of_ok (skip_one hmore))
  | cons x others ih =>
    obtain ⟨token, rest, hrest, htoken⟩ :=
      listRest_append line (others.map write) .rightParen more
    have hstep : Token.listRest line ((x :: others).map write) ++ .sign line .rightParen :: more =
        .sign line .comma :: (write x ++ token :: rest) := by
      simp [Token.listRest, ← hrest]
    have hnext := ih (fun y hy => hitem y (List.mem_cons_of_mem _ hy)) x (first :: done)
    rw [hstep, hloop]
    refine (ifSymbol_false rfl).trans ?_
    change (expect .comma fault >>= fun _ => item (first :: done)) _ = _
    rw [bind_of_ok (expect_written _ (by simp)), hitem x (List.mem_cons_self ..) _ _ _ htoken,
      ← hrest, hnext]
    simp

/-- A list in parentheses is read back if its items are. -/
theorem list_written (line : Nat) {items : List α} (hmore : more ≠ [])
    (hloop : ∀ done tokens, loop done tokens = listed done fault (item done) tokens)
    (hitem : ∀ x ∈ items, ∀ done token rest,
      token.kind = .symbol .comma ∨ token.kind = .symbol .rightParen →
      item done (write x ++ token :: rest) = loop (x :: done) (token :: rest))
    (hlead : ∀ x ∈ items, ∃ token rest, write x = token :: rest ∧
      token.isSymbol .rightParen = false) :
    loop [] (Token.list line (items.map write) ++ .sign line .rightParen :: more) =
      .ok (items, more) := by
  cases items with
  | nil =>
    rw [hloop]
    exact (ifSymbol_true rfl).trans (bind_of_ok (skip_one hmore))
  | cons x others =>
    obtain ⟨token, rest, hrest, htoken⟩ :=
      listRest_append line (others.map write) .rightParen more
    have hstep : Token.list line ((x :: others).map write) ++ .sign line .rightParen :: more =
        write x ++ token :: rest := by
      simp [Token.list, ← hrest]
    obtain ⟨first, after, hwrite, hfirst⟩ := hlead x (List.mem_cons_self ..)
    have hnext := listRest_written line hmore hloop
      (fun y hy => hitem y (List.mem_cons_of_mem _ hy)) x []
    have hskip : listed [] fault (item []) (write x ++ token :: rest) =
        item [] (write x ++ token :: rest) := by
      rw [hwrite]
      exact ifSymbol_false hfirst
    rw [hstep, hloop, hskip, hitem x (List.mem_cons_self ..) _ _ _ htoken, ← hrest, hnext]
    rfl

/-- A list in brackets is read back if its items are. -/
theorem bracketed_written (line : Nat) {items : List α} (hmore : more ≠ [])
    (hclose : close ≠ .comma) {x : α}
    (hitem : ∀ y ∈ x :: items, ∀ done token rest,
      token.kind = .symbol .comma ∨ token.kind = .symbol close →
      loop done (write y ++ token :: rest) =
        itemEnd close trailing missing (loop (y :: done)) (y :: done).reverse (token :: rest))
    (hlead : ∀ y ∈ items, ∃ token rest, write y = token :: rest ∧ token.isSymbol close = false)
    (done : List α) :
    loop done (Token.list line ((x :: items).map write) ++ .sign line close :: more) =
      .ok (done.reverse ++ x :: items, more) := by
  induction items generalizing x done with
  | nil =>
    have hlist : Token.list line ([x].map write) ++ .sign line close :: more =
        write x ++ .sign line close :: more := by
      simp [Token.list, Token.listRest]
    have hsign : (Token.sign line close).isSymbol .comma = false := by
      simpa [Token.isSymbol, Token.written] using hclose
    rw [hlist, hitem x (List.mem_cons_self ..) _ _ _ (.inr rfl), ← List.reverse_cons]
    exact (ifSymbol_false hsign).trans (bind_of_ok (expect_written _ hmore))
  | cons y others ih =>
    obtain ⟨first, after, hwrite, hfirst⟩ := hlead y (List.mem_cons_self ..)
    have hlist : Token.list line ((x :: y :: others).map write) ++ .sign line close :: more =
        write x ++ .sign line .comma ::
          (Token.list line ((y :: others).map write) ++ .sign line close :: more) := by
      simp [Token.list, Token.listRest]
    have hnext : Token.list line ((y :: others).map write) ++ .sign line close :: more =
        first :: (after ++ (Token.listRest line (others.map write) ++
          .sign line close :: more)) := by
      simp [Token.list, hwrite]
    have hrest := ih (fun z hz => hitem z (List.mem_cons_of_mem _ hz))
      (fun z hz => hlead z (List.mem_cons_of_mem _ hz)) (x :: done)
    rw [hlist, hitem x (List.mem_cons_self ..) _ _ _ (.inl rfl)]
    refine (ifSymbol_true rfl).trans ?_
    refine (bind_of_ok (skip_one (by simp))).trans ?_
    rw [hnext] at hrest ⊢
    refine (ifSymbol_false hfirst).trans (hrest.trans ?_)
    simp

end Lists

end Parse

namespace Expr

open Parse

/-- Whether an expression may start with a token. -/
def starts : TokenKind → Bool
  | .number _ | .text _ | .identifier _ | .keyword .trueWord | .keyword .falseWord
  | .symbol .minus | .symbol .leftParen | .symbol .leftSquare | .symbol .leftBrace => true
  | _ => false

/-- An expression starts with a token that can start one. -/
theorem starts_leadKind : ∀ (expr : Expr) (place : Nat), starts (expr.leadKind place) = true
  | .literal _ (.number _), _ | .literal _ (.text _), _ => rfl
  | .literal _ (.boolean true), _ | .literal _ (.boolean false), _ => rfl
  | .var _ _, _ | .negate _ _, _ | .array _ _, _ | .object _ _, _ | .lambda _ _ _, _ => rfl
  | .binary _ op left _, place => by
    rw [leadKind]
    split
    · rfl
    · exact starts_leadKind left (op.level - 1)
  | .call _ callee _, _ => starts_leadKind callee 5
  | .member _ target _, _ => starts_leadKind target 5
  | .index _ target _, _ => starts_leadKind target 5

/-- A written expression starts as such. -/
theorem toTokens_eq_cons : ∀ (expr : Expr) (place : Nat), expr.Canonical →
    ∃ token more, expr.toTokens place = token :: more ∧ token.kind = expr.leadKind place
  | .literal line value, _, _ => ⟨_, _, rfl, rfl⟩
  | .var line name, _, _ => ⟨_, _, rfl, rfl⟩
  | .negate line operand, _, _ => ⟨_, _, rfl, rfl⟩
  | .binary line op left right, place, h => by
    rw [toTokens, leadKind]
    split
    · exact ⟨_, _, rfl, rfl⟩
    · obtain ⟨token, more, hleft, hkind⟩ := toTokens_eq_cons left (op.level - 1) h.2.1
      rw [hleft]
      exact ⟨_, _, rfl, hkind⟩
  | .call line callee arguments, place, h => by
    obtain ⟨token, more, hcallee, hkind⟩ := toTokens_eq_cons callee 5 h.2.1
    rw [toTokens, hcallee]
    exact ⟨_, _, rfl, hkind⟩
  | .member line target name, place, h => by
    obtain ⟨token, more, htarget, hkind⟩ := toTokens_eq_cons target 5 h.2
    rw [toTokens, htarget]
    exact ⟨_, _, rfl, hkind⟩
  | .index line target position, place, h => by
    obtain ⟨token, more, htarget, hkind⟩ := toTokens_eq_cons target 5 h.2.1
    rw [toTokens, htarget]
    exact ⟨_, _, rfl, hkind⟩
  | .array line elements, _, _ => ⟨_, _, rfl, rfl⟩
  | .object line fields, _, _ => ⟨_, _, rfl, rfl⟩
  | .lambda line params body, _, h => h.elim

/-- No expression starts with a symbol that is none of those that may start one. -/
theorem toTokens_ne_symbol {expr : Expr} (h : expr.Canonical) (place : Nat) {symbol : Symbol}
    (hsymbol : starts (.symbol symbol) = false) :
    ∃ token more, expr.toTokens place = token :: more ∧ token.isSymbol symbol = false := by
  obtain ⟨token, more, htokens, hkind⟩ := toTokens_eq_cons expr place h
  refine ⟨token, more, htokens, beq_eq_false_iff_ne.mpr fun hsame => ?_⟩
  have hstarts := starts_leadKind expr place
  rw [← hkind, hsame, hsymbol] at hstarts
  cases hstarts

/-- A field as it is written. -/
def fieldItem (line : Nat) (field : String × Expr) : List Token :=
  .written line (.text field.1) :: .sign line .colon :: field.2.toTokens 0

/-- The tokens of a list are those of its items with commas between them. -/
theorem listTokens_eq (line : Nat) (exprs : List Expr) :
    listTokens line exprs = Token.list line (exprs.map (toTokens 0)) := by
  have hrest (exprs : List Expr) :
      listRestTokens line exprs = Token.listRest line (exprs.map (toTokens 0)) := by
    induction exprs with
    | nil => rfl
    | cons expr rest ih => simp [listRestTokens, Token.listRest, ih]
  cases exprs with
  | nil => rfl
  | cons expr rest => rw [listTokens, hrest, List.map_cons, Token.list]

/-- So are those of the fields of an object. -/
theorem fieldTokens_eq (line : Nat) (fields : List (String × Expr)) :
    fieldTokens line fields = Token.list line (fields.map (fieldItem line)) := by
  have hrest (fields : List (String × Expr)) :
      fieldRestTokens line fields = Token.listRest line (fields.map (fieldItem line)) := by
    induction fields with
    | nil => rfl
    | cons field rest ih => simp [fieldRestTokens, Token.listRest, ih, fieldItem]
  cases fields with
  | nil => rfl
  | cons field rest => simp [fieldTokens, hrest, Token.list, fieldItem]

/-- Before a comma or the end of a list an expression is read back as a whole. -/
theorem ReadsBack.item {expr : Expr} (h : expr.ReadsBack) {token : Token} {rest : List Token}
    {close : Symbol} (hclose : (TokenKind.symbol close).isDelimiter = true)
    (htoken : token.kind = .symbol .comma ∨ token.kind = .symbol close) :
    Parse.expression Phrase.read 0 (expr.toTokens 0 ++ token :: rest) =
      .ok (expr, token :: rest) := by
  have hdelimiter : token.kind.isDelimiter = true := by
    obtain hkind | hkind := htoken
    · rw [hkind]
      rfl
    · rw [hkind]
      exact hclose
  exact (Phrase.read_eq (.expression 0) _).symm.trans (h.whole 0 hdelimiter)

/-- Arguments in parentheses are read back. -/
theorem read_arguments {arguments : List Expr} (line : Nat) {more : List Token} (hmore : more ≠ [])
    (h : ∀ argument ∈ arguments, argument.Canonical ∧ argument.ReadsBack) :
    Phrase.read (.arguments []) (listTokens line arguments ++ .sign line .rightParen :: more) =
      .ok (arguments, more) := by
  rw [listTokens_eq]
  refine @list_written _ (fun done => Phrase.read (.arguments done)) _ _ _ _ line _ hmore
    (fun done tokens => Phrase.read_eq _ _) (fun argument hargument done token rest htoken => ?_)
    fun argument hargument => toTokens_ne_symbol (h argument hargument).1 0 rfl
  exact bind_of_ok ((h argument hargument).2.item rfl htoken)

/-- Elements in brackets are read back. -/
theorem read_elements {element : Expr} {elements : List Expr} (line : Nat) {more : List Token}
    (hmore : more ≠ []) (h : ∀ expr ∈ element :: elements, expr.Canonical ∧ expr.ReadsBack) :
    Phrase.read (.elements [])
        (listTokens line (element :: elements) ++ .sign line .rightSquare :: more) =
      .ok (element :: elements, more) := by
  rw [listTokens_eq]
  refine @bracketed_written _ (fun done => Phrase.read (.elements done)) (toTokens 0)
    .arrayTrailingComma .badArray .rightSquare more line elements hmore (by decide) element
    (fun expr hexpr done token rest htoken => ?_)
    (fun expr hexpr => toTokens_ne_symbol (h expr (List.mem_cons_of_mem _ hexpr)).1 0 rfl) []
  rw [Phrase.read_eq]
  exact bind_of_ok ((h expr hexpr).2.item rfl htoken)

/-- Fields in braces are read back. -/
theorem read_fields {field : String × Expr} {fields : List (String × Expr)} (line : Nat)
    {more : List Token} (hmore : more ≠ []) (h : ∀ each ∈ field :: fields, each.2.ReadsBack) :
    Phrase.read (.fields [])
        (fieldTokens line (field :: fields) ++ .sign line .rightBrace :: more) =
      .ok (field :: fields, more) := by
  rw [fieldTokens_eq]
  refine @bracketed_written _ (fun done => Phrase.read (.fields done)) (fieldItem line)
    .objectTrailingComma .badObject .rightBrace more line fields hmore (by decide) field
    (fun each heach done token rest htoken => ?_) (fun each _ => ⟨_, _, rfl, rfl⟩) []
  rw [Phrase.read_eq]
  refine (bind_of_ok ((peek_bind 0 _).trans (bind_of_ok (skip_one (by simp))))).trans ?_
  refine (bind_of_ok (expect_written _ (by simp))).trans ?_
  exact bind_of_ok ((Phrase.read_eq (.expression 0) _).trans ((h each heach).item rfl htoken))

/-- A call is read back behind its callee, with its arguments in parentheses. -/
theorem readsBack_call {callee : Expr} {arguments : List Expr} (hcallee : callee.ReadsBack)
    (h : ∀ argument ∈ arguments, argument.Canonical ∧ argument.ReadsBack) :
    (call callee.line callee arguments).ReadsBack := by
  refine .of_operand (fun _ => rfl) fun rest hrest => ?_
  simp only [toTokens, List.append_assoc, List.cons_append, List.nil_append]
  rw [hcallee.operand _ (List.cons_ne_nil _ _), Phrase.read_eq]
  refine (peek_bind 0 _).trans ?_
  refine (bind_of_ok (skip_one (by simp))).trans ?_
  exact bind_of_ok (read_arguments _ hrest h)

/-- An array literal is read back with its elements. -/
theorem readsBack_array (line : Nat) {elements : List Expr}
    (h : ∀ element ∈ elements, element.Canonical ∧ element.ReadsBack) :
    (array line elements).ReadsBack := by
  refine .of_primary (fun _ => rfl) fun rest hrest => ?_
  simp only [toTokens, List.append_assoc, List.cons_append, List.nil_append]
  refine (peek_bind 0 _).trans ?_
  refine (bind_of_ok (skip_one (by simp))).trans ?_
  cases elements with
  | nil => exact (ifSymbol_true rfl).trans (bind_of_ok (skip_one hrest))
  | cons element others =>
    obtain ⟨token, more, htokens, htoken⟩ :=
      @toTokens_ne_symbol element (h element (List.mem_cons_self ..)).1 0 .rightSquare rfl
    have hread := read_elements line hrest h
    rw [listTokens, htokens, List.cons_append, List.cons_append] at hread ⊢
    exact (ifSymbol_false htoken).trans (bind_of_ok hread)

/-- An object literal is read back with its fields. -/
theorem readsBack_object (line : Nat) {fields : List (String × Expr)}
    (h : ∀ field ∈ fields, field.2.ReadsBack) : (object line fields).ReadsBack := by
  refine .of_primary (fun _ => rfl) fun rest hrest => ?_
  simp only [toTokens, List.append_assoc, List.cons_append, List.nil_append]
  refine (peek_bind 0 _).trans ?_
  refine (bind_of_ok (skip_one (by simp))).trans ?_
  cases fields with
  | nil => exact (ifSymbol_true rfl).trans (bind_of_ok (skip_one hrest))
  | cons field others =>
    have hread := read_fields line hrest h
    exact (ifSymbol_false rfl).trans (bind_of_ok hread)

mutual

/-- Every canonical expression is read back. -/
theorem readsBack : ∀ expr : Expr, expr.Canonical → expr.ReadsBack
  | .literal line value, _ => readsBack_literal line value
  | .var line name, _ => readsBack_var line name
  | .negate line operand, h => by
    obtain ⟨value, rfl⟩ := h
    exact readsBack_negate line value
  | .binary line op left right, h => by
    obtain ⟨rfl, hleft, hright⟩ := h
    exact readsBack_binary op (readsBack left hleft) (readsBack right hright)
  | .call line callee arguments, h => by
    obtain ⟨rfl, hcallee, harguments⟩ := h
    exact readsBack_call (readsBack callee hcallee) (readsBack_all arguments harguments)
  | .member line target name, h => by
    obtain ⟨rfl, htarget⟩ := h
    exact readsBack_member name (readsBack target htarget)
  | .index line target position, h => by
    obtain ⟨rfl, htarget, hposition⟩ := h
    exact readsBack_index (readsBack target htarget) (readsBack position hposition)
  | .array line elements, h => readsBack_array line (readsBack_all elements h)
  | .object line fields, h => readsBack_object line (readsBack_fields fields h)
  | .lambda line params body, h => h.elim

/-- Each of canonical expressions is read back. -/
theorem readsBack_all : ∀ exprs : List Expr, CanonicalAll exprs →
    ∀ expr ∈ exprs, expr.Canonical ∧ expr.ReadsBack
  | [], _ => List.forall_mem_nil _
  | expr :: rest, h =>
    List.forall_mem_cons.mpr ⟨⟨h.1, readsBack expr h.1⟩, readsBack_all rest h.2⟩

/-- So is the value of each canonical field. -/
theorem readsBack_fields : ∀ fields : List (String × Expr), CanonicalFields fields →
    ∀ field ∈ fields, field.2.ReadsBack
  | [], _ => List.forall_mem_nil _
  | (_, expr) :: rest, h =>
    List.forall_mem_cons.mpr ⟨readsBack expr h.1, readsBack_fields rest h.2⟩

end

end Expr

end DecimalScript
