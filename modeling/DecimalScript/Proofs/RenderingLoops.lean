import DecimalScript.Proofs.RenderingParts

/-!
# What a written loop runs over is read back

After the colon behind the first expression of a loop the reader tries whether a second one
with a colon follows, and then whether a step does. A written statement starts neither like
the end of a range nor like a step, so a body is not taken for either.
-/

namespace DecimalScript

/-- Whether a written statement may start with a token. -/
def Stmt.starts : TokenKind → Bool
  | .keyword .useWord | .keyword .letWord | .keyword .funcWord | .keyword .ifWord
  | .keyword .whileWord | .keyword .forWord | .keyword .switchWord | .keyword .tryWord
  | .keyword .printWord | .keyword .returnWord | .keyword .breakWord | .keyword .continueWord
  | .identifier _ | .symbol .leftParen => true
  | _ => false

theorem Stmt.toTokens_eq_cons (stmt : Stmt) :
    ∃ token more, stmt.toTokens = token :: more ∧ starts token.kind = true := by
  cases stmt with
  | giveBack line value => cases value <;> exact ⟨_, _, rfl, rfl⟩
  | _ => exact ⟨_, _, rfl, rfl⟩

/-- Neither a step nor the end of a block starts like a statement. -/
theorem Stmt.of_starts {kind : TokenKind} (h : starts kind = true) :
    kind.startsStep = false ∧ Parse.endsBlock kind = false := by
  unfold starts at h
  split at h <;> first | exact ⟨rfl, rfl⟩ | cases h

namespace Parse

variable {token : Token} {more rest : List Token} {body : Block}

/-- An expression in parentheses is read back. -/
theorem read_paren {expr : Expr} (h : expr.Canonical) (line : Nat)
    (htoken : token.kind.isDelimiter = true) :
    Phrase.read (.expression 0) (.sign line .leftParen ::
        (expr.toTokens 0 ++ .sign line .rightParen :: token :: more)) =
      .ok (expr, token :: more) := by
  have hprimary : primary Phrase.read (.sign line .leftParen ::
      (expr.toTokens 0 ++ .sign line .rightParen :: token :: more)) =
        .ok (expr, token :: more) := by
    refine (peek_bind 0 _).trans ((bind_of_ok (skip_one (by simp))).trans ?_)
    refine (bind_of_ok ((Expr.readsBack expr h).whole 0 rfl)).trans ?_
    exact bind_of_ok (expect_written _ (List.cons_ne_nil _ _))
  have hsuffixes : Phrase.read (.suffixes expr) (token :: more) = .ok (expr, token :: more) :=
    Phrase.read_suffixes_of_follows (.of_isDelimiter 0 htoken)
  have hoperand := (bind_of_ok hprimary (f := fun head => Phrase.read (.suffixes head))).trans
    hsuffixes
  rw [Phrase.read_eq]
  refine (bind_of_ok hoperand).trans ?_
  exact Phrase.read_operators_of_stops (List.cons_ne_nil _ _) (stops_of_isDelimiter 0 htoken)

/-- What a block starts with is no step. -/
theorem blockTokens_append (body : Block) (line : Nat) (rest : List Token) :
    ∃ token more, Stmt.blockTokens body ++ .word line .endWord :: rest = token :: more ∧
      token.kind.startsStep = false := by
  cases body with
  | nil => exact ⟨_, _, rfl, rfl⟩
  | cons stmt others =>
    obtain ⟨token, more, htokens, htoken⟩ := stmt.toTokens_eq_cons
    refine ⟨token, more ++ Stmt.blockTokens others ++ .word line .endWord :: rest, ?_,
      (Stmt.of_starts htoken).1⟩
    rw [Stmt.blockTokens, htokens]
    rfl

/-- Reading an expression has a fault, or stops before a token that is no colon. -/
def NoColonAfter (tokens : List Token) : Prop :=
  (∃ error, Phrase.read (.expression 0) tokens = .error (.fault error)) ∨
    ∃ expr token more, Phrase.read (.expression 0) tokens = .ok (expr, token :: more) ∧
      token.isSymbol .colon = false

/-- Where no colon ends an expression there is no range. -/
theorem rangeStop_of_noColonAfter {tokens : List Token} (h : NoColonAfter tokens) :
    rangeStop Phrase.read tokens = .ok (none, tokens) := by
  refine attempt_of_fault ?_
  obtain ⟨error, hread⟩ | ⟨expr, token, more, hread, htoken⟩ := h
  · exact ⟨error, bind_of_error hread⟩
  · exact ⟨_, (bind_of_ok hread).trans (ifSymbol_false htoken)⟩

/-- Where a colon ends an expression there is a range. -/
theorem rangeStop_of_colon {tokens : List Token} {expr : Expr}
    (h : Phrase.read (.expression 0) tokens = .ok (expr, token :: more))
    (hcolon : token.isSymbol .colon = true) :
    rangeStop Phrase.read tokens = .ok (some expr, token :: more) :=
  attempt_of_ok ((bind_of_ok h).trans (ifSymbol_true hcolon))

/-- The expression that the target of a property assignment looks like. -/
def pathExpr (line : Nat) (target : Expr) (properties : List String) : Expr :=
  properties.foldl (.member line) target

theorem toTokens_pathExpr (line : Nat) (properties : List String) (target : Expr) :
    (pathExpr line target properties).toTokens 5 = target.toTokens 5 ++
      properties.flatMap fun property => [.sign line .dot, .name line property] := by
  induction properties generalizing target with
  | nil => simp [pathExpr]
  | cons property others ih =>
    have hnext := ih (.member line target property)
    rw [pathExpr, List.foldl_cons, ← pathExpr, hnext]
    simp [Expr.toTokens]

theorem canonical_pathExpr {line : Nat} (properties : List String) {target : Expr}
    (h : target.Canonical) (hline : target.line = line) :
    (pathExpr line target properties).Canonical := by
  induction properties generalizing target with
  | nil => exact h
  | cons property others ih => exact ih ⟨hline.symm, h⟩ rfl

/-- Before another token than a colon a canonical expression is no range. -/
theorem noColonAfter_expr {expr : Expr} (h : expr.Canonical)
    (htoken : token.kind.isDelimiter = true) (hcolon : token.isSymbol .colon = false) :
    NoColonAfter (expr.toTokens 5 ++ token :: more) :=
  .inr ⟨expr, token, more, (Expr.readsBack expr h).whole 5 htoken, hcolon⟩

/-- A reserved word starts no range, but for the truth values. -/
theorem noColonAfter_word {line : Nat} {word : Keyword}
    (h : word ≠ .trueWord ∧ word ≠ .falseWord) :
    NoColonAfter (.word line word :: more) := by
  refine .inl ⟨.ofToken .missingExpression (.word line word), ?_⟩
  rw [Phrase.read_eq]
  obtain ⟨htrue, hfalse⟩ := h
  cases word <;> first | rfl | contradiction

/-- No canonical statement starts like the end of a range. -/
theorem noColonAfter_stmt {stmt : Stmt} (h : stmt.Canonical) (rest : List Token) :
    NoColonAfter (stmt.toTokens ++ rest) := by
  cases stmt with
  | assign line name value =>
    exact @noColonAfter_expr (.sign line .equal) _ (.var line name) trivial rfl rfl
  | assignIndex line name position value =>
    have hcanonical : (Expr.index line (.var line name) position).Canonical :=
      ⟨rfl, trivial, h.1⟩
    have hread := @noColonAfter_expr (.sign line .equal)
      (value.toTokens 0 ++ .sign line .semicolon :: rest) _ hcanonical rfl rfl
    simpa [Stmt.toTokens, Expr.toTokens] using hread
  | assignProperty line path value =>
    have hcanonical : (pathExpr line (.var line path.base) path.properties).Canonical :=
      canonical_pathExpr _ trivial rfl
    have hread := @noColonAfter_expr (.sign line .equal)
      (value.toTokens 0 ++ .sign line .semicolon :: rest) _ hcanonical rfl rfl
    rw [toTokens_pathExpr] at hread
    simpa [Stmt.toTokens, Expr.toTokens, PropertyPath.toTokens] using hread
  | evaluate value =>
    refine .inr ⟨value, .sign value.line .semicolon, rest, ?_, rfl⟩
    have hread := @read_paren (.sign value.line .semicolon) rest value h value.line rfl
    simpa [Stmt.toTokens] using hread
  | giveBack line value => cases value <;> exact noColonAfter_word (by decide)
  | _ => exact noColonAfter_word (by decide)

/-- No canonical block starts like the end of a range. -/
theorem noColonAfter_block (h : Stmt.CanonicalAll body) (line : Nat) (rest : List Token) :
    NoColonAfter (Stmt.blockTokens body ++ .word line .endWord :: rest) := by
  cases body with
  | nil => exact noColonAfter_word (by decide)
  | cons stmt others =>
    rw [Stmt.blockTokens, List.append_assoc]
    exact noColonAfter_stmt h.1 _

/-- A minus sign that a canonical expression starts with stands before a number. -/
theorem toTokens_of_minus : ∀ (expr : Expr) (place : Nat), expr.Canonical →
    expr.leadKind place = .symbol .minus →
      ∃ line value more,
        expr.toTokens place = .sign line .minus :: .written line (.number value) :: more
  | .literal _ (.number _), _, _, hlead | .literal _ (.text _), _, _, hlead => by cases hlead
  | .literal _ (.boolean true), _, _, hlead | .literal _ (.boolean false), _, _, hlead => by
    cases hlead
  | .var _ _, _, _, hlead | .array _ _, _, _, hlead | .object _ _, _, _, hlead => by cases hlead
  | .lambda _ _ _, _, h, _ => h.elim
  | .negate line operand, _, h, _ => by
    obtain ⟨value, rfl⟩ := h
    exact ⟨line, value, [], rfl⟩
  | .binary line op left right, place, h, hlead => by
    rw [Expr.leadKind] at hlead
    rw [Expr.toTokens]
    split at hlead
    · cases hlead
    · rename_i hplace
      obtain ⟨line', value, more, htokens⟩ := toTokens_of_minus left (op.level - 1) h.2.1 hlead
      rw [if_neg hplace, htokens]
      exact ⟨line', value, _, rfl⟩
  | .call line callee arguments, _, h, hlead => by
    obtain ⟨line', value, more, htokens⟩ := toTokens_of_minus callee 5 h.2.1 hlead
    rw [Expr.toTokens, htokens]
    exact ⟨line', value, _, rfl⟩
  | .member line target name, _, h, hlead => by
    obtain ⟨line', value, more, htokens⟩ := toTokens_of_minus target 5 h.2 hlead
    rw [Expr.toTokens, htokens]
    exact ⟨line', value, _, rfl⟩
  | .index line target position, _, h, hlead => by
    obtain ⟨line', value, more, htokens⟩ := toTokens_of_minus target 5 h.2.1 hlead
    rw [Expr.toTokens, htokens]
    exact ⟨line', value, _, rfl⟩

/-- A step is seen after its colon. -/
theorem stepNext_written {width : Expr} (h : width.Canonical) (line : Nat) (rest : List Token)
    (hlead : (width.leadKind 0).startsStep = true) :
    stepNext (.sign line .colon :: (width.toTokens 0 ++ rest)) =
      .ok (true, .sign line .colon :: (width.toTokens 0 ++ rest)) := by
  refine (ifSymbol_true rfl).trans ((peek_bind 1 _).trans ?_)
  by_cases hminus : width.leadKind 0 = .symbol .minus
  · obtain ⟨line', value, more, htokens⟩ := toTokens_of_minus width 0 h hminus
    rw [htokens]
    rfl
  · obtain ⟨token, more, htokens, hkind⟩ := Expr.toTokens_eq_cons width 0 h
    obtain ⟨kind, lexeme, line'⟩ := token
    rw [← hkind] at hlead hminus
    rw [htokens]
    cases kind with
    | number value => rfl
    | symbol symbol => cases symbol <;> first | exact absurd rfl hminus | cases hlead
    | _ => cases hlead

/-- No step is seen where the token after a colon does not start one. -/
theorem stepNext_of_startsStep {colon : Token} (hcolon : colon.isSymbol .colon = true)
    (h : token.kind.startsStep = false) :
    stepNext (colon :: token :: more) = .ok (false, colon :: token :: more) := by
  refine (ifSymbol_true hcolon).trans ((peek_bind 1 _).trans ?_)
  obtain ⟨kind, lexeme, line'⟩ := token
  cases kind with
  | symbol symbol => cases symbol <;> first | rfl | cases h
  | number value => cases h
  | _ => rfl

/-- The first expression of what a loop runs over. -/
def firstExpr : Iteration → Expr
  | .range start _ | .step start _ _ | .countdown start _ _ => start
  | .items value => value

/-- The tokens of what a loop runs over, after its first expression and a colon. -/
def iterationTokens (line : Nat) : Iteration → List Token
  | .range _ stop => stop.toTokens 0 ++ [.sign line .colon]
  | .step _ stop width | .countdown _ stop width =>
    stop.toTokens 0 ++ .sign line .colon :: (width.toTokens 0 ++ [.sign line .colon])
  | .items _ => []

theorem iteration_toTokens (line : Nat) (iteration : Iteration) :
    iteration.toTokens line = (firstExpr iteration).toTokens 0 ++
      .sign line .colon :: iterationTokens line iteration := by
  cases iteration <;> rfl

/-- A loop that goes by steps is read back with its colon. -/
theorem iterationRest_stepped {first stop width : Expr} (hstop : stop.Canonical)
    (hwidth : width.Canonical) (line : Nat) (hrest : rest ≠ [])
    (hlead : (width.leadKind 0).startsStep = true) :
    iterationRest Phrase.read first (stop.toTokens 0 ++ .sign line .colon ::
        (width.toTokens 0 ++ .sign line .colon :: rest)) =
      .ok (steppedIteration first stop width, rest) := by
  have hstopRead : Phrase.read (.expression 0) (stop.toTokens 0 ++ .sign line .colon ::
      (width.toTokens 0 ++ .sign line .colon :: rest)) =
        .ok (stop, .sign line .colon :: (width.toTokens 0 ++ .sign line .colon :: rest)) :=
    (Expr.readsBack stop hstop).whole 0 rfl
  refine (bind_of_ok (rangeStop_of_colon hstopRead (beq_self_eq_true _))).trans ?_
  refine (bind_of_ok (stepNext_written hwidth line _ hlead)).trans ?_
  simp only [if_true]
  refine (bind_of_ok (skip_one (by simp))).trans ?_
  refine (bind_of_ok ((Expr.readsBack width hwidth).whole 0 rfl)).trans ?_
  exact (bind_of_ok rfl).trans (bind_of_ok (expect_written _ hrest))

/-- What a loop runs over is read back before the body of the loop. -/
theorem iterationRest_written {iteration : Iteration} (h : iteration.Canonical)
    (hstep : iteration.WellStepped) (hbody : Stmt.CanonicalAll body) (line : Nat)
    (rest : List Token) :
    iterationRest Phrase.read (firstExpr iteration) (iterationTokens line iteration ++
        (Stmt.blockTokens body ++ .word line .endWord :: rest)) =
      .ok (iteration, Stmt.blockTokens body ++ .word line .endWord :: rest) := by
  cases iteration with
  | items value =>
    exact bind_of_ok (rangeStop_of_noColonAfter (noColonAfter_block hbody line rest))
  | range start stop =>
    obtain ⟨token, more, htokens, htoken⟩ := blockTokens_append body line rest
    have hstop : Phrase.read (.expression 0) (stop.toTokens 0 ++ .sign line .colon ::
        token :: more) = .ok (stop, .sign line .colon :: token :: more) :=
      (Expr.readsBack stop h.2).whole 0 rfl
    rw [iterationTokens, htokens, List.append_assoc]
    refine (bind_of_ok (rangeStop_of_colon hstop (beq_self_eq_true _))).trans ?_
    refine (bind_of_ok (stepNext_of_startsStep (beq_self_eq_true _) htoken)).trans ?_
    simp only [Bool.false_eq_true, if_false]
    exact (bind_of_ok rfl).trans (bind_of_ok (expect_written _ (List.cons_ne_nil _ _)))
  | step start stop width =>
    have hread := @iterationRest_stepped (Stmt.blockTokens body ++ .word line .endWord :: rest)
      start stop width h.2.1 h.2.2 line (by simp) hstep.2
    have hsame : steppedIteration start stop width = .step start stop width := by
      obtain ⟨hnegation, _⟩ := hstep
      cases width <;> first | rfl | cases hnegation
    rw [hsame] at hread
    simpa [firstExpr, iterationTokens] using hread
  | countdown start stop width =>
    cases width with
    | negate line' operand =>
      have hread := @iterationRest_stepped (Stmt.blockTokens body ++ .word line .endWord :: rest)
        start stop _ h.2.1 h.2.2 line (by simp) rfl
      simpa [firstExpr, iterationTokens, steppedIteration] using hread
    | _ => cases hstep

end Parse

end DecimalScript
