import DecimalScript.Proofs.Rendering

/-!
# Written parts of statements are read back

Annotations, parameters, lambdas and what a loop runs over. Where the reader looks ahead
before it decides, what follows a written part lets it decide right: an expression holds
no fat arrow, and a step starts with a number or with a minus sign before one.
-/

namespace DecimalScript

/-- There is no fat arrow among the tokens. -/
def ArrowFree (tokens : List Token) : Prop :=
  ∀ token ∈ tokens, token.isSymbol .fatArrow = false

namespace Parse

variable {more : List Token}

/-- An annotation is read back where its symbol does not follow. -/
theorem typeAfter_written (line : Nat) (symbol : Symbol) (typed : Option TypeName) {token : Token}
    (h : token.isSymbol symbol = false) :
    typeAfter symbol (TypeName.toTokens line symbol typed ++ token :: more) =
      .ok (typed, token :: more) := by
  have hone (kind : TokenKind) (typed : TypeName)
      (hkind : typeName (.written line kind :: token :: more) = .ok (typed, token :: more)) :
      typeAfter symbol (.sign line symbol :: .written line kind :: token :: more) =
        .ok (some typed, token :: more) := by
    refine (ifSymbol_true (beq_self_eq_true _)).trans ?_
    exact (bind_of_ok (skip_one (List.cons_ne_nil _ _))).trans (bind_of_ok hkind)
  cases typed with
  | none => exact ifSymbol_false h
  | some typed =>
    cases typed with
    | int => exact hone _ _ ((peek_bind 0 _).trans (bind_of_ok (skip_one (by simp))))
    | string => exact hone _ _ ((peek_bind 0 _).trans (bind_of_ok (skip_one (by simp))))
    | named name => exact hone _ _ ((peek_bind 0 _).trans (bind_of_ok (skip_one (by simp))))

/-- Parameters in parentheses are read back. -/
theorem read_parameters (line : Nat) (params : List Parameter) (hmore : more ≠ []) :
    Phrase.read (.parameters [])
        (Token.list line (params.map (Parameter.toTokens line)) ++
          .sign line .rightParen :: more) = .ok (params, more) := by
  refine @list_written _ (fun done => Phrase.read (.parameters done)) _ _ _ _ line _ hmore
    (fun done tokens => Phrase.read_eq _ _) (fun param _ done token rest htoken => ?_)
    fun param _ => ⟨_, _, rfl, rfl⟩
  have hcolon : token.isSymbol .colon = false := by
    obtain hkind | hkind := htoken <;> simp [Token.isSymbol, hkind]
  refine (bind_of_ok (identifier_written _ (by simp))).trans ?_
  exact bind_of_ok (typeAfter_written line .colon param.typed hcolon)

/-- The parameters of a lambda in parentheses are read back. -/
theorem read_lambdaNames (line : Nat) (params : List String) (hmore : more ≠ []) :
    Phrase.read (.lambdaNames [])
        (Token.list line (params.map fun param => [.name line param]) ++
          .sign line .rightParen :: more) = .ok (params, more) := by
  refine @list_written _ (fun done => Phrase.read (.lambdaNames done)) _ _ _ _ line _ hmore
    (fun done tokens => Phrase.read_eq _ _) (fun param _ done token rest _ => ?_)
    fun param _ => ⟨_, _, rfl, rfl⟩
  exact bind_of_ok (identifier_written _ (List.cons_ne_nil _ _))

/-- The scan for a lambda stops behind its parameters. -/
theorem afterNames_written (line : Nat) (params : List String) :
    afterNames (Token.list line (params.map fun param => [.name line param]) ++
      .sign line .rightParen :: more) = .sign line .rightParen :: more := by
  induction params with
  | nil => rfl
  | cons param others ih =>
    cases others with
    | nil => rfl
    | cons second others =>
      have hstep : Token.list line
            ((param :: second :: others).map fun param => [.name line param]) ++
              .sign line .rightParen :: more =
          .name line param :: .sign line .comma ::
            (Token.list line ((second :: others).map fun param => [.name line param]) ++
              .sign line .rightParen :: more) := by
        simp [Token.list, Token.listRest]
      rw [hstep]
      exact ih

/-- After a parenthesis it depends on what follows the names whether a lambda starts. -/
theorem startsLambda_cons {token : Token} (h : token.kind = .symbol .leftParen) :
    startsLambda (token :: more) =
      ((tokenAt (afterNames more) 0).isSymbol .rightParen &&
        (tokenAt (afterNames more) 1).isSymbol .fatArrow) := by
  obtain ⟨kind, lexeme, line⟩ := token
  obtain rfl : kind = .symbol .leftParen := h
  rfl

/-- No lambda starts where no fat arrow stands before the next semicolon. -/
theorem startsLambda_append {tokens : List Token} (line : Nat) (rest : List Token)
    (h : ArrowFree tokens) :
    startsLambda (tokens ++ .sign line .semicolon :: rest) = false := by
  cases tokens with
  | nil => rfl
  | cons token others =>
    by_cases hparen : token.kind = .symbol .leftParen
    · have hleft := afterNames_suffix others
      rw [List.cons_append, startsLambda_cons hparen, afterNames_append others rfl]
      generalize afterNames others = left at hleft ⊢
      match left, hleft with
      | [], _ => rfl
      | [first], _ => exact Bool.and_false _
      | first :: second :: left, hleft =>
        have hsecond : second ∈ others := hleft.subset (by simp)
        have harrow : second.isSymbol .fatArrow = false := h second (by simp [hsecond])
        change (_ && second.isSymbol .fatArrow) = false
        rw [harrow, Bool.and_false]
    · unfold startsLambda
      split
      · cases others with
        | nil => rfl
        | cons second others => exact h second (by simp)
      · rename_i hkind
        exact absurd hkind hparen
      · rfl

end Parse

namespace ArrowFree

variable {token : Token} {first second : List Token}

theorem nil : ArrowFree [] := List.forall_mem_nil _

theorem cons (h : token.isSymbol .fatArrow = false) (hfirst : ArrowFree first) :
    ArrowFree (token :: first) :=
  List.forall_mem_cons.mpr ⟨h, hfirst⟩

theorem append (hfirst : ArrowFree first) (hsecond : ArrowFree second) :
    ArrowFree (first ++ second) :=
  List.forall_mem_append.mpr ⟨hfirst, hsecond⟩

end ArrowFree

namespace Expr

mutual

/-- No fat arrow is written in an operand. -/
theorem arrowFree : ∀ (expr : Expr) (place : Nat), expr.Canonical →
    ArrowFree (expr.toTokens place)
  | .literal _ (.number _), _, _ | .literal _ (.text _), _, _ => .cons rfl .nil
  | .literal _ (.boolean true), _, _ | .literal _ (.boolean false), _, _ => .cons rfl .nil
  | .var _ _, _, _ => .cons rfl .nil
  | .negate line operand, _, h => by
    obtain ⟨value, rfl⟩ := h
    exact .cons rfl (.cons rfl .nil)
  | .binary line op left right, place, h => by
    have hsign : (Token.written line op.kind).isSymbol .fatArrow = false := by cases op <;> rfl
    have hall := (arrowFree left (op.level - 1) h.2.1).append
      ((arrowFree right op.level h.2.2).cons hsign)
    rw [toTokens]
    split
    · exact .cons rfl (hall.append (.cons rfl .nil))
    · exact hall
  | .call _ callee arguments, _, h =>
    (arrowFree callee 5 h.2.1).append
      (.cons rfl ((arrowFree_list _ arguments h.2.2).append (.cons rfl .nil)))
  | .member _ target _, _, h => (arrowFree target 5 h.2).append (.cons rfl (.cons rfl .nil))
  | .index _ target position, _, h =>
    (arrowFree target 5 h.2.1).append
      (.cons rfl ((arrowFree position 0 h.2.2).append (.cons rfl .nil)))
  | .array _ elements, _, h => .cons rfl ((arrowFree_list _ elements h).append (.cons rfl .nil))
  | .object _ fields, _, h => .cons rfl ((arrowFree_fields _ fields h).append (.cons rfl .nil))
  | .lambda _ _ _, _, h => h.elim

theorem arrowFree_list (line : Nat) : ∀ exprs : List Expr, CanonicalAll exprs →
    ArrowFree (listTokens line exprs)
  | [], _ => .nil
  | expr :: rest, h => (arrowFree expr 0 h.1).append (arrowFree_listRest line rest h.2)

theorem arrowFree_listRest (line : Nat) : ∀ exprs : List Expr, CanonicalAll exprs →
    ArrowFree (listRestTokens line exprs)
  | [], _ => .nil
  | expr :: rest, h =>
    .cons rfl ((arrowFree expr 0 h.1).append (arrowFree_listRest line rest h.2))

theorem arrowFree_fields (line : Nat) : ∀ fields : List (String × Expr), CanonicalFields fields →
    ArrowFree (fieldTokens line fields)
  | [], _ => .nil
  | (_, expr) :: rest, h =>
    .cons rfl (.cons rfl ((arrowFree expr 0 h.1).append (arrowFree_fieldRest line rest h.2)))

theorem arrowFree_fieldRest (line : Nat) : ∀ fields : List (String × Expr),
    CanonicalFields fields → ArrowFree (fieldRestTokens line fields)
  | [], _ => .nil
  | (_, expr) :: rest, h =>
    .cons rfl (.cons rfl (.cons rfl
      ((arrowFree expr 0 h.1).append (arrowFree_fieldRest line rest h.2))))

end

end Expr

namespace Parse

variable {rest : List Token}

/-- A lambda is read back as what a declaration binds. -/
theorem initializer_lambda (line : Nat) (params : List String) {body : Expr}
    (h : body.Canonical) (close : Nat) :
    initializer Phrase.read
        ((Expr.lambda line params body).toTokens 0 ++ .sign close .semicolon :: rest) =
      .ok (.lambda line params body, .sign close .semicolon :: rest) := by
  have hbody : (do
        expect .fatArrow .missingFatArrow
        return Expr.lambda line params (← Phrase.read (.expression 0)) : Parse Expr)
      (.sign line .fatArrow :: (body.toTokens 0 ++ .sign close .semicolon :: rest)) =
      .ok (.lambda line params body, .sign close .semicolon :: rest) := by
    refine (bind_of_ok (expect_written _ (by simp))).trans ?_
    exact bind_of_ok ((Expr.readsBack body h).whole 0 rfl)
  have hstarts {tokens : List Token} (hlambda : startsLambda tokens = true) :
      initializer Phrase.read tokens = lambda Phrase.read tokens := by
    change (if startsLambda tokens = true then lambda Phrase.read else _) tokens = _
    rw [if_pos hlambda]
  have hlist : initializer Phrase.read
        (.sign line .leftParen :: (Token.list line (params.map fun param => [.name line param]) ++
          .sign line .rightParen :: .sign line .fatArrow ::
            (body.toTokens 0 ++ .sign close .semicolon :: rest))) =
      .ok (.lambda line params body, .sign close .semicolon :: rest) := by
    rw [hstarts ?_]
    · refine (peek_bind 0 _).trans ((bind_of_ok (skip_one (by simp))).trans ?_)
      exact (bind_of_ok (read_lambdaNames line params (List.cons_ne_nil _ _))).trans hbody
    · rw [startsLambda_cons rfl, afterNames_written]
      rfl
  match params with
  | [param] =>
    refine (hstarts rfl).trans ((peek_bind 0 _).trans ?_)
    exact (bind_of_ok (skip_one (List.cons_ne_nil _ _))).trans hbody
  | [] => exact hlist
  | first :: second :: others =>
    simpa [Expr.toTokens, Expr.lambdaTokens] using hlist

/-- What a declaration binds is read back. -/
theorem initializer_written {value : Expr} (h : value.CanonicalInitializer) (close : Nat) :
    initializer Phrase.read (value.toTokens 0 ++ .sign close .semicolon :: rest) =
      .ok (value, .sign close .semicolon :: rest) := by
  have hplain (hvalue : value.Canonical) :
      initializer Phrase.read (value.toTokens 0 ++ .sign close .semicolon :: rest) =
        .ok (value, .sign close .semicolon :: rest) := by
    have hstarts := startsLambda_append close rest (Expr.arrowFree value 0 hvalue)
    have hread : Phrase.read (.expression 0) (value.toTokens 0 ++ .sign close .semicolon :: rest) =
        .ok (value, .sign close .semicolon :: rest) := (Expr.readsBack value hvalue).whole 0 rfl
    change (if startsLambda _ = true then lambda Phrase.read else expression Phrase.read 0) _ = _
    rw [hstarts]
    exact (Phrase.read_eq (.expression 0) _).symm.trans hread
  cases value with
  | lambda line params body => exact initializer_lambda line params h close
  | _ => exact hplain h

end Parse

end DecimalScript
