import DecimalScript.Proofs.Canonical
import DecimalScript.Proofs.RenderingLoops

/-!
# Written programs are read back

Every statement that was written ends with a semicolon or a closing word of its own, so it
is read back whatever follows it. What is read from tokens is canonical, and so it is read
again from the tokens it is written as.
-/

namespace DecimalScript

/-- Reading a statement that was written, whatever follows it. -/
def Stmt.ReadsBack (stmt : Stmt) : Prop :=
  ∀ rest, rest ≠ [] → Parse.statement Phrase.read (stmt.toTokens ++ rest) = .ok (stmt, rest)

namespace Parse

variable {token : Token} {more rest : List Token} {body : Block}

/-- The value of an assignment is read back with its semicolon. -/
theorem assignedValue_written {value : Expr} (h : value.Canonical) (line : Nat)
    (hrest : rest ≠ []) :
    assignedValue Phrase.read (value.toTokens 0 ++ .sign line .semicolon :: rest) =
      .ok (value, rest) := by
  refine (bind_of_ok ((Expr.readsBack value h).whole 0 rfl)).trans ?_
  exact bind_of_ok ((ifSymbol_true rfl).trans (skip_one hrest))

/-- A block is read back up to a token that ends it. -/
theorem read_statements (h : ∀ stmt ∈ body, stmt.ReadsBack) (hend : endsBlock token.kind = true)
    (done : Block) :
    Phrase.read (.statements done) (Stmt.blockTokens body ++ token :: more) =
      .ok (done.reverse ++ body, token :: more) := by
  induction body generalizing done with
  | nil =>
    rw [Phrase.read_eq, List.append_nil]
    change (if endsBlock token.kind = true then _ else _ : Parse Block) _ = _
    rw [if_pos hend]
    rfl
  | cons stmt others ih =>
    obtain ⟨hstmt, hothers⟩ := List.forall_mem_cons.mp h
    obtain ⟨first, after, htokens, hfirst⟩ := stmt.toTokens_eq_cons
    have hnext := ih hothers (stmt :: done)
    have hread := hstmt (Stmt.blockTokens others ++ token :: more) (by simp)
    rw [Stmt.blockTokens, List.append_assoc, Phrase.read_eq]
    rw [htokens, List.cons_append] at hread ⊢
    change (if endsBlock first.kind = true then _ else _ : Parse Block) _ = _
    rw [if_neg (by simp [(Stmt.of_starts hfirst).2])]
    refine (bind_of_ok hread).trans (hnext.trans ?_)
    simp

/-- A block is read back with its closing word. -/
theorem closedBlock_written (h : ∀ stmt ∈ body, stmt.ReadsBack) (construct : Construct)
    (line : Nat) (hrest : rest ≠ []) :
    closedBlock Phrase.read construct (Stmt.blockTokens body ++ .word line .endWord :: rest) =
      .ok (body, rest) :=
  (bind_of_ok (read_statements h rfl [])).trans (bind_of_ok (expectWord_written _ hrest))

end Parse

namespace Stmt

open Parse

variable {rest : List Token}

/-- A statement that starts with a word is read back if what stands after the word is. -/
theorem ReadsBack.of_word {stmt : Stmt} {line : Nat} {word : Keyword} {tail : List Token}
    (after : Parse Stmt) (htokens : stmt.toTokens = .word line word :: tail)
    (hstatement : ∀ more, statement Phrase.read (.word line word :: more) =
      (skip 1 >>= fun _ => after) (.word line word :: more))
    (hafter : ∀ rest, rest ≠ [] → after (tail ++ rest) = .ok (stmt, rest)) :
    stmt.ReadsBack := by
  intro rest hrest
  have hmore : tail ++ rest ≠ [] := List.append_ne_nil_of_right_ne_nil _ hrest
  rw [htokens, List.cons_append, hstatement]
  exact (bind_of_ok (skip_one hmore)).trans (hafter rest hrest)

/-- An import is read back by the form that its target has. -/
theorem readsBack_use (line : Nat) (target : ModuleRef) (aliasName : String) :
    (use line target aliasName).ReadsBack := by
  refine .of_word (useRest line) rfl (fun _ => rfl) fun rest hrest => ?_
  simp only [List.cons_append, List.nil_append]
  have htarget : moduleRef (.written line target.kind :: .word line .asWord ::
      .name line aliasName :: .sign line .semicolon :: rest) =
        .ok (target, .word line .asWord :: .name line aliasName ::
          .sign line .semicolon :: rest) := by
    cases target <;> exact (peek_bind 0 _).trans (bind_of_ok (skip_one (List.cons_ne_nil _ _)))
  refine (bind_of_ok htarget).trans ?_
  refine (bind_of_ok (expectWord_written _ (List.cons_ne_nil _ _))).trans ?_
  refine (bind_of_ok (identifier_written _ (List.cons_ne_nil _ _))).trans ?_
  exact bind_of_ok ((ifSymbol_true rfl).trans (skip_one hrest))

/-- An assignment is told by the equals sign behind its name. -/
theorem readsBack_assign (line : Nat) (name : String) {value : Expr} (h : value.Canonical) :
    (assign line name value).ReadsBack := by
  intro rest hrest
  simp only [toTokens, List.cons_append, List.append_assoc, List.nil_append]
  refine (peek_bind 0 _).trans ((peek_bind 1 _).trans ?_)
  refine (bind_of_ok (skip_two (by simp))).trans ?_
  exact bind_of_ok (assignedValue_written h line hrest)

/-- An assignment to an element is told by the equals sign behind the bracket. -/
theorem readsBack_assignIndex (line : Nat) (name : String) {position value : Expr}
    (hposition : position.Canonical) (h : value.Canonical) :
    (assignIndex line name position value).ReadsBack := by
  intro rest hrest
  simp only [toTokens, List.cons_append, List.append_assoc, List.nil_append]
  have hindex : assignedIndex Phrase.read (.name line name :: .sign line .leftSquare ::
      (position.toTokens 0 ++ .sign line .rightSquare :: .sign line .equal ::
        (value.toTokens 0 ++ .sign line .semicolon :: rest))) =
      .ok (some position, value.toTokens 0 ++ .sign line .semicolon :: rest) := by
    refine attempt_of_ok ((bind_of_ok (skip_two (by simp))).trans ?_)
    refine (bind_of_ok ((Expr.readsBack position hposition).whole 0 rfl)).trans ?_
    refine (bind_of_ok (expect_written _ (List.cons_ne_nil _ _))).trans ?_
    exact bind_of_ok (expect_written _ (by simp))
  refine (peek_bind 0 _).trans ((peek_bind 1 _).trans ?_)
  refine (bind_of_ok hindex).trans ?_
  exact bind_of_ok (assignedValue_written h line hrest)

/-- An expression that is a statement of its own is read back, whatever it starts with. -/
theorem readsBack_evaluate {value : Expr} (h : value.Canonical) :
    (evaluate value).ReadsBack := by
  intro rest hrest
  simp only [toTokens, List.cons_append, List.append_assoc, List.nil_append]
  have hread := @read_paren (.sign value.line .semicolon) rest value h value.line rfl
  rw [Phrase.read_eq] at hread
  refine (peek_bind 0 _).trans ((bind_of_ok hread).trans ?_)
  exact bind_of_ok ((ifSymbol_true rfl).trans (skip_one hrest))

/-- A declaration is not taken for a definition, as no parenthesis is behind its name. -/
theorem readsBack_declare (line : Nat) (name : String) (typed : Option TypeName) {value : Expr}
    (h : value.CanonicalInitializer) : (declare line name typed value).ReadsBack := by
  refine .of_word (letRest Phrase.read line) rfl (fun _ => rfl) fun rest hrest => ?_
  simp only [List.cons_append, List.append_assoc, List.nil_append]
  -- no parenthesis follows the name, so no function is declared
  have hplain : (tokenAt (.name line name :: (TypeName.toTokens line .colon typed ++
      .sign line .equal :: (value.toTokens 0 ++ .sign line .semicolon :: rest))) 1).isSymbol
        .leftParen = false := by
    cases typed with
    | none => rfl
    | some typed => cases typed <;> rfl
  have hlet : letRest Phrase.read line (.name line name :: (TypeName.toTokens line .colon typed ++
      .sign line .equal :: (value.toTokens 0 ++ .sign line .semicolon :: rest))) =
        .ok (declare line name typed value, rest) := by
    change (if (true && Token.isSymbol _ _) = true then _ else _ : Parse Stmt) _ = _
    rw [hplain, Bool.and_false, if_neg Bool.false_ne_true]
    refine (bind_of_ok (identifier_written _ (by simp))).trans ?_
    refine (bind_of_ok (typeAfter_written line .colon typed rfl)).trans ?_
    refine (bind_of_ok (expect_written _ (by simp))).trans ?_
    refine (bind_of_ok (initializer_written h line)).trans ?_
    exact bind_of_ok (expect_written _ hrest)
  exact hlet

/-- The names of written properties are seen up to the token after them. -/
theorem dottedNames_written (line : Nat) (properties : List String) {token : Token}
    {more : List Token} (h : token.isSymbol .dot = false) :
    dottedNames (properties.flatMap (fun property => [.sign line .dot, .name line property]) ++
      token :: more) = (properties, token :: more) := by
  induction properties with
  | nil =>
    obtain ⟨kind, lexeme, line'⟩ := token
    cases kind with
    | symbol symbol => cases symbol <;> first | rfl | cases h
    | _ => rfl
  | cons property others ih =>
    exact congrArg (fun seen : List String × List Token => (property :: seen.1, seen.2)) ih

/-- An assignment to properties is told by the equals sign behind its path. -/
theorem readsBack_assignProperty (line : Nat) (path : PropertyPath) {value : Expr}
    (h : value.Canonical) : (assignProperty line path value).ReadsBack := by
  intro rest hrest
  obtain ⟨base, first, others, hothers⟩ := path
  let front : List Token := .name line base ::
    (PropertyPath.toTokens line ⟨base, first, others, hothers⟩ ++ [.sign line .equal])
  have hlength : front.length = 2 * (first :: others).length + 2 := by
    simp [front, PropertyPath.toTokens, PropertyPath.properties]
    omega
  have hassignment : propertyAssignment Phrase.read (.name line base) base (first :: others)
      (front ++ (value.toTokens 0 ++ .sign line .semicolon :: rest)) =
        .ok (assignProperty line ⟨base, first, others, hothers⟩ value, rest) := by
    rw [propertyAssignment, dif_pos hothers, ← hlength]
    refine (bind_of_ok (skip_append front (by simp))).trans ?_
    exact bind_of_ok (assignedValue_written h line hrest)
  have hnames := @dottedNames_written line (first :: others) (.sign line .equal)
    (value.toTokens 0 ++ .sign line .semicolon :: rest) rfl
  have htokens : (assignProperty line ⟨base, first, others, hothers⟩ value).toTokens ++ rest =
      front ++ (value.toTokens 0 ++ .sign line .semicolon :: rest) := by
    simp [toTokens, front]
  have hdotted : dottedStatement Phrase.read (.name line base) base
      (front ++ (value.toTokens 0 ++ .sign line .semicolon :: rest)) =
        .ok (assignProperty line ⟨base, first, others, hothers⟩ value, rest) := by
    have hseen : dottedNames
        ((front ++ (value.toTokens 0 ++ .sign line .semicolon :: rest)).drop 1) =
          (first :: others, .sign line .equal :: (value.toTokens 0 ++
            .sign line .semicolon :: rest)) := by
      simpa [front, PropertyPath.toTokens, PropertyPath.properties] using hnames
    rw [dottedStatement, hseen]
    exact hassignment
  rw [htokens]
  exact (peek_bind 0 _).trans ((peek_bind 1 _).trans hdotted)

/-- A definition is read back with its types and its body. -/
theorem readsBack_define (line : Nat) (name : String) (params : List Parameter)
    (returnType : Option TypeName) {body : Block} (h : ∀ stmt ∈ body, stmt.ReadsBack) :
    (define line name params returnType body).ReadsBack := by
  refine .of_word (definition Phrase.read line) rfl (fun _ => rfl) fun rest hrest => ?_
  simp only [List.cons_append, List.append_assoc, List.nil_append]
  refine (bind_of_ok (identifier_written _ (List.cons_ne_nil _ _))).trans ?_
  refine (bind_of_ok (expect_written _ (by simp))).trans ?_
  refine (bind_of_ok (read_parameters line params (by simp))).trans ?_
  refine (bind_of_ok (typeAfter_written line .arrow returnType rfl)).trans ?_
  refine (bind_of_ok (expect_written _ (by simp))).trans ?_
  exact bind_of_ok (closedBlock_written h _ line hrest)

/-- A loop with a condition is read back with its body. -/
theorem readsBack_repeatWhile (line : Nat) {condition : Expr} {body : Block}
    (hcondition : condition.Canonical) (h : ∀ stmt ∈ body, stmt.ReadsBack) :
    (repeatWhile line condition body).ReadsBack := by
  refine .of_word (whileRest Phrase.read line) rfl (fun _ => rfl) fun rest hrest => ?_
  simp only [List.cons_append, List.append_assoc, List.nil_append]
  refine (bind_of_ok ((Expr.readsBack condition hcondition).whole 0 rfl)).trans ?_
  refine (bind_of_ok (expect_written _ (by simp))).trans ?_
  exact bind_of_ok (closedBlock_written h _ line hrest)

/-- What a loop runs over is not taken for more or less than it is. -/
theorem readsBack_repeatOver (line : Nat) (name : String) {iteration : Iteration} {body : Block}
    (hiteration : iteration.Canonical) (hstep : iteration.WellStepped)
    (hbody : CanonicalAll body) (h : ∀ stmt ∈ body, stmt.ReadsBack) :
    (repeatOver line name iteration body).ReadsBack := by
  refine .of_word (forRest Phrase.read line) rfl (fun _ => rfl) fun rest hrest => ?_
  have hfirst : (firstExpr iteration).Canonical := by
    cases iteration with
    | items value => exact hiteration
    | _ => exact hiteration.1
  have hrestRead := iterationRest_written hiteration hstep hbody line rest
  simp only [iteration_toTokens, List.cons_append, List.append_assoc, List.nil_append]
  refine (bind_of_ok (identifier_written _ (List.cons_ne_nil _ _))).trans ?_
  refine (bind_of_ok (expectWord_written _ (by simp))).trans ?_
  refine (bind_of_ok ((Expr.readsBack _ hfirst).whole 0 rfl)).trans ?_
  refine (bind_of_ok (expect_written _ (by simp))).trans ?_
  refine (bind_of_ok hrestRead).trans ?_
  exact bind_of_ok (closedBlock_written h _ line hrest)

/-- The word before a block that may be absent, or the closing word. -/
theorem optionTokens_append (line : Nat) (word : Keyword) (option : Option Block)
    (rest : List Token) :
    ∃ token more, optionTokens line word option ++ .word line .endWord :: rest = token :: more ∧
      (token.kind = .keyword word ∨ token.kind = .keyword .endWord) := by
  cases option with
  | none => exact ⟨_, _, rfl, .inr rfl⟩
  | some body => exact ⟨_, _, rfl, .inl rfl⟩

/-- A conditional is read back before its closing word. -/
theorem read_branch (line : Nat) {condition : Expr} {whenTrue : Block} {whenFalse : Option Block}
    (hcondition : condition.Canonical) (h : ∀ stmt ∈ whenTrue, stmt.ReadsBack)
    (hfalse : ∀ body ∈ whenFalse, ∀ stmt ∈ body, stmt.ReadsBack) :
    Phrase.read (.branch line) (condition.toTokens 0 ++ .sign line .colon ::
        (blockTokens whenTrue ++ (optionTokens line .elseWord whenFalse ++
          .word line .endWord :: rest))) =
      .ok (branch line condition whenTrue whenFalse, .word line .endWord :: rest) := by
  have hwhenTrue : Phrase.read (.statements []) (blockTokens whenTrue ++
      (optionTokens line .elseWord whenFalse ++ .word line .endWord :: rest)) =
        .ok (whenTrue, optionTokens line .elseWord whenFalse ++ .word line .endWord :: rest) := by
    obtain ⟨token, more, htokens, hkind⟩ := optionTokens_append line .elseWord whenFalse rest
    rw [htokens]
    exact read_statements h (by obtain hkind | hkind := hkind <;> rw [hkind] <;> rfl) []
  rw [Phrase.read_eq]
  refine (bind_of_ok ((Expr.readsBack condition hcondition).whole 0 rfl)).trans ?_
  refine (bind_of_ok (expect_written _ (by simp))).trans ?_
  refine (bind_of_ok hwhenTrue).trans ?_
  cases whenFalse with
  | none => exact ifWord_false rfl
  | some body =>
    refine (ifWord_true rfl).trans ?_
    refine (bind_of_ok (skip_one (List.cons_ne_nil _ _))).trans ((ifWord_false rfl).trans ?_)
    refine (bind_of_ok (expect_written _ (by simp))).trans ?_
    exact bind_of_ok (read_statements (hfalse body rfl) rfl [])

/-- A chain of conditions is read back with all its blocks and one closing word. -/
theorem readsBack_branch (line : Nat) {condition : Expr} {whenTrue : Block}
    {whenFalse : Option Block} (hcondition : condition.Canonical)
    (h : ∀ stmt ∈ whenTrue, stmt.ReadsBack)
    (hfalse : ∀ body ∈ whenFalse, ∀ stmt ∈ body, stmt.ReadsBack) :
    (branch line condition whenTrue whenFalse).ReadsBack := by
  refine .of_word (ifRest Phrase.read line) rfl (fun _ => rfl) fun rest hrest => ?_
  simp only [List.cons_append, List.append_assoc, List.nil_append]
  refine (bind_of_ok (read_branch line hcondition h hfalse)).trans ?_
  exact bind_of_ok (expectWord_written _ hrest)

/-- Cases end blocks, if what follows them does. -/
theorem caseTokens_append (line : Nat) (cases : List (Expr × Block)) {token : Token}
    {more : List Token} (hend : endsBlock token.kind = true) :
    ∃ first after, caseTokens line cases ++ token :: more = first :: after ∧
      endsBlock first.kind = true := by
  match cases with
  | [] => exact ⟨_, _, rfl, hend⟩
  | (value, body) :: others => exact ⟨_, _, rfl, rfl⟩

/-- The cases of a selection are read back before another word that ends a block. -/
theorem read_cases (line : Nat) {cases : List (Expr × Block)}
    (h : ∀ case ∈ cases, case.1.Canonical ∧ ∀ stmt ∈ case.2, stmt.ReadsBack) {token : Token}
    {more : List Token} (hend : endsBlock token.kind = true)
    (hword : token.isKeyword .caseWord = false) (done : List (Expr × Block)) :
    Phrase.read (.cases done) (caseTokens line cases ++ token :: more) =
      .ok (done.reverse ++ cases, token :: more) := by
  induction cases generalizing done with
  | nil =>
    rw [Phrase.read_eq, List.append_nil]
    exact ifWord_false hword
  | cons case others ih =>
    obtain ⟨value, body⟩ := case
    obtain ⟨⟨hvalue, hbody⟩, hothers⟩ := List.forall_mem_cons.mp h
    have hblock : Phrase.read (.statements []) (blockTokens body ++
        (caseTokens line others ++ token :: more)) =
          .ok (body, caseTokens line others ++ token :: more) := by
      obtain ⟨first, after, htokens, hfirst⟩ := @caseTokens_append line others token more hend
      rw [htokens]
      exact read_statements hbody hfirst []
    rw [Phrase.read_eq]
    simp only [caseTokens, List.cons_append, List.append_assoc]
    refine (ifWord_true rfl).trans ?_
    refine (bind_of_ok (skip_one (by simp))).trans ?_
    refine (bind_of_ok ((Expr.readsBack value hvalue).whole 0 rfl)).trans ?_
    refine (bind_of_ok (expect_written _ (by simp))).trans ?_
    refine (bind_of_ok hblock).trans ((ih hothers _).trans ?_)
    simp

/-- The block for no case is read back before the closing word. -/
theorem otherwise_written (line : Nat) {option : Option Block}
    (h : ∀ body ∈ option, ∀ stmt ∈ body, stmt.ReadsBack) :
    otherwise Phrase.read (optionTokens line .defaultWord option ++
        .word line .endWord :: rest) = .ok (option, .word line .endWord :: rest) := by
  cases option with
  | none => exact ifWord_false rfl
  | some body =>
    refine (ifWord_true rfl).trans ?_
    refine (bind_of_ok (skip_one (List.cons_ne_nil _ _))).trans ?_
    refine (bind_of_ok (expect_written _ (by simp))).trans ?_
    exact bind_of_ok (read_statements (h body rfl) rfl [])

/-- A choice is read back with its cases and the block without one. -/
theorem readsBack_select (line : Nat) {subject : Expr} {cases : List (Expr × Block)}
    {option : Option Block} (hsubject : subject.Canonical)
    (h : ∀ case ∈ cases, case.1.Canonical ∧ ∀ stmt ∈ case.2, stmt.ReadsBack)
    (hoption : ∀ body ∈ option, ∀ stmt ∈ body, stmt.ReadsBack) :
    (select line subject cases option).ReadsBack := by
  refine .of_word (switchRest Phrase.read line) rfl (fun _ => rfl) fun rest hrest => ?_
  have hcases : Phrase.read (.cases []) (caseTokens line cases ++
      (optionTokens line .defaultWord option ++ .word line .endWord :: rest)) =
        .ok (cases, optionTokens line .defaultWord option ++ .word line .endWord :: rest) := by
    obtain ⟨token, more, htokens, hkind⟩ := optionTokens_append line .defaultWord option rest
    rw [htokens]
    refine read_cases line h ?_ ?_ []
    · obtain hkind | hkind := hkind <;> rw [hkind] <;> rfl
    · obtain hkind | hkind := hkind <;> simp [Token.isKeyword, hkind]
  simp only [List.cons_append, List.append_assoc, List.nil_append]
  refine (bind_of_ok ((Expr.readsBack subject hsubject).whole 0 rfl)).trans ?_
  refine (bind_of_ok (expect_written _ (by simp))).trans ?_
  refine (bind_of_ok hcases).trans ((bind_of_ok (otherwise_written line hoption)).trans ?_)
  exact bind_of_ok (expectWord_written _ hrest)

/-- A guarded block is read back with its handler. -/
theorem readsBack_attempt (line : Nat) (failure : String) {body handler : Block}
    (h : ∀ stmt ∈ body, stmt.ReadsBack) (hhandler : ∀ stmt ∈ handler, stmt.ReadsBack) :
    (attempt line body failure handler).ReadsBack := by
  refine .of_word (tryRest Phrase.read line) rfl (fun _ => rfl) fun rest hrest => ?_
  simp only [List.cons_append, List.append_assoc, List.nil_append]
  refine (bind_of_ok (expect_written _ (by simp))).trans ?_
  refine (bind_of_ok (read_statements h rfl [])).trans ?_
  refine (bind_of_ok (expectWord_written _ (List.cons_ne_nil _ _))).trans ?_
  refine (bind_of_ok (identifier_written _ (List.cons_ne_nil _ _))).trans ?_
  refine (bind_of_ok (expect_written _ (by simp))).trans ?_
  exact bind_of_ok (closedBlock_written hhandler _ line hrest)

/-- Output is read back with its arguments. -/
theorem readsBack_print (line : Nat) {arguments : List Expr} (h : Expr.CanonicalAll arguments) :
    (print line arguments).ReadsBack := by
  refine .of_word (printRest Phrase.read line) rfl (fun _ => rfl) fun rest hrest => ?_
  simp only [List.cons_append, List.append_assoc, List.nil_append]
  refine (bind_of_ok (expect_written _ (by simp))).trans ?_
  refine (bind_of_ok (Expr.read_arguments line (List.cons_ne_nil _ _)
    (Expr.readsBack_all arguments h))).trans ?_
  exact bind_of_ok (expect_written _ hrest)

/-- What is given back is read back, and so is nothing. -/
theorem readsBack_giveBack (line : Nat) (value : Option Expr)
    (h : ∀ expr ∈ value, expr.Canonical) : (giveBack line value).ReadsBack := by
  cases value with
  | none =>
    refine .of_word (returnRest Phrase.read line) rfl (fun _ => rfl) fun rest hrest => ?_
    refine (ifSymbol_true rfl).trans ((bind_of_ok rfl).trans ?_)
    exact bind_of_ok (expect_written _ hrest)
  | some value =>
    have hvalue : value.Canonical := h value rfl
    refine .of_word (returnRest Phrase.read line) rfl (fun _ => rfl) fun rest hrest => ?_
    -- what is given back does not start with the semicolon that would close the statement
    obtain ⟨token, more, htokens, htoken⟩ :=
      @Expr.toTokens_ne_symbol value hvalue 0 .semicolon rfl
    have hread := @Expr.ReadsBack.whole value rest (Expr.readsBack value hvalue)
      (.sign line .semicolon) 0 rfl
    rw [List.append_assoc, List.cons_append, List.nil_append]
    rw [htokens, List.cons_append] at hread ⊢
    refine (ifSymbol_false htoken).trans ?_
    refine (bind_of_ok (map_of_ok hread)).trans ?_
    exact bind_of_ok (expect_written _ hrest)

/-- The end of a loop is read back. -/
theorem readsBack_leave (line : Nat) : (leave line).ReadsBack := by
  refine .of_word (controlRest (.leave line)) rfl (fun _ => rfl) fun rest hrest => ?_
  exact bind_of_ok (expect_written _ hrest)

/-- So is the end of a turn. -/
theorem readsBack_next (line : Nat) : (next line).ReadsBack := by
  refine .of_word (controlRest (.next line)) rfl (fun _ => rfl) fun rest hrest => ?_
  exact bind_of_ok (expect_written _ hrest)

mutual

/-- Every canonical statement is read back. -/
theorem readsBack : ∀ stmt : Stmt, stmt.Canonical → stmt.ReadsBack
  | .use line target aliasName, _ => readsBack_use line target aliasName
  | .declare line name typed _, h => readsBack_declare line name typed h
  | .assign line name _, h => readsBack_assign line name h
  | .assignIndex line name _ _, h => readsBack_assignIndex line name h.1 h.2
  | .assignProperty line path _, h => readsBack_assignProperty line path h
  | .define line name params returnType body, h =>
    readsBack_define line name params returnType (readsBack_all body h)
  | .branch line _ whenTrue whenFalse, h =>
    readsBack_branch line h.1 (readsBack_all whenTrue h.2.1) (readsBack_option whenFalse h.2.2)
  | .repeatWhile line _ body, h => readsBack_repeatWhile line h.1 (readsBack_all body h.2)
  | .repeatOver line name _ body, h =>
    readsBack_repeatOver line name h.1 h.2.1 h.2.2 (readsBack_all body h.2.2)
  | .select line _ cases otherwise, h =>
    readsBack_select line h.1 (readsBack_cases cases h.2.1) (readsBack_option otherwise h.2.2)
  | .attempt line body failure handler, h =>
    readsBack_attempt line failure (readsBack_all body h.1) (readsBack_all handler h.2)
  | .print line _, h => readsBack_print line h
  | .giveBack line none, _ => readsBack_giveBack line none nofun
  | .giveBack line (some value), h =>
    readsBack_giveBack line (some value) fun _ hvalue => Option.some.inj hvalue ▸ h
  | .leave line, _ => readsBack_leave line
  | .next line, _ => readsBack_next line
  | .evaluate _, h => readsBack_evaluate h

/-- Every statement of a canonical block is read back. -/
theorem readsBack_all : ∀ body : List Stmt, CanonicalAll body → ∀ stmt ∈ body, stmt.ReadsBack
  | [], _ => List.forall_mem_nil _
  | stmt :: rest, h => List.forall_mem_cons.mpr ⟨readsBack stmt h.1, readsBack_all rest h.2⟩

/-- So is every statement of a block that may be missing. -/
theorem readsBack_option : ∀ option : Option (List Stmt), CanonicalOption option →
    ∀ body ∈ option, ∀ stmt ∈ body, stmt.ReadsBack
  | none, _ => nofun
  | some body, h => fun _ hbody => Option.some.inj hbody ▸ readsBack_all body h

/-- So is every case. -/
theorem readsBack_cases : ∀ cases : List (Expr × List Stmt), CanonicalCases cases →
    ∀ case ∈ cases, case.1.Canonical ∧ ∀ stmt ∈ case.2, stmt.ReadsBack
  | [], _ => List.forall_mem_nil _
  | (_, body) :: rest, h =>
    List.forall_mem_cons.mpr ⟨⟨h.1, readsBack_all body h.2.1⟩, readsBack_cases rest h.2.2⟩

end

end Stmt

/-- A canonical program is read back before an end marker. -/
theorem Block.ofTokens_toTokens {program : Block} (h : Stmt.CanonicalAll program) (line : Nat) :
    ofTokens (toTokens line program) = .ok program := by
  have hread : Phrase.read (.statements []) (toTokens line program) =
      .ok (program, [.endOn line]) :=
    @Parse.read_statements (.endOn line) [] program (Stmt.readsBack_all program h) rfl []
  change Except.bind (Phrase.read (.statements []) (toTokens line program)) _ = _
  rw [hread]
  rfl

/-- A program that was read is read again from the tokens it is written as, lines included. -/
theorem reading_written {tokens : List Token} {program : Block}
    (h : Block.ofTokens tokens = .ok program) (line : Nat) :
    Block.ofTokens (program.toTokens line) = .ok program :=
  Block.ofTokens_toTokens (Block.canonical_of_ofTokens h) line

/-- A definition without its word, that gives back a difference in more parentheses than needed. -/
def bareDefinition : List Token :=
  [⟨.identifier "f", "f", 1⟩, ⟨.symbol .leftParen, "(", 1⟩, ⟨.identifier "n", "n", 1⟩,
    ⟨.symbol .rightParen, ")", 1⟩, ⟨.symbol .colon, ":", 1⟩, ⟨.keyword .returnWord, "return", 2⟩,
    ⟨.symbol .leftParen, "(", 2⟩, ⟨.identifier "n", "n", 2⟩, ⟨.symbol .rightParen, ")", 2⟩,
    ⟨.symbol .minus, "-", 2⟩, ⟨.symbol .leftParen, "(", 2⟩, ⟨.identifier "n", "n", 2⟩,
    ⟨.symbol .minus, "-", 2⟩, ⟨.number .one, "1", 2⟩, ⟨.symbol .rightParen, ")", 2⟩,
    ⟨.symbol .semicolon, ";", 2⟩, ⟨.keyword .endWord, "end", 3⟩, .endOn 3]

/-- The program that the definition is. -/
def bareProgram : Block :=
  [.define 1 "f" [⟨"n", none⟩] none
    [.giveBack 2 (some (.binary 2 .subtract (.var 2 "n")
      (.binary 2 .subtract (.var 2 "n") (.literal 2 (.number .one)))))]]

/-- A definition without its word is written with it, and with the parentheses it needs. -/
theorem written_of_bareDefinition : Block.ofTokens bareDefinition = .ok bareProgram ∧
    (bareProgram.toTokens 3).map Token.kind =
      [.keyword .funcWord, .identifier "f", .symbol .leftParen, .identifier "n",
        .symbol .rightParen, .symbol .colon, .keyword .returnWord, .identifier "n",
        .symbol .minus, .symbol .leftParen, .identifier "n", .symbol .minus, .number .one,
        .symbol .rightParen, .symbol .semicolon, .keyword .endWord, .endMarker] ∧
    Block.ofTokens (bareProgram.toTokens 3) = .ok bareProgram :=
  ⟨rfl, rfl, @reading_written bareDefinition bareProgram rfl 3⟩

end DecimalScript
