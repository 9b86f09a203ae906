import DecimalScript.Proofs.BodyStarts

/-!
# Spellings of a definition

Behind its name a definition is read in the same way, whatever it starts with: a signature and a
body. A declaration is a definition if a parenthesis follows its name. A name alone starts a
definition if parameters follow it and then a colon or an arrow; otherwise it starts a call or an
assignment, and where a signature and a body follow it, it cannot start these.
-/

namespace DecimalScript

namespace Parse

/-- A definition behind its name: parameters, a result type if there is one, and a body. -/
def signature (read : PhraseReader) (name : String) : Parse Function := do
  expect .leftParen .missingParameters
  let params ← read (.parameters [])
  let returnType ← typeAfter .arrow
  expect .colon (.missingColon .functionSignature)
  let body ← closedBlock read .functionBody
  return ⟨name, params, returnType, body⟩

variable {α : Type} {name : String} {line : Nat} {stmt : Stmt} {f : Function}
  {tokens rest : List Token}

/-! ### Signatures and bodies -/

/-- A definition is its name with what is read behind it. -/
theorem definition_eq (read : PhraseReader) (line : Nat) :
    definition read line = (do
      let name ← identifier .function
      let f ← signature read name
      return f.toStmt line) := by
  simp only [definition, signature, bind_assoc, pure_bind]
  rfl

theorem name_of_signature {read : PhraseReader} (h : signature read name tokens = .ok (f, rest)) :
    f.name = name := by
  obtain ⟨_, _, -, h⟩ := exists_of_bind_ok h
  obtain ⟨params, _, -, h⟩ := exists_of_bind_ok h
  obtain ⟨returnType, _, -, h⟩ := exists_of_bind_ok h
  obtain ⟨_, _, -, h⟩ := exists_of_bind_ok h
  obtain ⟨body, _, -, h⟩ := exists_of_bind_ok h
  cases h
  rfl

/-- A signature starts with a parenthesis. -/
theorem paren_of_signature {read : PhraseReader} (h : signature read name tokens = .ok (f, rest)) :
    ∃ paren inner, tokens = paren :: inner ∧ paren.kind = .symbol .leftParen := by
  obtain ⟨_, inner, hopen, -⟩ := exists_of_bind_ok h
  obtain ⟨paren, hparen, rfl, -⟩ := expect_ok hopen
  exact ⟨paren, inner, rfl, kind_of_isSymbol hparen⟩

theorem toStmt_inj {line line' : Nat} {f g : Function} (h : f.toStmt line = g.toStmt line') :
    f = g := by
  cases f
  cases g
  cases h
  rfl

/-- What is read as a definition from a name on is read as a signature and a body behind it. -/
theorem definition_eq_ok (id : Mark (.identifier name)) :
    definition Phrase.read line (id.val :: tokens) = .ok (stmt, rest) ↔
      ∃ f, signature Phrase.read name tokens = .ok (f, rest) ∧ stmt = f.toStmt line := by
  rw [definition_eq]
  constructor
  · intro h
    obtain ⟨name', left, hname, h⟩ := exists_of_bind_ok h
    obtain ⟨f, left', hf, hpure⟩ := exists_of_bind_ok h
    have hne : tokens ≠ [] := by
      rintro rfl
      obtain ⟨⟨kind, lexeme, line⟩, hkind⟩ := id
      cases hkind
      cases hname
    rw [identifier_next _ id.property hne] at hname
    cases hname
    cases hpure
    exact ⟨f, hf, rfl⟩
  · rintro ⟨f, hf, rfl⟩
    obtain ⟨paren, inner, rfl, -⟩ := paren_of_signature hf
    rw [bind_of_ok (identifier_next _ id.property (List.cons_ne_nil _ _)), bind_of_ok hf]
    rfl

theorem definition_iff_signature (id : Mark (.identifier name)) :
    definition Phrase.read line (id.val :: tokens) = .ok (f.toStmt line, rest) ↔
      signature Phrase.read name tokens = .ok (f, rest) := by
  rw [definition_eq_ok id]
  constructor
  · rintro ⟨g, hg, hsame⟩
    rwa [toStmt_inj hsame]
  · exact fun hf => ⟨f, hf, rfl⟩

/-! ### Statements that are no definitions -/

/-- Only statements that are no definitions are read. -/
def DefinesNone (x : Parse Stmt) : Prop :=
  ∀ tokens stmt rest, x tokens = .ok (stmt, rest) → stmt.isDefinition = false

theorem definesNone_pure (h : stmt.isDefinition = false) : DefinesNone (pure stmt) := by
  intro tokens stmt' rest hread
  cases hread
  exact h

theorem DefinesNone.bind {x : Parse α} {f : α → Parse Stmt} (hf : ∀ value, DefinesNone (f value)) :
    DefinesNone (x >>= f) := by
  intro tokens stmt rest hread
  obtain ⟨value, left, -, hnext⟩ := exists_of_bind_ok hread
  exact hf value left stmt rest hnext

/-- What reads no definitions does not read a function. -/
theorem DefinesNone.ne_toStmt {x : Parse Stmt} (h : DefinesNone x) :
    x tokens ≠ .ok (f.toStmt line, rest) := by
  intro hread
  cases h tokens _ rest hread

theorem definesNone_expressionStatement (read : PhraseReader) :
    DefinesNone (expressionStatement read) :=
  .bind fun _ => .bind fun _ => definesNone_pure rfl

theorem definesNone_propertyAssignment (read : PhraseReader) (first : Token) (base : String)
    (properties : List String) : DefinesNone (propertyAssignment read first base properties) := by
  unfold propertyAssignment
  split
  · exact definesNone_expressionStatement read
  · split
    · exact .bind fun _ => .bind fun _ => definesNone_pure rfl
    · intro tokens stmt rest hread
      cases hread

theorem definesNone_dottedStatement (read : PhraseReader) (first : Token) (base : String) :
    DefinesNone (dottedStatement read first base) := by
  intro tokens stmt rest hread
  unfold dottedStatement at hread
  dsimp only at hread
  split at hread
  · exact definesNone_propertyAssignment read first base _ tokens stmt rest hread
  · exact definesNone_expressionStatement read tokens stmt rest hread

/-- A declaration of a variable. -/
theorem definesNone_declaration (read : PhraseReader) (line : Nat) : DefinesNone (do
    let name ← identifier .letBinding
    let typed ← typeAfter .colon
    expect .equal .missingEqual
    let value ← initializer read
    expect .semicolon (.missingSemicolon .letBinding)
    return .declare line name typed value) :=
  .bind fun _ => .bind fun _ => .bind fun _ => .bind fun _ => .bind fun _ => definesNone_pure rfl

/-! ### Spellings -/

/-- Behind the parameters of a definition a colon or an arrow is found. -/
theorem startsDefinition_of_definition (id : Mark (.identifier name)) {second : Token}
    {inner : List Token}
    (h : definition Phrase.read line (id.val :: second :: inner) = .ok (stmt, rest)) :
    startsDefinition Phrase.read (id.val :: second :: inner) =
      .ok (true, id.val :: second :: inner) := by
  obtain ⟨params, returnType, body, mark, more, -, hparams, hresult⟩ :=
    definition_signature id.property h
  have hinner : inner ≠ [] := by
    rintro rfl
    rw [Phrase.read_eq] at hparams
    cases hparams
  have hfound : (mark.isSymbol .colon || mark.isSymbol .arrow) = true := by
    rcases hresult with ⟨-, hcolon⟩ | ⟨-, harrow⟩
    · simp [Token.isSymbol, hcolon]
    · simp [Token.isSymbol, harrow]
  -- The question is asked of copies of the tokens, so that its answer is all that is left of it.
  have hasked : (do
      skip 2
      let _ ← Phrase.read (.parameters [])
      return (← symbolAt 0 .colon) || (← symbolAt 0 .arrow) : Parse Bool)
        (id.val :: second :: inner) = .ok (true, mark :: more) := by
    refine (bind_of_ok (skip_two hinner)).trans ((bind_of_ok hparams).trans ?_)
    rw [← hfound]
    rfl
  rw [startsDefinition, ahead, hasked]

/-- A name starts a definition where a signature and a body follow it, and nowhere else. -/
theorem nameStatement_defines_iff (id : Mark (.identifier name)) :
    nameStatement Phrase.read id.val name (id.val :: tokens) = .ok (f.toStmt id.val.line, rest) ↔
      definition Phrase.read id.val.line (id.val :: tokens) = .ok (f.toStmt id.val.line, rest) := by
  constructor
  · intro h
    -- Only behind a parenthesis is a definition tried; what competes with it defines nothing.
    unfold nameStatement at h
    rw [peek_bind] at h
    generalize (tokenAt (id.val :: tokens) 1).kind = kind at h
    split at h
    · obtain ⟨answer, left, hstarts, hread⟩ := exists_of_bind_ok h
      cases ahead_ok hstarts
      cases answer with
      | true => exact hread
      | false => exact absurd hread (definesNone_expressionStatement _).ne_toStmt
    · refine absurd h (DefinesNone.ne_toStmt ?_)
      exact .bind fun _ => .bind fun _ => definesNone_pure rfl
    · refine absurd h (DefinesNone.ne_toStmt ?_)
      refine .bind fun index => ?_
      cases index with
      | some index => exact .bind fun _ => definesNone_pure rfl
      | none => exact definesNone_expressionStatement _
    · exact absurd h (definesNone_dottedStatement _ _ _).ne_toStmt
    · exact absurd h (definesNone_expressionStatement _).ne_toStmt
  · intro h
    obtain ⟨g, hsignature, -⟩ := (definition_eq_ok id).mp h
    obtain ⟨⟨kind, lexeme, place⟩, inner, rfl, hparen⟩ := paren_of_signature hsignature
    cases hparen
    rw [nameStatement, peek_bind]
    exact (bind_of_ok (startsDefinition_of_definition id h)).trans h

/-- After the word for declarations, a signature and a body behind the name are a definition, and
nothing else is. -/
theorem letRest_defines_iff (id : Mark (.identifier name)) :
    letRest Phrase.read line (id.val :: tokens) = .ok (f.toStmt line, rest) ↔
      definition Phrase.read line (id.val :: tokens) = .ok (f.toStmt line, rest) := by
  have hname : id.val.kind.isIdentifier = true := by
    rw [id.property]
    rfl
  obtain ⟨declaration, hnone, hchoice⟩ : ∃ declaration, DefinesNone declaration ∧
      letRest Phrase.read line (id.val :: tokens) =
        (if (tokenAt (id.val :: tokens) 1).isSymbol .leftParen then definition Phrase.read line
          else declaration) (id.val :: tokens) := by
    refine ⟨_, definesNone_declaration Phrase.read line, ?_⟩
    rw [letRest, peek_bind]
    change (if (id.val.kind.isIdentifier && _) = true then _ else _ : Parse Stmt) _ = _
    rw [hname, Bool.true_and]
  rw [hchoice]
  split
  · exact Iff.rfl
  · rename_i hparen
    -- Without a parenthesis this is a variable, and no signature can follow its name.
    refine iff_of_false hnone.ne_toStmt fun h => hparen ?_
    obtain ⟨g, hsignature, -⟩ := (definition_eq_ok id).mp h
    obtain ⟨paren, inner, rfl, hkind⟩ := paren_of_signature hsignature
    exact beq_iff_eq.mpr hkind

theorem statement_func (word : Mark (.keyword .funcWord)) (hne : tokens ≠ []) :
    statement Phrase.read (word.val :: tokens) = definition Phrase.read word.val.line tokens := by
  obtain ⟨⟨kind, lexeme, line⟩, hword⟩ := word
  cases hword
  exact (peek_bind 0 _).trans (bind_of_ok (skip_one hne))

theorem statement_let (word : Mark (.keyword .letWord)) (hne : tokens ≠ []) :
    statement Phrase.read (word.val :: tokens) = letRest Phrase.read word.val.line tokens := by
  obtain ⟨⟨kind, lexeme, line⟩, hword⟩ := word
  cases hword
  exact (peek_bind 0 _).trans (bind_of_ok (skip_one hne))

theorem statement_name (id : Mark (.identifier name)) :
    statement Phrase.read (id.val :: tokens) =
      nameStatement Phrase.read id.val name (id.val :: tokens) := by
  obtain ⟨⟨kind, lexeme, line⟩, hname⟩ := id
  cases hname
  rfl

/-- However a definition starts, it is read as the signature and the body behind its name. -/
theorem statement_opening_iff {opening : List Token} (h : Opening name opening line) :
    statement Phrase.read (opening ++ tokens) = .ok (f.toStmt line, rest) ↔
      signature Phrase.read name tokens = .ok (f, rest) := by
  cases h with
  | func word id =>
    change statement Phrase.read (word.val :: id.val :: tokens) = _ ↔ _
    rw [statement_func word (List.cons_ne_nil _ _), definition_iff_signature]
  | declared word id =>
    change statement Phrase.read (word.val :: id.val :: tokens) = _ ↔ _
    rw [statement_let word (List.cons_ne_nil _ _), letRest_defines_iff, definition_iff_signature]
  | bare id =>
    change statement Phrase.read (id.val :: tokens) = _ ↔ _
    rw [statement_name id, nameStatement_defines_iff, definition_iff_signature]

/-- After the word for functions nothing else than a definition of the name behind it is read. -/
theorem exists_function_of_statement (word : Mark (.keyword .funcWord))
    (id : Mark (.identifier name))
    (h : statement Phrase.read (word.val :: id.val :: tokens) = .ok (stmt, rest)) :
    ∃ f : Function, f.name = name ∧ stmt = f.toStmt word.val.line := by
  rw [statement_func word (List.cons_ne_nil _ _)] at h
  obtain ⟨f, hsignature, hstmt⟩ := (definition_eq_ok id).mp h
  exact ⟨f, name_of_signature hsignature, hstmt⟩

/-- A definition does not end the block it stands in. -/
theorem read_statements_opening {opening : List Token} (hopening : Opening name opening line)
    (h : statement Phrase.read (opening ++ tokens) = .ok (f.toStmt line, rest)) (done : Block) :
    Phrase.read (.statements done) (opening ++ tokens) =
      Phrase.read (.statements (f.toStmt line :: done)) rest := by
  obtain ⟨first, others, hsplit, hends⟩ :
      ∃ first others, opening ++ tokens = first :: others ∧ endsBlock first.kind = false := by
    cases hopening with
    | func word id => exact ⟨word.val, _, rfl, by rw [word.property]; rfl⟩
    | declared word id => exact ⟨word.val, _, rfl, by rw [word.property]; rfl⟩
    | bare id => exact ⟨id.val, _, rfl, by rw [id.property]; rfl⟩
  rw [hsplit] at h ⊢
  rw [read_statements_cases, if_neg (Bool.eq_false_iff.mp hends), bind_of_ok h]

/-- If a statement is read from the word for functions, a name and other tokens, it is a definition
of that name. Each other opening of it in front of the same tokens is read as the same function, as
a statement and as the next one of a block, and leaves the same rest. -/
theorem definition_spellings_agree (word : Mark (.keyword .funcWord)) (id : Mark (.identifier name))
    (h : statement Phrase.read (word.val :: id.val :: tokens) = .ok (stmt, rest)) :
    ∃ f : Function, f.name = name ∧ stmt = f.toStmt word.val.line ∧
      ∀ opening line, Opening name opening line →
        statement Phrase.read (opening ++ tokens) = .ok (f.toStmt line, rest) ∧
        ∀ done, Phrase.read (.statements done) (opening ++ tokens) =
          Phrase.read (.statements (f.toStmt line :: done)) rest := by
  obtain ⟨f, hname, rfl⟩ := exists_function_of_statement word id h
  have hsignature := (statement_opening_iff (.func word id)).mp h
  refine ⟨f, hname, rfl, fun opening line hopening => ?_⟩
  have hread := (statement_opening_iff hopening).mpr hsignature
  exact ⟨hread, read_statements_opening hopening hread⟩

/-- A function with types in front of a call. -/
theorem twice_spellings_agree :
    let signature : List Token := [.sign 1 .leftParen, .name 1 "x", .sign 1 .colon,
      .word 1 .intWord, .sign 1 .rightParen, .sign 1 .arrow, .word 1 .intWord, .sign 1 .colon,
      .word 1 .returnWord, .name 1 "x", .sign 1 .plus, .name 1 "x", .sign 1 .semicolon,
      .word 1 .endWord]
    let rest : List Token := [.name 2 "twice", .sign 2 .leftParen, .sign 2 .rightParen, .endOn 2]
    let twice : Function := ⟨"twice", [⟨"x", some .int⟩], some .int,
      [.giveBack 1 (some (.binary 1 .add (.var 1 "x") (.var 1 "x")))]⟩
    statement Phrase.read (.word 1 .letWord :: .name 1 "twice" :: (signature ++ rest)) =
        .ok (twice.toStmt 1, rest) ∧
      statement Phrase.read (.name 1 "twice" :: (signature ++ rest)) =
        .ok (twice.toStmt 1, rest) := by
  intro signature rest twice
  have hfunc : statement Phrase.read (.word 1 .funcWord :: .name 1 "twice" :: (signature ++ rest)) =
      .ok (twice.toStmt 1, rest) := rfl
  obtain ⟨f, -, hsame, hread⟩ := definition_spellings_agree ⟨.word 1 .funcWord, rfl⟩
    ⟨.name 1 "twice", rfl⟩ hfunc
  obtain rfl := toStmt_inj hsame
  constructor
  · exact (hread _ _ (.declared ⟨.word 1 .letWord, rfl⟩ ⟨.name 1 "twice", rfl⟩)).1
  · exact (hread _ _ (.bare ⟨.name 1 "twice", rfl⟩)).1

end Parse

end DecimalScript
