import DecimalScript.Proofs.Lookahead

/-!
# Where reading a statement ends

A statement that is read in front of an end marker is read in the same way in front of any other
tokens, since it ends before the marker. So statements in front of an end marker are the first
statements in front of anything that follows, and reading goes on from there.
-/

namespace DecimalScript

namespace Parse

variable {α : Type} {tokens : List Token}

/-- Asking for a symbol ahead consumes nothing. -/
theorem exists_symbolAt (position : Nat) (symbol : Symbol) (h : tokens ≠ []) :
    ∃ answer, symbolAt position symbol tokens = .ok (answer, tokens) := by
  cases tokens with
  | nil => exact absurd rfl h
  | cons first rest => exact ⟨_, rfl⟩

/-- A name does not end a statement. -/
theorem endsStatement_of_isIdentifier {kind : TokenKind} (h : kind.isIdentifier = true) :
    endsStatement kind = false := by
  cases kind with
  | identifier name => rfl
  | _ => cases h

/-- Phrases that hold statements may look at what follows only to find that a block is open. -/
structure ReadsBlocks (read : PhraseReader) : Prop where
  /-- Inside a statement nothing that follows it matters. -/
  within : ReadsWithin read
  /-- Statements inside a block are read as long as the block is closed. -/
  nested : ∀ {α : Type} (phrase : Phrase α) {tokens : List Token}, holdsStatements phrase = true →
    Ended tokens → Nested (read phrase) tokens
  /-- No statement is found at the end marker. -/
  statements : ∀ done, Stays (read (.statements done))
  /-- No case is found at the end marker. -/
  cases : ∀ done, Stays (read (.cases done))

section Statements

variable {read : PhraseReader} (hread : ReadsBlocks read)

include hread

/-- The parameters of a function are read within the statement that opens its body. -/
theorem local_parameters (done : List Parameter) (h : Ended tokens) :
    Local (parameters read done) tokens := by
  refine local_listed done _ h fun rest hrest => ?_
  refine (local_identifier hrest _).bind fun name first hfirst => ?_
  refine (local_typeAfter hfirst rfl).bind fun typed after hafter => ?_
  exact hread.within (.parameters _) rfl hafter

/-- A block ends with the word that closes it, which may be the last token. -/
theorem closing_closedBlock (construct : Construct) (h : Ended tokens) :
    Closing (closedBlock read construct) tokens := by
  refine (hread.nested (.statements []) rfl h).bind_closing
    (fun _ => (refuses_expectWord _ _).bind) fun body rest hrest => ?_
  exact (closing_expectWord hrest _ _).bind_pure

/-- A definition ends with its body. -/
theorem closing_definition (line : Nat) (h : Ended tokens) :
    Closing (definition read line) tokens := by
  refine (local_identifier h _).bind_closing fun name first hfirst => ?_
  refine (local_expect hfirst _ rfl).bind_closing fun _ second hsecond => ?_
  refine (hread.within (.parameters []) rfl hsecond).bind_closing fun params third hthird => ?_
  refine (local_typeAfter hthird rfl).bind_closing fun returnType fourth hfourth => ?_
  refine (local_expect hfourth _ rfl).bind_closing fun _ fifth hfifth => ?_
  exact (closing_closedBlock hread _ hfifth).bind_pure

omit hread in
/-- An import ends with its alias, or with a semicolon behind it. -/
theorem closing_useRest (line : Nat) (h : Ended tokens) : Closing (useRest line) tokens := by
  refine (local_moduleRef h).bind_closing fun target first hfirst => ?_
  refine (local_expectWord hfirst _ rfl).bind_closing fun _ second hsecond => ?_
  refine (local_identifier hsecond _).bind_closing fun aliasName third hthird => ?_
  exact (closing_skipSemicolon hthird).bind_pure

/-- A declaration looks behind its first token, but goes by that only if the first is a name. -/
theorem closing_letRest (line : Nat) (h : Ended tokens) : Closing (letRest read line) tokens := by
  refine .congr (agree_peek h.length_pos) ?_
  have hbinding : Closing
      (do
        let name ← identifier .letBinding
        let typed ← typeAfter .colon
        expect .equal .missingEqual
        let value ← initializer read
        expect .semicolon (.missingSemicolon .letBinding)
        return Stmt.declare line name typed value) tokens := by
    refine (local_identifier h _).bind_closing fun name first hfirst => ?_
    refine (local_typeAfter hfirst rfl).bind_closing fun typed second hsecond => ?_
    refine (local_expect hsecond _ rfl).bind_closing fun _ third hthird => ?_
    refine (local_initializer hread.within hthird).bind_closing fun value fourth hfourth => ?_
    exact (closing_expect hfourth _ _).bind_pure
  cases hname : (tokenAt tokens 0).kind.isIdentifier with
  | true =>
    have hrest := h.drop h.length_pos (endsStatement_of_isIdentifier hname)
    have hone := hrest.length_pos
    rw [List.length_drop] at hone
    refine .congr (agree_symbolAt (by omega) .leftParen) ?_
    cases (tokenAt tokens 1).isSymbol .leftParen with
    | true => exact closing_definition hread line h
    | false => exact hbinding
  | false =>
    refine .congr (fun after => ?_) hbinding
    have hsome : tokens ++ after ≠ [] := by simp [List.ne_nil_of_length_pos h.length_pos]
    obtain ⟨answer, hanswer⟩ := exists_symbolAt 1 .leftParen hsome
    rw [bind_of_ok hanswer]
    rfl

/-- A chain of conditions leaves the word that closes it. -/
theorem nested_branch (line : Nat) (h : Ended tokens) : Nested (branch read line) tokens := by
  refine (hread.within (.expression 0) rfl h).bind_nested fun condition first hfirst => ?_
  refine (local_expect hfirst _ rfl).bind_nested fun _ second hsecond => ?_
  refine (hread.nested (.statements []) rfl hsecond).bind (fun _ => ?_) fun whenTrue third hthird => ?_
  · refine Stays.wordNext ?_ _
    exact .pure _
  refine .congr (agree_wordNext hthird.length_pos .elseWord) ?_
  cases helse : (tokenAt third 0).isKeyword .elseWord with
  | false => exact (Local.pure hthird _).closing.nested
  | true =>
    refine (local_skip_kind hthird (kind_of_isKeyword helse) rfl).bind_nested
      fun _ fourth hfourth => ?_
    refine .congr (agree_wordNext hfourth.length_pos .ifWord) ?_
    cases hif : (tokenAt fourth 0).isKeyword .ifWord with
    | true =>
      refine .congr (agree_peek hfourth.length_pos) ?_
      refine (local_skip_kind hfourth (kind_of_isKeyword hif) rfl).bind_nested
        fun _ fifth hfifth => ?_
      exact Nested.bind_pure (hread.nested (.branch _) rfl hfifth)
    | false =>
      refine (local_expect hfourth _ rfl).bind_nested fun _ fifth hfifth => ?_
      exact Nested.bind_pure (hread.nested (.statements []) rfl hfifth)

/-- Behind its word, a chain of conditions is closed by its own end. -/
theorem closing_ifRest (line : Nat) (h : Ended tokens) : Closing (ifRest read line) tokens :=
  (hread.nested (.branch line) rfl h).bind_closing (fun _ => (refuses_expectWord _ _).bind)
    fun _ _ hrest => (closing_expectWord hrest _ _).bind_pure

/-- A loop with a condition ends with its body. -/
theorem closing_whileRest (line : Nat) (h : Ended tokens) :
    Closing (whileRest read line) tokens := by
  refine (hread.within (.expression 0) rfl h).bind_closing fun condition first hfirst => ?_
  refine (local_expect hfirst _ rfl).bind_closing fun _ second hsecond => ?_
  exact (closing_closedBlock hread _ hsecond).bind_pure

/-- The stop of a range is read and the colon behind it looked at, which is no end of a
statement. -/
theorem local_rangeStop (h : Ended tokens) : Local (rangeStop read) tokens := by
  refine local_attempt h ((hread.within (.expression 0) rfl h).bind fun stop rest hrest => ?_)
  refine .congr (agree_symbolAt hrest.length_pos .colon) ?_
  cases (tokenAt rest 0).isSymbol .colon with
  | true => exact .pure hrest _
  | false => exact local_fail hrest _

omit hread in
/-- Whether a step follows is told by tokens before the end of the statement. -/
theorem exists_stepNext (h : Ended tokens) :
    ∃ answer, (answer = true → (tokenAt tokens 0).kind = .symbol .colon) ∧
      Agree stepNext (pure answer) tokens := by
  have hsymbol {f : Bool → Parse Bool} := agree_symbolAt (f := f) h.length_pos .colon
  cases hcolon : (tokenAt tokens 0).isSymbol .colon with
  | false =>
    rw [hcolon] at hsymbol
    exact ⟨false, nofun, hsymbol⟩
  | true =>
    rw [hcolon] at hsymbol
    have hkind := kind_of_isSymbol hcolon
    have hone := (h.drop h.length_pos (congrArg endsStatement hkind)).length_pos
    rw [List.length_drop] at hone
    have hsecond : 1 < tokens.length := by omega
    cases hnext : (tokenAt tokens 1).kind with
    | symbol symbol =>
      by_cases hminus : symbol = .minus
      · subst hminus
        have htwo := (h.drop hsecond (congrArg endsStatement hnext)).length_pos
        rw [List.length_drop] at htwo
        refine ⟨(tokenAt tokens 2).kind.isNumber, fun _ => hkind,
          hsymbol.trans ((agree_peek hsecond).trans ?_)⟩
        rw [hnext]
        exact agree_peek (by omega)
      · refine ⟨false, fun _ => hkind, hsymbol.trans ((agree_peek hsecond).trans ?_)⟩
        rw [hnext]
        cases symbol <;> first | exact absurd rfl hminus | exact fun _ => rfl
    | number value =>
      refine ⟨true, fun _ => hkind, hsymbol.trans ((agree_peek hsecond).trans ?_)⟩
      rw [hnext]
      exact fun _ => rfl
    | keyword _ | identifier _ | text _ | path _ | endMarker =>
      refine ⟨false, fun _ => hkind, hsymbol.trans ((agree_peek hsecond).trans ?_)⟩
      rw [hnext]
      exact fun _ => rfl

/-- What a loop runs over is read before its body. -/
theorem local_iterationRest (first : Expr) (h : Ended tokens) :
    Local (iterationRest read first) tokens := by
  refine (local_rangeStop hread h).bind fun stop rest hrest => ?_
  split
  · exact .pure hrest _
  · obtain ⟨stepped, hstepped, hagree⟩ := exists_stepNext hrest
    refine .congr hagree.bind ?_
    cases stepped with
    | true =>
      refine (local_skip_kind hrest (hstepped rfl) rfl).bind fun _ second hsecond => ?_
      refine (hread.within (.expression 0) rfl hsecond).bind fun step third hthird => ?_
      exact (local_expect hthird _ rfl).bind fun _ _ hlast => .pure hlast _
    | false => exact (local_expect hrest _ rfl).bind fun _ _ hlast => .pure hlast _

/-- A loop over a range or elements ends with its body. -/
theorem closing_forRest (line : Nat) (h : Ended tokens) : Closing (forRest read line) tokens := by
  refine (local_identifier h _).bind_closing fun name first hfirst => ?_
  refine (local_expectWord hfirst _ rfl).bind_closing fun _ second hsecond => ?_
  refine (hread.within (.expression 0) rfl hsecond).bind_closing fun start third hthird => ?_
  refine (local_expect hthird _ rfl).bind_closing fun _ fourth hfourth => ?_
  refine (local_iterationRest hread start hfourth).bind_closing fun iteration fifth hfifth => ?_
  exact (closing_closedBlock hread _ hfifth).bind_pure

/-- The cases of a choice leave the word that closes it. -/
theorem nested_cases (done : List (Expr × Block)) (h : Ended tokens) :
    Nested (cases read done) tokens := by
  refine .congr (agree_wordNext h.length_pos .caseWord) ?_
  cases hcase : (tokenAt tokens 0).isKeyword .caseWord with
  | false => exact (Local.pure h _).closing.nested
  | true =>
    refine (local_skip_kind h (kind_of_isKeyword hcase) rfl).bind_nested fun _ first hfirst => ?_
    refine (hread.within (.expression 0) rfl hfirst).bind_nested fun value second hsecond => ?_
    refine (local_expect hsecond _ rfl).bind_nested fun _ third hthird => ?_
    exact (hread.nested (.statements []) rfl hthird).bind (fun _ => hread.cases _)
      fun _ _ hlast => hread.nested (.cases _) rfl hlast

/-- So does the block without a case. -/
theorem nested_otherwise (h : Ended tokens) : Nested (otherwise read) tokens := by
  refine .congr (agree_wordNext h.length_pos .defaultWord) ?_
  cases hdefault : (tokenAt tokens 0).isKeyword .defaultWord with
  | false => exact (Local.pure h _).closing.nested
  | true =>
    refine (local_skip_kind h (kind_of_isKeyword hdefault) rfl).bind_nested
      fun _ first hfirst => ?_
    refine (local_expect hfirst _ rfl).bind_nested fun _ second hsecond => ?_
    exact Nested.bind_pure (hread.nested (.statements []) rfl hsecond)

/-- A choice is closed by its own end. -/
theorem closing_switchRest (line : Nat) (h : Ended tokens) :
    Closing (switchRest read line) tokens := by
  refine (hread.within (.expression 0) rfl h).bind_closing fun subject first hfirst => ?_
  refine (local_expect hfirst _ rfl).bind_closing fun _ second hsecond => ?_
  have hstays : Stays (otherwise read) := by
    refine Stays.wordNext ?_ _
    exact .pure _
  refine (hread.nested (.cases []) rfl hsecond).bind_closing
    (fun _ => hstays.bind_refuses fun _ => (refuses_expectWord _ _).bind)
    fun cases third hthird => ?_
  refine (nested_otherwise hread hthird).bind_closing (fun _ => (refuses_expectWord _ _).bind)
    fun default fourth hfourth => ?_
  exact (closing_expectWord hfourth _ _).bind_pure

/-- A guarded block ends with its handler. -/
theorem closing_tryRest (line : Nat) (h : Ended tokens) : Closing (tryRest read line) tokens := by
  refine (local_expect h _ rfl).bind_closing fun _ first hfirst => ?_
  refine (hread.nested (.statements []) rfl hfirst).bind_closing
    (fun _ => (refuses_expectWord _ _).bind) fun body second hsecond => ?_
  refine (local_expectWord hsecond _ rfl).bind_closing fun _ third hthird => ?_
  refine (local_identifier hthird _).bind_closing fun name fourth hfourth => ?_
  refine (local_expect hfourth _ rfl).bind_closing fun _ fifth hfifth => ?_
  exact (closing_closedBlock hread _ hfifth).bind_pure

/-- Output ends with its semicolon. -/
theorem closing_printRest (line : Nat) (h : Ended tokens) :
    Closing (printRest read line) tokens := by
  refine (local_expect h _ rfl).bind_closing fun _ first hfirst => ?_
  refine (hread.within (.arguments []) rfl hfirst).bind_closing fun arguments second hsecond => ?_
  exact (closing_expect hsecond _ _).bind_pure

/-- What is given back ends with its semicolon. -/
theorem closing_returnRest (line : Nat) (h : Ended tokens) :
    Closing (returnRest read line) tokens := by
  have hend : ∀ value rest, Ended rest → Closing
      (do
        expect .semicolon (.missingSemicolon .returnStatement)
        return Stmt.giveBack line value) rest :=
    fun _ _ hrest => (closing_expect hrest _ _).bind_pure
  refine .congr (agree_symbolAt h.length_pos .semicolon) ?_
  cases (tokenAt tokens 0).isSymbol .semicolon with
  | true => exact hend none tokens h
  | false => exact (hread.within (.expression 0) rfl h).map.bind_closing hend

omit hread in
/-- A statement of one word ends with its semicolon. -/
theorem closing_controlRest (stmt : Stmt) (h : Ended tokens) :
    Closing (controlRest stmt) tokens :=
  (closing_expect h _ _).bind_pure

/-- An expression that is a statement of its own ends with it, or with a semicolon behind it. -/
theorem closing_expressionStatement (h : Ended tokens) :
    Closing (expressionStatement read) tokens :=
  (local_expression hread.within 0 h).bind_closing fun _ _ hrest =>
    (closing_skipSemicolon hrest).bind_pure

/-- An assignment ends with its value, or with a semicolon behind it. -/
theorem closing_assignedValue (h : Ended tokens) : Closing (assignedValue read) tokens :=
  (hread.within (.expression 0) rfl h).bind_closing fun _ _ hrest =>
    (closing_skipSemicolon hrest).bind_pure

omit hread in
/-- Names after dots do not reach past the end of a statement. -/
theorem dottedNames_append (h : Ended tokens) (after : List Token) :
    Ended (dottedNames tokens).2 ∧ dottedNames (tokens ++ after) =
      ((dottedNames tokens).1, (dottedNames tokens).2 ++ after) := by
  fun_induction dottedNames tokens with
  | case1 lexeme line name lexeme' line' rest names last hlast ih =>
    rw [hlast] at ih
    obtain ⟨hended, hsame⟩ := ih ((h.tail rfl).tail rfl)
    refine ⟨hended, ?_⟩
    rw [List.cons_append, List.cons_append, dottedNames, hsame]
  | case2 tokens hother =>
    refine ⟨h, ?_⟩
    rw [dottedNames]
    intro lexeme line name lexeme' line' rest hnext
    obtain ⟨next, others, rfl⟩ := List.exists_cons_of_length_pos h.length_pos
    cases List.head_eq_of_cons_eq hnext
    obtain ⟨second, others, rfl⟩ := List.exists_cons_of_length_pos (h.tail rfl).length_pos
    cases List.head_eq_of_cons_eq (List.tail_eq_of_cons_eq hnext)
    exact hother _ _ _ _ _ _ rfl

/-- An assignment to properties, which its equals sign tells, ends as an assignment does. -/
theorem closing_propertyAssignment (first : Token) (base : String) (properties : List String)
    (h : Ended tokens) (hlength : 2 * properties.length + 1 < tokens.length)
    (hequal : (tokenAt tokens (2 * properties.length + 1)).kind = .symbol .equal) :
    Closing (propertyAssignment read first base properties) tokens := by
  unfold propertyAssignment
  split
  · exact closing_expressionStatement hread h
  · split
    · refine (local_skip h hlength (congrArg endsStatement hequal)).bind_closing
        fun _ rest hrest => ?_
      exact (closing_assignedValue hread hrest).bind_pure
    · exact (local_failAt _ _).closing

/-- A statement that starts with a dotted name ends within the tokens, since no dotted name reaches
past the end of a statement. -/
theorem closing_dottedStatement (first : Token) (base : String) (h : Ended tokens)
    (hfirst : endsStatement (tokenAt tokens 0).kind = false) :
    Closing (dottedStatement read first base) tokens := by
  obtain ⟨head, others, rfl⟩ := List.exists_cons_of_length_pos h.length_pos
  have hended := (dottedNames_append (h.tail hfirst) []).1
  have hagree : Agree (dottedStatement read first base)
      (if (tokenAt (dottedNames others).2 0).isSymbol .equal then
        propertyAssignment read first base (dottedNames others).1
      else expressionStatement read) (head :: others) := by
    intro after
    have hsame := (dottedNames_append (h.tail hfirst) after).2
    rw [dottedStatement, List.cons_append, List.drop_succ_cons, List.drop_zero, hsame]
    dsimp only
    rw [tokenAt_append hended.length_pos]
  refine .congr hagree ?_
  split
  · rename_i hequal
    have hkind := kind_of_isSymbol hequal
    have hlength := hended.length_pos
    rw [dottedNames_rest, List.length_drop] at hlength
    rw [dottedNames_rest, tokenAt_drop, Nat.add_zero] at hkind
    refine closing_propertyAssignment hread _ _ _ h ?_ hkind
    rw [List.length_cons]
    omega
  · exact closing_expressionStatement hread h

/-- A statement that starts with a name ends within the tokens, whichever kind it turns out to
be. -/
theorem closing_nameStatement (first : Token) (name : String) (h : Ended tokens)
    (hfirst : endsStatement (tokenAt tokens 0).kind = false) :
    Closing (nameStatement read first name) tokens := by
  have hone := (h.drop h.length_pos hfirst).length_pos
  rw [List.length_drop] at hone
  have hskip {symbol : Symbol} (hkind : (tokenAt tokens 1).kind = .symbol symbol)
      (hends : endsStatement (.symbol symbol) = false) : Local (skip 2) tokens :=
    local_skip h (by omega) (hkind ▸ hends)
  refine .congr (agree_peek (by omega)) ?_
  split
  · rename_i hkind
    have hstarts : Local (startsDefinition read) tokens := by
      refine local_ahead h ((hskip hkind rfl).bind fun _ rest hrest => ?_)
      refine (hread.within (.parameters []) rfl hrest).bind fun _ last hlast => ?_
      refine .congr (agree_symbolAt hlast.length_pos .colon) ?_
      exact .congr (agree_symbolAt hlast.length_pos .arrow) (.pure hlast _)
    refine hstarts.bind_closing fun answer rest hrest => ?_
    split
    · exact closing_definition hread _ hrest
    · exact closing_expressionStatement hread hrest
  · rename_i hkind
    refine (hskip hkind rfl).bind_closing fun _ rest hrest => ?_
    exact (closing_assignedValue hread hrest).bind_pure
  · rename_i hkind
    have hindex : Local (assignedIndex read) tokens := by
      refine local_attempt h ((hskip hkind rfl).bind fun _ first hfirst => ?_)
      refine (hread.within (.expression 0) rfl hfirst).bind fun index second hsecond => ?_
      refine (local_expect hsecond _ rfl).bind fun _ third hthird => ?_
      exact (local_expect hthird _ rfl).bind fun _ _ hlast => .pure hlast _
    refine hindex.bind_closing fun index rest hrest => ?_
    split
    · exact (closing_assignedValue hread hrest).bind_pure
    · exact closing_expressionStatement hread hrest
  · exact closing_dottedStatement hread _ _ h hfirst
  · exact closing_expressionStatement hread h

/-- A statement of any kind ends within the tokens. -/
theorem closing_statement (h : Ended tokens) : Closing (statement read) tokens := by
  refine .congr (agree_peek h.length_pos) ?_
  generalize hkind : (tokenAt tokens 0).kind = kind
  have hone {f : Unit → Parse Stmt} (hends : endsStatement kind = false)
      (hf : ∀ rest, Ended rest → Closing (f ()) rest) : Closing (skip 1 >>= f) tokens :=
    (local_skip_kind h hkind hends).bind_closing fun _ => hf
  split
  · exact hone rfl fun _ => closing_useRest _
  · exact hone rfl fun _ => closing_definition hread _
  · exact hone rfl fun _ => closing_letRest hread _
  · exact hone rfl fun _ => closing_ifRest hread _
  · exact hone rfl fun _ => closing_whileRest hread _
  · exact hone rfl fun _ => closing_forRest hread _
  · exact hone rfl fun _ => closing_switchRest hread _
  · exact hone rfl fun _ => closing_tryRest hread _
  · exact hone rfl fun _ => closing_printRest hread _
  · exact hone rfl fun _ => closing_returnRest hread _
  · exact hone rfl fun _ => closing_controlRest _
  · exact hone rfl fun _ => closing_controlRest _
  · exact closing_nameStatement hread _ _ h (hkind ▸ rfl)
  · exact closing_expressionStatement hread h

/-- The statements of a block leave the word that closes it. -/
theorem nested_statements (done : Block) (h : Ended tokens) :
    Nested (statements read done) tokens := by
  refine .congr (agree_peek h.length_pos) ?_
  split
  · exact (Local.pure h _).closing.nested
  · exact (closing_statement hread h).nested.bind (fun _ => hread.statements _)
      fun _ _ hrest => hread.nested (.statements _) rfl hrest

end Statements

/-- However much nesting is allowed, nothing that follows a statement matters inside it. The
induction is on the nesting. -/
theorem readsBlocks_parse (depth : Nat) : ReadsBlocks (Phrase.parse depth) := by
  induction depth with
  | zero =>
    have hstop {α : Type} {tokens : List Token} : Local (exhausted : Parse α) tokens :=
      .inl ⟨_, fun _ => rfl⟩
    have hstays {α : Type} : Stays (exhausted : Parse α) := by
      intro last hlast value rest hread
      cases hread
    exact ⟨fun _ _ _ _ => hstop, fun _ _ _ _ => hstop.closing.nested, fun _ => hstays,
      fun _ => hstays⟩
  | succ depth ih =>
    refine ⟨fun phrase tokens hkind h => ?_, fun phrase tokens hkind h => ?_, ?_, ?_⟩
    · cases phrase with
      | expression level => exact local_expression ih.within level h
      | operators level left => exact local_operators ih.within level left h
      | suffixes head => exact local_suffixes ih.within head h
      | arguments done => exact local_arguments ih.within done h
      | elements done => exact local_elements ih.within done h
      | fields done => exact local_fields ih.within done h
      | parameters done => exact local_parameters ih done h
      | lambdaNames done => exact local_lambdaNames ih.within done h
      | statements | branch | cases => cases hkind
    · cases phrase with
      | statements done => exact nested_statements ih done h
      | branch line => exact nested_branch ih line h
      | cases done => exact nested_cases ih done h
      | _ => cases hkind
    · intro done last hlast value rest hread
      change (if endsBlock last.kind then pure done.reverse else _ : Parse Block) [last] = _ at hread
      rw [hlast] at hread
      cases hread
      rfl
    · intro done
      refine Stays.wordNext ?_ _
      exact .pure _

/-- Reading with much nesting is reading without a bound. -/
theorem reads_parse {n depth : Nat} (h : 2 * n ≤ depth) :
    Reads n (Phrase.parse depth) Phrase.read := by
  intro α phrase tokens hlt
  have hneed : phrase.need tokens.length ≤ depth := by
    cases phrase <;> simp only [Phrase.need] <;> omega
  exact Phrase.leaves_parse phrase tokens hneed (Nat.le_refl _)

/-- A statement in front of an end marker is read in the same way in front of any tokens. -/
theorem closing_read_statement (h : Ended tokens) :
    Closing (statement Phrase.read) tokens := by
  have hbound (others : List Token) {depth : Nat} (hdepth : 2 * others.length ≤ depth) :
      statement Phrase.read others = statement (Phrase.parse depth) others :=
    (leaves_statement (reads_parse hdepth) (Nat.le_refl _)).1
  intro last hlast value rest hread
  have hclosing (depth : Nat) (hdepth : 2 * (tokens ++ [last]).length ≤ depth) :=
    closing_statement (readsBlocks_parse depth) h last hlast value rest (hbound _ hdepth ▸ hread)
  obtain ⟨left, hleft, rfl, -⟩ := hclosing _ (Nat.le_refl _)
  refine ⟨left, hleft, rfl, fun after hne => ?_⟩
  obtain ⟨left', -, hsame, hafter⟩ :=
    hclosing (2 * (tokens ++ [last]).length + 2 * (tokens ++ after).length) (by omega)
  cases List.append_cancel_right hsame
  rw [hbound _ (Nat.le_add_left _ _)]
  exact hafter after hne

/-- Reading a block ends at a token that ends it, or goes on behind a statement. -/
theorem read_statements_cases {first : Token} {rest : List Token} (done : Block) :
    Phrase.read (.statements done) (first :: rest) =
      if endsBlock first.kind then .ok (done.reverse, first :: rest)
      else (statement Phrase.read >>= fun stmt => Phrase.read (.statements (stmt :: done)))
        (first :: rest) := by
  rw [← Phrase.rule_read_eq_read]
  change (if endsBlock first.kind then pure done.reverse else _ : Parse Block) (first :: rest) = _
  split <;> rfl

/-- Statements in front of an end marker are the first statements in front of other tokens. The
induction is on the number of tokens. -/
theorem read_statements_append {program done : Block} {last : Token} {rest : List Token}
    (h : tokens = [] ∨ Ended tokens) (hmarks : ∀ token ∈ tokens, token.kind ≠ .endMarker)
    (hlast : last.kind = .endMarker)
    (hread : Phrase.read (.statements done) (tokens ++ [last]) = .ok (program, rest))
    (hrest : (tokenAt rest 0).kind = .endMarker) {after : List Token} (hafter : after ≠ []) :
    Phrase.read (.statements done) (tokens ++ after) =
      Phrase.read (.statements program.reverse) after := by
  induction hlength : tokens.length using Nat.strongRecOn generalizing tokens done with
  | ind length ih =>
  obtain rfl | hended := h
  · rw [List.nil_append, read_statements_cases, hlast] at hread
    change Except.ok (done.reverse, [last]) = _ at hread
    cases hread
    rw [List.nil_append, List.reverse_reverse]
  · obtain ⟨first, others, rfl⟩ := List.exists_cons_of_length_pos hended.length_pos
    rw [List.cons_append, read_statements_cases] at hread
    rw [List.cons_append, read_statements_cases]
    split at hread
    · cases hread
      exact absurd hrest (hmarks first List.mem_cons_self)
    · rename_i hgoes
      rw [if_neg hgoes]
      obtain ⟨stmt, between, hstmt, hnext⟩ := exists_of_bind_ok hread
      obtain ⟨left, hleft, rfl, hsame⟩ := closing_read_statement hended last hlast _ _ hstmt
      have hfewer : left <:+ first :: others ∧ left.length < (first :: others).length := by
        have hleaves := (leaves_statement (reads_read (first :: others ++ [last]).length)
          (Nat.le_refl _)).2
        rw [List.cons_append, hstmt] at hleaves
        obtain ⟨hshorter, ⟨consumed, htokens⟩, -⟩ := hleaves
        rw [← List.append_assoc, ← List.cons_append] at htokens
        refine ⟨⟨consumed, List.append_cancel_right htokens⟩, ?_⟩
        simpa using hshorter
      rw [← List.cons_append, bind_of_ok (hsame after hafter)]
      exact ih left.length (hlength ▸ hfewer.2) hleft
        (fun token htoken => hmarks token (hfewer.1.mem htoken)) hnext rfl

/-- Statements that were read before come first. The induction is on the number of tokens. -/
theorem read_statements_after {tokens rest : List Token} {program others : Block}
    (h : Phrase.read (.statements others) tokens = .ok (program, rest)) (done : Block) :
    Phrase.read (.statements (others ++ done)) tokens = .ok (done.reverse ++ program, rest) := by
  induction hlength : tokens.length using Nat.strongRecOn generalizing tokens others with
  | ind length ih =>
  cases tokens with
  | nil =>
    rw [← Phrase.rule_read_eq_read] at h
    cases h
  | cons first more =>
    rw [read_statements_cases] at h ⊢
    split at h
    · rename_i hends
      cases h
      rw [if_pos hends, List.reverse_append]
    · rename_i hgoes
      obtain ⟨stmt, between, hstmt, hnext⟩ := exists_of_bind_ok h
      have hleaves := (leaves_statement (reads_read (first :: more).length) (Nat.le_refl _)).2
      rw [hstmt] at hleaves
      rw [if_neg hgoes, bind_of_ok hstmt]
      exact ih between.length (hlength ▸ hleaves.1) hnext rfl

end Parse

namespace Block

/-- A program is the block that is read up to an end marker. -/
theorem ofTokens_eq_ok {tokens : List Token} {program : Block} :
    ofTokens tokens = .ok program ↔ ∃ rest,
      Phrase.read (.statements []) tokens = .ok (program, rest) ∧
        (Parse.tokenAt rest 0).kind = .endMarker := by
  change Except.bind (Phrase.read (.statements []) tokens) _ = _ ↔ _
  cases hread : Phrase.read (.statements []) tokens with
  | error stop => exact ⟨nofun, nofun⟩
  | ok result =>
    obtain ⟨block, rest⟩ := result
    change (if _ then _ else _) = _ ↔ _
    split
    · rename_i hend
      refine ⟨fun h => ?_, fun ⟨rest', h, _⟩ => ?_⟩
      · cases h
        exact ⟨rest, rfl, eq_of_beq hend⟩
      · cases h
        rfl
    · rename_i hend
      refine ⟨nofun, fun ⟨rest', h, hrest⟩ => ?_⟩
      cases h
      exact absurd (beq_iff_eq.mpr hrest) hend

/-- Programs are joined if their tokens are, where the first ends with the end of a statement. -/
theorem ofTokens_append {first second : List Token} {program other : Block} {last : Token}
    (hfirst : first = [] ∨ Ended first) (hmarks : ∀ token ∈ first, token.kind ≠ .endMarker)
    (hlast : last.kind = .endMarker) (hprogram : ofTokens (first ++ [last]) = .ok program)
    (hother : ofTokens second = .ok other) : ofTokens (first ++ second) = .ok (program ++ other) := by
  obtain ⟨rest, hread, hrest⟩ := ofTokens_eq_ok.mp hprogram
  obtain ⟨rest', hread', hrest'⟩ := ofTokens_eq_ok.mp hother
  have hne : second ≠ [] := by
    rintro rfl
    rw [← Phrase.rule_read_eq_read] at hread'
    cases hread'
  refine ofTokens_eq_ok.mpr ⟨rest', ?_, hrest'⟩
  rw [Parse.read_statements_append hfirst hmarks hlast hread hrest hne]
  simpa using Parse.read_statements_after hread' program.reverse

end Block

end DecimalScript
