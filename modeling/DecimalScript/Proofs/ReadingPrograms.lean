import DecimalScript.Eval.Import
import DecimalScript.Proofs.Reading

/-!
# Reading programs never exhausts the bound

Every statement consumes its first token before a nested phrase is read. Only the rest of
a conditional starts with a nested phrase at once, and it is itself nested, so two levels
for each token are enough, and more levels make no difference. The tokens of a source are
closed by an end marker, which reading never consumes.
-/

namespace DecimalScript

namespace Parse

variable {tokens : List Token} {n : Nat}

section Statements

variable {read read' : PhraseReader} (hread : Reads n read read')

include hread

/-- A parameter uses its name before the next ones are read. -/
theorem leaves_parameters (done : List Parameter) (h : tokens.length ≤ n) :
    Leaves tokens.length (parameters read done) (parameters read' done) tokens := by
  refine leaves_listed done _ fun rest hrest => ?_
  refine (leaves_identifier _).bind fun name first hfirst => ?_
  refine (leaves_typeAfter _).bind fun typed after hafter => ?_
  exact (hread _ after (by omega)).mono (by omega)

/-- A block is read at once, and the word that closes it is used. -/
theorem leaves_closedBlock (construct : Construct) (h : tokens.length < n) :
    Leaves tokens.length (closedBlock read construct) (closedBlock read' construct) tokens := by
  refine (hread _ tokens h).bind fun body rest hrest => ?_
  refine (leaves_expectWord _ _).bind fun _ last hlast => ?_
  exact .pure (by omega)

/-- A definition uses its name and its parentheses before its body. -/
theorem leaves_definition (line : Nat) (h : tokens.length ≤ n) :
    Leaves tokens.length (definition read line) (definition read' line) tokens := by
  refine (leaves_identifier _).bind fun name first hfirst => ?_
  refine (leaves_expect _ _).bind fun _ second hsecond => ?_
  refine (hread _ second (by omega)).bind fun params third hthird => ?_
  refine (leaves_typeAfter _).bind fun returnType fourth hfourth => ?_
  refine (leaves_expect _ _).bind fun _ fifth hfifth => ?_
  refine (leaves_closedBlock hread _ (by omega)).bind fun body last hlast => ?_
  exact .pure (by omega)

omit hread in
/-- What a module is named by is one token. -/
theorem leaves_moduleRef : Leaves tokens.length moduleRef moduleRef tokens := by
  refine Leaves.peek ?_
  split
  · rename_i hkind
    exact leaves_one hkind nofun
  · rename_i hkind
    exact leaves_one hkind nofun
  · rename_i hkind
    exact leaves_one hkind nofun
  · exact .fail _

omit hread in
/-- An import nests nothing. -/
theorem leaves_useRest (line : Nat) :
    Leaves tokens.length (useRest line) (useRest line) tokens := by
  refine leaves_moduleRef.bind fun target first hfirst => ?_
  refine (leaves_expectWord _ _).bind fun _ second hsecond => ?_
  refine (leaves_identifier _).bind fun aliasName third hthird => ?_
  refine leaves_skipSemicolon.bind fun _ last hlast => ?_
  exact .pure (by omega)

/-- A declaration uses its name and the equals sign before its value. -/
theorem leaves_letRest (line : Nat) (h : tokens.length ≤ n) :
    Leaves tokens.length (letRest read line) (letRest read' line) tokens := by
  refine Leaves.peek (Leaves.symbolAt fun answer _ => ?_)
  split
  · exact leaves_definition hread line h
  · refine (leaves_identifier _).bind fun name first hfirst => ?_
    refine (leaves_typeAfter _).bind fun typed second hsecond => ?_
    refine (leaves_expect _ _).bind fun _ third hthird => ?_
    refine (leaves_initializer hread (by omega)).bind fun value fourth hfourth => ?_
    refine (leaves_expect _ _).bind fun _ last hlast => ?_
    exact .pure (by omega)

/-- The rest of a conditional reads its condition before it consumes a token. -/
theorem leaves_branch (line : Nat) (h : tokens.length ≤ n)
    (hcondition :
      Leaves (tokens.length + 1) (read (.expression 0)) (read' (.expression 0)) tokens) :
    Leaves tokens.length (branch read line) (branch read' line) tokens := by
  refine hcondition.bind fun condition first hfirst => ?_
  refine (leaves_expect _ _).bind fun _ second hsecond => ?_
  refine (hread _ second (by omega)).bind fun whenTrue third hthird => ?_
  refine Leaves.wordNext fun otherwise hotherwise => ?_
  cases otherwise with
  | false => exact .pure (by omega)
  | true =>
    refine (leaves_skip (hotherwise rfl) nofun).bind fun _ fourth hfourth => ?_
    refine Leaves.wordNext fun chained hchained => ?_
    cases chained with
    | true =>
      refine Leaves.peek ?_
      refine (leaves_skip (hchained rfl) nofun).bind fun _ fifth hfifth => ?_
      refine (hread _ fifth (by omega)).bind fun nested last hlast => ?_
      exact .pure (by omega)
    | false =>
      refine (leaves_expect _ _).bind fun _ fifth hfifth => ?_
      refine (hread _ fifth (by omega)).bind fun whenFalse last hlast => ?_
      exact .pure (by omega)

/-- Behind its word, a chain of conditions is read at once. -/
theorem leaves_ifRest (line : Nat) (h : tokens.length < n) :
    Leaves tokens.length (ifRest read line) (ifRest read' line) tokens := by
  refine (hread _ tokens h).bind fun stmt first hfirst => ?_
  refine (leaves_expectWord _ _).bind fun _ last hlast => ?_
  exact .pure (by omega)

/-- The condition of a loop is read at once. -/
theorem leaves_whileRest (line : Nat) (h : tokens.length < n) :
    Leaves tokens.length (whileRest read line) (whileRest read' line) tokens := by
  refine (hread _ tokens h).bind fun condition first hfirst => ?_
  refine (leaves_expect _ _).bind fun _ second hsecond => ?_
  refine (leaves_closedBlock hread _ (by omega)).bind fun body last hlast => ?_
  exact .pure (by omega)

omit hread in
/-- A symbol closes what was read. -/
theorem leaves_closing {α : Type} {k : Nat} (symbol : Symbol) (fault : SyntaxFault) (value : α)
    (h : tokens.length ≤ k) :
    Leaves k (do expect symbol fault; return value) (do expect symbol fault; return value)
      tokens :=
  (leaves_expect _ _).bind fun _ _ hlast => .pure (by omega)

/-- The stop of a range is tried at once, and without one no token is used. -/
theorem leaves_iterationRest (first : Expr) (h : tokens.length < n) :
    Leaves (tokens.length + 1) (iterationRest read first) (iterationRest read' first) tokens := by
  refine Leaves.attempt (k := tokens.length + 1) ?_ (fun stop rest hrest => ?_)
    (.pure (Nat.lt_succ_self _))
  · refine (hread _ tokens h).bind fun stop rest hrest => ?_
    refine Leaves.symbolAt fun closed _ => ?_
    cases closed with
    | true => exact .pure hrest
    | false => exact .fail _
  · refine Leaves.stepNext fun stepped hstepped => ?_
    cases stepped with
    | true =>
      refine (leaves_skip (hstepped rfl) nofun).bind fun _ second hsecond => ?_
      refine (hread _ second (by omega)).bind fun step third hthird => ?_
      exact leaves_closing _ _ _ (by omega)
    | false => exact leaves_closing _ _ _ (by omega)

/-- A loop over a range or elements uses its name before what it runs over. -/
theorem leaves_forRest (line : Nat) (h : tokens.length < n) :
    Leaves tokens.length (forRest read line) (forRest read' line) tokens := by
  refine (leaves_identifier _).bind fun name first hfirst => ?_
  refine (leaves_expectWord _ _).bind fun _ second hsecond => ?_
  refine (hread _ second (by omega)).bind fun start third hthird => ?_
  refine (leaves_expect _ _).bind fun _ fourth hfourth => ?_
  refine (leaves_iterationRest hread start (by omega)).bind fun iteration fifth hfifth => ?_
  refine (leaves_closedBlock hread _ (by omega)).bind fun body last hlast => ?_
  exact .pure (by omega)

/-- Each case uses its word before its value and its block. -/
theorem leaves_cases (done : List (Expr × Block)) (h : tokens.length ≤ n) :
    Leaves (tokens.length + 1) (cases read done) (cases read' done) tokens := by
  refine Leaves.wordNext fun answer hanswer => ?_
  cases answer with
  | true =>
    refine (leaves_skip (hanswer rfl) nofun).bind fun _ first hfirst => ?_
    refine (hread _ first (by omega)).bind fun value second hsecond => ?_
    refine (leaves_expect _ _).bind fun _ third hthird => ?_
    refine (hread _ third (by omega)).bind fun body last hlast => ?_
    exact (hread _ last (by omega)).mono (by omega)
  | false => exact .pure (Nat.lt_succ_self _)

/-- The block without a case uses its word first. -/
theorem leaves_otherwise (h : tokens.length ≤ n) :
    Leaves (tokens.length + 1) (otherwise read) (otherwise read') tokens := by
  refine Leaves.wordNext fun answer hanswer => ?_
  cases answer with
  | true =>
    refine (leaves_skip (hanswer rfl) nofun).bind fun _ first hfirst => ?_
    refine (leaves_expect _ _).bind fun _ second hsecond => ?_
    refine (hread _ second (by omega)).bind fun body last hlast => ?_
    exact .pure (by omega)
  | false => exact .pure (Nat.lt_succ_self _)

/-- The subject of a choice is read at once. -/
theorem leaves_switchRest (line : Nat) (h : tokens.length < n) :
    Leaves tokens.length (switchRest read line) (switchRest read' line) tokens := by
  refine (hread _ tokens h).bind fun subject first hfirst => ?_
  refine (leaves_expect _ _).bind fun _ second hsecond => ?_
  refine (hread _ second (by omega)).bind fun cases third hthird => ?_
  refine (leaves_otherwise hread (by omega)).bind fun default fourth hfourth => ?_
  refine (leaves_expectWord _ _).bind fun _ last hlast => ?_
  exact .pure (by omega)

/-- A guarded block uses a colon before its statements. -/
theorem leaves_tryRest (line : Nat) (h : tokens.length < n) :
    Leaves tokens.length (tryRest read line) (tryRest read' line) tokens := by
  refine (leaves_expect _ _).bind fun _ first hfirst => ?_
  refine (hread _ first (by omega)).bind fun body second hsecond => ?_
  refine (leaves_expectWord _ _).bind fun _ third hthird => ?_
  refine (leaves_identifier _).bind fun name fourth hfourth => ?_
  refine (leaves_expect _ _).bind fun _ fifth hfifth => ?_
  refine (leaves_closedBlock hread _ (by omega)).bind fun handler last hlast => ?_
  exact .pure (by omega)

/-- Output uses a parenthesis before its arguments. -/
theorem leaves_printRest (line : Nat) (h : tokens.length < n) :
    Leaves tokens.length (printRest read line) (printRest read' line) tokens := by
  refine (leaves_expect _ _).bind fun _ first hfirst => ?_
  refine (hread _ first (by omega)).bind fun arguments second hsecond => ?_
  refine (leaves_expect _ _).bind fun _ last hlast => ?_
  exact .pure (by omega)

/-- What is given back is read at once, unless a semicolon stands there. -/
theorem leaves_returnRest (line : Nat) (h : tokens.length < n) :
    Leaves tokens.length (returnRest read line) (returnRest read' line) tokens := by
  refine Leaves.symbolAt fun closed _ => ?_
  cases closed with
  | true => exact leaves_closing _ _ _ (Nat.le_refl _)
  | false =>
    refine (hread _ tokens h).map.bind fun value rest hrest => ?_
    exact leaves_closing _ _ _ (by omega)

omit hread in
/-- A statement of one word nests nothing. -/
theorem leaves_controlRest (stmt : Stmt) :
    Leaves tokens.length (controlRest stmt) (controlRest stmt) tokens := by
  refine (leaves_expect _ _).bind fun _ last hlast => ?_
  exact .pure (by omega)

/-- An expression that is a statement of its own uses a token before anything nested. -/
theorem leaves_expressionStatement (h : tokens.length ≤ n) :
    Leaves tokens.length (expressionStatement read) (expressionStatement read') tokens := by
  refine (leaves_expression hread 0 h).bind fun value first hfirst => ?_
  refine leaves_skipSemicolon.bind fun _ last hlast => ?_
  exact .pure (by omega)

/-- What is assigned is read at once. -/
theorem leaves_assignedValue (h : tokens.length < n) :
    Leaves (tokens.length + 1) (assignedValue read) (assignedValue read') tokens := by
  refine (hread _ tokens h).bind fun value first hfirst => ?_
  refine leaves_skipSemicolon.bind fun _ last hlast => ?_
  exact .pure (by omega)

/-- A property assignment is only read where an equals sign follows the properties. -/
theorem leaves_propertyAssignment (first : Token) (base : String) (properties : List String)
    (h : tokens.length ≤ n)
    (hequal : (tokenAt tokens (2 * properties.length + 1)).kind = .symbol .equal) :
    Leaves tokens.length (propertyAssignment read first base properties)
      (propertyAssignment read' first base properties) tokens := by
  unfold propertyAssignment
  split
  · exact leaves_expressionStatement hread h
  · split
    · refine (leaves_skip hequal nofun).bind fun _ rest hrest => ?_
      refine (leaves_assignedValue hread (by omega)).bind fun value last hlast => ?_
      exact .pure (by omega)
    · exact .failAt _ _

/-- A statement that starts with a dotted name uses the name before anything nested. -/
theorem leaves_dottedStatement (first : Token) (base : String) (h : tokens.length ≤ n) :
    Leaves tokens.length (dottedStatement read first base) (dottedStatement read' first base)
      tokens := by
  change Leaves tokens.length (if _ then _ else _) (if _ then _ else _) tokens
  split
  · rename_i hequal
    refine leaves_propertyAssignment hread _ _ _ h ?_
    rw [dottedNames_rest, List.drop_drop] at hequal
    have hkind := kind_of_isSymbol hequal
    rw [tokenAt_drop] at hkind
    rwa [Nat.add_comm]
  · exact leaves_expressionStatement hread h

/-- So does one that starts with a name, whichever kind it turns out to be. -/
theorem leaves_nameStatement (first : Token) (name : String) (h : tokens.length ≤ n) :
    Leaves tokens.length (nameStatement read first name) (nameStatement read' first name)
      tokens := by
  refine Leaves.peek ?_
  split
  · rename_i hkind
    refine Leaves.ahead (k := tokens.length) ?_ fun answer => ?_
    · refine (leaves_skip hkind nofun).bind fun _ rest hrest => ?_
      refine (hread _ rest (by omega)).bind fun _ last hlast => ?_
      exact Leaves.symbolAt fun _ _ => Leaves.symbolAt fun _ _ => .pure (by omega)
    · cases answer with
      | true => exact leaves_definition hread _ h
      | false => exact leaves_expressionStatement hread h
  · rename_i hkind
    refine (leaves_skip hkind nofun).bind fun _ rest hrest => ?_
    refine (leaves_assignedValue hread (by omega)).bind fun value last hlast => ?_
    exact .pure (by omega)
  · rename_i hkind
    refine Leaves.attempt (k := tokens.length) ?_ (fun index rest hrest => ?_)
      (leaves_expressionStatement hread h)
    · refine (leaves_skip hkind nofun).bind fun _ first hfirst => ?_
      refine (hread _ first (by omega)).bind fun index second hsecond => ?_
      refine (leaves_expect _ _).bind fun _ third hthird => ?_
      exact leaves_closing _ _ _ (by omega)
    · refine (leaves_assignedValue hread (by omega)).bind fun value last hlast => ?_
      exact .pure (by omega)
  · exact leaves_dottedStatement hread _ _ h
  · exact leaves_expressionStatement hread h

/-- A statement uses a token before anything nested. -/
theorem leaves_statement (h : tokens.length ≤ n) :
    Leaves tokens.length (statement read) (statement read') tokens := by
  refine Leaves.peek ?_
  generalize hkind : (tokenAt tokens 0).kind = kind
  have hone {f g : Unit → Parse Stmt} (hsome : kind ≠ .endMarker)
      (hf : ∀ rest : List Token, rest.length < tokens.length →
        Leaves rest.length (f ()) (g ()) rest) :
      Leaves tokens.length (skip 1 >>= f) (skip 1 >>= g) tokens :=
    (leaves_skip hkind hsome).bind fun _ rest hrest =>
      (hf rest hrest).mono (Nat.le_of_lt hrest)
  split
  · exact hone nofun fun rest _ => leaves_useRest _
  · exact hone nofun fun rest hrest => leaves_definition hread _ (by omega)
  · exact hone nofun fun rest hrest => leaves_letRest hread _ (by omega)
  · exact hone nofun fun rest hrest => leaves_ifRest hread _ (by omega)
  · exact hone nofun fun rest hrest => leaves_whileRest hread _ (by omega)
  · exact hone nofun fun rest hrest => leaves_forRest hread _ (by omega)
  · exact hone nofun fun rest hrest => leaves_switchRest hread _ (by omega)
  · exact hone nofun fun rest hrest => leaves_tryRest hread _ (by omega)
  · exact hone nofun fun rest hrest => leaves_printRest hread _ (by omega)
  · exact hone nofun fun rest hrest => leaves_returnRest hread _ (by omega)
  · exact hone nofun fun rest _ => leaves_controlRest _
  · exact hone nofun fun rest _ => leaves_controlRest _
  · exact leaves_nameStatement hread _ _ h
  · exact leaves_expressionStatement hread h

/-- A block may end at once; else it uses a statement before the next ones are read. -/
theorem leaves_statements (done : Block) (h : tokens.length ≤ n) :
    Leaves (tokens.length + 1) (statements read done) (statements read' done) tokens := by
  refine Leaves.peek ?_
  split
  · exact .pure (Nat.lt_succ_self _)
  · refine (leaves_statement hread h).bind fun stmt rest hrest => ?_
    exact (hread _ rest (by omega)).mono (by omega)

end Statements

end Parse

namespace Phrase

open Parse

/-- A nested phrase that advances needs less nesting. -/
theorem need_lt {α β : Type} {phrase : Phrase α} {nested : Phrase β} {tokens rest : List Token}
    (h : phrase.advances tokens nested rest = true) :
    nested.need rest.length < phrase.need tokens.length := by
  cases phrase <;> cases nested <;> simp only [advances, decide_eq_true_eq] at h <;>
    simp only [need] <;> omega

/-- Nested phrases advance where fewer tokens are left. -/
theorem advances_of_lt {α β : Type} (phrase : Phrase α) (nested : Phrase β)
    {tokens rest : List Token} (h : rest.length < tokens.length) :
    phrase.advances tokens nested rest = true := by
  unfold advances
  split
  · exact decide_eq_true (Nat.le_of_lt h)
  · exact decide_eq_true h

/-- The readings of a rule agree if those of the nested phrases that advance do. -/
theorem leaves_rule {read read' : PhraseReader} {α : Type} (phrase : Phrase α)
    {tokens : List Token} (hnested : ∀ {β : Type} (nested : Phrase β) (rest : List Token),
      phrase.advances tokens nested rest = true →
        Leaves (rest.length + 1) (read nested) (read' nested) rest) :
    Leaves (tokens.length + 1) (rule read phrase) (rule read' phrase) tokens := by
  have hread : Reads tokens.length read read' := fun nested rest hrest =>
    hnested nested rest (advances_of_lt phrase nested hrest)
  have hle := Nat.le_refl tokens.length
  have hlt := Nat.le_succ tokens.length
  cases phrase with
  | expression level => exact (leaves_expression hread level hle).mono hlt
  | operators level left => exact leaves_operators hread level left hle
  | suffixes head => exact leaves_suffixes hread head hle
  | arguments done => exact (leaves_arguments hread done hle).mono hlt
  | elements done => exact (leaves_elements hread done hle).mono hlt
  | fields done => exact (leaves_fields hread done hle).mono hlt
  | parameters done => exact (leaves_parameters hread done hle).mono hlt
  | lambdaNames done => exact (leaves_lambdaNames hread done hle).mono hlt
  | statements done => exact leaves_statements hread done hle
  | branch line =>
    have hcondition := hnested (.expression 0) tokens (decide_eq_true hle)
    exact (leaves_branch hread line hle hcondition).mono hlt
  | cases done => exact leaves_cases hread done hle

/-- Reading a phrase with the nesting it may need gives the same with more, and leaves no more
tokens than there were. The induction is on the bound. -/
theorem leaves_parse {α : Type} (phrase : Phrase α) (tokens : List Token) {depth depth' : Nat}
    (h : phrase.need tokens.length ≤ depth) (h' : phrase.need tokens.length ≤ depth') :
    Leaves (tokens.length + 1) (parse depth phrase) (parse depth' phrase) tokens := by
  induction depth generalizing α tokens depth' with
  | zero => cases phrase <;> cases h
  | succ depth ih =>
    cases depth' with
    | zero => cases phrase <;> cases h'
    | succ depth' =>
      refine leaves_rule phrase fun nested rest hadvances => ?_
      have hneed := need_lt hadvances
      exact ih nested rest (by omega) (by omega)

/-- Reading a phrase consumes an end of the tokens. -/
theorem leaves_read {α : Type} (phrase : Phrase α) (tokens : List Token) :
    Leaves (tokens.length + 1) phrase.read phrase.read tokens :=
  leaves_parse phrase tokens (Nat.le_refl _) (Nat.le_refl _)

/-- A bound that is not too small makes no difference. -/
theorem parse_eq_read {α : Type} (phrase : Phrase α) {tokens : List Token} {depth : Nat}
    (h : phrase.need tokens.length ≤ depth) : parse depth phrase tokens = phrase.read tokens :=
  (leaves_parse phrase tokens (Nat.le_refl _) h).1

/-- A rule reads nested phrases, and it makes no difference whether they must advance. -/
theorem rule_guarded_eq_read {α : Type} (phrase : Phrase α) (tokens : List Token) :
    rule (guarded read phrase tokens) phrase tokens = phrase.read tokens := by
  have hread : phrase.read tokens = rule (parse (phrase.need tokens.length)) phrase tokens :=
    (parse_eq_read phrase (Nat.le_succ _)).symm
  rw [hread]
  refine (leaves_rule phrase fun nested rest hadvances => ?_).1
  have hguard : guarded read phrase tokens nested rest = nested.read rest := if_pos hadvances
  have hparse := parse_eq_read nested (Nat.le_of_lt (need_lt hadvances))
  exact ⟨hguard.trans hparse.symm, hparse ▸ (leaves_read nested rest).2⟩

/-- Reading a phrase applies its rule. -/
theorem rule_read_eq_read {α : Type} (phrase : Phrase α) : rule read phrase = phrase.read := by
  funext tokens
  rw [← rule_guarded_eq_read phrase tokens]
  refine (leaves_rule phrase fun nested rest hadvances => ?_).1
  have hguard : guarded read phrase tokens nested rest = nested.read rest := if_pos hadvances
  exact ⟨hguard ▸ rfl, hguard ▸ (leaves_read nested rest).2⟩

end Phrase

/-- Reading without a bound agrees with itself. -/
theorem Parse.reads_read (n : Nat) : Reads n Phrase.read Phrase.read :=
  fun phrase tokens _ => Phrase.leaves_read phrase tokens

/-- The tokens of a source are closed. -/
theorem Token.closed_of_tokensFrom {read tokens : List Token} {line : Nat} {bytes : List UInt8}
    (h : tokensFrom read line bytes = .ok tokens) : Closed tokens := by
  fun_induction tokensFrom read line bytes with
  | case1 read line bytes lastLine hsplit =>
    cases h
    rw [Closed, List.getLast?_reverse]
    rfl
  | case2 => cases h
  | case3 read line bytes lastLine b rest hsplit scanned hscan slice next ih => exact ih h

namespace Block

/-- Closed tokens are a program or have a fault. -/
theorem ofTokens_ne_exhausted {tokens : List Token} (hclosed : Closed tokens) :
    ofTokens tokens ≠ .error .exhausted := by
  have hleaves := (Phrase.leaves_read (.statements []) tokens).2
  have hread : Phrase.parse (nestingBound tokens) (.statements []) tokens =
      Phrase.read (.statements []) tokens := rfl
  rw [ofTokens, hread]
  split at hleaves
  · rename_i hok
    rw [hok]
    intro h
    change (if _ then _ else _) = _ at h
    split at h <;> cases h
  · rename_i stop herror
    rw [herror]
    exact fun h => hleaves hclosed (Except.error.inj h)

/-- Reading a source never runs out of levels. -/
theorem ofSource_ne_exhausted (source : List UInt8) : ofSource source ≠ .error .exhausted := by
  unfold ofSource
  split
  · nofun
  · rename_i tokens htokens
    split
    · nofun
    · nofun
    · rename_i hread
      exact absurd hread (ofTokens_ne_exhausted (Token.closed_of_tokensFrom htokens))

/-- A file holds a program, or it is known what is wrong with it. -/
theorem ofFile_ne_exhausted (files : FileTree) (path : Path) :
    ofFile files path ≠ .error .exhausted := by
  unfold ofFile
  split
  · nofun
  · exact ofSource_ne_exhausted _

end Block

end DecimalScript
