import DecimalScript.Proofs.Grammar
import DecimalScript.Syntax.Progress

/-!
# Reading programs follows the grammar

A statement is spelled by the tokens that it was read from, those that were looked at for
another reading before included. What a program is read from spells its statements, up to
the first end marker.
-/

namespace DecimalScript

/-- Whether the spelling of a piece may start with a token. -/
def Piece.Leads : Piece → TokenKind → Prop
  | mark kind, found => kind = found
  | leaf kept, found => kept.Matches found
  | expression level expr, found => expr.leadKind level = found
  | operand expr, found | primary expr, found => expr.leadKind 5 = found
  | _, _ => True

/-- An operand that is not in parentheses starts the same where looser operators may follow. -/
theorem Expr.leadKind_eq {expr : Expr} (level : Nat)
    (h : expr.leadKind 5 ≠ .symbol .leftParen) : expr.leadKind level = expr.leadKind 5 := by
  cases expr with
  | binary line op left right =>
    have hle : op.level ≤ 5 := by cases op <;> decide
    rw [leadKind, if_pos hle] at h
    exact absurd rfl h
  | _ => rfl

/-- Unless a rule puts parentheses around, a piece starts with what its parts start with. -/
theorem Production.leads {piece : Piece} {parts pieces : List Piece} {kind : TokenKind}
    (h : Production piece parts) (hkind : kind ≠ .symbol .leftParen)
    (hparts : ∀ first ∈ (parts ++ pieces).head?, first.Leads kind) : piece.Leads kind := by
  cases h with
  | operand level expr =>
    have hlead : expr.leadKind 5 = kind := hparts _ rfl
    exact (Expr.leadKind_eq level (hlead ▸ hkind)).trans hlead
  | binary left right hlevel =>
    have hlead : left.leadKind (_ - 1) = kind := hparts _ rfl
    rw [Piece.Leads, Expr.leadKind, if_neg (Nat.not_le_of_lt hlevel), hlead]
  | paren expr =>
    have hlead : TokenKind.symbol .leftParen = kind := hparts _ rfl
    exact absurd hlead.symm hkind
  | primary | member | index | call | array | object =>
    have hfirst := hparts _ rfl
    exact hfirst
  | literal | var | negate =>
    have hfirst := hparts _ rfl
    exact Eq.symm hfirst
  | _ => trivial

/-- What does not start with a parenthesis starts with its first token. -/
theorem Spells.leads {pieces : List Piece} {tokens rest : List Token}
    (h : Spells pieces tokens rest)
    (hkind : (Parse.tokenAt tokens 0).kind ≠ .symbol .leftParen) :
    ∀ first ∈ pieces.head?, first.Leads (Parse.tokenAt tokens 0).kind := by
  induction h with
  | nil => simp
  | mark hmark _ _ _ _ =>
    simp only [List.head?_cons, Option.mem_some_iff, forall_eq']
    exact hmark.symm
  | leaf hmatch _ _ _ =>
    simp only [List.head?_cons, Option.mem_some_iff, forall_eq']
    exact hmatch
  | expand hproduction _ ih =>
    simp only [List.head?_cons, Option.mem_some_iff, forall_eq']
    exact hproduction.leads hkind (ih hkind)

namespace Parse

section Statements

variable {read : PhraseReader} (hread : FollowsGrammar read) {start tokens : List Token}

include hread

/-- The parameters of a function are read behind those read before, with their types. -/
theorem ensures_parameters {done : List Parameter}
    (hdone : (Phrase.parameters done).Before start tokens) :
    Ensures (parameters read done) tokens ((Phrase.parameters done).After start) := by
  refine ensures_listed _ hdone fun rest hrest => ?_
  refine (ensures_identifier _).bind fun name first hname => ?_
  refine (ensures_typeAfter .colon rfl).bind fun typed after htyped => ?_
  refine hread (.parameters _) start after ?_
  rw [Phrase.Before, Piece.commas_reverse]
  exact hrest.append (hname.append htyped)

/-- A block and the word that closes it are read as its statements. -/
theorem ensures_closedBlock (construct : Construct) :
    Ensures (closedBlock read construct) tokens fun body rest =>
      Spells (Piece.block body ++ [.word .endWord]) tokens rest := by
  refine (hread (.statements []) tokens tokens .nil).bind fun body rest hbody => ?_
  refine (ensures_expectWord .endWord _ rfl).bind fun _ last hend => ?_
  exact .pure (hbody.append hend)

/-- Behind each of its introductions, and behind none, a definition is read as its signature and its
body. -/
theorem ensures_definition {introduction : List Piece} (line : Nat)
    (h : introduction ∈ [[], [.word .funcWord], [.word .letWord]])
    (hintroduction : Spells introduction start tokens) :
    Ensures (definition read line) tokens fun stmt rest => Spells [.stmt stmt] start rest := by
  refine (ensures_identifier _).bind fun name _ hname => ?_
  refine (ensures_expect .leftParen _ rfl).bind fun _ _ hopen => ?_
  refine (hread (.parameters []) _ _ .nil).bind fun params _ hparams => ?_
  refine (ensures_typeAfter .arrow rfl).bind fun returnType _ htyped => ?_
  refine (ensures_expect .colon _ rfl).bind fun _ _ hcolon => ?_
  refine (ensures_closedBlock hread _).bind fun body _ hbody => .pure ?_
  have hproduction := Production.define line name params returnType body h
  refine (hintroduction.append ?_).produce hproduction
  have hall := hname.append (hopen.append (hparams.append (htyped.append (hcolon.append hbody))))
  simpa [Stmt.signature] using hall

omit hread in
/-- What a module is named by is kept as the token it was. -/
theorem ensures_moduleRef : Ensures moduleRef tokens fun target rest =>
    Spells [.leaf (.token target.kind)] tokens rest := by
  refine Ensures.peek ?_
  split
  · rename_i hkind
    exact (ensures_token hkind rfl).bind fun _ _ hrest => .pure hrest
  · rename_i hkind
    exact (ensures_token hkind rfl).bind fun _ _ hrest => .pure hrest
  · rename_i hkind
    exact (ensures_token hkind rfl).bind fun _ _ hrest => .pure hrest
  · exact .fail _

omit hread in
/-- An import is read as its target and its alias. -/
theorem ensures_useRest (line : Nat) (hword : Spells [.word .useWord] start tokens) :
    Ensures (useRest line) tokens fun stmt rest => Spells [.stmt stmt] start rest := by
  refine ensures_moduleRef.bind fun target _ htarget => ?_
  refine (ensures_expectWord .asWord _ rfl).bind fun _ _ has => ?_
  refine (ensures_identifier _).bind fun aliasName _ hname => ?_
  refine ensures_skipSemicolon.bind fun _ _ hclose => .pure ?_
  exact (hword.append (htarget.append (has.append (hname.append hclose)))).produce
    (.use line target aliasName)

/-- A declaration is told from a definition by the parenthesis behind the name. -/
theorem ensures_letRest (line : Nat) (hword : Spells [.word .letWord] start tokens) :
    Ensures (letRest read line) tokens fun stmt rest => Spells [.stmt stmt] start rest := by
  refine Ensures.peek (Ensures.symbolAt fun answer _ => ?_)
  split
  · exact ensures_definition hread line (by simp) hword
  · refine (ensures_identifier _).bind fun name _ hname => ?_
    refine (ensures_typeAfter .colon rfl).bind fun typed _ htyped => ?_
    refine (ensures_expect .equal _ rfl).bind fun _ _ hequal => ?_
    refine (ensures_initializer hread).bind fun value _ hvalue => ?_
    refine (ensures_expect .semicolon _ rfl).bind fun _ _ hclose => .pure ?_
    have hall := hname.append (htyped.append (hequal.append (hvalue.append hclose)))
    exact (hword.append hall).produce (.declare line name typed value)

/-- A condition and its blocks are read up to the word that closes the whole chain. -/
theorem ensures_branch (line : Nat) :
    Ensures (branch read line) tokens fun stmt rest => Spells [.chain stmt] tokens rest := by
  refine (hread (.expression 0) _ _ rfl).bind fun condition _ hcondition => ?_
  refine (ensures_expect .colon _ rfl).bind fun _ _ hcolon => ?_
  refine (hread (.statements []) _ _ .nil).bind fun whenTrue _ hwhenTrue => ?_
  have hthen := hcondition.1.append (hcolon.append hwhenTrue)
  refine Ensures.wordNext fun otherwise hotherwise => ?_
  cases otherwise with
  | false => exact .pure (hthen.produce (.chainEnd line condition whenTrue))
  | true =>
    refine (ensures_mark (hotherwise rfl) rfl nofun).bind fun _ middle helse => ?_
    refine Ensures.wordNext fun chained hchained => ?_
    cases chained with
    | true =>
      refine Ensures.peek ?_
      refine (ensures_mark (hchained rfl) rfl nofun).bind fun _ rest hif => ?_
      refine (hread (.branch (tokenAt middle 0).line) rest rest rfl).bind
        fun nested _ hnested => .pure ?_
      refine Spells.produce ?_ (.chainElseIf line condition whenTrue nested)
      simpa using hthen.append (helse.append (hif.append hnested))
    | false =>
      refine (ensures_expect .colon _ rfl).bind fun _ _ hsecond => ?_
      refine (hread (.statements []) _ _ .nil).bind fun whenFalse _ hwhenFalse => .pure ?_
      refine Spells.produce ?_ (.chainElse line condition whenTrue whenFalse)
      simpa using hthen.append (helse.append (hsecond.append hwhenFalse))

/-- A chain of conditions is a statement behind its word. -/
theorem ensures_ifRest (line : Nat) (hword : Spells [.word .ifWord] start tokens) :
    Ensures (ifRest read line) tokens fun stmt rest => Spells [.stmt stmt] start rest := by
  refine (hread (.branch line) _ _ rfl).bind fun stmt _ hstmt => ?_
  refine (ensures_expectWord .endWord _ rfl).bind fun _ _ hend => ?_
  exact .pure ((hword.append (hstmt.append hend)).produce (.branch stmt))

/-- A loop is read as its condition and its body. -/
theorem ensures_whileRest (line : Nat) (hword : Spells [.word .whileWord] start tokens) :
    Ensures (whileRest read line) tokens fun stmt rest => Spells [.stmt stmt] start rest := by
  refine (hread (.expression 0) _ _ rfl).bind fun condition _ hcondition => ?_
  refine (ensures_expect .colon _ rfl).bind fun _ _ hcolon => ?_
  refine (ensures_closedBlock hread _).bind fun body _ hbody => .pure ?_
  exact (hword.append (hcondition.1.append (hcolon.append hbody))).produce
    (.repeatWhile line condition body)

omit hread in
/-- A step that starts like one makes a loop over it well formed. -/
theorem steppedIteration_spec (first stop : Expr) {width : Expr}
    (h : (width.leadKind 0).startsStep = true) :
    (steppedIteration first stop width).WellStepped ∧
      (steppedIteration first stop width).pieces =
        [.expression 0 first, .symbol .colon, .expression 0 stop, .symbol .colon,
          .expression 0 width, .symbol .colon] := by
  cases width with
  | negate line operand => exact ⟨rfl, rfl⟩
  | _ => exact ⟨⟨rfl, h⟩, rfl⟩

/-- What is between the colons of a loop is told by what can be read there, and a step by how it
starts. -/
theorem ensures_iterationRest {first : Expr}
    (hfirst : Spells [.expression 0 first, .symbol .colon] start tokens) :
    Ensures (iterationRest read first) tokens fun iteration rest =>
      iteration.WellStepped ∧ Spells iteration.pieces start rest := by
  refine Ensures.attempt (P := fun stop rest => Spells [.expression 0 stop] tokens rest) ?_
    (fun stop rest hstop => ?_) (.pure ⟨trivial, hfirst⟩)
  · refine (hread (.expression 0) tokens _ rfl).bind fun stop rest hstop => ?_
    refine Ensures.symbolAt fun closed _ => ?_
    cases closed with
    | true => exact .pure hstop.1
    | false => exact .fail _
  · refine Ensures.stepNext fun stepped hstepped => ?_
    cases stepped with
    | true =>
      obtain ⟨hkind, hlead⟩ := hstepped rfl
      refine ((ensures_mark hkind rfl nofun).and (ensures_skip 1)).bind fun _ second hsecond => ?_
      obtain ⟨hcolon, _, rfl⟩ := hsecond
      rw [← Nat.add_zero 1, ← tokenAt_drop] at hlead
      refine (hread (.expression 0) _ _ rfl).bind fun width third hwidth => ?_
      refine (ensures_expect .colon _ rfl).bind fun _ _ hclose => .pure ?_
      have hwidthLead : width.leadKind 0 = _ :=
        hwidth.1.leads (fun hparen => by rw [hparen] at hlead; cases hlead) _ rfl
      have hspec := steppedIteration_spec first stop (hwidthLead ▸ hlead)
      refine ⟨hspec.1, ?_⟩
      rw [hspec.2]
      exact hfirst.append (hstop.append (hcolon.append (hwidth.1.append hclose)))
    | false =>
      refine (ensures_expect .colon _ rfl).bind fun _ _ hclose => .pure ⟨trivial, ?_⟩
      exact hfirst.append (hstop.append hclose)

/-- A loop over a range or elements is read as its name, what it runs over and its body. -/
theorem ensures_forRest (line : Nat) (hword : Spells [.word .forWord] start tokens) :
    Ensures (forRest read line) tokens fun stmt rest => Spells [.stmt stmt] start rest := by
  refine (ensures_identifier _).bind fun name _ hname => ?_
  refine (ensures_expectWord .inWord _ rfl).bind fun _ second hin => ?_
  refine (hread (.expression 0) _ _ rfl).bind fun first _ hfirst => ?_
  refine (ensures_expect .colon _ rfl).bind fun _ _ hcolon => ?_
  refine (ensures_iterationRest hread (hfirst.1.append hcolon)).bind
    fun iteration _ hiteration => ?_
  refine (ensures_closedBlock hread _).bind fun body _ hbody => .pure ?_
  have hall := hword.append (hname.append (hin.append (hiteration.2.append hbody)))
  exact hall.produce (.repeatOver line name body hiteration.1)

/-- The cases of a choice are read behind those read before. -/
theorem ensures_cases {done : List (Expr × Block)}
    (hdone : (Phrase.cases done).Before start tokens) :
    Ensures (cases read done) tokens ((Phrase.cases done).After start) := by
  refine Ensures.wordNext fun answer hanswer => ?_
  cases answer with
  | true =>
    refine (ensures_mark (hanswer rfl) rfl nofun).bind fun _ _ hcase => ?_
    refine (hread (.expression 0) _ _ rfl).bind fun value _ hvalue => ?_
    refine (ensures_expect .colon _ rfl).bind fun _ _ hcolon => ?_
    refine (hread (.statements []) _ _ .nil).bind fun body last hbody => ?_
    refine hread (.cases _) start last ?_
    rw [Phrase.Before, List.reverse_cons, List.flatMap_append]
    have hitem : Spells (Stmt.casePieces (value, body)) tokens last :=
      hcase.append (hvalue.1.append (hcolon.append hbody))
    simpa using hdone.append hitem
  | false => exact .pure hdone

/-- The block without a case is read behind its word, if there is one. -/
theorem ensures_otherwise : Ensures (otherwise read) tokens fun block rest =>
    Spells (Stmt.otherwisePieces block) tokens rest := by
  refine Ensures.wordNext fun answer hanswer => ?_
  cases answer with
  | true =>
    refine (ensures_mark (hanswer rfl) rfl nofun).bind fun _ _ hdefault => ?_
    refine (ensures_expect .colon _ rfl).bind fun _ _ hcolon => ?_
    refine (hread (.statements []) _ _ .nil).bind fun body _ hbody => ?_
    exact .pure (hdefault.append (hcolon.append hbody))
  | false => exact .pure .nil

/-- A choice is read as its subject, its cases and the block without one. -/
theorem ensures_switchRest (line : Nat) (hword : Spells [.word .switchWord] start tokens) :
    Ensures (switchRest read line) tokens fun stmt rest => Spells [.stmt stmt] start rest := by
  refine (hread (.expression 0) _ _ rfl).bind fun subject _ hsubject => ?_
  refine (ensures_expect .colon _ rfl).bind fun _ _ hcolon => ?_
  refine (hread (.cases []) _ _ .nil).bind fun cases _ hcases => ?_
  refine (ensures_otherwise hread).bind fun otherwise _ hotherwise => ?_
  refine (ensures_expectWord .endWord _ rfl).bind fun _ _ hend => .pure ?_
  have hall := hcolon.append (hcases.append (hotherwise.append hend))
  exact (hword.append (hsubject.1.append hall)).produce (.select line subject cases otherwise)

/-- A guarded block is read with its handler and the name that takes the error. -/
theorem ensures_tryRest (line : Nat) (hword : Spells [.word .tryWord] start tokens) :
    Ensures (tryRest read line) tokens fun stmt rest => Spells [.stmt stmt] start rest := by
  refine (ensures_expect .colon _ rfl).bind fun _ _ hcolon => ?_
  refine (hread (.statements []) _ _ .nil).bind fun body _ hbody => ?_
  refine (ensures_expectWord .catchWord _ rfl).bind fun _ _ hcatch => ?_
  refine (ensures_identifier _).bind fun name _ hname => ?_
  refine (ensures_expect .colon _ rfl).bind fun _ _ hsecond => ?_
  refine (ensures_closedBlock hread _).bind fun handler _ hhandler => .pure ?_
  have hall := hbody.append (hcatch.append (hname.append (hsecond.append hhandler)))
  exact (hword.append (hcolon.append hall)).produce (.attempt line body name handler)

/-- Output is read as its arguments. -/
theorem ensures_printRest (line : Nat) (hword : Spells [.word .printWord] start tokens) :
    Ensures (printRest read line) tokens fun stmt rest => Spells [.stmt stmt] start rest := by
  refine (ensures_expect .leftParen _ rfl).bind fun _ _ hopen => ?_
  refine (hread (.arguments []) _ _ .nil).bind fun arguments _ harguments => ?_
  refine (ensures_expect .semicolon _ rfl).bind fun _ _ hclose => .pure ?_
  refine Spells.produce ?_ (.print line arguments)
  have hall := hword.append (hopen.append (Spells.append harguments hclose))
  simpa using hall

/-- What is given back is read, unless a semicolon stands in its place. -/
theorem ensures_returnRest (line : Nat) (hword : Spells [.word .returnWord] start tokens) :
    Ensures (returnRest read line) tokens fun stmt rest => Spells [.stmt stmt] start rest := by
  have hclosing {value : Option Expr} {rest : List Token}
      (hvalue : Spells (value.map (Piece.expression 0)).toList tokens rest) :
      Ensures (do
        expect .semicolon (.missingSemicolon .returnStatement)
        return Stmt.giveBack line value) rest
        fun stmt last => Spells [.stmt stmt] start last :=
    (ensures_expect .semicolon _ rfl).bind fun _ _ hclose =>
      .pure ((hword.append (hvalue.append hclose)).produce (.giveBack line value))
  refine Ensures.symbolAt fun closed _ => ?_
  cases closed with
  | true => exact hclosing .nil
  | false =>
    refine (Ensures.map (Q := fun value rest =>
      Spells (value.map (Piece.expression 0)).toList tokens rest) ?_).bind
      fun value rest hvalue => hclosing hvalue
    exact (hread (.expression 0) _ _ rfl).mono fun _ _ h => h.1

/-- An expression that is a statement of its own is read with the semicolon that may close it. -/
theorem ensures_expressionStatement :
    Ensures (expressionStatement read) tokens fun stmt rest => Spells [.stmt stmt] tokens rest := by
  refine (ensures_expression hread 0).bind fun value _ hvalue => ?_
  refine ensures_skipSemicolon.bind fun _ _ hclose => .pure ?_
  exact (hvalue.1.append hclose).produce (.evaluate value)

/-- What is assigned is read with the semicolon that may close it. -/
theorem ensures_assignedValue : Ensures (assignedValue read) tokens fun value rest =>
    Spells [.expression 0 value, .semicolon] tokens rest := by
  refine (hread (.expression 0) _ _ rfl).bind fun value _ hvalue => ?_
  exact ensures_skipSemicolon.bind fun _ _ hclose => .pure (hvalue.1.append hclose)

omit hread in
/-- Dots and names are spelled by the tokens up to what is left of them. -/
theorem spells_dottedNames (tokens : List Token) :
    Spells ((dottedNames tokens).1.flatMap fun property => [.symbol .dot, .name property])
      tokens (dottedNames tokens).2 := by
  fun_induction dottedNames tokens with
  | case1 _ _ name _ _ rest names after hafter ih =>
    rw [hafter] at ih
    have hend : TokenKind.symbol .dot ≠ .endMarker := by decide
    exact .mark rfl rfl hend (.leaf rfl rfl ih)
  | case2 tokens hother => exact .nil

/-- A property assignment is read where names with dots before them and an equals sign follow. -/
theorem ensures_propertyAssignment {first : Token} {base : String} {properties : List String}
    {after : List Token} (hbase : Spells [.name base] tokens (tokens.drop 1))
    (hproperties : Spells (properties.flatMap fun property => [.symbol .dot, .name property])
      (tokens.drop 1) after)
    (hafter : after = tokens.drop (2 * properties.length + 1))
    (hequal : (tokenAt after 0).kind = .symbol .equal) :
    Ensures (propertyAssignment read first base properties) tokens fun stmt rest =>
      Spells [.stmt stmt] tokens rest := by
  unfold propertyAssignment
  split
  · exact ensures_expressionStatement hread
  · rename_i property others
    split
    · rename_i hlength
      refine (ensures_skip _).bind ?_
      rintro _ rest ⟨hlt, rfl⟩
      refine (ensures_assignedValue hread).bind fun value last hvalue => .pure ?_
      have hsign : Spells [.symbol .equal] after (after.drop 1) := by
        cases after with
        | nil => cases hequal
        | cons token rest => exact .mark hequal rfl nofun .nil
      rw [hafter, List.drop_drop, ← hafter] at hsign
      have hall := hproperties.append (hsign.append hvalue)
      exact (hbase.append hall).produce
        (.assignProperty first.line ⟨base, property, others, hlength⟩ value)
    · exact .failAt _ _

/-- Behind a dotted name, an assignment is told from an expression by the equals sign. -/
theorem ensures_dottedStatement {first : Token} {base : String}
    (hbase : Spells [.name base] tokens (tokens.drop 1)) :
    Ensures (dottedStatement read first base) tokens fun stmt rest =>
      Spells [.stmt stmt] tokens rest := by
  intro value rest h
  change (if (tokenAt (dottedNames (tokens.drop 1)).2 0).isSymbol .equal then
    propertyAssignment read first base (dottedNames (tokens.drop 1)).1
    else expressionStatement read) tokens = _ at h
  split at h
  · rename_i hequal
    refine ensures_propertyAssignment hread hbase (spells_dottedNames _) ?_
      (kind_of_isSymbol hequal) value rest h
    rw [dottedNames_rest, List.drop_drop, Nat.add_comm]
  · exact ensures_expressionStatement hread value rest h

/-- What starts with a name is told by the token behind it, or by what can be read there. -/
theorem ensures_nameStatement {first : Token} {name : String}
    (hname : (tokenAt tokens 0).kind = .identifier name) :
    Ensures (nameStatement read first name) tokens fun stmt rest =>
      Spells [.stmt stmt] tokens rest := by
  obtain ⟨token, after, rfl⟩ : ∃ token after, tokens = token :: after := by
    cases tokens with
    | nil => cases hname
    | cons token after => exact ⟨token, after, rfl⟩
  have hkind : token.kind = .identifier name := hname
  have hleaf : token.kind.isLeaf = true := hkind ▸ rfl
  -- the name and the token after it are consumed together
  have hskip {mark : Symbol} (hmark : (tokenAt (token :: after) 1).kind = .symbol mark)
      (hshape : (TokenKind.symbol mark).isLeaf = false) :
      Ensures (skip 2) (token :: after) fun _ rest =>
        Spells [.name name, .symbol mark] (token :: after) rest := by
    refine (ensures_skip 2).mono ?_
    rintro _ _ ⟨hlt, rfl⟩
    cases after with
    | nil => cases hmark
    | cons second rest => exact .leaf hkind hleaf (.mark hmark hshape nofun .nil)
  refine Ensures.peek ?_
  split
  · refine Ensures.ahead fun answer => ?_
    cases answer with
    | true =>
      exact ensures_definition hread first.line (List.mem_cons_self ..) .nil
    | false => exact ensures_expressionStatement hread
  · rename_i hequal
    refine (hskip hequal rfl).bind fun _ _ hsign => ?_
    refine (ensures_assignedValue hread).bind fun value _ hvalue => .pure ?_
    exact (hsign.append hvalue).produce (.assign first.line name value)
  · rename_i hopen
    refine Ensures.attempt (P := fun position rest => Spells [.name name, .symbol .leftSquare,
      .expression 0 position, .symbol .rightSquare, .symbol .equal] (token :: after) rest) ?_
      (fun position rest hposition => ?_) (ensures_expressionStatement hread)
    · refine (hskip hopen rfl).bind fun _ _ hstart => ?_
      refine (hread (.expression 0) _ _ rfl).bind fun position _ hposition => ?_
      refine (ensures_expect .rightSquare _ rfl).bind fun _ _ hclose => ?_
      refine (ensures_expect .equal _ rfl).bind fun _ _ hsign => .pure ?_
      exact hstart.append (hposition.1.append (hclose.append hsign))
    · refine (ensures_assignedValue hread).bind fun value _ hvalue => .pure ?_
      exact (hposition.append hvalue).produce (.assignIndex first.line name position value)
  · exact ensures_dottedStatement hread (.leaf hkind hleaf .nil)
  · exact ensures_expressionStatement hread

/-- A statement is told by its first token and spelled by all that it was read from. -/
theorem ensures_statement :
    Ensures (statement read) tokens fun stmt rest => Spells [.stmt stmt] tokens rest := by
  refine Ensures.peek ?_
  generalize (tokenAt tokens 0).line = line
  have hone {word : Keyword} {f : Unit → Parse Stmt}
      (hkind : (tokenAt tokens 0).kind = .keyword word)
      (hleaf : (TokenKind.keyword word).isLeaf = false)
      (hf : ∀ rest, Spells [.word word] tokens rest →
        Ensures (f ()) rest fun stmt last => Spells [.stmt stmt] tokens last) :
      Ensures (skip 1 >>= f) tokens fun stmt last => Spells [.stmt stmt] tokens last :=
    (ensures_mark hkind hleaf nofun).bind fun _ => hf
  have hcontrol {rest : List Token} {word : Keyword} (stmt : Stmt)
      (hproduction : Production (.stmt stmt) [.word word, .symbol .semicolon])
      (hword : Spells [.word word] tokens rest) :
      Ensures (controlRest stmt) rest fun stmt last => Spells [.stmt stmt] tokens last :=
    (ensures_expect .semicolon _ rfl).bind fun _ _ hclose =>
      .pure ((hword.append hclose).produce hproduction)
  split
  case h_1 hkind => exact hone hkind rfl fun _ => ensures_useRest line
  case h_2 hkind => exact hone hkind rfl fun _ => ensures_definition hread line (by simp)
  case h_3 hkind => exact hone hkind rfl fun _ => ensures_letRest hread line
  case h_4 hkind => exact hone hkind rfl fun _ => ensures_ifRest hread line
  case h_5 hkind => exact hone hkind rfl fun _ => ensures_whileRest hread line
  case h_6 hkind => exact hone hkind rfl fun _ => ensures_forRest hread line
  case h_7 hkind => exact hone hkind rfl fun _ => ensures_switchRest hread line
  case h_8 hkind => exact hone hkind rfl fun _ => ensures_tryRest hread line
  case h_9 hkind => exact hone hkind rfl fun _ => ensures_printRest hread line
  case h_10 hkind => exact hone hkind rfl fun _ => ensures_returnRest hread line
  case h_11 hkind => exact hone hkind rfl fun _ => hcontrol _ (.leave line)
  case h_12 hkind => exact hone hkind rfl fun _ => hcontrol _ (.next line)
  case h_13 hkind => exact ensures_nameStatement hread hkind
  case h_14 => exact ensures_expressionStatement hread

/-- The statements of a block are read behind those read before. -/
theorem ensures_statements {done : Block} (hdone : (Phrase.statements done).Before start tokens) :
    Ensures (statements read done) tokens ((Phrase.statements done).After start) := by
  refine Ensures.peek ?_
  split
  · exact .pure hdone
  · refine (ensures_statement hread).bind fun stmt rest hstmt => ?_
    refine hread (.statements _) start rest ?_
    rw [Phrase.Before, List.reverse_cons, Piece.block, List.map_append]
    exact hdone.append hstmt

end Statements

end Parse

namespace Phrase

/-- A rule follows the grammar if the readers of nested phrases do. -/
theorem followsGrammar_rule {read : PhraseReader} (hread : FollowsGrammar read) :
    FollowsGrammar fun phrase => rule read phrase := by
  intro α phrase start tokens hbefore
  cases phrase with
  | expression level =>
    cases hbefore
    exact Parse.ensures_expression hread level
  | operators level left => exact Parse.ensures_operators hread hbefore
  | suffixes head => exact Parse.ensures_suffixes hread hbefore
  | arguments done => exact Parse.ensures_arguments hread hbefore
  | elements done => exact Parse.ensures_elements hread hbefore
  | fields done => exact Parse.ensures_fields hread hbefore
  | parameters done => exact Parse.ensures_parameters hread hbefore
  | lambdaNames done => exact Parse.ensures_lambdaNames hread hbefore
  | statements done => exact Parse.ensures_statements hread hbefore
  | branch line =>
    cases hbefore
    exact Parse.ensures_branch hread line
  | cases done => exact Parse.ensures_cases hread hbefore

/-- Reading follows the grammar, by induction on the bound. -/
theorem followsGrammar_parse (depth : Nat) : FollowsGrammar (parse depth) := by
  induction depth with
  | zero => nofun
  | succ depth ih => exact followsGrammar_rule ih

end Phrase

/-- The tokens that a program was read from, up to the first end marker, spell its statements. -/
theorem Block.spells_of_ofTokens {tokens : List Token} {program : Block}
    (h : ofTokens tokens = .ok program) :
    ∃ rest, Spells (Piece.block program) tokens rest ∧
      (Parse.tokenAt rest 0).kind = .endMarker := by
  unfold ofTokens at h
  cases hread : Phrase.parse (nestingBound tokens) (.statements []) tokens with
  | error stop =>
    rw [hread] at h
    cases h
  | ok result =>
    obtain ⟨block, rest⟩ := result
    have hspells :=
      Phrase.followsGrammar_parse _ (.statements []) tokens tokens .nil block rest hread
    rw [hread] at h
    change (if _ then _ else _) = _ at h
    split at h
    · rename_i hend
      cases h
      exact ⟨rest, hspells, eq_of_beq hend⟩
    · cases h

end DecimalScript
