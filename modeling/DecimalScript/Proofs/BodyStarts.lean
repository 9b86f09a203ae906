import DecimalScript.Proofs.Climbing
import DecimalScript.Proofs.ClosingWords
import DecimalScript.Proofs.RenderingLoops
import DecimalScript.Syntax.Headers

/-!
# What a block starts with

Behind the colon of a loop header an expression is tried that another colon closes. A block starts
with such an expression only if its first statement is a function definition that starts with its
name and in which nothing has a type: its signature is a call, and its colon closes it. Every other
statement starts with a word, or ends its expression in front of a token that is no colon.
-/

namespace DecimalScript

namespace Parse

variable {first second mark : Token} {inner more others rest tokens between : List Token}
  {head : Expr} {name : String} {level : Nat} {stmt : Stmt}

/-- A colon closes the expression that tokens start with. -/
def ColonAfter (tokens : List Token) : Prop :=
  ∃ value next more, Phrase.read (.expression 0) tokens = .ok (value, next :: more) ∧
    next.isSymbol .colon = true

/-- Where no colon closes an expression, something else follows it or there is none. -/
theorem noColonAfter_of_not (hclosed : Closed tokens) (h : ¬ColonAfter tokens) :
    NoColonAfter tokens := by
  cases hread : Phrase.read (.expression 0) tokens with
  | error stop =>
    cases stop with
    | fault error => exact .inl ⟨error, hread⟩
    | exhausted => exact absurd hread (read_ne_exhausted _ hclosed)
  | ok result =>
    obtain ⟨used, -, hkeeps, -⟩ := followsOn_read.expression 0 _ _ _ hread
    obtain ⟨next, more, hnext⟩ := List.exists_cons_of_ne_nil (hkeeps hclosed.ne_nil)
    refine .inr ⟨result.1, next, more, hnext ▸ hread, Bool.eq_false_iff.mpr fun hcolon => h ?_⟩
    exact ⟨result.1, next, more, hnext ▸ hread, hcolon⟩

/-! ### Names with suffixes -/

section Suffixes

theorem read_suffixes_of_breaksOff (h : BreaksOff startsSuffix rest) :
    Phrase.read (.suffixes head) rest = .ok (head, rest) := by
  obtain ⟨next, after, rfl, hsuffix⟩ := h
  obtain ⟨kind, lexeme, line⟩ := next
  rw [Phrase.read_eq]
  cases kind with
  | symbol symbol => cases symbol <;> first | rfl | cases hsuffix
  | _ => rfl

theorem read_suffixes_member (hdot : first.kind = .symbol .dot)
    (hname : second.kind = .identifier name) (hmore : more ≠ []) :
    Phrase.read (.suffixes head) (first :: second :: more) =
      Phrase.read (.suffixes (.member head.line head name)) more := by
  obtain ⟨kind, lexeme, line⟩ := first
  cases hdot
  rw [Phrase.read_eq]
  refine (peek_bind 0 _).trans ((bind_of_ok (skip_one (List.cons_ne_nil _ _))).trans ?_)
  exact bind_of_ok (identifier_next _ hname hmore)

theorem read_suffixes_index {index : Expr} {close : Token}
    (hsquare : first.kind = .symbol .leftSquare)
    (hindex : Phrase.read (.expression 0) inner = .ok (index, close :: more))
    (hclose : close.isSymbol .rightSquare = true) (hinner : inner ≠ []) (hmore : more ≠ []) :
    Phrase.read (.suffixes head) (first :: inner) =
      Phrase.read (.suffixes (.index head.line head index)) more := by
  obtain ⟨kind, lexeme, line⟩ := first
  cases hsquare
  rw [Phrase.read_eq]
  refine (peek_bind 0 _).trans ((bind_of_ok (skip_one hinner)).trans ?_)
  exact (bind_of_ok hindex).trans (bind_of_ok (expect_next _ hclose hmore))

theorem read_suffixes_call (hparen : first.kind = .symbol .leftParen) (hinner : inner ≠ []) :
    Phrase.read (.suffixes head) (first :: inner) = (do
      let arguments ← Phrase.read (.arguments [])
      Phrase.read (.suffixes (.call head.line head arguments)) : Parse Expr) inner := by
  obtain ⟨kind, lexeme, line⟩ := first
  cases hparen
  rw [Phrase.read_eq]
  exact (peek_bind 0 _).trans (bind_of_ok (skip_one hinner))

/-- Names after dots are read as members. -/
theorem read_suffixes_dotted (head : Expr) {properties : List String}
    (hnames : dottedNames tokens = (properties, rest)) (hrest : BreaksOff startsSuffix rest) :
    ∃ expr, Phrase.read (.suffixes head) tokens = .ok (expr, rest) := by
  fun_induction dottedNames tokens generalizing head properties with
  | case1 lexeme line name lexeme' line' more names last hlast ih =>
    cases hnames
    have hmore : more ≠ [] := by
      obtain ⟨next, after, rfl, -⟩ := hrest
      rintro rfl
      cases hlast
    rw [read_suffixes_member rfl rfl hmore]
    exact ih _ hlast
  | case2 tokens hother =>
    cases hnames
    exact ⟨head, read_suffixes_of_breaksOff hrest⟩

/-- An expression that starts with a name goes on with suffixes and operators. -/
theorem read_name (hname : first.kind = .identifier name) (hothers : others ≠ []) :
    Phrase.read (.expression level) (first :: others) = (do
      let head ← Phrase.read (.suffixes (.var first.line name))
      Phrase.read (.operators level head) : Parse Expr) others := by
  obtain ⟨kind, lexeme, line⟩ := first
  cases hname
  have hprimary : primary Phrase.read (⟨.identifier name, lexeme, line⟩ :: others) =
      .ok (.var line name, others) :=
    (peek_bind 0 _).trans (bind_of_ok (skip_one hothers))
  rw [Phrase.read_eq]
  change ((primary Phrase.read >>= fun head => Phrase.read (.suffixes head)) >>= fun left =>
    Phrase.read (.operators level left)) _ = _
  rw [bind_assoc, bind_of_ok hprimary]

/-- A name with its suffixes is the whole expression in front of a token that goes on with
nothing. -/
theorem read_name_of_suffixes (hname : first.kind = .identifier name)
    (hsuffixes : Phrase.read (.suffixes (.var first.line name)) others = .ok (head, rest))
    (hrest : BreaksOff (continues level) rest) :
    Phrase.read (.expression level) (first :: others) = .ok (head, rest) := by
  have hothers : others ≠ [] := by
    rintro rfl
    rw [Phrase.read_eq] at hsuffixes
    cases hsuffixes
  rw [read_name hname hothers, bind_of_ok hsuffixes, read_operators_of_breaksOff hrest]

/-- Whether a colon closes a name with suffixes is told by the token behind them. -/
theorem colonAfter_name_iff (hname : first.kind = .identifier name)
    (hsuffixes : Phrase.read (.suffixes (.var first.line name)) others = .ok (head, mark :: rest))
    (hmark : continues 0 mark.kind = false) :
    ColonAfter (first :: others) ↔ mark.isSymbol .colon = true := by
  have hread := read_name_of_suffixes hname hsuffixes ⟨mark, rest, rfl, hmark⟩
  constructor
  · rintro ⟨value, next, more, hvalue, hcolon⟩
    rw [hread] at hvalue
    cases hvalue
    exact hcolon
  · exact fun hcolon => ⟨head, mark, rest, hread, hcolon⟩

end Suffixes

/-! ### Parameters and arguments -/

section Lists

variable {α : Type} {done values : List α} {fault : SyntaxFault} {item : Parse (List α)}

/-- Where the next item of a list in parentheses starts: at once if it is the first one, else behind
a comma. -/
def ItemAt (isFirst : Bool) (tokens inner : List Token) : Prop :=
  inner ≠ [] ∧
    if isFirst then inner = tokens ∧ (tokenAt tokens 0).isSymbol .rightParen = false
    else ∃ comma : Token, comma.kind = .symbol .comma ∧ tokens = comma :: inner

theorem ItemAt.length_le {isFirst : Bool} (h : ItemAt isFirst tokens inner) :
    inner.length ≤ tokens.length := by
  obtain ⟨-, hitem⟩ := h
  cases isFirst with
  | true => exact Nat.le_of_eq (congrArg List.length hitem.1)
  | false =>
    obtain ⟨comma, -, rfl⟩ := hitem
    exact Nat.le_succ _

theorem listed_close (hclose : first.kind = .symbol .rightParen) (hmore : more ≠ []) :
    listed done fault item (first :: more) = .ok (done.reverse, more) := by
  have hsymbol : first.isSymbol .rightParen = true := beq_iff_eq.mpr hclose
  exact (ifSymbol_true hsymbol).trans (bind_of_ok (skip_one hmore))

theorem listed_item (h : ItemAt done.isEmpty tokens inner) :
    listed done fault item tokens = item inner := by
  obtain ⟨hinner, hitem⟩ := h
  cases done with
  | nil =>
    obtain ⟨rfl, hclose⟩ := hitem
    obtain ⟨first, more, rfl⟩ := List.exists_cons_of_ne_nil hinner
    exact ifSymbol_false hclose
  | cons last done =>
    obtain ⟨comma, hcomma, rfl⟩ := hitem
    have hclose : comma.isSymbol .rightParen = false := by
      rw [Token.isSymbol, hcomma]
      rfl
    have hexpect := expect_next fault (beq_iff_eq.mpr hcomma) hinner
    exact (ifSymbol_false hclose).trans (bind_of_ok hexpect)

/-- A list in parentheses that is read ends, or goes on with an item. -/
theorem listed_cases (h : listed done fault item tokens = .ok (values, rest)) :
    (∃ close : Token, close.kind = .symbol .rightParen ∧ tokens = close :: rest ∧ rest ≠ [] ∧
      values = done.reverse) ∨
    ∃ inner, ItemAt done.isEmpty tokens inner ∧ item inner = .ok (values, rest) := by
  cases tokens with
  | nil => cases h
  | cons first more =>
    cases hclose : first.isSymbol .rightParen with
    | true =>
      have hkind := kind_of_isSymbol hclose
      have hmore : more ≠ [] := by
        rintro rfl
        rw [listed, ifSymbol_true hclose] at h
        cases h
      rw [listed_close hkind hmore] at h
      cases h
      exact .inl ⟨first, hkind, rfl, hmore, rfl⟩
    | false =>
      rw [listed, ifSymbol_false hclose] at h
      cases done with
      | nil => exact .inr ⟨first :: more, ⟨List.cons_ne_nil _ _, rfl, hclose⟩, h⟩
      | cons last done =>
        obtain ⟨_, inner, hcomma, hitem⟩ := exists_of_bind_ok h
        cases hsymbol : first.isSymbol .comma with
        | true =>
          have hmore : more ≠ [] := by
            rintro rfl
            rw [expect, ifSymbol_true hsymbol] at hcomma
            cases hcomma
          rw [expect_next _ hsymbol hmore] at hcomma
          cases hcomma
          exact .inr ⟨more, ⟨hmore, first, kind_of_isSymbol hsymbol, rfl⟩, hitem⟩
        | false =>
          rw [expect, ifSymbol_false hsymbol] at hcomma
          cases hcomma

/-- In a list that is not empty yet a closing parenthesis or a comma comes next. -/
theorem closes_or_comma {last : α} (h : listed (last :: done) fault item (mark :: more) =
    .ok (values, rest)) : mark.kind = .symbol .rightParen ∨ mark.kind = .symbol .comma := by
  obtain ⟨close, hclose, htokens, -⟩ | ⟨inner, ⟨-, comma, hcomma, htokens⟩, -⟩ := listed_cases h
  · cases htokens
    exact .inl hclose
  · cases htokens
    exact .inr hcomma

theorem identifier_ok {place : NamePlace} (h : identifier place tokens = .ok (name, rest)) :
    ∃ token : Token, token.kind = .identifier name ∧ tokens = token :: rest ∧ rest ≠ [] := by
  obtain ⟨used, hused, rfl, hrest, -⟩ := closes_identifier place _ _ _ h
  obtain ⟨⟨kind, lexeme, line⟩, used, rfl⟩ := List.exists_cons_of_ne_nil hused
  cases kind with
  | identifier name' =>
    rw [List.cons_append, identifier_next place rfl (List.append_ne_nil_of_right_ne_nil _ hrest)] at h
    obtain ⟨hname, hafter⟩ := Prod.mk.inj (Except.ok.inj h)
    obtain rfl := List.append_left_eq_self.mp hafter
    exact ⟨_, congrArg _ hname, rfl, hrest⟩
  | _ => cases h

/-- An annotation is there if its symbol is. -/
theorem typeAfter_cases {symbol : Symbol} {typed : Option TypeName}
    (h : typeAfter symbol (mark :: more) = .ok (typed, rest)) :
    (mark.isSymbol symbol = false ∧ typed = none ∧ rest = mark :: more) ∨
      (mark.isSymbol symbol = true ∧ typed.isSome = true) := by
  cases hsymbol : mark.isSymbol symbol with
  | true =>
    rw [typeAfter, ifSymbol_true hsymbol] at h
    obtain ⟨-, left, -, hnext⟩ := exists_of_bind_ok h
    obtain ⟨value, left', -, hpure⟩ := exists_of_bind_ok hnext
    cases hpure
    exact .inr ⟨rfl, rfl⟩
  | false =>
    rw [typeAfter, ifSymbol_false hsymbol] at h
    cases h
    exact .inl ⟨rfl, rfl, rfl⟩

/-- A name is the whole expression in front of a symbol that goes on with nothing. -/
theorem expression_name (hname : first.kind = .identifier name)
    (hmark : continues 0 mark.kind = false) :
    expression Phrase.read 0 (first :: mark :: more) =
      .ok (.var first.line name, mark :: more) := by
  have hbreaks : BreaksOff (continues 0) (mark :: more) := ⟨mark, more, rfl, hmark⟩
  have hsuffixes : Phrase.read (.suffixes (.var first.line name)) (mark :: more) = _ :=
    read_suffixes_of_breaksOff (hbreaks.mono fun _ => startsSuffix_of_continues)
  have hread := read_name_of_suffixes hname hsuffixes hbreaks
  rwa [Phrase.read_eq] at hread

/-- Parameters are read as arguments from the same tokens if and only if none of them has a type.
The induction is on the number of tokens. -/
theorem arguments_of_parameters {done params : List Parameter} {done' : List Expr}
    (hread : Phrase.read (.parameters done) tokens = .ok (params, rest))
    (hdone : done.isEmpty = done'.isEmpty) :
    (∀ param ∈ done, param ∈ params) ∧
      ((∀ param ∈ params, param.typed = none) →
        ∃ arguments, Phrase.read (.arguments done') tokens = .ok (arguments, rest)) ∧
      ∀ result, Phrase.read (.arguments done') tokens = .ok result →
        ∀ param ∈ params, param ∈ done ∨ param.typed = none := by
  induction hlength : tokens.length using Nat.strongRecOn generalizing tokens done done' with
  | ind length ih =>
  rw [Phrase.read_eq] at hread
  obtain ⟨close, hclose, rfl, hrest, rfl⟩ | ⟨inner, hinner, hitem⟩ := listed_cases hread
  · refine ⟨fun _ => List.mem_reverse.mpr, fun _ => ⟨done'.reverse, ?_⟩,
      fun _ _ _ hparam => .inl (List.mem_reverse.mp hparam)⟩
    rw [Phrase.read_eq]
    exact listed_close hclose hrest
  · obtain ⟨name, left, hname, hafter⟩ := exists_of_bind_ok hitem
    obtain ⟨first, hfirst, rfl, hleft⟩ := identifier_ok hname
    obtain ⟨typed, after, htyped, hmore⟩ := exists_of_bind_ok hafter
    obtain ⟨mark, more, rfl⟩ := List.exists_cons_of_ne_nil hleft
    have hsame : Phrase.read (.arguments done') tokens = (do
        let argument ← expression Phrase.read 0
        Phrase.read (.arguments (argument :: done')) : Parse (List Expr)) (first :: mark :: more) := by
      rw [Phrase.read_eq]
      exact listed_item (hdone ▸ hinner)
    have hfewer : (mark :: more).length < length := by
      have hle := hinner.length_le
      rw [List.length_cons, hlength] at hle
      omega
    change Phrase.read (.parameters _) _ = _ at hmore
    obtain ⟨hcolon, rfl, rfl⟩ | ⟨hcolon, hsome⟩ := typeAfter_cases htyped
    · have hmark : continues 0 mark.kind = false := by
        rw [Phrase.read_eq] at hmore
        obtain hkind | hkind := closes_or_comma hmore <;> rw [hkind] <;> rfl
      have hnext : (⟨name, none⟩ :: done : List Parameter).isEmpty =
          (Expr.var first.line name :: done').isEmpty := rfl
      obtain ⟨hmem, hall, honly⟩ := ih _ hfewer hmore hnext rfl
      rw [hsame, bind_of_ok (expression_name hfirst hmark)]
      refine ⟨fun param hparam => hmem param (List.mem_cons_of_mem _ hparam), hall,
        fun result hresult param hparam => ?_⟩
      obtain hdone | hnone := honly result hresult param hparam
      · obtain rfl | hdone := List.mem_cons.mp hdone
        · exact .inr rfl
        · exact .inl hdone
      · exact .inr hnone
    · have hkind := kind_of_isSymbol hcolon
      obtain ⟨used, hused, -⟩ := settles_typeAfter .colon _ _ _ htyped
      have hshorter : after.length < length := by
        rw [hused, List.length_append] at hfewer
        omega
      have hnext : (⟨name, typed⟩ :: done : List Parameter).isEmpty =
          (Expr.var first.line name :: done').isEmpty := rfl
      obtain ⟨hmem, -⟩ := ih _ hshorter hmore hnext rfl
      refine ⟨fun param hparam => hmem param (List.mem_cons_of_mem _ hparam), fun hall => ?_,
        fun result hresult => ?_⟩
      · have hnone : typed = none := hall ⟨name, typed⟩ (hmem _ List.mem_cons_self)
        rw [hnone] at hsome
        cases hsome
      · have hmark : continues 0 mark.kind = false := by
          rw [hkind]
          rfl
        rw [hsame, bind_of_ok (expression_name hfirst hmark), Phrase.read_eq] at hresult
        obtain hclose | hcomma := closes_or_comma hresult
        · rw [hkind] at hclose
          cases hclose
        · rw [hkind] at hcomma
          cases hcomma

end Lists

/-! ### Statements -/

section Statements

variable {line : Nat} {done : Block} {result : Block × List Token}

theorem expect_ok {symbol : Symbol} {fault : SyntaxFault} {value : Unit}
    (h : expect symbol fault tokens = .ok (value, rest)) :
    ∃ token : Token, token.isSymbol symbol = true ∧ tokens = token :: rest ∧ rest ≠ [] := by
  cases tokens with
  | nil => cases h
  | cons token more =>
    cases hsymbol : token.isSymbol symbol with
    | true =>
      have hmore : more ≠ [] := by
        rintro rfl
        rw [expect, ifSymbol_true hsymbol] at h
        cases h
      rw [expect_next _ hsymbol hmore] at h
      cases h
      exact ⟨token, hsymbol, rfl, hmore⟩
    | false =>
      rw [expect, ifSymbol_false hsymbol] at h
      cases h

theorem skip_two_ok {value : Unit} (h : skip 2 (first :: second :: inner) = .ok (value, rest)) :
    rest = inner ∧ inner ≠ [] := by
  cases inner with
  | nil => cases h
  | cons third more =>
    rw [skip_two (List.cons_ne_nil _ _)] at h
    cases h
    exact ⟨rfl, List.cons_ne_nil _ _⟩

theorem ahead_ok {question : Parse Bool} {answer : Bool}
    (h : ahead question tokens = .ok (answer, rest)) : rest = tokens := by
  unfold ahead at h
  split at h <;> cases h <;> rfl

theorem attempt_ok {α : Type} {x : Parse α} {value? : Option α}
    (h : attempt x tokens = .ok (value?, rest)) :
    (∃ value, value? = some value ∧ x tokens = .ok (value, rest)) ∨ value? = none ∧ rest = tokens := by
  unfold attempt at h
  split at h
  · rename_i value rest' hread
    cases h
    exact .inl ⟨value, rfl, hread⟩
  · cases h
    exact .inr ⟨rfl, rfl⟩
  · cases h

/-- An index is assigned to where an equals sign stands behind its closing bracket. -/
theorem assignedIndex_ok {index : Expr}
    (h : (do
      skip 2
      let index ← Phrase.read (.expression 0)
      expect .rightSquare .unclosedIndex
      expect .equal .missingEqual
      return index : Parse Expr) (first :: second :: inner) = .ok (index, rest)) :
    ∃ close equal, Phrase.read (.expression 0) inner = .ok (index, close :: equal :: rest) ∧
      close.isSymbol .rightSquare = true ∧ equal.kind = .symbol .equal := by
  obtain ⟨_, left, hskip, hread⟩ := exists_of_bind_ok h
  obtain ⟨hleft, -⟩ := skip_two_ok hskip
  obtain ⟨position, left₁, hposition, hclosed⟩ := exists_of_bind_ok hread
  obtain ⟨_, left₂, hbracket, hassigned⟩ := exists_of_bind_ok hclosed
  obtain ⟨_, left₃, hequal, hpure⟩ := exists_of_bind_ok hassigned
  cases hpure
  obtain ⟨close, hclose, hleft₁, -⟩ := expect_ok hbracket
  obtain ⟨equal, hequal, hleft₂, -⟩ := expect_ok hequal
  rw [hleft, hleft₁, hleft₂] at hposition
  exact ⟨close, equal, hposition, hclose, kind_of_isSymbol hequal⟩

/-- Behind the parameters of a definition stands a colon, or an arrow if it has a result type. -/
theorem definition_signature (hname : first.kind = .identifier name)
    (hread : definition Phrase.read line (first :: second :: inner) = .ok (stmt, between)) :
    ∃ params returnType body mark more, stmt = .define line name params returnType body ∧
      Phrase.read (.parameters []) inner = .ok (params, mark :: more) ∧
      (returnType = none ∧ mark.kind = .symbol .colon ∨
        returnType.isSome = true ∧ mark.kind = .symbol .arrow) := by
  obtain ⟨_, left, hidentifier, hread⟩ := exists_of_bind_ok hread
  rw [identifier_next _ hname (List.cons_ne_nil _ _)] at hidentifier
  cases hidentifier
  obtain ⟨_, left, hopen, hread⟩ := exists_of_bind_ok hread
  obtain ⟨_, -, hleft, -⟩ := expect_ok hopen
  cases hleft
  obtain ⟨params, left, hparams, hread⟩ := exists_of_bind_ok hread
  obtain ⟨_, -, -, hleft, -⟩ := followsOn_read.parameters [] _ _ _ hparams
  obtain ⟨mark, more, rfl⟩ := List.exists_cons_of_ne_nil hleft
  obtain ⟨returnType, left, htyped, hread⟩ := exists_of_bind_ok hread
  obtain ⟨_, left', hcolon, hread⟩ := exists_of_bind_ok hread
  obtain ⟨body, _, -, hpure⟩ := exists_of_bind_ok hread
  cases hpure
  refine ⟨params, returnType, body, mark, more, rfl, hparams, ?_⟩
  obtain ⟨-, rfl, rfl⟩ | ⟨harrow, hsome⟩ := typeAfter_cases htyped
  · obtain ⟨colon, hsymbol, htokens, -⟩ := expect_ok hcolon
    cases htokens
    exact .inl ⟨rfl, kind_of_isSymbol hsymbol⟩
  · exact .inr ⟨hsome, kind_of_isSymbol harrow⟩

/-- A colon closes a name with parameters as an expression if and only if no parameter has a type
and the colon follows them at once. -/
theorem colonAfter_signature_iff {params : List Parameter} (hname : first.kind = .identifier name)
    (hparen : second.kind = .symbol .leftParen)
    (hparams : Phrase.read (.parameters []) inner = .ok (params, mark :: more))
    (hmark : continues 0 mark.kind = false) :
    ColonAfter (first :: second :: inner) ↔
      (∀ param ∈ params, param.typed = none) ∧ mark.isSymbol .colon = true := by
  have hinner : inner ≠ [] := by
    rintro rfl
    rw [Phrase.read_eq] at hparams
    cases hparams
  have hempty : ([] : List Parameter).isEmpty = ([] : List Expr).isEmpty := rfl
  obtain ⟨-, hall, honly⟩ := arguments_of_parameters hparams hempty
  have hcall {arguments : List Expr}
      (harguments : Phrase.read (.arguments []) inner = .ok (arguments, mark :: more)) :
      Phrase.read (.suffixes (.var first.line name)) (second :: inner) =
        .ok (.call first.line (.var first.line name) arguments, mark :: more) := by
    rw [read_suffixes_call hparen hinner, bind_of_ok harguments]
    exact read_suffixes_of_breaksOff ⟨mark, more, rfl, startsSuffix_of_continues hmark⟩
  constructor
  · intro hcolon
    obtain ⟨value, next, more', hread, -⟩ := id hcolon
    rw [read_name hname (List.cons_ne_nil _ _)] at hread
    obtain ⟨head, left, hhead, -⟩ := exists_of_bind_ok hread
    rw [read_suffixes_call hparen hinner] at hhead
    obtain ⟨arguments, left', harguments, -⟩ := exists_of_bind_ok hhead
    have huntyped : ∀ param ∈ params, param.typed = none := fun param hparam =>
      (honly _ harguments param hparam).resolve_left List.not_mem_nil
    obtain ⟨arguments', hsame⟩ := hall huntyped
    exact ⟨huntyped, (colonAfter_name_iff hname (hcall hsame) hmark).mp hcolon⟩
  · rintro ⟨huntyped, hcolon⟩
    obtain ⟨arguments, harguments⟩ := hall huntyped
    exact (colonAfter_name_iff hname (hcall harguments) hmark).mpr hcolon

theorem colonAfter_definition_iff (hname : first.kind = .identifier name)
    (hparen : second.kind = .symbol .leftParen)
    (hread : definition Phrase.read line (first :: second :: inner) = .ok (stmt, between)) :
    ColonAfter (first :: second :: inner) ↔ stmt.isUntypedDefinition = true := by
  obtain ⟨params, returnType, body, mark, more, rfl, hparams, hresult⟩ :=
    definition_signature hname hread
  obtain ⟨rfl, hmark⟩ | ⟨hsome, hmark⟩ := hresult
  · have hstops : continues 0 mark.kind = false := by
      rw [hmark]
      rfl
    rw [colonAfter_signature_iff hname hparen hparams hstops]
    simp [Stmt.isUntypedDefinition, Token.isSymbol, hmark]
  · have hstops : continues 0 mark.kind = false := by
      rw [hmark]
      rfl
    rw [colonAfter_signature_iff hname hparen hparams hstops]
    obtain ⟨typed, rfl⟩ := Option.isSome_iff_exists.mp hsome
    simp [Stmt.isUntypedDefinition, Token.isSymbol, hmark]

/-- No statement starts with a colon. -/
theorem read_statements_colon (hcolon : mark.kind = .symbol .colon) :
    Phrase.read (.statements done) (mark :: more) ≠ .ok result := by
  intro hread
  obtain ⟨kind, lexeme, line⟩ := mark
  cases hcolon
  rw [read_statements_cases] at hread
  cases hread

/-- No colon closes an expression that is a statement. -/
theorem not_colonAfter_of_expressionStatement
    (hread : expressionStatement Phrase.read tokens = .ok (stmt, between))
    (hnext : Phrase.read (.statements done) between = .ok result) :
    ¬ColonAfter tokens ∧ stmt.isUntypedDefinition = false := by
  obtain ⟨value, left, hvalue, hread⟩ := exists_of_bind_ok hread
  obtain ⟨_, left', hsemicolon, hpure⟩ := exists_of_bind_ok hread
  cases hpure
  refine ⟨?_, rfl⟩
  rintro ⟨value', next, more, hread, hcolon⟩
  rw [Phrase.read_eq] at hread
  cases hvalue.symm.trans hread
  have hkind := kind_of_isSymbol hcolon
  have hnone : next.isSymbol .semicolon = false := by
    rw [Token.isSymbol, hkind]
    rfl
  rw [skipSemicolon, ifSymbol_false hnone] at hsemicolon
  cases hsemicolon
  exact read_statements_colon hkind hnext

/-- Of the statements that start with a name only a definition without types starts with an
expression that a colon closes: assignments have an equals sign there. -/
theorem colonAfter_nameStatement_iff (hname : first.kind = .identifier name)
    (hread : nameStatement Phrase.read first name (first :: others) = .ok (stmt, between))
    (hnext : Phrase.read (.statements done) between = .ok result) :
    ColonAfter (first :: others) ↔ stmt.isUntypedDefinition = true := by
  have hexpression (h : expressionStatement Phrase.read (first :: others) = .ok (stmt, between)) :
      ColonAfter (first :: others) ↔ stmt.isUntypedDefinition = true := by
    obtain ⟨hcolon, hstmt⟩ := not_colonAfter_of_expressionStatement h hnext
    exact iff_of_false hcolon (Bool.eq_false_iff.mp hstmt)
  -- An equals sign behind the name and its suffixes ends the expression.
  have hassigned {head : Expr} {equal : Token} {after : List Token}
      (hsuffixes : Phrase.read (.suffixes (.var first.line name)) others = .ok (head, equal :: after))
      (hequal : equal.kind = .symbol .equal) : ¬ColonAfter (first :: others) := by
    rw [colonAfter_name_iff hname hsuffixes (by rw [hequal]; rfl), Token.isSymbol, hequal]
    exact Bool.false_ne_true
  cases others with
  | nil => exact hexpression hread
  | cons second inner =>
    have hsecond : tokenAt (first :: second :: inner) 1 = second := rfl
    rw [nameStatement, peek_bind, hsecond] at hread
    obtain ⟨kind, lexeme, line⟩ := second
    cases kind with
    | symbol symbol =>
      cases symbol with
      | leftParen =>
        obtain ⟨answer, left, hstarts, hrest⟩ := exists_of_bind_ok hread
        cases ahead_ok hstarts
        cases answer with
        | true => exact colonAfter_definition_iff hname rfl hrest
        | false => exact hexpression hrest
      | equal =>
        obtain ⟨_, left, -, hrest⟩ := exists_of_bind_ok hread
        obtain ⟨value, left', -, hpure⟩ := exists_of_bind_ok hrest
        cases hpure
        have hnot := hassigned (read_suffixes_of_breaksOff ⟨_, _, rfl, rfl⟩) rfl
        exact iff_of_false hnot Bool.false_ne_true
      | leftSquare =>
        obtain ⟨index?, left, hattempt, hrest⟩ := exists_of_bind_ok hread
        obtain ⟨index, rfl, hindex⟩ | ⟨rfl, rfl⟩ := attempt_ok hattempt
        · obtain ⟨close, equal, hposition, hclose, hequal⟩ := assignedIndex_ok hindex
          obtain ⟨value, left', -, hpure⟩ := exists_of_bind_ok hrest
          cases hpure
          have hinner : inner ≠ [] := by
            rintro rfl
            cases hindex
          have hsuffixes : Phrase.read (.suffixes (.var first.line name))
              (⟨.symbol .leftSquare, lexeme, line⟩ :: inner) =
                .ok (.index first.line (.var first.line name) index, equal :: left) := by
            rw [read_suffixes_index rfl hposition hclose hinner (List.cons_ne_nil _ _)]
            exact read_suffixes_of_breaksOff ⟨equal, left, rfl, by rw [hequal]; rfl⟩
          exact iff_of_false (hassigned hsuffixes hequal) Bool.false_ne_true
        · exact hexpression hrest
      | dot =>
        change dottedStatement Phrase.read first name _ = _ at hread
        rcases hnames : dottedNames (⟨.symbol .dot, lexeme, line⟩ :: inner) with ⟨properties, rest⟩
        rw [dottedStatement, List.drop_succ_cons, List.drop_zero, hnames] at hread
        dsimp only at hread
        split at hread
        · rename_i hequal
          have hkind := kind_of_isSymbol hequal
          cases rest with
          | nil => cases hkind
          | cons equal after =>
            change equal.kind = _ at hkind
            have hbreaks : BreaksOff startsSuffix (equal :: after) :=
              ⟨equal, after, rfl, by rw [hkind]; rfl⟩
            obtain ⟨head, hsuffixes⟩ := read_suffixes_dotted (.var first.line name) hnames hbreaks
            have hnot := hassigned hsuffixes hkind
            unfold propertyAssignment at hread
            split at hread
            · exact hexpression hread
            · split at hread
              · obtain ⟨_, left, -, hrest⟩ := exists_of_bind_ok hread
                obtain ⟨value, left', -, hpure⟩ := exists_of_bind_ok hrest
                cases hpure
                exact iff_of_false hnot Bool.false_ne_true
              · cases hread
        · exact hexpression hread
      | _ => exact hexpression hread
    | _ => exact hexpression hread

/-- Of all statements only a definition without types that starts with its name starts with an
expression that a colon closes: words start no expression. -/
theorem colonAfter_statement_iff
    (hread : statement Phrase.read (first :: others) = .ok (stmt, between))
    (hnext : Phrase.read (.statements done) between = .ok result) :
    ColonAfter (first :: others) ↔
      first.kind.isIdentifier = true ∧ stmt.isUntypedDefinition = true := by
  have hexpression (h : expressionStatement Phrase.read (first :: others) = .ok (stmt, between)) :
      ColonAfter (first :: others) ↔
        first.kind.isIdentifier = true ∧ stmt.isUntypedDefinition = true := by
    obtain ⟨hcolon, hstmt⟩ := not_colonAfter_of_expressionStatement h hnext
    exact iff_of_false hcolon fun h => Bool.eq_false_iff.mp hstmt h.2
  obtain ⟨kind, lexeme, line⟩ := first
  cases kind with
  | identifier name =>
    rw [colonAfter_nameStatement_iff rfl hread hnext]
    exact (and_iff_right rfl).symm
  | keyword word =>
    by_cases hvalue : word = .trueWord ∨ word = .falseWord
    · obtain rfl | rfl := hvalue
      · exact hexpression hread
      · exact hexpression hread
    · refine iff_of_false ?_ nofun
      rintro ⟨value, next, more, hvalue', -⟩
      rw [Phrase.read_eq] at hvalue'
      cases word <;> first | cases hvalue' | exact hvalue (by decide)
  | _ => exact hexpression hread

/-- Statements that were read before come first in a block. The induction is on the number of
tokens. -/
theorem prefix_of_read_statements {program : Block}
    (h : Phrase.read (.statements done) tokens = .ok (program, rest)) : done.reverse <+: program := by
  induction hlength : tokens.length using Nat.strongRecOn generalizing tokens done with
  | ind length ih =>
  cases tokens with
  | nil =>
    rw [Phrase.read_eq] at h
    cases h
  | cons first more =>
    rw [read_statements_cases] at h
    split at h
    · cases h
      exact List.prefix_refl _
    · obtain ⟨stmt, between, hstmt, hnext⟩ := exists_of_bind_ok h
      have hleaves := (leaves_statement (reads_read (first :: more).length) (Nat.le_refl _)).2
      rw [hstmt] at hleaves
      have hprefix := ih between.length (hlength ▸ hleaves.1) hnext rfl
      rw [List.reverse_cons] at hprefix
      exact (List.prefix_append _ _).trans hprefix

/-- A block that is not empty is its first statement and the statements behind it. -/
theorem exists_first_statement {block : Block}
    (hread : Phrase.read (.statements []) (first :: others) = .ok (block, rest))
    (hgoes : endsBlock first.kind = false) :
    ∃ stmt more between, block = stmt :: more ∧
      statement Phrase.read (first :: others) = .ok (stmt, between) ∧
      Phrase.read (.statements [stmt]) between = .ok (block, rest) := by
  rw [read_statements_cases, if_neg (Bool.eq_false_iff.mp hgoes)] at hread
  obtain ⟨stmt, between, hstmt, hnext⟩ := exists_of_bind_ok hread
  obtain ⟨more, rfl⟩ := prefix_of_read_statements hnext
  exact ⟨stmt, more, between, rfl, hstmt, hnext⟩

/-- A block starts with an expression that a colon closes if and only if it starts like a bound. -/
theorem colonAfter_block_iff {body : List Token} {block : Block} {last : Token}
    (hlast : last.kind = .endMarker)
    (hread : Phrase.read (.statements []) (body ++ [last]) = .ok (block, [last])) :
    ColonAfter (body ++ [last]) ↔ Block.startsLikeBound body block = true := by
  cases body with
  | nil =>
    refine iff_of_false ?_ nofun
    rintro ⟨value, next, more, hvalue, -⟩
    exact refuses_expression _ 0 last hlast _ (Phrase.read_eq _ _ ▸ hvalue)
  | cons first others =>
    rw [List.cons_append] at hread ⊢
    cases hends : endsBlock first.kind with
    | true =>
      rw [read_statements_cases, if_pos hends] at hread
      have hlength := congrArg List.length (congrArg Prod.snd (Except.ok.inj hread))
      simp at hlength
    | false =>
      obtain ⟨stmt, more, between, rfl, hstmt, hnext⟩ := exists_first_statement hread hends
      rw [colonAfter_statement_iff hstmt hnext]
      simp [Block.startsLikeBound, tokenAt]

end Statements

end Parse

end DecimalScript
