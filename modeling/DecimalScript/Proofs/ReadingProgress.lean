import DecimalScript.Proofs.ReadingPrograms

/-!
# Reading ends on all tokens

On closed tokens every reader of the language stops with a fault or leaves closed tokens
again, and all but the reader of a block consume a token. Nothing is ever read from no
tokens, and no turn of a list and no level of nesting starts where the one before started.
-/

namespace DecimalScript

/-- Reading settles: it stops with a fault, or it leaves an end of the tokens that is shorter by a
number of tokens at least, and closed. -/
def Consumes {α : Type} (least : Nat) (x : Parse α) (tokens : List Token) : Prop :=
  match x tokens with
  | .ok (_, rest) => rest.length + least ≤ tokens.length ∧ rest <:+ tokens ∧ Closed rest
  | .error stop => ∃ error, stop = .fault error

/-- The readers that consume at least one token where they succeed. -/
inductive Consuming : {α : Type} → Parse α → Prop where
  | expect (symbol : Symbol) (fault : SyntaxFault) : Consuming (Parse.expect symbol fault)
  | expectWord (word : Keyword) (fault : SyntaxFault) : Consuming (Parse.expectWord word fault)
  | identifier (place : NamePlace) : Consuming (Parse.identifier place)
  | typeName : Consuming Parse.typeName
  | fieldName : Consuming Parse.fieldName
  | moduleRef : Consuming Parse.moduleRef
  | negatedNumber (line : Nat) : Consuming (Parse.negatedNumber line)
  | primary : Consuming (Parse.primary Phrase.read)
  | operand : Consuming (Parse.operand Phrase.read)
  | expression (level : Nat) : Consuming (Phrase.read (.expression level))
  | arguments (done : List Expr) : Consuming (Phrase.read (.arguments done))
  | elements (done : List Expr) : Consuming (Phrase.read (.elements done))
  | fields (done : List (String × Expr)) : Consuming (Phrase.read (.fields done))
  | lambdaNames (done : List String) : Consuming (Phrase.read (.lambdaNames done))
  | initializer : Consuming (Parse.initializer Phrase.read)
  | parameters (done : List Parameter) : Consuming (Phrase.read (.parameters done))
  | closedBlock (construct : Construct) : Consuming (Parse.closedBlock Phrase.read construct)
  | definition (line : Nat) : Consuming (Parse.definition Phrase.read line)
  | useRest (line : Nat) : Consuming (Parse.useRest line)
  | letRest (line : Nat) : Consuming (Parse.letRest Phrase.read line)
  | branch (line : Nat) : Consuming (Phrase.read (.branch line))
  | ifRest (line : Nat) : Consuming (Parse.ifRest Phrase.read line)
  | whileRest (line : Nat) : Consuming (Parse.whileRest Phrase.read line)
  | forRest (line : Nat) : Consuming (Parse.forRest Phrase.read line)
  | switchRest (line : Nat) : Consuming (Parse.switchRest Phrase.read line)
  | tryRest (line : Nat) : Consuming (Parse.tryRest Phrase.read line)
  | printRest (line : Nat) : Consuming (Parse.printRest Phrase.read line)
  | returnRest (line : Nat) : Consuming (Parse.returnRest Phrase.read line)
  | controlRest (stmt : Stmt) : Consuming (Parse.controlRest stmt)
  | nameStatement (first : Token) (name : String) :
      Consuming (Parse.nameStatement Phrase.read first name)
  | expressionStatement : Consuming (Parse.expressionStatement Phrase.read)
  | statement : Consuming (Parse.statement Phrase.read)

/-- What holds of reading a token list, whatever phrase is asked for. No reader is ever exhausted,
which it would be wherever it went past the last token. -/
structure TotalReading (tokens : List Token) : Prop where
  /-- The tokens are a program or have a fault. -/
  program : (∃ program, Block.ofTokens tokens = .ok program) ∨
    ∃ error, Block.ofTokens tokens = .error (.fault error)
  /-- At every level the tokens start with an expression or have a fault. -/
  expression : ∀ level, (∃ result, Expr.ofTokens level tokens = .ok result) ∨
    ∃ error, Expr.ofTokens level tokens = .error (.fault error)
  /-- The parts of the language consume a token, and never the last one. -/
  consuming : ∀ {α : Type} {x : Parse α}, Consuming x → Consumes 1 x tokens
  /-- So does a lambda, which is only read where one starts. -/
  lambda : Parse.startsLambda tokens = true → Consumes 1 (Parse.lambda Phrase.read) tokens
  /-- Every phrase settles, also one that needs no token. -/
  settled : ∀ {α : Type} (phrase : Phrase α), Consumes 0 phrase.read tokens
  /-- Every turn of a list and every nested phrase starts with fewer tokens. -/
  advancing : ∀ {α : Type} (phrase : Phrase α),
    phrase.rule (Phrase.guarded Phrase.read phrase tokens) tokens = phrase.read tokens
  /-- No more nesting is needed than the number of tokens allows for. -/
  bounded : ∀ {α : Type} (phrase : Phrase α) (depth : Nat), phrase.need tokens.length ≤ depth →
    Phrase.parse depth phrase tokens = phrase.read tokens

section

variable {α : Type} {tokens : List Token}

/-- What reading leaves of closed tokens is closed. -/
theorem Parse.Leaves.consumes {n least : Nat} {x y : Parse α} (h : Leaves n x y tokens)
    (hclosed : Closed tokens) (hn : n + least ≤ tokens.length + 1) :
    Consumes least x tokens := by
  have hleft := h.2
  unfold Consumes
  cases hread : x tokens with
  | ok result =>
    rw [hread] at hleft
    obtain ⟨hlength, hsuffix, hrest⟩ := hleft
    exact ⟨by omega, hsuffix, hrest hclosed⟩
  | error stop =>
    rw [hread] at hleft
    cases stop with
    | fault error => exact ⟨error, rfl⟩
    | exhausted => exact absurd rfl (hleft hclosed)

/-- A reader that consumes a token leaves fewer tokens. -/
theorem Consuming.leaves {x : Parse α} (h : Consuming x) (tokens : List Token) :
    Parse.Leaves tokens.length x x tokens := by
  have hread := @Parse.reads_read (tokens.length + 1)
  have hle := Nat.le_succ tokens.length
  have hlt := Nat.lt_succ_self tokens.length
  cases h with
  | expect symbol fault => exact Parse.leaves_expect symbol fault
  | expectWord word fault => exact Parse.leaves_expectWord word fault
  | identifier place => exact Parse.leaves_identifier place
  | typeName => exact Parse.leaves_typeName
  | fieldName => exact Parse.leaves_fieldName
  | moduleRef => exact Parse.leaves_moduleRef
  | negatedNumber line => exact Parse.leaves_negatedNumber line
  | primary => exact Parse.leaves_primary hread hle
  | operand => exact Parse.leaves_operand hread hle
  | expression level =>
    rw [← Phrase.rule_read_eq_read]
    exact Parse.leaves_expression hread level hle
  | arguments done =>
    rw [← Phrase.rule_read_eq_read]
    exact Parse.leaves_arguments hread done hle
  | elements done =>
    rw [← Phrase.rule_read_eq_read]
    exact Parse.leaves_elements hread done hle
  | fields done =>
    rw [← Phrase.rule_read_eq_read]
    exact Parse.leaves_fields hread done hle
  | lambdaNames done =>
    rw [← Phrase.rule_read_eq_read]
    exact Parse.leaves_lambdaNames hread done hle
  | parameters done =>
    rw [← Phrase.rule_read_eq_read]
    exact Parse.leaves_parameters hread done hle
  | branch line =>
    rw [← Phrase.rule_read_eq_read]
    exact Parse.leaves_branch hread line hle (Phrase.leaves_read _ tokens)
  | initializer => exact Parse.leaves_initializer hread hle
  | closedBlock construct => exact Parse.leaves_closedBlock hread construct hlt
  | definition line => exact Parse.leaves_definition hread line hle
  | useRest line => exact Parse.leaves_useRest line
  | letRest line => exact Parse.leaves_letRest hread line hle
  | ifRest line => exact Parse.leaves_ifRest hread line hlt
  | whileRest line => exact Parse.leaves_whileRest hread line hlt
  | forRest line => exact Parse.leaves_forRest hread line hlt
  | switchRest line => exact Parse.leaves_switchRest hread line hlt
  | tryRest line => exact Parse.leaves_tryRest hread line hlt
  | printRest line => exact Parse.leaves_printRest hread line hlt
  | returnRest line => exact Parse.leaves_returnRest hread line hlt
  | controlRest stmt => exact Parse.leaves_controlRest stmt
  | nameStatement first name => exact Parse.leaves_nameStatement hread first name hle
  | expressionStatement => exact Parse.leaves_expressionStatement hread hle
  | statement => exact Parse.leaves_statement hread hle

/-- A reader that settles has a result or stops with a fault. -/
theorem Consumes.ok_or_fault {least : Nat} {x : Parse α} (h : Consumes least x tokens) :
    (∃ result, x tokens = .ok result) ∨ ∃ error, x tokens = .error (.fault error) := by
  unfold Consumes at h
  split at h
  · rename_i hok
    exact .inl ⟨_, hok⟩
  · rename_i herror
    obtain ⟨error, rfl⟩ := h
    exact .inr ⟨error, herror⟩

/-- Reading is total on closed tokens, makes progress and never passes the end marker. -/
theorem reading_total (hclosed : Closed tokens) : TotalReading tokens where
  program := by
    cases hread : Block.ofTokens tokens with
    | ok program => exact .inl ⟨program, rfl⟩
    | error stop =>
      cases stop with
      | fault error => exact .inr ⟨error, rfl⟩
      | exhausted => exact absurd hread (Block.ofTokens_ne_exhausted hclosed)
  expression level := by
    have hread : Consumes 0 (Phrase.read (.expression level)) tokens :=
      (Phrase.leaves_read _ tokens).consumes hclosed (Nat.le_refl _)
    exact hread.ok_or_fault
  consuming h := (h.leaves tokens).consumes hclosed (Nat.le_refl _)
  lambda h := by
    have hread := @Parse.reads_read tokens.length
    exact (Parse.leaves_lambda hread (Nat.le_refl _) (Parse.kind_of_startsLambda h)).consumes
      hclosed (Nat.le_refl _)
  settled phrase := (phrase.leaves_read tokens).consumes hclosed (Nat.le_refl _)
  advancing phrase := phrase.rule_guarded_eq_read tokens
  bounded phrase _ h := phrase.parse_eq_read h

end

/-- A call that is never closed, in a declaration without a name. -/
def openCall : List Token :=
  [⟨.keyword .letWord, "let", 1⟩, ⟨.symbol .equal, "=", 1⟩, ⟨.identifier "f", "f", 1⟩,
    ⟨.symbol .leftParen, "(", 1⟩, .endOn 1]

theorem reading_total_of_openCall : TotalReading openCall := reading_total (by decide)

end DecimalScript
