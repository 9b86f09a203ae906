import DecimalScript.Proofs.Lookahead

/-!
# What follows an expression

A reader of an expression uses tokens from the front. Which tokens follow these matters only through
the kind of the next one, which may continue the expression: a suffix, or an operator that binds
tightly enough. In front of any other token the same is read. Lists in brackets end with a token of
their own, so that nothing can continue them.
-/

namespace DecimalScript

namespace Parse

variable {α β : Type} {goesOn goesOn' : TokenKind → Bool} {x : Parse α} {f : α → Parse β}

/-- Other tokens may stand instead of those that follow: their first one has the same kind, or does
not go on. -/
def Fits (goesOn : TokenKind → Bool) (rest other : List Token) : Prop :=
  other ≠ [] ∧
    ((tokenAt other 0).kind = (tokenAt rest 0).kind ∨ goesOn (tokenAt other 0).kind = false)

/-- What is read is read from the tokens used, in front of all tokens that fit those left. The last
token is never used. -/
def Settles (goesOn : TokenKind → Bool) (x : Parse α) : Prop :=
  ∀ tokens value rest, x tokens = .ok (value, rest) →
    ∃ used, tokens = used ++ rest ∧ (tokens ≠ [] → rest ≠ []) ∧
      ∀ other, Fits goesOn rest other → x (used ++ other) = .ok (value, other)

/-- What is read ends with a token of its own, which is not the last one. -/
def Closes (x : Parse α) : Prop :=
  ∀ tokens value rest, x tokens = .ok (value, rest) →
    ∃ used, used ≠ [] ∧ tokens = used ++ rest ∧ rest ≠ [] ∧
      ∀ other, other ≠ [] → x (used ++ other) = .ok (value, other)

/-! ### Rules -/

section Rules

/-- Tokens that fit where more kinds go on fit where fewer do. -/
theorem Fits.mono {rest other : List Token} (h : Fits goesOn' rest other)
    (hgoes : ∀ kind, goesOn' kind = false → goesOn kind = false) : Fits goesOn rest other :=
  ⟨h.1, h.2.imp_right (hgoes _)⟩

/-- Behind tokens that are kept, any tokens fit. -/
theorem Fits.append {used rest other : List Token} (h : used ≠ [] ∨ Fits goesOn rest other) :
    Fits goesOn (used ++ rest) (used ++ other) := by
  cases used with
  | nil => exact h.resolve_left (· rfl)
  | cons first used => exact ⟨List.cons_ne_nil _ _, .inl rfl⟩

/-- A reading that only some kinds can continue settles where more kinds may go on. -/
theorem Settles.mono (h : Settles goesOn x)
    (hgoes : ∀ kind, goesOn' kind = false → goesOn kind = false) : Settles goesOn' x := by
  intro tokens value rest hread
  obtain ⟨used, htokens, hkeeps, hsame⟩ := h tokens value rest hread
  exact ⟨used, htokens, hkeeps, fun other hother => hsame other (hother.mono hgoes)⟩

/-- A reading that ends with a token of its own is not continued by any kind. -/
theorem Closes.settles (h : Closes x) : Settles goesOn x := by
  intro tokens value rest hread
  obtain ⟨used, -, htokens, hne, hsame⟩ := h tokens value rest hread
  exact ⟨used, htokens, fun _ => hne, fun other hother => hsame other hother.1⟩

/-- A value uses no token, so any tokens may follow it. -/
theorem settles_pure (value : α) : Settles goesOn (pure value : Parse α) := by
  intro tokens value' rest hread
  cases hread
  exact ⟨[], rfl, id, fun other _ => rfl⟩

/-- A fault at a token reads nothing, so nothing is asked of what follows. -/
theorem closes_failAt (fault : SyntaxFault) (token : Token) :
    Closes (failAt fault token : Parse α) := by
  intro tokens value rest hread
  cases hread

/-- A fault at the next token reads nothing, so nothing is asked of what follows. -/
theorem closes_fail (fault : SyntaxFault) : Closes (fail fault : Parse α) := by
  intro tokens value rest hread
  obtain ⟨token, more, -, hfail⟩ := exists_of_bind_ok hread
  cases hfail

/-- Two readings in a row use the tokens that both use. -/
theorem Settles.bind (hx : Settles goesOn x) (hf : ∀ value, Settles goesOn (f value)) :
    Settles goesOn (x >>= f) := by
  intro tokens value' rest hread
  obtain ⟨value, between, hfirst, hsecond⟩ := exists_of_bind_ok hread
  obtain ⟨used, rfl, hkeeps, hsame⟩ := hx tokens value between hfirst
  obtain ⟨used', rfl, hkeeps', hsame'⟩ := hf value between value' rest hsecond
  refine ⟨used ++ used', (List.append_assoc _ _ _).symm, fun hne => hkeeps' (hkeeps hne),
    fun other hother => ?_⟩
  rw [List.append_assoc, bind_of_ok (hsame _ (Fits.append (.inr hother)))]
  exact hsame' other hother

/-- What comes before a reading that ends with a token of its own can follow anything. -/
theorem Settles.bind_closes (hx : Settles goesOn x) (hf : ∀ value, Closes (f value)) :
    Closes (x >>= f) := by
  intro tokens value' rest hread
  obtain ⟨value, between, hfirst, hsecond⟩ := exists_of_bind_ok hread
  obtain ⟨used, rfl, -, hsame⟩ := hx tokens value between hfirst
  obtain ⟨used', hne, rfl, hkeeps, hsame'⟩ := hf value between value' rest hsecond
  refine ⟨used ++ used', List.append_ne_nil_of_right_ne_nil _ hne, (List.append_assoc _ _ _).symm,
    hkeeps, fun other hother => ?_⟩
  rw [List.append_assoc, bind_of_ok (hsame _ (Fits.append (.inl hne)))]
  exact hsame' other hother

/-- Two readings that each end with a token of their own end with the second one's. -/
theorem Closes.bind (hx : Closes x) (hf : ∀ value, Closes (f value)) : Closes (x >>= f) :=
  Settles.bind_closes (hx.settles : Settles (fun _ => false) x) hf

/-- Behind a reading that ends with a token of its own, only what continues the second one
matters. -/
theorem Closes.bind_settles (hx : Closes x) (hf : ∀ value, Settles goesOn (f value)) :
    Settles goesOn (x >>= f) :=
  hx.settles.bind hf

/-- A value is made of what was read. -/
theorem Closes.bind_pure {g : α → β} (hx : Closes x) :
    Closes (x >>= fun value => pure (g value)) := by
  intro tokens value' rest hread
  obtain ⟨value, between, hfirst, hpure⟩ := exists_of_bind_ok hread
  cases hpure
  obtain ⟨used, hne, htokens, hkeeps, hsame⟩ := hx tokens value _ hfirst
  exact ⟨used, hne, htokens, hkeeps, fun other hother => bind_of_ok (hsame other hother)⟩

/-- What holds of a reader however much nesting is allowed holds without a bound. -/
theorem Settles.unbounded {bounded : Nat → Parse α} (h : ∀ depth, Settles goesOn (bounded depth))
    (hx : ∀ tokens, ∃ need, ∀ depth, need ≤ depth → bounded depth tokens = x tokens) :
    Settles goesOn x := by
  intro tokens value rest hread
  obtain ⟨need, hneed⟩ := hx tokens
  rw [← hneed need (Nat.le_refl _)] at hread
  obtain ⟨used, rfl, hkeeps, -⟩ := h need _ value rest hread
  refine ⟨used, rfl, hkeeps, fun other hother => ?_⟩
  obtain ⟨need', hneed'⟩ := hx (used ++ other)
  have hlarge : bounded (max need need') (used ++ rest) = .ok (value, rest) := by
    rw [hneed _ (Nat.le_max_left _ _), ← hneed need (Nat.le_refl _), hread]
  obtain ⟨used', hused, -, hsame⟩ := h _ _ value rest hlarge
  cases List.append_cancel_right hused
  rw [← hneed' _ (Nat.le_max_right need need')]
  exact hsame other hother

end Rules

/-! ### Looking at the next token -/

section Looking

/-- At least one token is used. -/
def Takes (x : Parse α) : Prop :=
  ∀ tokens value rest, x tokens = .ok (value, rest) → rest.length < tokens.length

/-- A reading that ends with a token of its own uses one, whatever comes next. -/
theorem Closes.takes_bind (hx : Closes x) (hf : ∀ value, Settles goesOn (f value)) :
    Takes (x >>= f) := by
  intro tokens value' rest hread
  obtain ⟨value, between, hfirst, hsecond⟩ := exists_of_bind_ok hread
  obtain ⟨used, hne, rfl, -⟩ := hx tokens value between hfirst
  obtain ⟨used', rfl, -⟩ := hf value between value' rest hsecond
  have hpos := List.length_pos_iff.mpr hne
  simp only [List.length_append]
  omega

/-- A reading that ends with a token of its own under every bound on nesting does so without one. -/
theorem Closes.unbounded {bounded : Nat → Parse α} (h : ∀ depth, Closes (bounded depth))
    (hx : ∀ tokens, ∃ need, ∀ depth, need ≤ depth → bounded depth tokens = x tokens) :
    Closes x := by
  intro tokens value rest hread
  obtain ⟨used, rfl, -, hsame⟩ := Settles.unbounded
    (fun depth => ((h depth).settles : Settles (fun _ => false) _)) hx tokens value rest hread
  obtain ⟨need, hneed⟩ := hx (used ++ rest)
  rw [← hneed need (Nat.le_refl _)] at hread
  obtain ⟨used', hne, hused, hkeeps, -⟩ := h need _ value rest hread
  cases List.append_cancel_right hused
  exact ⟨used, hne, rfl, hkeeps, fun other hother => hsame other ⟨hother, .inr rfl⟩⟩

/-- What comes before a reading that uses a token can follow anything. -/
theorem Settles.bind_takes (hx : Settles goesOn x) (hf : ∀ value, Settles goesOn' (f value))
    (htakes : ∀ value, Takes (f value)) : Settles goesOn' (x >>= f) := by
  intro tokens value' rest hread
  obtain ⟨value, between, hfirst, hsecond⟩ := exists_of_bind_ok hread
  have hfewer := htakes value between value' rest hsecond
  obtain ⟨used, rfl, hkeeps, hsame⟩ := hx tokens value between hfirst
  obtain ⟨used', rfl, hkeeps', hsame'⟩ := hf value between value' rest hsecond
  have hne : used' ≠ [] := by
    rintro rfl
    exact Nat.lt_irrefl _ hfewer
  refine ⟨used ++ used', (List.append_assoc _ _ _).symm, fun hne => hkeeps' (hkeeps hne),
    fun other hother => ?_⟩
  rw [List.append_assoc, bind_of_ok (hsame _ (Fits.append (.inl hne)))]
  exact hsame' other hother

/-- A token that is used is the last one used, and another is left. -/
theorem closes_skip : Closes (skip 1) := by
  intro tokens value rest hread
  unfold skip at hread
  split at hread
  · rename_i hlength
    cases hread
    obtain ⟨first, more, rfl⟩ := List.exists_cons_of_length_pos (Nat.zero_lt_of_lt hlength)
    have hmore : more ≠ [] := by
      rintro rfl
      exact Nat.lt_irrefl _ hlength
    refine ⟨[first], List.cons_ne_nil _ _, rfl, hmore, fun other hother => ?_⟩
    have hpos := List.length_pos_iff.mpr hother
    rw [skip, if_pos (by simp; omega)]
    rfl
  · cases hread

/-- What depends on the next token and uses it. -/
theorem Closes.peek {f : Token → Parse α} (hf : ∀ token, Closes (f token)) :
    Closes (peek 0 >>= f) := by
  intro tokens value rest hread
  cases tokens with
  | nil => cases hread
  | cons first more =>
    obtain ⟨used, hne, htokens, hkeeps, hsame⟩ := hf first (first :: more) value rest hread
    cases used with
    | nil => exact absurd rfl hne
    | cons head used =>
      cases htokens
      exact ⟨first :: used, hne, rfl, hkeeps, hsame⟩

/-- What depends on whether a symbol comes next, and uses a token either way. -/
theorem Closes.symbolAt {symbol : Symbol} {f : Bool → Parse α} (hf : ∀ answer, Closes (f answer)) :
    Closes (symbolAt 0 symbol >>= f) := by
  unfold Parse.symbolAt
  rw [bind_assoc]
  exact .peek fun token => hf (token.isSymbol symbol)

/-- What depends on the next token, and does the same for others that fit if it does not use it. -/
theorem Settles.peek {f : Token → Parse α} (hf : ∀ token, Settles goesOn (f token))
    (hsame : ∀ token, Takes (f token) ∨ ∀ other : Token,
      other.kind = token.kind ∨ goesOn other.kind = false → f other = f token) :
    Settles goesOn (peek 0 >>= f) := by
  intro tokens value rest hread
  cases tokens with
  | nil => cases hread
  | cons first more =>
    obtain ⟨used, htokens, hkeeps, hused⟩ := hf first (first :: more) value rest hread
    cases used with
    | cons head used =>
      cases htokens
      exact ⟨first :: used, rfl, hkeeps, hused⟩
    | nil =>
      cases htokens
      refine ⟨[], rfl, hkeeps, fun other hother => ?_⟩
      obtain htakes | hfits := hsame first
      · exact absurd (htakes _ _ _ hread) (Nat.lt_irrefl _)
      · obtain ⟨next, more', rfl⟩ := List.exists_cons_of_ne_nil hother.1
        have hnext : f next = f first := hfits next hother.2
        have hother' := hused (next :: more') hother
        rw [← hnext] at hother'
        exact hother'

/-- An expected symbol is the last token used. -/
theorem closes_expect (symbol : Symbol) (fault : SyntaxFault) : Closes (expect symbol fault) := by
  refine .symbolAt fun answer => ?_
  cases answer with
  | true => exact closes_skip
  | false => exact closes_fail fault

/-- One token is used and a value made of it. -/
theorem closes_one (value : α) : Closes (do skip 1; return value) := closes_skip.bind_pure

/-- A name is the last token used. -/
theorem closes_identifier (place : NamePlace) : Closes (identifier place) := by
  refine .peek fun token => ?_
  split
  · exact closes_one _
  · exact closes_fail _

/-- The name of a field is the last token used, written as a name or as a text. -/
theorem closes_fieldName : Closes fieldName := by
  refine .peek fun token => ?_
  split
  · exact closes_one _
  · exact closes_one _
  · exact closes_fail _

/-- The name of a type is the last token used. -/
theorem closes_typeName : Closes typeName := by
  refine .peek fun token => ?_
  split
  · exact closes_one _
  · exact closes_one _
  · exact closes_one _
  · exact closes_fail _

/-- A type annotation may follow its symbol. -/
theorem settles_typeAfter (symbol : Symbol) :
    Settles (fun kind => kind == .symbol symbol) (typeAfter symbol) := by
  have htyped : Closes (do skip 1; return some (← typeName)) :=
    closes_skip.bind fun _ => closes_typeName.bind_pure
  unfold typeAfter symbolAt
  rw [bind_assoc]
  refine .peek (fun token => ?_) fun token => ?_
  · rw [pure_bind]
    split
    · exact htyped.settles
    · exact settles_pure _
  · by_cases hsymbol : token.isSymbol symbol = true
    · left
      simp only [pure_bind, if_pos hsymbol]
      exact closes_skip.takes_bind fun _ =>
        (closes_typeName.bind_pure.settles : Settles (fun _ => false) _)
    · right
      intro other hother
      have hnot : ¬other.isSymbol symbol = true := by
        rcases hother with hsame | hstops
        · rwa [Token.isSymbol, hsame]
        · simpa [Token.isSymbol] using hstops
      simp only [pure_bind, if_neg hsymbol, if_neg hnot]

end Looking

/-! ### Expressions -/

/-- A member, an index or a call may follow an operand. -/
def startsSuffix : TokenKind → Bool
  | .symbol .dot | .symbol .leftSquare | .symbol .leftParen => true
  | _ => false

/-- What may continue an expression: a suffix, or an operator that binds tighter than its level. -/
def continues (level : Nat) (kind : TokenKind) : Bool :=
  startsSuffix kind || (binaryOp? kind).any fun op => level < op.level

/-- How the readings of nested phrases depend on what follows: those of lists end with a bracket. -/
structure FollowsOn (read : PhraseReader) : Prop where
  expression : ∀ level, Settles (continues level) (read (.expression level))
  operators : ∀ level left, Settles (continues level) (read (.operators level left))
  suffixes : ∀ head, Settles startsSuffix (read (.suffixes head))
  arguments : ∀ done, Closes (read (.arguments done))
  elements : ∀ done, Closes (read (.elements done))
  fields : ∀ done, Closes (read (.fields done))
  parameters : ∀ done, Closes (read (.parameters done))
  lambdaNames : ∀ done, Closes (read (.lambdaNames done))

section Expressions

variable {read : PhraseReader} (hread : FollowsOn read)

/-- What does not continue an expression of one level continues none of a higher level. -/
theorem continues_of_level {level level' : Nat} (h : level ≤ level') {kind : TokenKind}
    (hstops : continues level kind = false) : continues level' kind = false := by
  unfold continues at hstops ⊢
  rw [Bool.or_eq_false_iff] at hstops ⊢
  refine ⟨hstops.1, ?_⟩
  cases hop : binaryOp? kind with
  | none => rfl
  | some op =>
    have hnot := hstops.2
    rw [hop] at hnot
    simp only [Option.any_some, decide_eq_false_iff_not] at hnot ⊢
    omega

/-- What does not continue an expression starts no suffix of it. -/
theorem startsSuffix_of_continues {level : Nat} {kind : TokenKind}
    (hstops : continues level kind = false) : startsSuffix kind = false :=
  (Bool.or_eq_false_iff.mp hstops).1

include hread

/-- An array literal ends with its bracket. -/
theorem closes_arrayRest (line : Nat) : Closes (arrayRest read line) := by
  refine .symbolAt fun answer => ?_
  cases answer with
  | true => exact closes_one _
  | false => exact (hread.elements []).bind_pure

/-- An object literal ends with its brace. -/
theorem closes_objectRest (line : Nat) : Closes (objectRest read line) := by
  refine .symbolAt fun answer => ?_
  cases answer with
  | true => exact closes_one _
  | false => exact (hread.fields []).bind_pure

omit hread in
/-- A negated number ends with its digits. -/
theorem closes_negatedNumber (line : Nat) : Closes (negatedNumber line) := by
  refine .peek fun token => ?_
  split
  · exact closes_one _
  · exact closes_fail _

/-- A primary expression ends with a token of its own, so nothing continues it. -/
theorem closes_primary : Closes (primary read) := by
  refine .peek fun token => ?_
  split
  · exact closes_one _
  · exact closes_one _
  · exact closes_one _
  · exact closes_one _
  · exact closes_one _
  · exact closes_skip.bind fun _ => closes_negatedNumber _
  · exact closes_skip.bind fun _ =>
      (hread.expression 0).bind_closes fun inner => (closes_expect _ _).bind_pure
  · exact closes_skip.bind fun _ => closes_arrayRest hread _
  · exact closes_skip.bind fun _ => closes_objectRest hread _
  · exact closes_fail _

/-- Suffixes go on as long as one more starts, whatever else follows. -/
theorem settles_suffixes (head : Expr) : Settles startsSuffix (suffixes read head) := by
  have hmember : Settles startsSuffix (do
      let name ← identifier .member
      read (.suffixes (.member head.line head name))) :=
    (closes_identifier _).bind_settles fun name => hread.suffixes _
  have hindex : Settles startsSuffix (do
      let index ← read (.expression 0)
      expect .rightSquare .unclosedIndex
      read (.suffixes (.index head.line head index))) :=
    (hread.expression 0).bind_takes
      (fun index => (closes_expect _ _).bind_settles fun _ => hread.suffixes _)
      fun index => (closes_expect _ _).takes_bind fun _ => hread.suffixes _
  have hcall : Settles startsSuffix (do
      let arguments ← read (.arguments [])
      read (.suffixes (.call head.line head arguments))) :=
    (hread.arguments []).bind_settles fun arguments => hread.suffixes _
  refine .peek (fun token => ?_) fun token => ?_
  · split
    · exact closes_skip.bind_settles fun _ => hmember
    · exact closes_skip.bind_settles fun _ => hindex
    · exact closes_skip.bind_settles fun _ => hcall
    · exact settles_pure _
  · split
    · exact .inl (closes_skip.takes_bind fun _ => hmember)
    · exact .inl (closes_skip.takes_bind fun _ => hindex)
    · exact .inl (closes_skip.takes_bind fun _ => hcall)
    · rename_i hdot hsquare hparen
      refine .inr fun other hother => ?_
      have hstops : startsSuffix other.kind = false := by
        rcases hother with hkind | hstops
        · rw [hkind, startsSuffix]
          · exact hdot
          · exact hsquare
          · exact hparen
        · exact hstops
      split
      · rename_i hkind
        rw [hkind] at hstops
        cases hstops
      · rename_i hkind
        rw [hkind] at hstops
        cases hstops
      · rename_i hkind
        rw [hkind] at hstops
        cases hstops
      · rfl

/-- An operand is continued by a suffix only. -/
theorem settles_operand : Settles startsSuffix (operand read) :=
  (closes_primary hread).bind_settles fun head => hread.suffixes head

/-- Operators of a level go on as long as a suffix or one that binds tighter follows. -/
theorem settles_operators (level : Nat) (left : Expr) :
    Settles (continues level) (operators read level left) := by
  have hmore (op : BinaryOp) (hop : level < op.level) : Settles (continues level) (do
      let right ← read (.expression op.level)
      read (.operators level (.binary left.line op left right))) :=
    ((hread.expression op.level).mono fun _ => continues_of_level (Nat.le_of_lt hop)).bind
      fun right => hread.operators level _
  refine .peek (fun token => ?_) fun token => ?_
  · split
    · exact settles_pure _
    · split
      · rename_i hop
        exact closes_skip.bind_settles fun _ => hmore _ hop
      · exact settles_pure _
  · by_cases htaken : ∃ op ∈ binaryOp? token.kind, level < op.level
    · obtain ⟨op, hop, hlevel⟩ := htaken
      left
      rw [Option.mem_def.mp hop]
      simp only [if_pos hlevel]
      exact closes_skip.takes_bind fun _ => hmore op hlevel
    · right
      intro other hother
      have hstays : ¬∃ op ∈ binaryOp? other.kind, level < op.level := by
        rcases hother with hkind | hstops
        · rwa [hkind]
        · rintro ⟨op, hop, hlevel⟩
          have hnone := (Bool.or_eq_false_iff.mp hstops).2
          rw [Option.mem_def.mp hop] at hnone
          simp [hlevel] at hnone
      -- In front of both tokens the left operand is complete.
      dsimp only
      cases hop : binaryOp? other.kind with
      | none =>
        cases hop' : binaryOp? token.kind with
        | none => rfl
        | some op' => exact (if_neg fun hlevel => htaken ⟨op', hop', hlevel⟩).symm
      | some op =>
        have hloose : ¬level < op.level := fun hlevel => hstays ⟨op, hop, hlevel⟩
        cases hop' : binaryOp? token.kind with
        | none => exact if_neg hloose
        | some op' =>
          exact (if_neg hloose).trans (if_neg fun hlevel => htaken ⟨op', hop', hlevel⟩).symm

/-- An expression of a level is continued by a suffix or an operator that binds tighter only. -/
theorem settles_expression (level : Nat) : Settles (continues level) (expression read level) :=
  ((settles_operand hread).mono fun _ => startsSuffix_of_continues).bind fun left =>
    hread.operators level left

omit hread in
/-- A list in parentheses ends with the closing one if each of its items ends with a token of its
own. -/
theorem closes_listed {α : Type} (done : List α) (fault : SyntaxFault) {item : Parse (List α)}
    (hitem : Closes item) : Closes (listed done fault item) := by
  refine .symbolAt fun answer => ?_
  cases answer with
  | true => exact closes_one _
  | false =>
    cases done with
    | nil => exact hitem
    | cons first others => exact (closes_expect _ _).bind fun _ => hitem

/-- The arguments of a call end with the closing parenthesis. -/
theorem closes_arguments (done : List Expr) : Closes (arguments read done) :=
  closes_listed done _ <| (settles_expression hread 0).bind_closes fun _ => hread.arguments _

omit hread in
/-- A literal ends with its closing symbol if what follows a comma does. -/
theorem closes_itemEnd {α : Type} (close : Symbol) (trailing missing : SyntaxFault)
    {more : Parse α} {value : α} (hmore : Closes more) :
    Closes (itemEnd close trailing missing more value) := by
  refine .symbolAt fun comma => ?_
  cases comma with
  | true =>
    refine closes_skip.bind fun _ => .symbolAt fun closed => ?_
    cases closed with
    | true => exact closes_fail _
    | false => exact hmore
  | false => exact (closes_expect _ _).bind_pure

/-- The elements of an array literal end with its bracket. -/
theorem closes_elements (done : List Expr) : Closes (elements read done) :=
  (settles_expression hread 0).bind_closes fun _ =>
    closes_itemEnd .rightSquare _ _ (hread.elements _)

/-- The fields of an object literal end with its brace. -/
theorem closes_fields (done : List (String × Expr)) : Closes (fields read done) :=
  closes_fieldName.bind fun _ => (closes_expect _ _).bind fun _ =>
    (hread.expression 0).bind_closes fun _ => closes_itemEnd .rightBrace _ _ (hread.fields _)

/-- The parameters of a lambda end with the closing parenthesis. -/
theorem closes_lambdaNames (done : List String) : Closes (lambdaNames read done) :=
  closes_listed done _ <| (closes_identifier _).bind fun _ => hread.lambdaNames _

/-- The parameters of a function end with the closing parenthesis, types included. -/
theorem closes_parameters (done : List Parameter) : Closes (parameters read done) :=
  closes_listed done _ <| (closes_identifier _).bind fun _ =>
    (settles_typeAfter .colon).bind_closes fun _ => hread.parameters _

end Expressions

/-- However much nesting is allowed, what follows an expression matters only if it continues it. The
induction is on the nesting. -/
theorem followsOn_parse (depth : Nat) : FollowsOn (Phrase.parse depth) := by
  induction depth with
  | zero =>
    have hstop {α : Type} : Closes (exhausted : Parse α) := by
      intro tokens value rest hread
      cases hread
    exact ⟨fun _ => hstop.settles, fun _ _ => hstop.settles, fun _ => hstop.settles, fun _ => hstop,
      fun _ => hstop, fun _ => hstop, fun _ => hstop, fun _ => hstop⟩
  | succ depth ih =>
    exact ⟨settles_expression ih, settles_operators ih, settles_suffixes ih, closes_arguments ih,
      closes_elements ih, closes_fields ih, closes_parameters ih, closes_lambdaNames ih⟩

/-- What follows an expression matters only if it continues it, with no bound on nesting. -/
theorem followsOn_read : FollowsOn Phrase.read := by
  have hbound {α : Type} (phrase : Phrase α) : ∀ tokens, ∃ need, ∀ depth, need ≤ depth →
      Phrase.parse depth phrase tokens = phrase.read tokens :=
    fun tokens => ⟨_, fun _ => Phrase.parse_eq_read phrase⟩
  exact {
    expression := fun level => .unbounded (fun depth => (followsOn_parse depth).expression level)
      (hbound _)
    operators := fun level left =>
      .unbounded (fun depth => (followsOn_parse depth).operators level left) (hbound _)
    suffixes := fun head => .unbounded (fun depth => (followsOn_parse depth).suffixes head) (hbound _)
    arguments := fun done => .unbounded (fun depth => (followsOn_parse depth).arguments done)
      (hbound _)
    elements := fun done => .unbounded (fun depth => (followsOn_parse depth).elements done) (hbound _)
    fields := fun done => .unbounded (fun depth => (followsOn_parse depth).fields done) (hbound _)
    parameters := fun done => .unbounded (fun depth => (followsOn_parse depth).parameters done)
      (hbound _)
    lambdaNames := fun done => .unbounded (fun depth => (followsOn_parse depth).lambdaNames done)
      (hbound _) }

end Parse

end DecimalScript
