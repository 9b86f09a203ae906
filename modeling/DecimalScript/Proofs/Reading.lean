import DecimalScript.Syntax.Progress
import Mathlib.Data.List.Basic

/-!
# Reading consumes tokens

Reading a phrase leaves an end of the tokens that is shorter than a bound, or stops with a
fault, and where an end marker closes the tokens it is never consumed. Two ways of reading
nested phrases give the same if they do wherever fewer tokens are left than the phrase
around them was given.
-/

namespace DecimalScript

/-- An end marker is the last of the tokens. -/
def Closed (tokens : List Token) : Prop := tokens.getLast?.map (·.kind) = some .endMarker

instance (tokens : List Token) : Decidable (Closed tokens) :=
  inferInstanceAs (Decidable (_ = _))

namespace Closed

variable {tokens : List Token}

/-- Tokens that are closed are not missing. -/
theorem ne_nil (h : Closed tokens) : tokens ≠ [] := by
  rintro rfl
  cases h

/-- An end of the tokens is closed if it has any token. -/
theorem of_suffix {rest : List Token} (h : Closed tokens) (hsuffix : rest <:+ tokens)
    (hne : rest ≠ []) : Closed rest := by
  obtain ⟨consumed, rfl⟩ := hsuffix
  rw [Closed, List.getLast?_append_of_ne_nil _ hne] at h
  exact h

end Closed

namespace Parse

variable {α β : Type} {tokens : List Token} {n : Nat}

/-- Two readings agree: they leave the same end of the tokens, which is shorter than a bound, or
stop for the same reason. Where the tokens are closed, what is left of them is closed too, and the
reason is a fault. -/
def Leaves (n : Nat) (x y : Parse α) (tokens : List Token) : Prop :=
  y tokens = x tokens ∧
    match x tokens with
    | .ok (_, rest) => rest.length < n ∧ rest <:+ tokens ∧ (Closed tokens → Closed rest)
    | .error stop => Closed tokens → stop ≠ .exhausted

/-- The scan for a lambda leaves an end of the tokens. -/
theorem afterNames_suffix (tokens : List Token) : afterNames tokens <:+ tokens := by
  fun_induction afterNames tokens with
  | case1 name lexeme line lexeme' line' rest ih =>
    exact (ih.trans (List.suffix_cons _ _)).trans (List.suffix_cons _ _)
  | case2 name lexeme line rest hcomma ih => exact ih.trans (List.suffix_cons _ _)
  | case3 tokens hpair hname => exact List.suffix_refl _

/-- Whether the scan for a lambda stops at a token wherever it meets it. -/
def stopsNames : TokenKind → Bool
  | .identifier _ | .symbol .comma => false
  | _ => true

/-- The scan for a lambda does not go past a token that is neither a name nor a comma. -/
theorem afterNames_append (tokens : List Token) {mark : Token}
    (hmark : stopsNames mark.kind = true) (rest : List Token) :
    afterNames (tokens ++ mark :: rest) = afterNames tokens ++ mark :: rest := by
  obtain ⟨kind, text, place⟩ := mark
  fun_induction afterNames tokens with
  | case1 name lexeme line lexeme' line' others ih => exact ih
  | case2 name lexeme line others hcomma ih =>
    rw [List.cons_append, afterNames, ih]
    intro lexeme' line' after hafter
    cases others with
    | nil =>
      obtain ⟨rfl, -⟩ := Token.mk.inj (List.cons.inj hafter).1
      cases hmark
    | cons second others =>
      cases hafter
      exact hcomma _ _ _ rfl
  | case3 tokens hpair hname =>
    cases tokens with
    | nil =>
      cases kind with
      | identifier name => cases hmark
      | _ => rfl
    | cons token others =>
      obtain ⟨kind, lexeme, line⟩ := token
      cases kind with
      | identifier name => exact (hname name _ _ _ rfl).elim
      | _ => rfl

/-- A token that is not the end marker stands in the list. -/
theorem lt_length_of_kind {position : Nat}
    (h : (tokenAt tokens position).kind ≠ .endMarker) : position < tokens.length := by
  refine Nat.lt_of_not_le fun hle => h ?_
  rw [tokenAt, List.getD_eq_getElem?_getD, List.getElem?_eq_none hle]
  rfl

/-- A token that is not the end marker is not the last of closed tokens. -/
theorem closed_drop {position : Nat} (h : (tokenAt tokens position).kind ≠ .endMarker)
    (hclosed : Closed tokens) : Closed (tokens.drop (position + 1)) := by
  have hlt := lt_length_of_kind h
  refine hclosed.of_suffix (List.drop_suffix _ _) fun hnil => h ?_
  have hlast : position = tokens.length - 1 := by
    have := List.drop_eq_nil_iff.mp hnil
    omega
  rw [Closed, List.getLast?_eq_getElem?, ← hlast, List.getElem?_eq_getElem hlt] at hclosed
  rw [tokenAt, List.getD_eq_getElem?_getD, List.getElem?_eq_getElem hlt]
  exact Option.some.inj hclosed

/-- The token at a position behind some that were consumed. -/
theorem tokenAt_drop (tokens : List Token) (count position : Nat) :
    tokenAt (tokens.drop count) position = tokenAt tokens (count + position) := by
  simp only [tokenAt, List.getD_eq_getElem?_getD, List.getElem?_drop]

/-- The tokens after dotted names are those after a dot and an identifier for each name. -/
theorem dottedNames_rest (tokens : List Token) :
    (dottedNames tokens).2 = tokens.drop (2 * (dottedNames tokens).1.length) := by
  fun_induction dottedNames tokens with
  | case1 _ _ _ _ _ rest names after hafter ih =>
    rw [hafter] at ih
    exact ih
  | case2 tokens hother => rfl

/-- A token that passes for a symbol is one. -/
theorem kind_of_isSymbol {token : Token} {symbol : Symbol} (h : token.isSymbol symbol = true) :
    token.kind = .symbol symbol :=
  eq_of_beq h

/-- A token that passes for a reserved word is one. -/
theorem kind_of_isKeyword {token : Token} {word : Keyword} (h : token.isKeyword word = true) :
    token.kind = .keyword word :=
  eq_of_beq h

namespace Leaves

/-- What leaves fewer tokens than a bound leaves fewer than a greater one. -/
theorem mono {k : Nat} {x y : Parse α} (h : Leaves k x y tokens) (hle : k ≤ n) :
    Leaves n x y tokens := by
  refine ⟨h.1, ?_⟩
  have hx := h.2
  split at hx
  · exact ⟨Nat.lt_of_lt_of_le hx.1 hle, hx.2⟩
  · exact hx

/-- A value leaves all tokens. -/
theorem pure {value : α} (h : tokens.length < n) : Leaves n (pure value) (pure value) tokens :=
  ⟨rfl, h, List.suffix_refl _, id⟩

/-- A fault at a token is the same for both readings. -/
theorem failAt (fault : SyntaxFault) (token : Token) :
    Leaves n (failAt fault token : Parse α) (Parse.failAt fault token) tokens :=
  ⟨rfl, fun _ => ParseStop.noConfusion⟩

/-- After the same start, two readings agree if what comes next does. -/
theorem bind_of_ok {x y : Parse α} {f g : α → Parse β} {value : α} {rest : List Token}
    (hx : x tokens = .ok (value, rest)) (hy : y tokens = .ok (value, rest))
    (hsuffix : rest <:+ tokens) (hclosed : Closed tokens → Closed rest)
    (h : Leaves n (f value) (g value) rest) : Leaves n (x >>= f) (y >>= g) tokens := by
  obtain ⟨hsame, hleft⟩ := h
  unfold Leaves
  rw [Parse.bind_of_ok hx, Parse.bind_of_ok hy]
  refine ⟨hsame, ?_⟩
  split at hleft
  · exact ⟨hleft.1, hleft.2.1.trans hsuffix, fun h => hleft.2.2 (hclosed h)⟩
  · exact fun h => hleft (hclosed h)

/-- Two readings agree if both stop at the start. -/
theorem bind_of_error {x y : Parse α} {f g : α → Parse β} {stop : ParseStop}
    (hx : x tokens = .error stop) (hy : y tokens = .error stop)
    (h : Closed tokens → stop ≠ .exhausted) : Leaves n (x >>= f) (y >>= g) tokens := by
  unfold Leaves
  rw [Parse.bind_of_error hx, Parse.bind_of_error hy]
  exact ⟨rfl, h⟩

/-- What is read next starts from the tokens that are left. -/
theorem bind {k : Nat} {x y : Parse α} {f g : α → Parse β} (hx : Leaves k x y tokens)
    (hf : ∀ value rest, rest.length < k → Leaves n (f value) (g value) rest) :
    Leaves n (x >>= f) (y >>= g) tokens := by
  obtain ⟨hsame, hleft⟩ := hx
  cases hread : x tokens with
  | error stop =>
    rw [hread] at hleft
    exact bind_of_error hread (hsame.trans hread) hleft
  | ok result =>
    rw [hread] at hleft
    exact bind_of_ok hread (hsame.trans hread) hleft.2.1 hleft.2.2 (hf _ _ hleft.1)

/-- What is made of a value does not change what is left. -/
theorem map {x y : Parse α} {f : α → β} (hx : Leaves n x y tokens) :
    Leaves n (f <$> x) (f <$> y) tokens := by
  rw [← bind_pure_comp, ← bind_pure_comp]
  exact hx.bind fun _ _ h => .pure h

/-- Tokens ahead are looked at. -/
theorem peek {position : Nat} {f g : Token → Parse α}
    (h : Leaves n (f (tokenAt tokens position)) (g (tokenAt tokens position)) tokens) :
    Leaves n (peek position >>= f) (Parse.peek position >>= g) tokens := by
  cases tokens with
  | nil => exact ⟨rfl, fun hclosed => absurd rfl hclosed.ne_nil⟩
  | cons token rest => exact h

/-- A fault at the next token is the same for both readings. -/
theorem fail (fault : SyntaxFault) :
    Leaves n (fail fault : Parse α) (Parse.fail fault) tokens :=
  peek (failAt fault _)

/-- It is asked whether a symbol stands ahead. -/
theorem symbolAt {position : Nat} {symbol : Symbol} {f g : Bool → Parse α}
    (h : ∀ answer, (answer = true → (tokenAt tokens position).kind = .symbol symbol) →
      Leaves n (f answer) (g answer) tokens) :
    Leaves n (symbolAt position symbol >>= f) (Parse.symbolAt position symbol >>= g) tokens := by
  cases tokens with
  | nil => exact ⟨rfl, fun hclosed => absurd rfl hclosed.ne_nil⟩
  | cons token rest => exact h _ kind_of_isSymbol

/-- It is asked whether a reserved word comes next. -/
theorem wordNext {word : Keyword} {f g : Bool → Parse α}
    (h : ∀ answer, (answer = true → (tokenAt tokens 0).kind = .keyword word) →
      Leaves n (f answer) (g answer) tokens) :
    Leaves n (wordNext word >>= f) (Parse.wordNext word >>= g) tokens := by
  cases tokens with
  | nil => exact ⟨rfl, fun hclosed => absurd rfl hclosed.ne_nil⟩
  | cons token rest => exact h _ kind_of_isKeyword

/-- It is asked whether a step follows; it does so only after a colon. -/
theorem stepNext {f g : Bool → Parse α}
    (h : ∀ answer, (answer = true → (tokenAt tokens 0).kind = .symbol .colon) →
      Leaves n (f answer) (g answer) tokens) :
    Leaves n (stepNext >>= f) (Parse.stepNext >>= g) tokens := by
  unfold Parse.stepNext
  rw [bind_assoc, bind_assoc]
  refine Leaves.symbolAt fun answer hanswer => ?_
  cases answer with
  | false => exact h false nofun
  | true =>
    simp only [if_true, bind_assoc]
    refine Leaves.peek ?_
    split
    · exact h true fun _ => hanswer rfl
    · simp only [bind_assoc]
      exact Leaves.peek (h _ fun _ => hanswer rfl)
    · exact h false nofun

/-- Something is attempted, and where it has a fault nothing is consumed. -/
theorem attempt {k : Nat} {x y : Parse α} {f g : Option α → Parse β} (hx : Leaves k x y tokens)
    (hsome : ∀ value rest, rest.length < k → Leaves n (f (some value)) (g (some value)) rest)
    (hnone : Leaves n (f none) (g none) tokens) :
    Leaves n (attempt x >>= f) (Parse.attempt y >>= g) tokens := by
  obtain ⟨hsame, hleft⟩ := hx
  cases hread : x tokens with
  | error stop =>
    rw [hread] at hleft hsame
    cases stop with
    | fault error =>
      have hfirst := attempt_of_fault ⟨error, hread⟩
      have hsecond := attempt_of_fault ⟨error, hsame⟩
      exact bind_of_ok hfirst hsecond (List.suffix_refl _) id hnone
    | exhausted =>
      refine bind_of_error ?_ ?_ hleft
      · rw [Parse.attempt, hread]
      · rw [Parse.attempt, hsame]
  | ok result =>
    rw [hread] at hleft hsame
    have hfirst := attempt_of_ok hread
    have hsecond := attempt_of_ok hsame
    exact bind_of_ok hfirst hsecond hleft.2.1 hleft.2.2 (hsome result.1 result.2 hleft.1)

/-- A question about the tokens ahead consumes none. -/
theorem ahead {k : Nat} {question question' : Parse Bool} {f g : Bool → Parse α}
    (hx : Leaves k question question' tokens)
    (hf : ∀ answer, Leaves n (f answer) (g answer) tokens) :
    Leaves n (ahead question >>= f) (Parse.ahead question' >>= g) tokens := by
  obtain ⟨hsame, hleft⟩ := hx
  cases hread : question tokens with
  | error stop =>
    rw [hread] at hleft hsame
    cases stop with
    | fault error =>
      refine bind_of_ok ?_ ?_ (List.suffix_refl _) id (hf false)
      · rw [Parse.ahead, hread]
      · rw [Parse.ahead, hsame]
    | exhausted =>
      refine bind_of_error ?_ ?_ hleft
      · rw [Parse.ahead, hread]
      · rw [Parse.ahead, hsame]
  | ok result =>
    rw [hread] at hsame
    refine bind_of_ok ?_ ?_ (List.suffix_refl _) id (hf result.1)
    · rw [Parse.ahead, hread]
    · rw [Parse.ahead, hsame]

end Leaves

/-- Tokens up to one that is not an end marker are consumed. -/
theorem leaves_skip {position : Nat} {kind : TokenKind}
    (h : (tokenAt tokens position).kind = kind) (hkind : kind ≠ .endMarker) :
    Leaves tokens.length (skip (position + 1)) (skip (position + 1)) tokens := by
  refine ⟨rfl, ?_⟩
  unfold skip
  by_cases hlt : position + 1 < tokens.length
  · rw [if_pos hlt]
    refine ⟨?_, List.drop_suffix _ _, closed_drop (h ▸ hkind)⟩
    rw [List.length_drop]
    omega
  · rw [if_neg hlt]
    intro hclosed
    have hrest := (closed_drop (h ▸ hkind) hclosed).ne_nil
    rw [Ne, List.drop_eq_nil_iff] at hrest
    omega

/-- A symbol is consumed. -/
theorem leaves_expect (symbol : Symbol) (fault : SyntaxFault) :
    Leaves tokens.length (expect symbol fault) (expect symbol fault) tokens := by
  refine Leaves.symbolAt fun answer hanswer => ?_
  cases answer with
  | true => exact leaves_skip (hanswer rfl) nofun
  | false => exact .fail fault

/-- A reserved word is consumed. -/
theorem leaves_expectWord (word : Keyword) (fault : SyntaxFault) :
    Leaves tokens.length (expectWord word fault) (expectWord word fault) tokens := by
  refine Leaves.wordNext fun answer hanswer => ?_
  cases answer with
  | true => exact leaves_skip (hanswer rfl) nofun
  | false => exact .fail fault

/-- One token is consumed and a value made of it. -/
theorem leaves_one {value : α} {kind : TokenKind} (h : (tokenAt tokens 0).kind = kind)
    (hkind : kind ≠ .endMarker) :
    Leaves tokens.length (do skip 1; return value) (do skip 1; return value) tokens :=
  (leaves_skip h hkind).bind fun _ _ hrest => .pure hrest

/-- The name of an identifier is consumed. -/
theorem leaves_identifier (place : NamePlace) :
    Leaves tokens.length (identifier place) (identifier place) tokens := by
  refine Leaves.peek ?_
  split
  · rename_i hkind
    exact leaves_one hkind nofun
  · exact .fail _

/-- A semicolon is used if there is one. -/
theorem leaves_skipSemicolon : Leaves (tokens.length + 1) skipSemicolon skipSemicolon tokens := by
  refine Leaves.symbolAt fun answer hanswer => ?_
  cases answer with
  | true => exact (leaves_skip (hanswer rfl) nofun).mono (Nat.le_succ _)
  | false => exact .pure (Nat.lt_succ_self _)

/-- The name of a type is one token. -/
theorem leaves_typeName : Leaves tokens.length typeName typeName tokens := by
  refine Leaves.peek ?_
  split
  · rename_i hkind
    exact leaves_one hkind nofun
  · rename_i hkind
    exact leaves_one hkind nofun
  · rename_i hkind
    exact leaves_one hkind nofun
  · exact .fail _

/-- A type that may follow a symbol uses both or neither. -/
theorem leaves_typeAfter (symbol : Symbol) :
    Leaves (tokens.length + 1) (typeAfter symbol) (typeAfter symbol) tokens := by
  refine Leaves.symbolAt fun answer hanswer => ?_
  cases answer with
  | true =>
    refine (leaves_skip (hanswer rfl) nofun).bind fun _ first hfirst => ?_
    exact leaves_typeName.bind fun _ rest hrest => .pure (by omega)
  | false => exact .pure (Nat.lt_succ_self _)

/-- A list in parentheses ends, or another item follows, after a comma if it is not the first. -/
def listed (done : List α) (fault : SyntaxFault) (item : Parse (List α)) : Parse (List α) := do
  if ← symbolAt 0 .rightParen then
    skip 1
    return done.reverse
  else
    if !done.isEmpty then expect .comma fault
    item

/-- After an item of a list in brackets another item follows, or the list ends. -/
def itemEnd (close : Symbol) (trailing missing : SyntaxFault) (more : Parse α) (value : α) :
    Parse α := do
  if ← symbolAt 0 .comma then
    skip 1
    if ← symbolAt 0 close then fail trailing
    else more
  else
    expect close missing
    return value

/-- Two readers agree on phrases wherever fewer tokens than a bound are left. -/
def Reads (n : Nat) (read read' : PhraseReader) : Prop :=
  ∀ {α : Type} (phrase : Phrase α) (tokens : List Token), tokens.length < n →
    Leaves (tokens.length + 1) (read phrase) (read' phrase) tokens

section Expressions

variable {read read' : PhraseReader} (hread : Reads n read read')

include hread

/-- The elements of an array literal are read at once, unless its bracket stands there. -/
theorem leaves_arrayRest (line : Nat) (h : tokens.length < n) :
    Leaves (tokens.length + 1) (arrayRest read line) (arrayRest read' line) tokens := by
  refine Leaves.symbolAt fun answer hanswer => ?_
  cases answer with
  | true =>
    refine (leaves_skip (hanswer rfl) nofun).bind fun _ rest hrest => ?_
    exact .pure (by omega)
  | false => exact (hread _ tokens h).bind fun _ _ hrest => .pure hrest

/-- The fields of an object literal are read at once, unless its brace stands there. -/
theorem leaves_objectRest (line : Nat) (h : tokens.length < n) :
    Leaves (tokens.length + 1) (objectRest read line) (objectRest read' line) tokens := by
  refine Leaves.symbolAt fun answer hanswer => ?_
  cases answer with
  | true =>
    refine (leaves_skip (hanswer rfl) nofun).bind fun _ rest hrest => ?_
    exact .pure (by omega)
  | false => exact (hread _ tokens h).bind fun _ _ hrest => .pure hrest

omit hread in
/-- A negated number nests nothing. -/
theorem leaves_negatedNumber (line : Nat) :
    Leaves tokens.length (negatedNumber line) (negatedNumber line) tokens := by
  refine Leaves.peek ?_
  split
  · rename_i hkind
    exact leaves_one hkind nofun
  · exact .fail _

/-- A primary consumes a token before any nested phrase is read. -/
theorem leaves_primary (h : tokens.length ≤ n) :
    Leaves tokens.length (primary read) (primary read') tokens := by
  refine Leaves.peek ?_
  generalize hkind : (tokenAt tokens 0).kind = kind
  have hone {β : Type} {f g : Unit → Parse β} (hsome : kind ≠ .endMarker)
      (hf : ∀ rest, rest.length < tokens.length → Leaves tokens.length (f ()) (g ()) rest) :
      Leaves tokens.length (skip 1 >>= f) (skip 1 >>= g) tokens :=
    (leaves_skip hkind hsome).bind fun _ => hf
  split
  · exact hone nofun fun rest hrest => .pure hrest
  · exact hone nofun fun rest hrest => .pure hrest
  · exact hone nofun fun rest hrest => .pure hrest
  · exact hone nofun fun rest hrest => .pure hrest
  · exact hone nofun fun rest hrest => .pure hrest
  · exact hone nofun fun rest hrest => (leaves_negatedNumber _).mono (by omega)
  · refine hone nofun fun rest hrest => ?_
    refine (hread _ rest (by omega)).bind fun inner after hafter => ?_
    refine (leaves_expect _ _).bind fun _ last hlast => ?_
    exact .pure (by omega)
  · exact hone nofun fun rest hrest => (leaves_arrayRest hread _ (by omega)).mono (by omega)
  · exact hone nofun fun rest hrest => (leaves_objectRest hread _ (by omega)).mono (by omega)
  · exact .fail _

/-- Each suffix uses a token before anything nested, and there may be none. -/
theorem leaves_suffixes (head : Expr) (h : tokens.length ≤ n) :
    Leaves (tokens.length + 1) (suffixes read head) (suffixes read' head) tokens := by
  refine Leaves.peek ?_
  split
  · rename_i hkind
    refine (leaves_skip hkind nofun).bind fun _ rest hrest => ?_
    refine (leaves_identifier _).bind fun name after hafter => ?_
    exact (hread _ after (by omega)).mono (by omega)
  · rename_i hkind
    refine (leaves_skip hkind nofun).bind fun _ rest hrest => ?_
    refine (hread _ rest (by omega)).bind fun index after hafter => ?_
    refine (leaves_expect _ _).bind fun _ last hlast => ?_
    exact (hread _ last (by omega)).mono (by omega)
  · rename_i hkind
    refine (leaves_skip hkind nofun).bind fun _ rest hrest => ?_
    refine (hread _ rest (by omega)).bind fun arguments after hafter => ?_
    exact (hread _ after (by omega)).mono (by omega)
  · exact .pure (Nat.lt_succ_self _)

/-- An operator is used before its right operand, and there may be none. -/
theorem leaves_operators (level : Nat) (left : Expr) (h : tokens.length ≤ n) :
    Leaves (tokens.length + 1) (operators read level left) (operators read' level left) tokens := by
  refine Leaves.peek ?_
  split
  · exact .pure (Nat.lt_succ_self _)
  · rename_i op hop
    have hsome : (tokenAt tokens 0).kind ≠ .endMarker := by
      intro hend
      rw [hend] at hop
      cases hop
    split
    · refine (leaves_skip rfl hsome).bind fun _ rest hrest => ?_
      refine (hread _ rest (by omega)).bind fun right after hafter => ?_
      exact (hread _ after (by omega)).mono (by omega)
    · exact .pure (Nat.lt_succ_self _)

/-- An operand uses a token before its suffixes. -/
theorem leaves_operand (h : tokens.length ≤ n) :
    Leaves tokens.length (operand read) (operand read') tokens := by
  refine (leaves_primary hread h).bind fun head rest hrest => ?_
  exact (hread _ rest (by omega)).mono (by omega)

/-- An expression consumes a token before any nested phrase is read. -/
theorem leaves_expression (level : Nat) (h : tokens.length ≤ n) :
    Leaves tokens.length (expression read level) (expression read' level) tokens := by
  refine (leaves_operand hread h).bind fun left rest hrest => ?_
  exact (hread _ rest (by omega)).mono (by omega)

omit hread in
/-- A list in parentheses uses a token if each of its items does. -/
theorem leaves_listed {α : Type} (done : List α) (fault : SyntaxFault)
    {item item' : Parse (List α)} (hitem : ∀ rest : List Token, rest.length ≤ tokens.length →
      Leaves tokens.length item item' rest) :
    Leaves tokens.length (listed done fault item) (listed done fault item') tokens := by
  refine Leaves.symbolAt fun answer hanswer => ?_
  cases answer with
  | true =>
    refine (leaves_skip (hanswer rfl) nofun).bind fun _ rest hrest => ?_
    exact .pure (by omega)
  | false =>
    cases done with
    | nil => exact hitem tokens (Nat.le_refl _)
    | cons first others =>
      exact (leaves_expect _ _).bind fun _ rest hrest => hitem rest (Nat.le_of_lt hrest)

/-- An argument uses a token before the next ones are read. -/
theorem leaves_arguments (done : List Expr) (h : tokens.length ≤ n) :
    Leaves tokens.length (arguments read done) (arguments read' done) tokens := by
  refine leaves_listed done _ fun rest hrest => ?_
  refine (leaves_expression hread 0 (by omega)).bind fun argument after hafter => ?_
  exact (hread _ after (by omega)).mono (by omega)

omit hread in
/-- What follows an item uses a comma before the next item, or the closing symbol. -/
theorem leaves_itemEnd {α : Type} {k : Nat} (close : Symbol) (trailing missing : SyntaxFault)
    {more more' : Parse α} {value : α} (hle : tokens.length ≤ k)
    (hmore : ∀ rest : List Token, rest.length < tokens.length → Leaves k more more' rest) :
    Leaves k (itemEnd close trailing missing more value)
      (itemEnd close trailing missing more' value) tokens := by
  refine Leaves.symbolAt fun comma hcomma => ?_
  cases comma with
  | true =>
    refine (leaves_skip (hcomma rfl) nofun).bind fun _ rest hrest => ?_
    refine Leaves.symbolAt fun closed _ => ?_
    cases closed with
    | true => exact .fail _
    | false => exact hmore rest hrest
  | false =>
    refine (leaves_expect _ _).bind fun _ rest hrest => ?_
    exact .pure (Nat.lt_of_lt_of_le hrest hle)

/-- An element uses a token before the next ones are read. -/
theorem leaves_elements (done : List Expr) (h : tokens.length ≤ n) :
    Leaves tokens.length (elements read done) (elements read' done) tokens := by
  refine (leaves_expression hread 0 h).bind fun element first hfirst => ?_
  refine leaves_itemEnd .rightSquare _ _ (by omega) fun rest hrest => ?_
  exact (hread _ rest (by omega)).mono (by omega)

omit hread in
/-- The name of a field is one token. -/
theorem leaves_fieldName : Leaves tokens.length fieldName fieldName tokens := by
  refine Leaves.peek ?_
  split
  · rename_i hkind
    exact leaves_one hkind nofun
  · rename_i hkind
    exact leaves_one hkind nofun
  · exact .fail _

/-- A field uses its name before its value and the next ones. -/
theorem leaves_fields (done : List (String × Expr)) (h : tokens.length ≤ n) :
    Leaves tokens.length (fields read done) (fields read' done) tokens := by
  refine leaves_fieldName.bind fun name first hfirst => ?_
  refine (leaves_expect _ _).bind fun _ second hsecond => ?_
  refine (hread _ second (by omega)).bind fun value third hthird => ?_
  refine leaves_itemEnd .rightBrace _ _ (by omega) fun rest hrest => ?_
  exact (hread _ rest (by omega)).mono (by omega)

/-- A parameter of a lambda uses its name before the next ones are read. -/
theorem leaves_lambdaNames (done : List String) (h : tokens.length ≤ n) :
    Leaves tokens.length (lambdaNames read done) (lambdaNames read' done) tokens := by
  refine leaves_listed done _ fun rest hrest => ?_
  refine (leaves_identifier _).bind fun name after hafter => ?_
  exact (hread _ after (by omega)).mono (by omega)

/-- A lambda is only read where its first token was looked at. -/
theorem leaves_lambda (h : tokens.length ≤ n) (hsome : (tokenAt tokens 0).kind ≠ .endMarker) :
    Leaves tokens.length (lambda read) (lambda read') tokens := by
  refine Leaves.peek ?_
  refine (leaves_skip rfl hsome).bind fun _ first hfirst => ?_
  have hbody (params : List String) (rest : List Token) (hrest : rest.length ≤ first.length) :
      Leaves tokens.length
        (do
          expect .fatArrow .missingFatArrow
          return Expr.lambda (tokenAt tokens 0).line params (← read (.expression 0)))
        (do
          expect .fatArrow .missingFatArrow
          return Expr.lambda (tokenAt tokens 0).line params (← read' (.expression 0))) rest := by
    refine (leaves_expect _ _).bind fun _ second hsecond => ?_
    refine (hread _ second (by omega)).bind fun body after hafter => ?_
    exact .pure (by omega)
  split
  · exact hbody _ first (Nat.le_refl _)
  · exact (hread _ first (by omega)).bind fun params rest hrest => hbody params rest (by omega)

omit hread in
/-- A lambda starts with a name or a parenthesis. -/
theorem kind_of_startsLambda (h : startsLambda tokens = true) :
    (tokenAt tokens 0).kind ≠ .endMarker := by
  intro hend
  rw [startsLambda, hend] at h
  cases h

/-- A lambda or an expression uses a token before anything nested. -/
theorem leaves_initializer (h : tokens.length ≤ n) :
    Leaves tokens.length (initializer read) (initializer read') tokens := by
  change Leaves tokens.length (if startsLambda tokens then lambda read else expression read 0)
    (if startsLambda tokens then lambda read' else expression read' 0) tokens
  split
  · rename_i hstarts
    exact leaves_lambda hread h (kind_of_startsLambda hstarts)
  · exact leaves_expression hread 0 h

end Expressions

end Parse

end DecimalScript
