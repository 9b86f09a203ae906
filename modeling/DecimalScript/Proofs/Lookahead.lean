import DecimalScript.Proofs.ReadingPrograms

/-!
# What reading decides by

Where the tokens end with the end of a statement, no reader of an expression consumes that last
token, so whatever follows it has no say in what is read. A reader of a statement may consume it,
and then it reads no further; a reader of a block may look behind it only to find that the block
is not closed.
-/

namespace DecimalScript

/-- The last token of a statement that nothing but another statement can follow. -/
def endsStatement : TokenKind → Bool
  | .symbol .semicolon | .keyword .endWord => true
  | _ => false

/-- The last of the tokens ends a statement. -/
def Ended (tokens : List Token) : Prop :=
  ∃ last ∈ tokens.getLast?, endsStatement last.kind = true

namespace Parse

variable {α β : Type} {tokens : List Token}

/-- A token is the same one whatever follows the tokens it is among. -/
theorem tokenAt_append {position : Nat} (h : position < tokens.length) (after : List Token) :
    tokenAt (tokens ++ after) position = tokenAt tokens position := by
  rw [tokenAt, tokenAt, List.getD_eq_getElem?_getD, List.getD_eq_getElem?_getD,
    List.getElem?_append_left h]

end Parse

namespace Ended

open Parse

variable {tokens : List Token}

/-- Tokens that end with the end of a statement are at least one. -/
theorem length_pos (h : Ended tokens) : 0 < tokens.length := by
  obtain ⟨last, hlast, -⟩ := h
  exact List.length_pos_iff.mpr fun hnil => by simp [hnil] at hlast

/-- Behind a token that does not end a statement, the tokens go on to the end of one. -/
theorem drop (h : Ended tokens) {position : Nat} (hposition : position < tokens.length)
    (hkind : endsStatement (tokenAt tokens position).kind = false) :
    Ended (tokens.drop (position + 1)) := by
  obtain ⟨last, hlast, hends⟩ := h
  have hlater : position + 1 < tokens.length := by
    by_contra hnot
    rw [List.getLast?_eq_getElem?, show tokens.length - 1 = position by omega] at hlast
    rw [tokenAt, List.getD_eq_getElem?_getD, Option.mem_def.mp hlast, Option.getD_some,
      hends] at hkind
    cases hkind
  refine ⟨last, ?_, hends⟩
  rwa [List.getLast?_drop, if_neg (by omega)]

/-- Behind a first token that does not end a statement, the tokens go on to the end of one. -/
theorem tail {first : Token} {rest : List Token} (h : Ended (first :: rest))
    (hkind : endsStatement first.kind = false) : Ended rest :=
  h.drop (Nat.zero_lt_succ _) hkind

end Ended

namespace Parse

variable {α β : Type} {tokens : List Token}

/-- Two readers do the same on tokens, whatever follows. -/
def Agree (x y : Parse α) (tokens : List Token) : Prop :=
  ∀ after, x (tokens ++ after) = y (tokens ++ after)

/-- What follows the tokens has no say in what is read, and their last one is never consumed. -/
def Local (x : Parse α) (tokens : List Token) : Prop :=
  (∃ stop, ∀ after, x (tokens ++ after) = .error stop) ∨
    ∃ value rest, Ended rest ∧ ∀ after, x (tokens ++ after) = .ok (value, rest ++ after)

/-- If reading succeeds in front of an end marker, it gives the same in front of any tokens. -/
def Closing (x : Parse α) (tokens : List Token) : Prop :=
  ∀ last : Token, last.kind = .endMarker → ∀ value rest, x (tokens ++ [last]) = .ok (value, rest) →
    ∃ left, (left = [] ∨ Ended left) ∧ rest = left ++ [last] ∧
      ∀ after, after ≠ [] → x (tokens ++ after) = .ok (value, left ++ after)

/-- If reading succeeds in front of an end marker, it gives the same in front of any tokens, unless
it has consumed all tokens before the end marker. -/
def Nested (x : Parse α) (tokens : List Token) : Prop :=
  ∀ last : Token, last.kind = .endMarker → ∀ value rest, x (tokens ++ [last]) = .ok (value, rest) →
    rest = [last] ∨ ∃ left, Ended left ∧ rest = left ++ [last] ∧
      ∀ after, after ≠ [] → x (tokens ++ after) = .ok (value, left ++ after)

/-- Nothing is read from an end marker alone. -/
def Refuses (x : Parse α) : Prop :=
  ∀ last : Token, last.kind = .endMarker → ∀ result, x [last] ≠ .ok result

/-- An end marker alone is never consumed. -/
def Stays (x : Parse α) : Prop :=
  ∀ last : Token, last.kind = .endMarker → ∀ value rest, x [last] = .ok (value, rest) →
    rest = [last]

/-! ### Rules -/

section Rules

variable {x y : Parse α} {f : α → Parse β}

/-- What agrees with a reader that agrees with a third one agrees with the third. -/
theorem Agree.trans {z : Parse α} (h : Agree x y tokens) (h' : Agree y z tokens) :
    Agree x z tokens :=
  fun after => (h after).trans (h' after)

/-- A step known to give a value can be left out, as what comes next starts from that value. -/
theorem Agree.bind {value : α} (h : Agree x (pure value) tokens) :
    Agree (x >>= f) (f value) tokens :=
  fun after => bind_of_ok (h after)

/-- What agrees with a reader that decides by the tokens alone does so too. -/
theorem Local.congr (h : Agree x y tokens) (hy : Local y tokens) : Local x tokens := by
  refine hy.imp (fun ⟨stop, hstop⟩ => ⟨stop, fun after => ?_⟩)
    fun ⟨value, rest, hrest, hread⟩ => ⟨value, rest, hrest, fun after => ?_⟩
  · rw [h, hstop]
  · rw [h, hread]

/-- What agrees with a reader that may consume the last token is one as well. -/
theorem Closing.congr (h : Agree x y tokens) (hy : Closing y tokens) : Closing x tokens := by
  intro last hlast value rest hread
  rw [h] at hread
  obtain ⟨left, hleft, hrest, hafter⟩ := hy last hlast value rest hread
  exact ⟨left, hleft, hrest, fun after hne => (h after).trans (hafter after hne)⟩

/-- What agrees with a reader of a block's statements ends where that one ends. -/
theorem Nested.congr (h : Agree x y tokens) (hy : Nested y tokens) : Nested x tokens := by
  intro last hlast value rest hread
  rw [h] at hread
  refine (hy last hlast value rest hread).imp_right fun ⟨left, hleft, hrest, hafter⟩ => ?_
  exact ⟨left, hleft, hrest, fun after hne => (h after).trans (hafter after hne)⟩

/-- What never consumes the last token reads the same in front of an end marker and elsewhere. -/
theorem Local.closing (h : Local x tokens) : Closing x tokens := by
  intro last hlast value rest hread
  obtain ⟨stop, hstop⟩ | ⟨value', left, hleft, hall⟩ := h
  · rw [hstop] at hread
    cases hread
  · rw [hall] at hread
    cases hread
    exact ⟨left, .inr hleft, rfl, fun after _ => hall after⟩

/-- What reads no further than the last token does not look behind it. -/
theorem Closing.nested (h : Closing x tokens) : Nested x tokens := by
  intro last hlast value rest hread
  obtain ⟨left, rfl | hleft, rfl, hafter⟩ := h last hlast value rest hread
  · exact .inl rfl
  · exact .inr ⟨left, hleft, rfl, hafter⟩

/-- A value is given without a look at any token. -/
theorem Local.pure (h : Ended tokens) (value : α) : Local (pure value) tokens :=
  .inr ⟨value, tokens, h, fun _ => rfl⟩

/-- Two readers in turn leave the last token alone if each of them does. -/
theorem Local.bind (h : Local x tokens) (hf : ∀ value rest, Ended rest → Local (f value) rest) :
    Local (x >>= f) tokens := by
  obtain ⟨stop, hstop⟩ | ⟨value, rest, hrest, hread⟩ := h
  · exact .inl ⟨stop, fun after => bind_of_error (hstop after)⟩
  · have hagree : ∀ after, (x >>= f) (tokens ++ after) = f value (rest ++ after) :=
      fun after => bind_of_ok (hread after)
    refine (hf value rest hrest).imp (fun ⟨stop, hstop⟩ => ⟨stop, fun after => ?_⟩)
      fun ⟨value', rest', hrest', hread'⟩ => ⟨value', rest', hrest', fun after => ?_⟩
    · rw [hagree, hstop]
    · rw [hagree, hread']

/-- What is read can be changed without a look at more tokens. -/
theorem Local.map {g : α → β} (h : Local x tokens) : Local (g <$> x) tokens := by
  rw [← bind_pure_comp]
  exact h.bind fun _ _ hrest => .pure hrest _

/-- Only the second of two readers consumes the last token if the first never does. -/
theorem Local.bind_closing (h : Local x tokens)
    (hf : ∀ value rest, Ended rest → Closing (f value) rest) : Closing (x >>= f) tokens := by
  intro last hlast value' rest' hread'
  obtain ⟨stop, hstop⟩ | ⟨value, rest, hrest, hread⟩ := h
  · rw [bind_of_error (hstop _)] at hread'
    cases hread'
  · rw [bind_of_ok (hread _)] at hread'
    obtain ⟨left, hleft, hsame, hafter⟩ := hf value rest hrest last hlast value' rest' hread'
    exact ⟨left, hleft, hsame, fun after hne => (bind_of_ok (hread _)).trans (hafter after hne)⟩

/-- Only the second of two readers looks behind the last token if the first never consumes it. -/
theorem Local.bind_nested (h : Local x tokens)
    (hf : ∀ value rest, Ended rest → Nested (f value) rest) : Nested (x >>= f) tokens := by
  intro last hlast value' rest' hread'
  obtain ⟨stop, hstop⟩ | ⟨value, rest, hrest, hread⟩ := h
  · rw [bind_of_error (hstop _)] at hread'
    cases hread'
  · rw [bind_of_ok (hread _)] at hread'
    refine (hf value rest hrest last hlast value' rest' hread').imp_right ?_
    rintro ⟨left, hleft, hsame, hafter⟩
    exact ⟨left, hleft, hsame, fun after hne => (bind_of_ok (hread _)).trans (hafter after hne)⟩

/-- What was read before something succeeded. -/
theorem exists_of_bind_ok {result : β × List Token} (h : (x >>= f) tokens = .ok result) :
    ∃ value rest, x tokens = .ok (value, rest) ∧ f value rest = .ok result := by
  cases hx : x tokens with
  | error stop =>
    rw [bind_of_error hx] at h
    cases h
  | ok first =>
    rw [bind_of_ok hx] at h
    exact ⟨first.1, first.2, rfl, h⟩

/-- A value is given with the end marker in place. -/
theorem Stays.pure (value : α) : Stays (pure value : Parse α) := by
  intro last hlast value' rest hread
  cases hread
  rfl

/-- What closes a block comes before the end marker. -/
theorem Nested.bind_closing (h : Nested x tokens) (hrefuses : ∀ value, Refuses (f value))
    (hf : ∀ value rest, Ended rest → Closing (f value) rest) : Closing (x >>= f) tokens := by
  intro last hlast value' rest' hread'
  obtain ⟨value, rest, hread, hnext⟩ := exists_of_bind_ok hread'
  obtain rfl | ⟨left, hleft, rfl, hafter⟩ := h last hlast value rest hread
  · exact absurd hnext (hrefuses value last hlast _)
  · obtain ⟨left', hleft', hsame, hafter'⟩ := hf value left hleft last hlast value' rest' hnext
    exact ⟨left', hleft', hsame,
      fun after hne => (bind_of_ok (hafter after hne)).trans (hafter' after hne)⟩

/-- Two readers in turn look behind the tokens only where the first consumes them all, and the
second then leaves the end marker. -/
theorem Nested.bind (h : Nested x tokens) (hstays : ∀ value, Stays (f value))
    (hf : ∀ value rest, Ended rest → Nested (f value) rest) : Nested (x >>= f) tokens := by
  intro last hlast value' rest' hread'
  obtain ⟨value, rest, hread, hnext⟩ := exists_of_bind_ok hread'
  obtain rfl | ⟨left, hleft, rfl, hafter⟩ := h last hlast value rest hread
  · exact .inl (hstays value last hlast value' rest' hnext)
  · refine (hf value left hleft last hlast value' rest' hnext).imp_right ?_
    rintro ⟨left', hleft', hsame, hafter'⟩
    exact ⟨left', hleft', hsame,
      fun after hne => (bind_of_ok (hafter after hne)).trans (hafter' after hne)⟩

/-- A value is made of what was read. -/
theorem Closing.bind_pure {g : α → β} (h : Closing x tokens) :
    Closing (x >>= fun value => pure (g value)) tokens := by
  intro last hlast value' rest' hread'
  obtain ⟨value, rest, hread, hnext⟩ := exists_of_bind_ok hread'
  obtain ⟨left, hleft, rfl, hafter⟩ := h last hlast value rest hread
  cases hnext
  exact ⟨left, hleft, rfl, fun after hne => bind_of_ok (hafter after hne)⟩

/-- A value is made of what a block holds. -/
theorem Nested.bind_pure {g : α → β} (h : Nested x tokens) :
    Nested (x >>= fun value => pure (g value)) tokens :=
  h.bind (fun _ => .pure _) fun _ _ hrest => (Local.pure hrest _).closing.nested

/-- Nothing is read from an end marker if the first of two readers refuses it. -/
theorem Refuses.bind (h : Refuses x) : Refuses (x >>= f) := by
  intro last hlast result hread
  obtain ⟨value, rest, hread, -⟩ := exists_of_bind_ok hread
  exact h last hlast _ hread

/-- Nothing is read from an end marker if it is left to a second reader that refuses it. -/
theorem Stays.bind_refuses (h : Stays x) (hf : ∀ value, Refuses (f value)) :
    Refuses (x >>= f) := by
  intro last hlast result hread
  obtain ⟨value, rest, hread, hnext⟩ := exists_of_bind_ok hread
  cases h last hlast value rest hread
  exact hf value last hlast _ hnext

end Rules

/-! ### Looking at tokens -/

section Looking

variable {position : Nat}

/-- To look at one of the tokens is to know it, whatever follows them. -/
theorem agree_peek (h : position < tokens.length) {f : Token → Parse α} :
    Agree (peek position >>= f) (f (tokenAt tokens position)) tokens := by
  intro after
  cases tokens with
  | nil => cases h
  | cons token rest =>
    have hpeek : peek position (token :: rest ++ after) =
        .ok (tokenAt (token :: rest ++ after) position, token :: rest ++ after) := rfl
    rw [bind_of_ok hpeek, tokenAt_append h]

/-- Whether one of the tokens is a symbol is known, whatever follows them. -/
theorem agree_symbolAt (h : position < tokens.length) (symbol : Symbol) {f : Bool → Parse α} :
    Agree (symbolAt position symbol >>= f) (f ((tokenAt tokens position).isSymbol symbol))
      tokens := by
  unfold symbolAt
  rw [bind_assoc]
  exact agree_peek h

/-- Whether the first token is a reserved word is known, whatever follows. -/
theorem agree_wordNext (h : 0 < tokens.length) (word : Keyword) {f : Bool → Parse α} :
    Agree (wordNext word >>= f) (f ((tokenAt tokens 0).isKeyword word)) tokens := by
  unfold wordNext
  rw [bind_assoc]
  exact agree_peek h

/-- A fault at a token is raised whatever follows. -/
theorem local_failAt (fault : SyntaxFault) (token : Token) :
    Local (failAt fault token : Parse α) tokens :=
  .inl ⟨_, fun _ => rfl⟩

/-- A fault at the next token names one of the tokens, so it is the same whatever follows. -/
theorem local_fail (h : Ended tokens) (fault : SyntaxFault) :
    Local (fail fault : Parse α) tokens :=
  .congr (agree_peek h.length_pos) (local_failAt _ _)

/-- Tokens up to one that does not end a statement are consumed. -/
theorem local_skip (h : Ended tokens) (hposition : position < tokens.length)
    (hkind : endsStatement (tokenAt tokens position).kind = false) :
    Local (skip (position + 1)) tokens := by
  have hdrop := h.drop hposition hkind
  have hlength := hdrop.length_pos
  rw [List.length_drop] at hlength
  refine .inr ⟨(), tokens.drop (position + 1), hdrop, fun after => ?_⟩
  rw [skip, List.length_append, if_pos (by omega), List.drop_append_of_le_length (by omega)]

/-- The first token is consumed, whatever it is. -/
theorem closing_skip (h : Ended tokens) : Closing (skip 1) tokens := by
  intro last hlast value rest hread
  obtain ⟨first, others, rfl⟩ := List.exists_cons_of_length_pos h.length_pos
  have hskip : ∀ after, after ≠ [] → skip 1 (first :: others ++ after) = .ok ((), others ++ after) :=
    fun after hne => by
      have hpos := List.length_pos_iff.mpr hne
      rw [skip, if_pos (by simp; omega)]
      rfl
  rw [hskip _ (List.cons_ne_nil _ _)] at hread
  cases hread
  refine ⟨others, ?_, rfl, hskip⟩
  cases others with
  | nil => exact .inl rfl
  | cons second others =>
    obtain ⟨final, hfinal, hends⟩ := h
    exact .inr ⟨final, by simpa using hfinal, hends⟩

/-- What is attempted consumes nothing where it has a fault. -/
theorem local_attempt {x : Parse α} (h : Ended tokens) (hx : Local x tokens) :
    Local (attempt x) tokens := by
  obtain ⟨_ | _, hstop⟩ | ⟨value, rest, hrest, hread⟩ := hx
  · exact .inr ⟨none, tokens, h, fun after => attempt_of_fault ⟨_, hstop after⟩⟩
  · exact .inl ⟨.exhausted, fun after => by rw [attempt, hstop]⟩
  · exact .inr ⟨some value, rest, hrest, fun after => attempt_of_ok (hread after)⟩

/-- A question about the tokens ahead consumes none. -/
theorem local_ahead {x : Parse Bool} (h : Ended tokens) (hx : Local x tokens) :
    Local (ahead x) tokens := by
  obtain ⟨_ | _, hstop⟩ | ⟨value, rest, hrest, hread⟩ := hx
  · exact .inr ⟨false, tokens, h, fun after => by rw [ahead, hstop]⟩
  · exact .inl ⟨.exhausted, fun after => by rw [ahead, hstop]⟩
  · exact .inr ⟨value, tokens, h, fun after => by rw [ahead, hread]⟩

end Looking

/-! ### Readers of a few tokens -/

section Small

variable {kind : TokenKind}

/-- A token of a kind that does not end a statement is consumed. -/
theorem local_skip_kind (h : Ended tokens) (hkind : (tokenAt tokens 0).kind = kind)
    (hends : endsStatement kind = false) : Local (skip 1) tokens :=
  local_skip h h.length_pos (hkind ▸ hends)

/-- One token is consumed and a value made of it. -/
theorem local_one {value : α} (h : Ended tokens) (hkind : (tokenAt tokens 0).kind = kind)
    (hends : endsStatement kind = false) : Local (do skip 1; return value) tokens :=
  (local_skip_kind h hkind hends).bind fun _ _ hrest => .pure hrest _

/-- An expected symbol that does not end a statement leaves the last token. -/
theorem local_expect (h : Ended tokens) {symbol : Symbol} (fault : SyntaxFault)
    (hends : endsStatement (.symbol symbol) = false) : Local (expect symbol fault) tokens := by
  refine .congr (agree_symbolAt h.length_pos symbol) ?_
  cases hnext : (tokenAt tokens 0).isSymbol symbol with
  | true => exact local_skip_kind h (kind_of_isSymbol hnext) hends
  | false => exact local_fail h fault

/-- An expected reserved word that does not end a statement leaves the last token. -/
theorem local_expectWord (h : Ended tokens) {word : Keyword} (fault : SyntaxFault)
    (hends : endsStatement (.keyword word) = false) : Local (expectWord word fault) tokens := by
  refine .congr (agree_wordNext h.length_pos word) ?_
  cases hnext : (tokenAt tokens 0).isKeyword word with
  | true => exact local_skip_kind h (kind_of_isKeyword hnext) hends
  | false => exact local_fail h fault

/-- A symbol is consumed, also if it ends the tokens. -/
theorem closing_expect (h : Ended tokens) (symbol : Symbol) (fault : SyntaxFault) :
    Closing (expect symbol fault) tokens := by
  refine .congr (agree_symbolAt h.length_pos symbol) ?_
  cases (tokenAt tokens 0).isSymbol symbol with
  | true => exact closing_skip h
  | false => exact (local_fail h fault).closing

/-- A reserved word is consumed, also if it ends the tokens. -/
theorem closing_expectWord (h : Ended tokens) (word : Keyword) (fault : SyntaxFault) :
    Closing (expectWord word fault) tokens := by
  refine .congr (agree_wordNext h.length_pos word) ?_
  cases (tokenAt tokens 0).isKeyword word with
  | true => exact closing_skip h
  | false => exact (local_fail h fault).closing

/-- An end marker is no reserved word. -/
theorem wordNext_endMarker {last : Token} (h : last.kind = .endMarker) (word : Keyword) :
    wordNext word [last] = .ok (false, [last]) := by
  have hword : last.isKeyword word = false := by
    rw [Token.isKeyword, h]
    rfl
  rw [← hword]
  rfl

/-- In front of an end marker, a reader goes on as if its reserved word were missing. -/
theorem Stays.wordNext {f : Bool → Parse α} (h : Stays (f false)) (word : Keyword) :
    Stays (wordNext word >>= f) := by
  intro last hlast value rest hread
  rw [bind_of_ok (wordNext_endMarker hlast word)] at hread
  exact h last hlast value rest hread

/-- No reserved word is found where only an end marker is left. -/
theorem refuses_expectWord (word : Keyword) (fault : SyntaxFault) :
    Refuses (expectWord word fault) := by
  intro last hlast result hread
  rw [expectWord, bind_of_ok (wordNext_endMarker hlast word)] at hread
  cases hread

/-- A semicolon is consumed, also if it ends the tokens. -/
theorem closing_skipSemicolon (h : Ended tokens) : Closing skipSemicolon tokens := by
  refine .congr (agree_symbolAt h.length_pos .semicolon) ?_
  cases (tokenAt tokens 0).isSymbol .semicolon with
  | true => exact closing_skip h
  | false => exact (Local.pure h ()).closing

/-- A name is read within its statement. -/
theorem local_identifier (h : Ended tokens) (place : NamePlace) :
    Local (identifier place) tokens := by
  refine .congr (agree_peek h.length_pos) ?_
  split
  · rename_i hkind
    exact local_one h hkind rfl
  · exact local_fail h _

/-- The name of a field is read within its statement, written as a name or as a text. -/
theorem local_fieldName (h : Ended tokens) : Local fieldName tokens := by
  refine .congr (agree_peek h.length_pos) ?_
  split
  · rename_i hkind
    exact local_one h hkind rfl
  · rename_i hkind
    exact local_one h hkind rfl
  · exact local_fail h _

/-- The name of a type is read within its statement, also where it is a reserved word. -/
theorem local_typeName (h : Ended tokens) : Local typeName tokens := by
  refine .congr (agree_peek h.length_pos) ?_
  split
  · rename_i hkind
    exact local_one h hkind rfl
  · rename_i hkind
    exact local_one h hkind rfl
  · rename_i hkind
    exact local_one h hkind rfl
  · exact local_fail h _

/-- A type that may follow a symbol is read within its statement. -/
theorem local_typeAfter (h : Ended tokens) {symbol : Symbol}
    (hends : endsStatement (.symbol symbol) = false) : Local (typeAfter symbol) tokens := by
  refine .congr (agree_symbolAt h.length_pos symbol) ?_
  cases hnext : (tokenAt tokens 0).isSymbol symbol with
  | true =>
    refine (local_skip_kind h (kind_of_isSymbol hnext) hends).bind fun _ _ hrest => ?_
    exact (local_typeName hrest).bind fun _ _ hlast => .pure hlast _
  | false => exact .pure h _

/-- What names a module is read within its statement. -/
theorem local_moduleRef (h : Ended tokens) : Local moduleRef tokens := by
  refine .congr (agree_peek h.length_pos) ?_
  split
  · rename_i hkind
    exact local_one h hkind rfl
  · rename_i hkind
    exact local_one h hkind rfl
  · rename_i hkind
    exact local_one h hkind rfl
  · exact local_fail h _

end Small

/-! ### Expressions -/

/-- Whether a phrase holds statements. -/
def holdsStatements {α : Type} : Phrase α → Bool
  | .statements _ | .branch _ | .cases _ => true
  | _ => false

/-- Phrases that hold no statements are read within the statement they are part of. -/
def ReadsWithin (read : PhraseReader) : Prop :=
  ∀ {α : Type} (phrase : Phrase α) {tokens : List Token}, holdsStatements phrase = false →
    Ended tokens → Local (read phrase) tokens

section Expressions

variable {read : PhraseReader} (hread : ReadsWithin read)

include hread

/-- The rest of an array literal is read within its statement if its elements are. -/
theorem local_arrayRest (line : Nat) (h : Ended tokens) : Local (arrayRest read line) tokens := by
  refine .congr (agree_symbolAt h.length_pos .rightSquare) ?_
  cases hnext : (tokenAt tokens 0).isSymbol .rightSquare with
  | true => exact local_one h (kind_of_isSymbol hnext) rfl
  | false => exact (hread (.elements []) rfl h).bind fun _ _ hrest => .pure hrest _

/-- The rest of an object literal is read within its statement if its fields are. -/
theorem local_objectRest (line : Nat) (h : Ended tokens) :
    Local (objectRest read line) tokens := by
  refine .congr (agree_symbolAt h.length_pos .rightBrace) ?_
  cases hnext : (tokenAt tokens 0).isSymbol .rightBrace with
  | true => exact local_one h (kind_of_isSymbol hnext) rfl
  | false => exact (hread (.fields []) rfl h).bind fun _ _ hrest => .pure hrest _

omit hread in
/-- The number behind a minus sign is read within its statement. -/
theorem local_negatedNumber (line : Nat) (h : Ended tokens) :
    Local (negatedNumber line) tokens := by
  refine .congr (agree_peek h.length_pos) ?_
  split
  · rename_i hkind
    exact local_one h hkind rfl
  · exact local_fail h _

/-- A primary expression is read within its statement: each kind of token that starts one is another
than the end of a statement. -/
theorem local_primary (h : Ended tokens) : Local (primary read) tokens := by
  refine .congr (agree_peek h.length_pos) ?_
  split
  · rename_i hkind
    exact local_one h hkind rfl
  · rename_i hkind
    exact local_one h hkind rfl
  · rename_i hkind
    exact local_one h hkind rfl
  · rename_i hkind
    exact local_one h hkind rfl
  · rename_i hkind
    exact local_one h hkind rfl
  · rename_i hkind
    exact (local_skip_kind h hkind rfl).bind fun _ _ hrest => local_negatedNumber _ hrest
  · rename_i hkind
    refine (local_skip_kind h hkind rfl).bind fun _ rest hrest => ?_
    refine (hread (.expression 0) rfl hrest).bind fun inner after hafter => ?_
    exact (local_expect hafter _ rfl).bind fun _ _ hlast => .pure hlast _
  · rename_i hkind
    exact (local_skip_kind h hkind rfl).bind fun _ _ hrest => local_arrayRest hread _ hrest
  · rename_i hkind
    exact (local_skip_kind h hkind rfl).bind fun _ _ hrest => local_objectRest hread _ hrest
  · exact local_fail h _

/-- The accesses and calls behind an expression are read within its statement. -/
theorem local_suffixes (head : Expr) (h : Ended tokens) : Local (suffixes read head) tokens := by
  refine .congr (agree_peek h.length_pos) ?_
  split
  · rename_i hkind
    refine (local_skip_kind h hkind rfl).bind fun _ rest hrest => ?_
    refine (local_identifier hrest _).bind fun name after hafter => ?_
    exact hread (.suffixes _) rfl hafter
  · rename_i hkind
    refine (local_skip_kind h hkind rfl).bind fun _ rest hrest => ?_
    refine (hread (.expression 0) rfl hrest).bind fun index after hafter => ?_
    refine (local_expect hafter _ rfl).bind fun _ last hlast => ?_
    exact hread (.suffixes _) rfl hlast
  · rename_i hkind
    refine (local_skip_kind h hkind rfl).bind fun _ rest hrest => ?_
    refine (hread (.arguments []) rfl hrest).bind fun arguments after hafter => ?_
    exact hread (.suffixes _) rfl hafter
  · exact .pure h _

/-- An expression with its accesses and calls is read within its statement. -/
theorem local_operand (h : Ended tokens) : Local (operand read) tokens :=
  (local_primary hread h).bind fun _ _ hrest => hread (.suffixes _) rfl hrest

/-- An operator does not end a statement. -/
theorem local_operators (level : Nat) (left : Expr) (h : Ended tokens) :
    Local (operators read level left) tokens := by
  refine .congr (agree_peek h.length_pos) ?_
  split
  · exact .pure h _
  · rename_i op hop
    have hends : endsStatement (tokenAt tokens 0).kind = false := by
      unfold endsStatement
      split
      · rename_i hkind
        rw [hkind] at hop
        cases hop
      · rename_i hkind
        rw [hkind] at hop
        cases hop
      · rfl
    split
    · refine (local_skip_kind h rfl hends).bind fun _ rest hrest => ?_
      refine (hread (.expression _) rfl hrest).bind fun right after hafter => ?_
      exact hread (.operators _ _) rfl hafter
    · exact .pure h _

/-- An expression of any level is read within its statement. -/
theorem local_expression (level : Nat) (h : Ended tokens) :
    Local (expression read level) tokens :=
  (local_operand hread h).bind fun _ _ hrest => hread (.operators _ _) rfl hrest

omit hread in
/-- The items of a list in parentheses are read within a statement if each item is. -/
theorem local_listed {α : Type} (done : List α) (fault : SyntaxFault) {item : Parse (List α)}
    (h : Ended tokens) (hitem : ∀ rest, Ended rest → Local item rest) :
    Local (listed done fault item) tokens := by
  refine .congr (agree_symbolAt h.length_pos .rightParen) ?_
  cases hnext : (tokenAt tokens 0).isSymbol .rightParen with
  | true => exact local_one h (kind_of_isSymbol hnext) rfl
  | false =>
    cases done with
    | nil => exact hitem tokens h
    | cons first others =>
      exact (local_expect h _ rfl).bind fun _ rest hrest => hitem rest hrest

/-- The arguments of a call are read within its statement. -/
theorem local_arguments (done : List Expr) (h : Ended tokens) :
    Local (arguments read done) tokens := by
  refine local_listed done _ h fun rest hrest => ?_
  refine (local_expression hread 0 hrest).bind fun argument after hafter => ?_
  exact hread (.arguments _) rfl hafter

omit hread in
/-- What follows an item of a literal, the next item or the closing symbol, is read within its
statement. -/
theorem local_itemEnd {α : Type} (close : Symbol) (trailing missing : SyntaxFault)
    {more : Parse α} {value : α} (hends : endsStatement (.symbol close) = false)
    (h : Ended tokens) (hmore : ∀ rest, Ended rest → Local more rest) :
    Local (itemEnd close trailing missing more value) tokens := by
  refine .congr (agree_symbolAt h.length_pos .comma) ?_
  cases hcomma : (tokenAt tokens 0).isSymbol .comma with
  | true =>
    refine (local_skip_kind h (kind_of_isSymbol hcomma) rfl).bind fun _ rest hrest => ?_
    refine .congr (agree_symbolAt hrest.length_pos close) ?_
    cases (tokenAt rest 0).isSymbol close with
    | true => exact local_fail hrest _
    | false => exact hmore rest hrest
  | false => exact (local_expect h _ hends).bind fun _ _ hlast => .pure hlast _

/-- The elements of an array literal are read within its statement. -/
theorem local_elements (done : List Expr) (h : Ended tokens) :
    Local (elements read done) tokens := by
  refine (local_expression hread 0 h).bind fun element rest hrest => ?_
  exact local_itemEnd .rightSquare _ _ rfl hrest fun after hafter =>
    hread (.elements _) rfl hafter

/-- The fields of an object literal are read within its statement. -/
theorem local_fields (done : List (String × Expr)) (h : Ended tokens) :
    Local (fields read done) tokens := by
  refine (local_fieldName h).bind fun name first hfirst => ?_
  refine (local_expect hfirst _ rfl).bind fun _ second hsecond => ?_
  refine (hread (.expression 0) rfl hsecond).bind fun value third hthird => ?_
  exact local_itemEnd .rightBrace _ _ rfl hthird fun after hafter =>
    hread (.fields _) rfl hafter

/-- The parameters of a lambda are read within its statement. -/
theorem local_lambdaNames (done : List String) (h : Ended tokens) :
    Local (lambdaNames read done) tokens := by
  refine local_listed done _ h fun rest hrest => ?_
  refine (local_identifier hrest _).bind fun name after hafter => ?_
  exact hread (.lambdaNames _) rfl hafter

omit hread in
/-- A run of names does not reach past the end of a statement. -/
theorem afterNames_of_ended (h : Ended tokens) (after : List Token) :
    Ended (afterNames tokens) ∧ afterNames (tokens ++ after) = afterNames tokens ++ after := by
  obtain ⟨last, hlast, hends⟩ := h
  obtain ⟨before, rfl⟩ := List.getLast?_eq_some_iff.mp hlast
  have hmark : stopsNames last.kind = true := by
    revert hends
    unfold endsStatement
    split
    · rename_i hkind
      rw [hkind]
      exact fun _ => rfl
    · rename_i hkind
      rw [hkind]
      exact fun _ => rfl
    · nofun
  rw [List.append_assoc, List.singleton_append, afterNames_append before hmark,
    afterNames_append before hmark, List.append_assoc]
  exact ⟨⟨last, List.getLast?_concat, hends⟩, rfl⟩

omit hread in
/-- Whether a lambda starts is told by tokens before the end of the statement. -/
theorem startsLambda_of_ended (h : Ended tokens) (after : List Token) :
    startsLambda (tokens ++ after) = startsLambda tokens := by
  obtain ⟨first, others, rfl⟩ := List.exists_cons_of_length_pos h.length_pos
  unfold startsLambda
  rw [tokenAt_append h.length_pos]
  split
  · rename_i hkind
    have hothers := (h.tail (congrArg endsStatement hkind)).length_pos
    rw [tokenAt_append (by simpa using hothers)]
  · rename_i hkind
    obtain ⟨hrest, hsame⟩ := afterNames_of_ended (h.tail (congrArg endsStatement hkind)) after
    simp only [List.cons_append, List.drop_succ_cons, List.drop_zero, hsame]
    rw [tokenAt_append hrest.length_pos]
    cases hparen : (tokenAt (afterNames others) 0).isSymbol .rightParen with
    | false => rfl
    | true =>
      have hkind := congrArg endsStatement (kind_of_isSymbol hparen)
      have hnext := (hrest.drop hrest.length_pos hkind).length_pos
      rw [List.length_drop] at hnext
      rw [tokenAt_append (by omega)]
  · rfl

/-- A lambda is read within its statement, from its parameters to the end of its body. -/
theorem local_lambda (h : Ended tokens) (hstarts : startsLambda tokens = true) :
    Local (lambda read) tokens := by
  refine .congr (agree_peek h.length_pos) ?_
  have hends : endsStatement (tokenAt tokens 0).kind = false := by
    unfold startsLambda at hstarts
    split at hstarts
    · rename_i hkind
      rw [hkind]
      rfl
    · rename_i hkind
      rw [hkind]
      rfl
    · cases hstarts
  refine (local_skip_kind h rfl hends).bind fun _ first hfirst => ?_
  have hbody (params : List String) (rest : List Token) (hrest : Ended rest) :
      Local
        (do
          expect .fatArrow .missingFatArrow
          return Expr.lambda (tokenAt tokens 0).line params (← read (.expression 0))) rest := by
    refine (local_expect hrest _ rfl).bind fun _ second hsecond => ?_
    exact (hread (.expression 0) rfl hsecond).bind fun _ _ hlast => .pure hlast _
  split
  · exact hbody _ first hfirst
  · exact (hread (.lambdaNames []) rfl hfirst).bind hbody

/-- What a variable starts as, a lambda or an expression, is read within its statement. -/
theorem local_initializer (h : Ended tokens) : Local (initializer read) tokens := by
  cases hstarts : startsLambda tokens with
  | true =>
    refine .congr (fun after => ?_) (local_lambda hread h hstarts)
    rw [initializer, startsLambda_of_ended h, hstarts]
    rfl
  | false =>
    refine .congr (fun after => ?_) (local_expression hread 0 h)
    rw [initializer, startsLambda_of_ended h, hstarts]
    rfl

end Expressions

end Parse

end DecimalScript
