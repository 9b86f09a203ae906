import DecimalScript.Proofs.Followers
import DecimalScript.Proofs.StatementEnds

/-!
# Blocks in front of a closing word

Statements that are read up to an end marker are read in the same way up to a word that closes a
block. Neither continues an expression, and neither is consumed inside statements that are complete
before it. What is only tried, such as the second bound of a range, has a fault in front of the word
if it has one in front of the marker.
-/

namespace DecimalScript

namespace Parse

variable {α β : Type} {goesOn : TokenKind → Bool} {x y : Parse α} {f : α → Parse β}
  {tokens : List Token}

/-- What is read in front of an end marker is read in front of a closing word as well, and neither
of them is consumed. -/
def Swaps (x : Parse α) (tokens : List Token) : Prop :=
  ∀ mark : Token, mark.kind = .endMarker → ∀ value rest, x (tokens ++ [mark]) = .ok (value, rest) →
    ∃ left, rest = left ++ [mark] ∧ ∀ word : Token, word.kind = .keyword .endWord → ∀ after,
      x (tokens ++ word :: after) = .ok (value, left ++ word :: after)

/-- A fault in front of an end marker is one in front of a closing word as well. -/
def SwapsFaults (x : Parse α) (tokens : List Token) : Prop :=
  ∀ mark : Token, mark.kind = .endMarker → (∃ error, x (tokens ++ [mark]) = .error (.fault error)) →
    ∀ word : Token, word.kind = .keyword .endWord → ∀ after,
      ∃ error, x (tokens ++ word :: after) = .error (.fault error)

/-- A token that no expression has a use for: an end marker or a closing word. -/
def Fence (token : Token) : Prop := token.kind = .endMarker ∨ token.kind = .keyword .endWord

/-- It is no symbol. -/
theorem Fence.isSymbol {token : Token} (h : Fence token) (symbol : Symbol) :
    token.isSymbol symbol = false := by
  rcases h with hkind | hkind
  · rw [Token.isSymbol, hkind]
    rfl
  · rw [Token.isSymbol, hkind]
    rfl

/-! ### Rules -/

section Rules

/-- A value consumes nothing of what follows. -/
theorem swaps_pure (value : α) : Swaps (pure value : Parse α) tokens := by
  intro mark hmark value' rest hread
  cases hread
  exact ⟨tokens, rfl, fun word hword after => rfl⟩

/-- What reads all continuations alike swaps alike. -/
theorem Swaps.congr (h : Agree x y tokens) (hy : Swaps y tokens) : Swaps x tokens := by
  intro mark hmark value rest hread
  rw [h] at hread
  obtain ⟨left, rfl, hsame⟩ := hy mark hmark value rest hread
  exact ⟨left, rfl, fun word hword after => (h _).trans (hsame word hword after)⟩

/-- One after another, where the second begins where the first ends. -/
theorem Swaps.bind (hx : Swaps x tokens) (hf : ∀ value rest, Swaps (f value) rest) :
    Swaps (x >>= f) tokens := by
  intro mark hmark value' rest hread
  obtain ⟨value, between, hfirst, hsecond⟩ := exists_of_bind_ok hread
  obtain ⟨left, rfl, hsame⟩ := hx mark hmark value between hfirst
  obtain ⟨left', rfl, hsame'⟩ := hf value left mark hmark value' rest hsecond
  exact ⟨left', rfl, fun word hword after =>
    (bind_of_ok (hsame word hword after)).trans (hsame' word hword after)⟩

/-- What a closing word does not continue. -/
theorem Settles.swaps (h : Settles goesOn x) (hstops : goesOn (.keyword .endWord) = false) :
    Swaps x tokens := by
  intro mark hmark value rest hread
  obtain ⟨used, htokens, hkeeps, hsame⟩ := h _ value rest hread
  have hne := hkeeps (List.append_ne_nil_of_right_ne_nil _ (List.cons_ne_nil _ _))
  obtain ⟨left, last, rfl⟩ : ∃ left last, rest = left ++ [last] :=
    ⟨_, _, (List.dropLast_append_getLast hne).symm⟩
  rw [← List.append_assoc] at htokens
  obtain ⟨rfl, hlast⟩ := List.append_inj' htokens rfl
  cases hlast
  refine ⟨left, rfl, fun word hword after => ?_⟩
  rw [List.append_assoc]
  refine hsame _ (Fits.append ?_)
  exact .inr ⟨List.cons_ne_nil _ _, .inr (hword ▸ hstops)⟩

/-- What reads nothing beyond its own end does not meet the marker. -/
theorem Closes.swaps (h : Closes x) : Swaps x tokens :=
  (h.settles : Settles (fun _ => false) x).swaps rfl

/-- Tokens are skipped in front of either. -/
theorem swaps_skip (count : Nat) : Swaps (skip count) tokens := by
  intro mark hmark value rest hread
  unfold skip at hread
  split at hread
  · rename_i hlength
    rw [List.length_append, List.length_singleton] at hlength
    cases hread
    refine ⟨tokens.drop count, List.drop_append_of_le_length (by omega), fun word hword after => ?_⟩
    rw [skip, if_pos (by simp; omega), List.drop_append_of_le_length (by omega)]
  · cases hread

/-- The next token is looked at, and an end marker is refused. -/
theorem Swaps.peek {f : Token → Parse α}
    (hf : ∀ first others, tokens = first :: others → Swaps (f first) tokens)
    (hend : ∀ mark : Token, mark.kind = .endMarker → Refuses (f mark)) :
    Swaps (peek 0 >>= f) tokens := by
  cases tokens with
  | nil =>
    intro mark hmark value rest hread
    exact absurd hread (hend mark hmark mark hmark _)
  | cons first others =>
    exact .congr (agree_peek (Nat.zero_lt_succ _)) (hf first others rfl)

/-- A token ahead is looked at, which may be the end marker or the closing word. -/
theorem Swaps.peekAt {position : Nat} {f : Token → Parse α} (hposition : position ≤ tokens.length)
    (hinside : position < tokens.length → Swaps (f (tokenAt tokens position)) tokens)
    (hend : ∀ mark : Token, mark.kind = .endMarker → Swaps (f mark) tokens)
    (hsame : ∀ mark word : Token, mark.kind = .endMarker → word.kind = .keyword .endWord →
      f word = f mark) : Swaps (Parse.peek position >>= f) tokens := by
  rcases Nat.lt_or_eq_of_le hposition with hlt | rfl
  · exact .congr (agree_peek hlt) (hinside hlt)
  · have hpeek (token : Token) (after : List Token) :
        (Parse.peek tokens.length >>= f) (tokens ++ token :: after) =
          f token (tokens ++ token :: after) := by
      have htoken : tokenAt (tokens ++ token :: after) tokens.length = token := by
        simp [tokenAt]
      cases tokens with
      | nil => rfl
      | cons first others =>
        have hread : Parse.peek (first :: others).length (first :: others ++ token :: after) =
            .ok (tokenAt (first :: others ++ token :: after) (first :: others).length,
              first :: others ++ token :: after) := rfl
        rw [htoken] at hread
        exact bind_of_ok hread
    intro mark hmark value rest hread
    rw [hpeek] at hread
    obtain ⟨left, rfl, hread'⟩ := hend mark hmark mark hmark value rest hread
    refine ⟨left, rfl, fun word hword after => ?_⟩
    rw [hpeek, hsame mark word hmark hword]
    exact hread' word hword after

/-- Neither an end marker nor a closing word is a symbol. -/
theorem Swaps.symbolAt {position : Nat} {symbol : Symbol} {f : Bool → Parse α}
    (hposition : position ≤ tokens.length)
    (hf : ∀ answer, (answer = true → position < tokens.length) → Swaps (f answer) tokens) :
    Swaps (Parse.symbolAt position symbol >>= f) tokens := by
  unfold Parse.symbolAt
  rw [bind_assoc]
  refine .peekAt hposition (fun hlt => hf _ fun _ => hlt) (fun mark hmark => ?_)
    fun mark word hmark hword => ?_
  · rw [pure_bind, Fence.isSymbol (.inl hmark)]
    exact hf false nofun
  · rw [pure_bind, pure_bind, Fence.isSymbol (.inl hmark), Fence.isSymbol (.inr hword)]

/-- Another word is neither an end marker nor a closing word. -/
theorem Swaps.wordNext {next : Keyword} {f : Bool → Parse α} (hne : next ≠ .endWord)
    (hf : ∀ answer, Swaps (f answer) tokens) : Swaps (Parse.wordNext next >>= f) tokens := by
  have hno {token : Token} (h : Fence token) : token.isKeyword next = false := by
    rw [Token.isKeyword, beq_eq_false_iff_ne]
    intro hkind
    rw [Fence, hkind] at h
    rcases h with hmark | hword
    · cases hmark
    · cases hword
      exact hne rfl
  unfold Parse.wordNext
  rw [bind_assoc]
  refine .peekAt (Nat.zero_le _) (fun _ => hf _) (fun mark _ => hf _) fun mark word hmark hword => ?_
  rw [pure_bind, pure_bind, hno (.inl hmark), hno (.inr hword)]

/-! ### What is tried -/

/-- A value is no fault. -/
theorem swapsFaults_pure (value : α) : SwapsFaults (pure value : Parse α) tokens := by
  rintro mark hmark ⟨error, hread⟩
  cases hread

/-- A fault comes from the first, or from the second behind it. -/
theorem SwapsFaults.bind (hx : Swaps x tokens) (hfaults : SwapsFaults x tokens)
    (hf : ∀ value rest, SwapsFaults (f value) rest) : SwapsFaults (x >>= f) tokens := by
  rintro mark hmark ⟨error, hread⟩ word hword after
  cases hfirst : x (tokens ++ [mark]) with
  | error stop =>
    rw [bind_of_error hfirst] at hread
    cases hread
    obtain ⟨error', hfault⟩ := hfaults mark hmark ⟨error, hfirst⟩ word hword after
    exact ⟨error', bind_of_error hfault⟩
  | ok result =>
    obtain ⟨left, hleft, hsame⟩ := hx mark hmark result.1 result.2 hfirst
    rw [bind_of_ok hfirst, hleft] at hread
    obtain ⟨error', hfault⟩ := hf result.1 left mark hmark ⟨error, hread⟩ word hword after
    exact ⟨error', (bind_of_ok (hsame word hword after)).trans hfault⟩

/-- What is read within a statement has no fault in front of the marker only: if it is read in front
of the word, the word is not part of it, and it is read in front of the marker. -/
theorem swapsFaults_of_local (hx : Settles goesOn x) (hstops : goesOn .endMarker = false)
    (hlocal : ∀ tokens, Ended tokens → Local x tokens)
    (htotal : ∀ tokens, Closed tokens → x tokens ≠ .error .exhausted) : SwapsFaults x tokens := by
  rintro mark hmark ⟨error, hread⟩ word hword after
  have hended : Ended (tokens ++ [word]) := ⟨word, List.getLast?_concat, by rw [hword]; rfl⟩
  have hsplit : tokens ++ word :: after = tokens ++ [word] ++ after := by simp
  rw [hsplit]
  obtain ⟨stop, hstop⟩ | ⟨value, rest, ⟨last, hlast, -⟩, hok⟩ := hlocal _ hended
  · cases stop with
    | fault error' => exact ⟨error', hstop after⟩
    | exhausted =>
      have hclosed : Closed (tokens ++ [word] ++ [mark]) := by
        rw [Closed, List.getLast?_concat]
        exact congrArg some hmark
      exact absurd (hstop [mark]) (htotal _ hclosed)
  · exfalso
    have hword' := hok []
    rw [List.append_nil, List.append_nil] at hword'
    obtain ⟨used, hused, -, hsame⟩ := hx _ value rest hword'
    obtain ⟨left, rfl⟩ := List.getLast?_eq_some_iff.mp hlast
    rw [← List.append_assoc] at hused
    obtain ⟨rfl, hfits⟩ := List.append_inj' hused rfl
    cases hfits
    have hmarked := hsame (left ++ [mark])
      (Fits.append (.inr ⟨List.cons_ne_nil _ _, .inr (hmark ▸ hstops)⟩))
    rw [← List.append_assoc, hread] at hmarked
    cases hmarked

/-- What may fail is tried in front of either with the same success. -/
theorem Swaps.attempt (hx : Swaps x tokens) (hfaults : SwapsFaults x tokens) :
    Swaps (attempt x) tokens := by
  intro mark hmark value rest hread
  unfold Parse.attempt at hread
  split at hread
  · rename_i value' rest' hok
    cases hread
    obtain ⟨left, rfl, hsame⟩ := hx mark hmark value' _ hok
    exact ⟨left, rfl, fun word hword after => attempt_of_ok (hsame word hword after)⟩
  · rename_i error hfault
    cases hread
    exact ⟨tokens, rfl, fun word hword after =>
      attempt_of_fault (hfaults mark hmark ⟨error, hfault⟩ word hword after)⟩
  · cases hread

/-- So is what is only looked at. -/
theorem Swaps.ahead {x : Parse Bool} (hx : Swaps x tokens) (hfaults : SwapsFaults x tokens) :
    Swaps (ahead x) tokens := by
  intro mark hmark value rest hread
  unfold Parse.ahead at hread
  split at hread
  · rename_i value' rest' hok
    cases hread
    obtain ⟨left, -, hsame⟩ := hx mark hmark value _ hok
    refine ⟨tokens, rfl, fun word hword after => ?_⟩
    rw [Parse.ahead, hsame word hword after]
  · rename_i error hfault
    cases hread
    refine ⟨tokens, rfl, fun word hword after => ?_⟩
    obtain ⟨error', hfault'⟩ := hfaults mark hmark ⟨error, hfault⟩ word hword after
    rw [Parse.ahead, hfault']
  · cases hread

end Rules

/-- What is read may be chosen by the tokens in front of a fence. -/
theorem Swaps.of_fenced (hy : Swaps y tokens) (hsame : ∀ fence : Token, Fence fence → ∀ after,
    x (tokens ++ fence :: after) = y (tokens ++ fence :: after)) : Swaps x tokens := by
  intro mark hmark value rest hread
  rw [hsame mark (.inl hmark)] at hread
  obtain ⟨left, rfl, hread'⟩ := hy mark hmark value rest hread
  exact ⟨left, rfl, fun word hword after =>
    (hsame word (.inr hword) after).trans (hread' word hword after)⟩

/-! ### Readers without blocks -/

section Small

/-- An expected word ends what it ends. -/
theorem closes_expectWord (word : Keyword) (fault : SyntaxFault) : Closes (expectWord word fault) := by
  unfold expectWord wordNext
  rw [bind_assoc]
  refine .peek fun token => ?_
  rw [pure_bind]
  split
  · exact closes_skip
  · exact closes_fail fault

/-- The name or path of a module is complete in itself. -/
theorem closes_moduleRef : Closes moduleRef := by
  refine .peek fun token => ?_
  split
  · exact closes_one _
  · exact closes_one _
  · exact closes_one _
  · exact closes_fail _

/-- The end of a statement may be left out in front of either. -/
theorem swaps_skipSemicolon : Swaps skipSemicolon tokens := by
  refine .symbolAt (Nat.zero_le _) fun answer _ => ?_
  cases answer with
  | true => exact swaps_skip 1
  | false => exact swaps_pure ()

/-- An import ends with its alias. -/
theorem swaps_useRest (line : Nat) : Swaps (useRest line) tokens := by
  refine closes_moduleRef.swaps.bind fun target _ => ?_
  refine (closes_expectWord _ _).swaps.bind fun _ _ => ?_
  refine (closes_identifier _).swaps.bind fun aliasName _ => ?_
  exact swaps_skipSemicolon.bind fun _ _ => swaps_pure _

/-- A word that leaves or continues a loop has no other part. -/
theorem swaps_controlRest (stmt : Stmt) : Swaps (controlRest stmt) tokens :=
  (closes_expect _ _).swaps.bind fun _ _ => swaps_pure _

/-- Whether a step follows is told by tokens in front of the marker. -/
theorem swaps_stepNext : Swaps stepNext tokens := by
  refine .symbolAt (Nat.zero_le _) fun answer hcolon => ?_
  cases answer with
  | false => exact swaps_pure _
  | true =>
    refine .peekAt (hcolon rfl) (fun hone => ?_) (fun mark hmark => ?_) fun mark word hmark hword => ?_
    · split
      · exact swaps_pure _
      · refine .peekAt hone (fun _ => swaps_pure _) (fun _ _ => swaps_pure _)
          fun mark word hmark hword => ?_
        rw [hmark, hword]
        rfl
      · exact swaps_pure _
    · rw [hmark]
      exact swaps_pure _
    · rw [hmark, hword]

/-- Names after dots stop at a fence. -/
theorem dottedNames_append_fence {fence : Token} (h : Fence fence) (tokens after : List Token) :
    dottedNames (tokens ++ fence :: after) =
      ((dottedNames tokens).1, (dottedNames tokens).2 ++ fence :: after) := by
  fun_induction dottedNames tokens with
  | case1 lexeme line name lexeme' line' rest names last hlast ih =>
    rw [hlast] at ih
    rw [List.cons_append, List.cons_append, dottedNames, ih]
  | case2 tokens hother =>
    rw [dottedNames]
    intro lexeme line name lexeme' line' rest hnext
    rcases tokens with - | ⟨first, - | ⟨second, others⟩⟩
    · cases hnext
      rcases h with hkind | hkind <;> cases hkind
    · cases hnext
      rcases h with hkind | hkind <;> cases hkind
    · cases hnext
      exact hother _ _ _ _ _ _ rfl

/-- A fence is no symbol, and neither is what stands behind the end. -/
theorem isSymbol_append_fence {fence : Token} (h : Fence fence) {position : Nat}
    (hposition : position ≤ tokens.length) (after : List Token) (symbol : Symbol) :
    (tokenAt (tokens ++ fence :: after) position).isSymbol symbol =
      (tokenAt tokens position).isSymbol symbol := by
  rcases Nat.lt_or_eq_of_le hposition with hlt | rfl
  · rw [tokenAt_append hlt]
  · have hfence : tokenAt (tokens ++ fence :: after) tokens.length = fence := by
      simp [tokenAt]
    have hend : tokenAt tokens tokens.length = Token.endOn 0 := by
      simp [tokenAt]
    rw [hfence, hend, h.isSymbol]
    rfl

/-- Whether a lambda starts is told by tokens in front of a fence. -/
theorem startsLambda_append_fence {fence : Token} (h : Fence fence) (tokens after : List Token) :
    startsLambda (tokens ++ fence :: after) = startsLambda tokens := by
  have hstops : stopsNames fence.kind = true := by
    rcases h with hkind | hkind
    · rw [hkind]
      rfl
    · rw [hkind]
      rfl
  cases tokens with
  | nil =>
    have hkind : (tokenAt (fence :: after) 0).kind = fence.kind := rfl
    rw [List.nil_append, startsLambda, hkind]
    rcases h with hkind | hkind
    · rw [hkind]
      rfl
    · rw [hkind]
      rfl
  | cons first others =>
    unfold startsLambda
    rw [tokenAt_append (Nat.zero_lt_succ _)]
    split
    · exact isSymbol_append_fence h (Nat.succ_le_succ (Nat.zero_le _)) after _
    · rw [List.cons_append, List.drop_succ_cons, List.drop_zero, List.drop_succ_cons, List.drop_zero,
        afterNames_append others hstops]
      dsimp only
      rw [isSymbol_append_fence h (Nat.zero_le _)]
      cases hnames : afterNames others with
      | nil => rfl
      | cons second rest =>
        rw [isSymbol_append_fence h (Nat.succ_le_succ (Nat.zero_le _))]
    · rfl

/-- An end marker is not skipped. -/
theorem refuses_skip (count : Nat) : Refuses (skip (count + 1)) := by
  intro last _ result hread
  rw [skip, if_neg (by simp)] at hread
  cases hread

/-- What fails refuses the marker too. -/
theorem refuses_fail (fault : SyntaxFault) : Refuses (fail fault : Parse α) := by
  intro last _ result hread
  cases hread

/-- What looks at the marker and refuses it. -/
theorem refuses_peek {f : Token → Parse α}
    (hf : ∀ mark : Token, mark.kind = .endMarker → Refuses (f mark)) :
    Refuses (peek 0 >>= f) := by
  intro last hlast result hread
  have hpeek : (peek 0 >>= f) [last] = f last [last] := bind_of_ok rfl
  rw [hpeek] at hread
  exact hf last hlast last hlast result hread

/-- An end marker is no name. -/
theorem refuses_identifier (place : NamePlace) : Refuses (identifier place) := by
  refine refuses_peek fun mark hmark => ?_
  rw [hmark]
  exact refuses_fail _

/-- Neither of them is a symbol, so neither is the one that is looked for. -/
theorem swaps_symbolAt (symbol : Symbol) : Swaps (symbolAt 0 symbol) tokens := by
  rw [← bind_pure (symbolAt 0 symbol)]
  exact .symbolAt (Nat.zero_le _) fun _ _ => swaps_pure _

/-- Looking for a symbol is no fault. -/
theorem swapsFaults_symbolAt (symbol : Symbol) : SwapsFaults (symbolAt 0 symbol) tokens := by
  rintro mark hmark ⟨error, hread⟩
  cases tokens with
  | nil => cases hread
  | cons first others => cases hread

/-- Nor is skipping, but where the tokens run out. -/
theorem swapsFaults_skip (count : Nat) : SwapsFaults (skip count) tokens := by
  rintro mark hmark ⟨error, hread⟩
  unfold skip at hread
  split at hread <;> cases hread

/-- A fault without a look at the tokens is one in front of either. -/
theorem swapsFaults_fail (fault : SyntaxFault) : SwapsFaults (fail fault : Parse α) tokens := by
  rintro mark hmark _ word hword after
  cases tokens with
  | nil => exact ⟨_, rfl⟩
  | cons first others => exact ⟨_, rfl⟩

/-- An expected symbol is missing in front of either. -/
theorem swapsFaults_expect (symbol : Symbol) (fault : SyntaxFault) :
    SwapsFaults (expect symbol fault) tokens := by
  refine .bind (swaps_symbolAt symbol) (swapsFaults_symbolAt symbol) fun answer rest => ?_
  cases answer with
  | true => exact swapsFaults_skip 1
  | false => exact swapsFaults_fail fault

/-- Inside a statement nothing that follows it matters, also where nesting is not bounded. -/
theorem local_read {phrase : Phrase α} (hphrase : holdsStatements phrase = false)
    (h : Ended tokens) : Local phrase.read tokens := by
  have hbounded (after : List Token) {depth : Nat}
      (hdepth : phrase.need (tokens ++ after).length ≤ depth) :
      Phrase.parse depth phrase (tokens ++ after) = phrase.read (tokens ++ after) :=
    Phrase.parse_eq_read phrase hdepth
  have hlocal (depth : Nat) : Local (Phrase.parse depth phrase) tokens :=
    (readsBlocks_parse depth).within phrase hphrase h
  -- What is read in front of nothing is read with any bound that is large enough for it.
  have hsame (after : List Token) : ∀ result, phrase.read (tokens ++ []) = result →
      phrase.read (tokens ++ after) =
        result.map fun (value, rest) => (value, rest ++ after) := by
    rintro result rfl
    have hfirst := hbounded [] (Nat.le_max_left _ (phrase.need (tokens ++ after).length))
    have hsecond := hbounded after (Nat.le_max_right (phrase.need (tokens ++ []).length) _)
    rw [← hfirst, ← hsecond]
    obtain ⟨stop, hstop⟩ | ⟨value, rest, -, hok⟩ := hlocal (max (phrase.need (tokens ++ []).length)
      (phrase.need (tokens ++ after).length))
    · rw [hstop, hstop]
      rfl
    · rw [hok, hok, List.append_nil]
      rfl
  cases hread : phrase.read (tokens ++ []) with
  | error stop => exact .inl ⟨stop, fun after => hsame after _ hread⟩
  | ok result =>
    refine .inr ⟨result.1, result.2, ?_, fun after => hsame after _ hread⟩
    have hfirst := hbounded [] (Nat.le_refl _)
    obtain ⟨stop, hstop⟩ | ⟨value, rest, hrest, hok⟩ := hlocal (phrase.need (tokens ++ []).length)
    · rw [← hfirst, hstop] at hread
      cases hread
    · rw [← hfirst, hok, List.append_nil] at hread
      cases hread
      exact hrest

/-- With the bound that is computed for closed tokens no phrase exhausts its reader. -/
theorem read_ne_exhausted (phrase : Phrase α) (h : Closed tokens) :
    phrase.read tokens ≠ .error .exhausted := by
  intro hread
  have hleaves := (Phrase.leaves_read phrase tokens).2
  rw [hread] at hleaves
  exact hleaves h rfl

/-- An expression that cannot be read cannot be read in front of the word. -/
theorem swapsFaults_read_expression (level : Nat) :
    SwapsFaults (Phrase.read (.expression level)) tokens :=
  swapsFaults_of_local (followsOn_read.expression level) rfl (fun _ => local_read rfl)
    fun _ => read_ne_exhausted _

/-- Nor can parameters. -/
theorem swapsFaults_read_parameters : SwapsFaults (Phrase.read (.parameters [])) tokens :=
  swapsFaults_of_local ((followsOn_read.parameters []).settles : Settles (fun _ => false) _) rfl
    (fun _ => local_read rfl) fun _ => read_ne_exhausted _

/-- No expression starts with an end marker. -/
theorem refuses_expression (read : PhraseReader) (level : Nat) : Refuses (expression read level) := by
  have hprimary : Refuses (primary read) := by
    refine refuses_peek fun mark hmark => ?_
    rw [hmark]
    exact refuses_fail _
  exact Refuses.bind hprimary.bind

/-- An expression does not begin with a marker. -/
theorem refuses_expressionStatement (read : PhraseReader) : Refuses (expressionStatement read) :=
  (refuses_expression read 0).bind

end Small

/-! ### Statements -/

/-- Expressions are read without a bound, and blocks in front of a closing word as they are in front
of an end marker. -/
structure ReadsFenced (read : PhraseReader) : Prop where
  expressions : ∀ {α : Type} (phrase : Phrase α), holdsStatements phrase = false →
    read phrase = phrase.read
  blocks : ∀ {α : Type} (phrase : Phrase α), holdsStatements phrase = true →
    ∀ tokens, Swaps (read phrase) tokens

section Statements

variable {read : PhraseReader} (hread : ReadsFenced read)

include hread

/-- Expressions go on as far as their next token says, whatever comes behind. -/
theorem ReadsFenced.followsOn : FollowsOn read where
  expression level := hread.expressions (.expression level) rfl ▸ followsOn_read.expression level
  operators level left :=
    hread.expressions (.operators level left) rfl ▸ followsOn_read.operators level left
  suffixes head := hread.expressions (.suffixes head) rfl ▸ followsOn_read.suffixes head
  arguments done := hread.expressions (.arguments done) rfl ▸ followsOn_read.arguments done
  elements done := hread.expressions (.elements done) rfl ▸ followsOn_read.elements done
  fields done := hread.expressions (.fields done) rfl ▸ followsOn_read.fields done
  parameters done := hread.expressions (.parameters done) rfl ▸ followsOn_read.parameters done
  lambdaNames done := hread.expressions (.lambdaNames done) rfl ▸ followsOn_read.lambdaNames done

/-- A nested expression is read in front of either. -/
theorem swaps_read_expression (level : Nat) : Swaps (read (.expression level)) tokens :=
  (hread.followsOn.expression level).swaps rfl

/-- If it cannot be read, it cannot in front of the word. -/
theorem swapsFaults_nestedExpression (level : Nat) :
    SwapsFaults (read (.expression level)) tokens :=
  hread.expressions (.expression level) rfl ▸ swapsFaults_read_expression level

/-- Parameters that cannot be read cannot in front of the word. -/
theorem swapsFaults_nestedParameters : SwapsFaults (read (.parameters [])) tokens :=
  hread.expressions (.parameters []) rfl ▸ swapsFaults_read_parameters

/-- An expression as a statement ends where the expression does. -/
theorem swaps_expressionStatement : Swaps (expressionStatement read) tokens := by
  refine ((settles_expression hread.followsOn 0).swaps rfl).bind fun value _ => ?_
  exact swaps_skipSemicolon.bind fun _ _ => swaps_pure _

/-- An assigned value is an expression and the end of its statement. -/
theorem swaps_assignedValue : Swaps (assignedValue read) tokens := by
  refine (swaps_read_expression hread 0).bind fun value _ => ?_
  exact swaps_skipSemicolon.bind fun _ _ => swaps_pure _

/-- A block with its own closing word has it among its tokens. -/
theorem swaps_closedBlock (construct : Construct) : Swaps (closedBlock read construct) tokens := by
  refine (hread.blocks (.statements []) rfl tokens).bind fun body _ => ?_
  exact (closes_expectWord _ _).swaps.bind fun _ _ => swaps_pure _

/-- A definition ends with the word that closes its body. -/
theorem swaps_definition (line : Nat) : Swaps (definition read line) tokens := by
  refine (closes_identifier _).swaps.bind fun name _ => ?_
  refine (closes_expect _ _).swaps.bind fun _ _ => ?_
  refine (hread.followsOn.parameters []).swaps.bind fun params _ => ?_
  refine ((settles_typeAfter .arrow).swaps rfl).bind fun returnType _ => ?_
  refine (closes_expect _ _).swaps.bind fun _ _ => ?_
  exact (swaps_closedBlock hread _).bind fun body _ => swaps_pure _

/-- A lambda ends where its body does. -/
theorem swaps_lambda : Swaps (lambda read) tokens := by
  refine .peek (fun token _ _ => ?_) fun mark _ => (refuses_skip 0).bind
  refine (swaps_skip 1).bind fun _ _ => ?_
  have hbody (params : List String) (rest : List Token) : Swaps (do
      expect .fatArrow .missingFatArrow
      return Expr.lambda token.line params (← read (.expression 0))) rest := by
    refine (closes_expect _ _).swaps.bind fun _ _ => ?_
    exact (swaps_read_expression hread 0).bind fun body _ => swaps_pure _
  split
  · exact hbody _ _
  · exact (hread.followsOn.lambdaNames []).swaps.bind hbody

/-- What a declaration binds is a lambda or an expression. -/
theorem swaps_initializer : Swaps (initializer read) tokens := by
  cases hstarts : startsLambda tokens with
  | true =>
    refine (swaps_lambda hread).of_fenced fun fence hfence after => ?_
    rw [initializer, startsLambda_append_fence hfence, hstarts]
    rfl
  | false =>
    have hexpression : Swaps (expression read 0) tokens :=
      (settles_expression hread.followsOn 0).swaps rfl
    refine hexpression.of_fenced fun fence hfence after => ?_
    rw [initializer, startsLambda_append_fence hfence, hstarts]
    rfl

/-- A declaration without a value ends with its name or type. -/
theorem swaps_letRest (line : Nat) : Swaps (letRest read line) tokens := by
  refine .peek (fun first others htokens => ?_) fun mark hmark => ?_
  · refine .symbolAt (htokens ▸ Nat.succ_le_succ (Nat.zero_le _)) fun answer _ => ?_
    split
    · exact swaps_definition hread line
    · refine (closes_identifier _).swaps.bind fun name _ => ?_
      refine ((settles_typeAfter .colon).swaps rfl).bind fun typed _ => ?_
      refine (closes_expect _ _).swaps.bind fun _ _ => ?_
      refine (swaps_initializer hread).bind fun value _ => ?_
      exact (closes_expect _ _).swaps.bind fun _ _ => swaps_pure _
  · intro last hlast result hvalue
    obtain ⟨answer, rest, hsymbol, hnext⟩ := exists_of_bind_ok hvalue
    cases hsymbol
    rw [hmark] at hnext
    exact (refuses_identifier _).bind last hlast result hnext

/-- A branch ends in front of the word that closes its chain, or with it. -/
theorem swaps_branch (line : Nat) : Swaps (branch read line) tokens := by
  refine (swaps_read_expression hread 0).bind fun condition _ => ?_
  refine (closes_expect _ _).swaps.bind fun _ _ => ?_
  refine (hread.blocks (.statements []) rfl _).bind fun whenTrue _ => ?_
  refine .wordNext nofun fun otherwise => ?_
  split
  · refine (swaps_skip 1).bind fun _ _ => ?_
    refine .wordNext nofun fun chained => ?_
    split
    · refine .peek (fun token _ _ => ?_) fun mark _ => (refuses_skip 0).bind
      refine (swaps_skip 1).bind fun _ _ => ?_
      exact (hread.blocks (.branch _) rfl _).bind fun nested _ => swaps_pure _
    · refine (closes_expect _ _).swaps.bind fun _ _ => ?_
      exact (hread.blocks (.statements []) rfl _).bind fun whenFalse _ => swaps_pure _
  · exact swaps_pure _

/-- The word that closes a chain of branches is consumed with it. -/
theorem swaps_ifRest (line : Nat) : Swaps (ifRest read line) tokens := by
  refine (hread.blocks (.branch line) rfl tokens).bind fun stmt _ => ?_
  exact (closes_expectWord _ _).swaps.bind fun _ _ => swaps_pure _

/-- A loop ends with the word that closes its body. -/
theorem swaps_whileRest (line : Nat) : Swaps (whileRest read line) tokens := by
  refine (swaps_read_expression hread 0).bind fun condition _ => ?_
  refine (closes_expect _ _).swaps.bind fun _ _ => ?_
  exact (swaps_closedBlock hread _).bind fun body _ => swaps_pure _

/-- Cases end in front of a token that begins no case. -/
theorem swaps_cases (done : List (Expr × Block)) : Swaps (cases read done) tokens := by
  refine .wordNext nofun fun answer => ?_
  split
  · refine (swaps_skip 1).bind fun _ _ => ?_
    refine (swaps_read_expression hread 0).bind fun value _ => ?_
    refine (closes_expect _ _).swaps.bind fun _ _ => ?_
    refine (hread.blocks (.statements []) rfl _).bind fun body _ => ?_
    exact hread.blocks (.cases _) rfl _
  · exact swaps_pure _

/-- A default is there or not, by the next token. -/
theorem swaps_otherwise : Swaps (otherwise read) tokens := by
  refine .wordNext nofun fun answer => ?_
  split
  · refine (swaps_skip 1).bind fun _ _ => ?_
    refine (closes_expect _ _).swaps.bind fun _ _ => ?_
    exact (hread.blocks (.statements []) rfl _).bind fun body _ => swaps_pure _
  · exact swaps_pure _

/-- A selection ends with its closing word. -/
theorem swaps_switchRest (line : Nat) : Swaps (switchRest read line) tokens := by
  refine (swaps_read_expression hread 0).bind fun subject _ => ?_
  refine (closes_expect _ _).swaps.bind fun _ _ => ?_
  refine (hread.blocks (.cases []) rfl _).bind fun items _ => ?_
  refine (swaps_otherwise hread).bind fun default _ => ?_
  exact (closes_expectWord _ _).swaps.bind fun _ _ => swaps_pure _

/-- A guarded block ends with the word that closes its handler. -/
theorem swaps_tryRest (line : Nat) : Swaps (tryRest read line) tokens := by
  refine (closes_expect _ _).swaps.bind fun _ _ => ?_
  refine (hread.blocks (.statements []) rfl _).bind fun body _ => ?_
  refine (closes_expectWord _ _).swaps.bind fun _ _ => ?_
  refine (closes_identifier _).swaps.bind fun name _ => ?_
  refine (closes_expect _ _).swaps.bind fun _ _ => ?_
  exact (swaps_closedBlock hread _).bind fun handler _ => swaps_pure _

/-- Printing ends with its parenthesis. -/
theorem swaps_printRest (line : Nat) : Swaps (printRest read line) tokens := by
  refine (closes_expect _ _).swaps.bind fun _ _ => ?_
  refine (hread.followsOn.arguments []).swaps.bind fun arguments _ => ?_
  exact (closes_expect _ _).swaps.bind fun _ _ => swaps_pure _

/-- What a function gives back may be left out in front of either. -/
theorem swaps_returnRest (line : Nat) : Swaps (returnRest read line) tokens := by
  have hsemicolon (value : Option Expr) (rest : List Token) : Swaps (do
      expect .semicolon (.missingSemicolon .returnStatement)
      return Stmt.giveBack line value) rest :=
    (closes_expect _ _).swaps.bind fun _ _ => swaps_pure _
  refine .symbolAt (Nat.zero_le _) fun answer _ => ?_
  cases answer with
  | true => exact hsemicolon none tokens
  | false =>
    have hvalue : Swaps (some <$> read (.expression 0)) tokens := by
      rw [← bind_pure_comp]
      exact (swaps_read_expression hread 0).bind fun _ _ => swaps_pure _
    exact hvalue.bind hsemicolon

/-- The second bound of a range is tried, with the same success. -/
theorem swaps_rangeStop : Swaps (rangeStop read) tokens := by
  refine .attempt ?_ ?_
  · refine (swaps_read_expression hread 0).bind fun stop _ => ?_
    refine .symbolAt (Nat.zero_le _) fun answer _ => ?_
    split
    · exact swaps_pure _
    · exact (closes_fail _).swaps
  · refine .bind (swaps_read_expression hread 0) (swapsFaults_nestedExpression hread 0)
      fun stop rest => ?_
    refine .bind (swaps_symbolAt _) (swapsFaults_symbolAt _) fun answer rest => ?_
    split
    · exact swapsFaults_pure _
    · exact swapsFaults_fail _

/-- Whether an iteration is a range shows behind its first expression. -/
theorem swaps_iterationRest (first : Expr) : Swaps (iterationRest read first) tokens := by
  refine (swaps_rangeStop hread).bind fun stop _ => ?_
  split
  · exact swaps_pure _
  · refine swaps_stepNext.bind fun stepped _ => ?_
    split
    · refine (swaps_skip 1).bind fun _ _ => ?_
      refine (swaps_read_expression hread 0).bind fun step _ => ?_
      exact (closes_expect _ _).swaps.bind fun _ _ => swaps_pure _
    · exact (closes_expect _ _).swaps.bind fun _ _ => swaps_pure _

/-- A loop over an iteration ends with the word that closes its body. -/
theorem swaps_forRest (line : Nat) : Swaps (forRest read line) tokens := by
  refine (closes_identifier _).swaps.bind fun name _ => ?_
  refine (closes_expectWord _ _).swaps.bind fun _ _ => ?_
  refine (swaps_read_expression hread 0).bind fun first _ => ?_
  refine (closes_expect _ _).swaps.bind fun _ _ => ?_
  refine (swaps_iterationRest hread first).bind fun iteration _ => ?_
  exact (swaps_closedBlock hread _).bind fun body _ => swaps_pure _

/-- Whether a definition starts is told by a look at its parameters and colon. -/
theorem swaps_startsDefinition : Swaps (startsDefinition read) tokens := by
  refine .ahead ?_ ?_
  · refine (swaps_skip 2).bind fun _ _ => ?_
    refine (hread.followsOn.parameters []).swaps.bind fun _ _ => ?_
    refine (swaps_symbolAt _).bind fun _ _ => ?_
    exact (swaps_symbolAt _).bind fun _ _ => swaps_pure _
  · refine .bind (swaps_skip 2) (swapsFaults_skip 2) fun _ _ => ?_
    refine .bind (hread.followsOn.parameters []).swaps (swapsFaults_nestedParameters hread)
      fun _ _ => ?_
    refine .bind (swaps_symbolAt _) (swapsFaults_symbolAt _) fun _ _ => ?_
    exact .bind (swaps_symbolAt _) (swapsFaults_symbolAt _) fun _ _ => swapsFaults_pure _

/-- Whether an element is assigned is told by a look at its index and the sign behind it. -/
theorem swaps_assignedIndex : Swaps (assignedIndex read) tokens := by
  refine .attempt ?_ ?_
  · refine (swaps_skip 2).bind fun _ _ => ?_
    refine (swaps_read_expression hread 0).bind fun index _ => ?_
    refine (closes_expect _ _).swaps.bind fun _ _ => ?_
    exact (closes_expect _ _).swaps.bind fun _ _ => swaps_pure _
  · refine .bind (swaps_skip 2) (swapsFaults_skip 2) fun _ _ => ?_
    refine .bind (swaps_read_expression hread 0) (swapsFaults_nestedExpression hread 0)
      fun index _ => ?_
    refine .bind (closes_expect _ _).swaps (swapsFaults_expect _ _) fun _ _ => ?_
    exact .bind (closes_expect _ _).swaps (swapsFaults_expect _ _) fun _ _ => swapsFaults_pure _

/-- The assignment of a property ends with its value. -/
theorem swaps_propertyAssignment (first : Token) (base : String) (properties : List String) :
    Swaps (propertyAssignment read first base properties) tokens := by
  unfold propertyAssignment
  split
  · exact swaps_expressionStatement hread
  · split
    · refine (swaps_skip _).bind fun _ _ => ?_
      exact (swaps_assignedValue hread).bind fun value _ => swaps_pure _
    · exact (closes_failAt _ _).swaps

/-- A statement that starts with a path assigns a property, or is an expression. -/
theorem swaps_dottedStatement (first : Token) (base : String) (h : tokens ≠ []) :
    Swaps (dottedStatement read first base) tokens := by
  obtain ⟨head, others, rfl⟩ := List.exists_cons_of_ne_nil h
  have hchosen : Swaps (if (tokenAt (dottedNames others).2 0).isSymbol .equal then
      propertyAssignment read first base (dottedNames others).1
      else expressionStatement read) (head :: others) := by
    split
    · exact swaps_propertyAssignment hread first base _
    · exact swaps_expressionStatement hread
  refine hchosen.of_fenced fun fence hfence after => ?_
  rw [dottedStatement, List.cons_append, List.drop_succ_cons, List.drop_zero,
    dottedNames_append_fence hfence]
  dsimp only
  rw [isSymbol_append_fence hfence (Nat.zero_le _)]

/-- A statement that starts with a name shows what it is behind the name. -/
theorem swaps_nameStatement (first : Token) (name : String) (h : tokens ≠ []) :
    Swaps (nameStatement read first name) tokens := by
  refine .peekAt (List.length_pos_of_ne_nil h) (fun _ => ?_) (fun mark hmark => ?_)
    fun mark word hmark hword => ?_
  · split
    · refine (swaps_startsDefinition hread).bind fun answer _ => ?_
      split
      · exact swaps_definition hread _
      · exact swaps_expressionStatement hread
    · refine (swaps_skip 2).bind fun _ _ => ?_
      exact (swaps_assignedValue hread).bind fun value _ => swaps_pure _
    · refine (swaps_assignedIndex hread).bind fun index _ => ?_
      split
      · exact (swaps_assignedValue hread).bind fun value _ => swaps_pure _
      · exact swaps_expressionStatement hread
    · exact swaps_dottedStatement hread first name h
    · exact swaps_expressionStatement hread
  · rw [hmark]
    exact swaps_expressionStatement hread
  · rw [hmark, hword]

/-- Every statement is read in front of either. -/
theorem swaps_statement : Swaps (statement read) tokens := by
  refine .peek (fun first others htokens => ?_) fun mark hmark => ?_
  · have hword {f : Unit → Parse Stmt} (hf : ∀ rest, Swaps (f ()) rest) :
        Swaps (skip 1 >>= f) tokens := (swaps_skip 1).bind fun _ => hf
    split
    · exact hword fun _ => swaps_useRest _
    · exact hword fun _ => swaps_definition hread _
    · exact hword fun _ => swaps_letRest hread _
    · exact hword fun _ => swaps_ifRest hread _
    · exact hword fun _ => swaps_whileRest hread _
    · exact hword fun _ => swaps_forRest hread _
    · exact hword fun _ => swaps_switchRest hread _
    · exact hword fun _ => swaps_tryRest hread _
    · exact hword fun _ => swaps_printRest hread _
    · exact hword fun _ => swaps_returnRest hread _
    · exact hword fun _ => swaps_controlRest _
    · exact hword fun _ => swaps_controlRest _
    · exact swaps_nameStatement hread first _ (htokens ▸ List.cons_ne_nil _ _)
    · exact swaps_expressionStatement hread
  · dsimp only
    rw [hmark]
    exact refuses_expressionStatement _

/-- So are statements, which both of them end. -/
theorem swaps_statements (done : Block) : Swaps (statements read done) tokens := by
  refine .peekAt (Nat.zero_le _) (fun _ => ?_) (fun mark hmark => ?_) fun mark word hmark hword => ?_
  · split
    · exact swaps_pure _
    · exact (swaps_statement hread).bind fun stmt _ => hread.blocks (.statements _) rfl _
  · rw [hmark]
    exact swaps_pure _
  · rw [hmark, hword]
    rfl

end Statements

/-! ### Without a bound -/

/-- Reads expressions without a bound, and blocks with a bound on their nesting. -/
def readBlocks : Nat → PhraseReader
  | 0, _, phrase => if holdsStatements phrase then exhausted else phrase.read
  | depth + 1, _, phrase =>
    if holdsStatements phrase then Phrase.rule (fun nested => readBlocks depth nested) phrase
    else phrase.read

/-- With as much nesting as a phrase may need, the bound makes no difference. -/
theorem leaves_readBlocks (phrase : Phrase α) (tokens : List Token) {depth : Nat}
    (h : phrase.need tokens.length ≤ depth) :
    Leaves (tokens.length + 1) (readBlocks depth phrase) phrase.read tokens := by
  induction depth generalizing α tokens with
  | zero => cases phrase <;> cases h
  | succ depth ih =>
    cases hphrase : holdsStatements phrase with
    | true =>
      rw [readBlocks, if_pos hphrase, ← Phrase.rule_read_eq_read]
      refine Phrase.leaves_rule phrase fun nested rest hadvances => ?_
      have hneed := Phrase.need_lt hadvances
      exact ih nested rest (by omega)
    | false =>
      rw [readBlocks, if_neg (by rw [hphrase]; exact Bool.false_ne_true)]
      exact Phrase.leaves_read phrase tokens

/-- However much nesting of blocks is allowed, they are read in front of a closing word as they are
in front of an end marker. The induction is on the nesting. -/
theorem readsFenced_readBlocks (depth : Nat) : ReadsFenced (readBlocks depth) := by
  have hexpressions {α : Type} (depth : Nat) (phrase : Phrase α)
      (hphrase : holdsStatements phrase = false) : readBlocks depth phrase = phrase.read := by
    cases depth <;> rw [readBlocks, if_neg (by rw [hphrase]; exact Bool.false_ne_true)]
  induction depth with
  | zero =>
    refine ⟨hexpressions 0, fun phrase hphrase tokens mark hmark value rest hread => ?_⟩
    rw [readBlocks, if_pos hphrase] at hread
    cases hread
  | succ depth ih =>
    refine ⟨hexpressions (depth + 1), fun phrase hphrase tokens => ?_⟩
    rw [readBlocks, if_pos hphrase]
    cases phrase with
    | statements done => exact swaps_statements ih done
    | branch line => exact swaps_branch ih line
    | cases done => exact swaps_cases ih done
    | _ => cases hphrase

/-- The reader of nested phrases reads them in front of either, by induction on its bound. -/
theorem readsFenced_read : ReadsFenced Phrase.read := by
  refine ⟨fun _ _ => rfl, fun phrase hphrase tokens mark hmark value rest hread => ?_⟩
  have hbound (others : List Token) {depth : Nat} (hdepth : phrase.need others.length ≤ depth) :
      phrase.read others = readBlocks depth phrase others :=
    (leaves_readBlocks phrase others hdepth).1
  have hswaps (depth : Nat) (hdepth : phrase.need (tokens ++ [mark]).length ≤ depth) :=
    (readsFenced_readBlocks depth).blocks phrase hphrase tokens mark hmark value rest
      (hbound _ hdepth ▸ hread)
  obtain ⟨left, rfl, -⟩ := hswaps _ (Nat.le_refl _)
  refine ⟨left, rfl, fun word hword after => ?_⟩
  obtain ⟨left', hsame, hread'⟩ := hswaps _ (Nat.le_max_left _
    (phrase.need (tokens ++ word :: after).length))
  cases List.append_cancel_right hsame
  rw [hbound _ (Nat.le_max_right _ _)]
  exact hread' word hword after

end Parse

end DecimalScript
