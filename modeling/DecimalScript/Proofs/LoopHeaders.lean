import DecimalScript.Proofs.BodyStarts

/-!
# Loop headers are told from bodies

The header of a loop ends at a colon, and so do a bound of a range, a step and the signature of a
definition. A loop over items is read as one if and only if its body does not start like a bound, and
a loop over a range if and only if its body does not start like a step. Nothing else about the body,
the bounds or what follows the loop matters.
-/

namespace DecimalScript

open Parse

variable {loopName : String} {expr stop : Expr} {block others : Block} {stmt : Stmt}
  {tokens body after rest : List Token} {colon close : Token}

/-! ### Bounds and bodies in front of their marks -/

theorem Expr.Spans.read (h : Spans tokens expr) (hcolon : colon.kind = .symbol .colon)
    (after : List Token) :
    Phrase.read (.expression 0) (tokens ++ colon :: after) = .ok (expr, colon :: after) := by
  obtain ⟨last, -, hread⟩ := h
  obtain ⟨used, hused, -, hsame⟩ := followsOn_read.expression 0 _ _ _ hread
  cases List.append_cancel_right hused
  have hstops : continues 0 colon.kind = false := by
    rw [hcolon]
    rfl
  exact hsame _ ⟨List.cons_ne_nil _ _, .inr hstops⟩

namespace Block

/-- A block of all tokens is read up to the end marker behind them. -/
theorem Spans.exists_read (h : Spans body block) : ∃ last : Token, last.kind = .endMarker ∧
    Phrase.read (.statements []) (body ++ [last]) = .ok (block, [last]) := by
  obtain ⟨hmarks, last, hlast, hprogram⟩ := h
  obtain ⟨rest, hread, hrest⟩ := ofTokens_eq_ok.mp hprogram
  obtain ⟨left, rfl, -⟩ := readsFenced_read.blocks (.statements []) rfl body last hlast _ _ hread
  have hsuffix : left <:+ body := by
    have hleaves := (Phrase.leaves_read (.statements []) (body ++ [last])).2
    rw [hread] at hleaves
    obtain ⟨-, ⟨used, hused⟩, -⟩ := hleaves
    rw [← List.append_assoc] at hused
    exact ⟨used, List.append_cancel_right hused⟩
  cases left with
  | nil => exact ⟨last, hlast, hread⟩
  | cons first left => exact absurd hrest (hmarks first (hsuffix.mem List.mem_cons_self))

theorem Spans.read (h : Spans body block) (hclose : close.kind = .keyword .endWord)
    (after : List Token) :
    Phrase.read (.statements []) (body ++ close :: after) = .ok (block, close :: after) := by
  obtain ⟨last, hlast, hread⟩ := h.exists_read
  obtain ⟨left, hleft, hsame⟩ :=
    readsFenced_read.blocks (.statements []) rfl body last hlast _ _ hread
  obtain rfl : left = [] := by simpa using hleft
  exact hsame close hclose after

theorem Spans.closedBlock (h : Spans body block) (hclose : close.kind = .keyword .endWord)
    (hafter : after ≠ []) (construct : Construct) :
    closedBlock Phrase.read construct (body ++ close :: after) = .ok (block, after) := by
  have hword := expectWord_next (.unclosed construct) (beq_iff_eq.mpr hclose) hafter
  exact (bind_of_ok (h.read hclose after)).trans (bind_of_ok hword)

/-- No second bound is found in front of a body that does not start like one. -/
theorem Spans.rangeStop_none (h : Spans body block) (hclose : close.kind = .keyword .endWord)
    (hbound : startsLikeBound body block = false) (after : List Token) :
    rangeStop Phrase.read (body ++ close :: after) = .ok (none, body ++ close :: after) := by
  obtain ⟨last, hlast, hread⟩ := h.exists_read
  have hclosed : Closed (body ++ [last]) := by
    rw [Closed, List.getLast?_concat]
    exact congrArg some hlast
  have hcolon : ¬ColonAfter (body ++ [last]) := by
    rw [colonAfter_block_iff hlast hread, hbound]
    exact Bool.false_ne_true
  have hnone := rangeStop_of_noColonAfter (noColonAfter_of_not hclosed hcolon)
  obtain ⟨left, hleft, hsame⟩ := swaps_rangeStop readsFenced_read last hlast _ _ hnone
  cases List.append_cancel_right hleft
  exact hsame close hclose after

/-- What a body starts with is taken for a second bound if it looks like one. -/
theorem Spans.rangeStop_some (h : Spans body block) (hclose : close.kind = .keyword .endWord)
    (hbound : startsLikeBound body block = true) (after : List Token) :
    ∃ stop rest, rangeStop Phrase.read (body ++ close :: after) = .ok (some stop, rest) := by
  obtain ⟨last, hlast, hread⟩ := h.exists_read
  obtain ⟨stop, next, more, hstop, hcolon⟩ := (colonAfter_block_iff hlast hread).mpr hbound
  have hsome := rangeStop_of_colon hstop hcolon
  obtain ⟨left, -, hsame⟩ := swaps_rangeStop readsFenced_read last hlast _ _ hsome
  exact ⟨stop, _, hsame close hclose after⟩

/-- A statement that starts with a minus sign goes on with a number. -/
theorem number_of_statement {first : Token} (hminus : first.kind = .symbol .minus)
    (hread : statement Phrase.read (first :: tokens) = .ok (stmt, rest)) :
    (tokenAt tokens 0).kind.isNumber = true := by
  obtain ⟨kind, lexeme, line⟩ := first
  cases hminus
  change expressionStatement Phrase.read _ = _ at hread
  obtain ⟨value, left, hexpression, -⟩ := exists_of_bind_ok hread
  obtain ⟨head, left, hoperand, -⟩ := exists_of_bind_ok hexpression
  obtain ⟨number, left, hprimary, -⟩ := exists_of_bind_ok hoperand
  change (skip 1 >>= fun _ => negatedNumber line) _ = _ at hprimary
  cases tokens with
  | nil => cases hprimary
  | cons second more =>
    rw [bind_of_ok (skip_one (List.cons_ne_nil _ _))] at hprimary
    obtain ⟨kind, lexeme, line⟩ := second
    cases kind with
    | number value => rfl
    | _ => cases hprimary

/-- Behind a colon a body is taken for a step if and only if it starts like one. -/
theorem Spans.stepNext (h : Spans body block) (hcolon : colon.isSymbol .colon = true)
    (hclose : close.kind = .keyword .endWord) (after : List Token) :
    stepNext (colon :: (body ++ close :: after)) =
      .ok (startsLikeStep body, colon :: (body ++ close :: after)) := by
  cases body with
  | nil => exact stepNext_of_startsStep hcolon (by rw [hclose]; rfl)
  | cons first others =>
    change Parse.stepNext (colon :: first :: (others ++ close :: after)) =
      .ok (first.kind.startsStep, colon :: first :: (others ++ close :: after))
    cases hstep : first.kind.startsStep with
    | false => exact stepNext_of_startsStep hcolon hstep
    | true =>
      refine (ifSymbol_true hcolon).trans ((peek_bind 1 _).trans ?_)
      obtain ⟨kind, lexeme, line⟩ := first
      cases kind with
      | number value => rfl
      | symbol symbol =>
        cases symbol with
        | minus =>
          obtain ⟨last, hlast, hread⟩ := h.exists_read
          obtain ⟨_, _, _, -, hstmt, -⟩ := exists_first_statement hread rfl
          have hnumber := number_of_statement rfl hstmt
          cases others with
          | nil =>
            change last.kind.isNumber = true at hnumber
            rw [hlast] at hnumber
            cases hnumber
          | cons second more =>
            change second.kind.isNumber = true at hnumber
            change Except.ok (second.kind.isNumber, _) = _
            rw [hnumber]
        | _ => cases hstep
      | _ => cases hstep

end Block

/-! ### Headers -/

namespace Parse

/-- Behind the colon of its header a loop goes on with what it runs over and with its body. -/
theorem statement_around (marks : LoopMarks loopName) (hexpr : Expr.Spans tokens expr)
    (hcolon : colon.kind = .symbol .colon) (hrest : rest ≠ []) :
    statement Phrase.read (marks.around (tokens ++ colon :: rest)) = (do
      let iteration ← iterationRest Phrase.read expr
      return .repeatOver marks.first.val.line loopName iteration
        (← closedBlock Phrase.read .forLoop) : Parse Stmt) rest := by
  obtain ⟨⟨⟨kind, lexeme, line⟩, hfirst⟩, ⟨name, hname⟩, ⟨second, hsecond⟩, -, -, -⟩ := marks
  cases hfirst
  refine (peek_bind 0 _).trans ((bind_of_ok (skip_one (List.cons_ne_nil _ _))).trans ?_)
  refine (bind_of_ok (identifier_next _ hname (List.cons_ne_nil _ _))).trans ?_
  refine (bind_of_ok (expectWord_next _ (beq_iff_eq.mpr hsecond) (by simp))).trans ?_
  refine (bind_of_ok (hexpr.read hcolon rest)).trans ?_
  exact bind_of_ok (expect_next _ (beq_iff_eq.mpr hcolon) hrest)

/-- Behind a second bound a loop runs over a range, or goes by a step if there is one. -/
theorem iterationRest_of_stop {first : Expr} {iteration : Iteration} {stepped : Bool}
    {left left' : List Token} (hstop : rangeStop Phrase.read tokens = .ok (some stop, left))
    (hstep : stepNext left = .ok (stepped, left'))
    (hread : iterationRest Phrase.read first tokens = .ok (iteration, rest)) :
    if stepped then ∃ step, iteration = steppedIteration first stop step
    else iteration = .range first stop := by
  rw [iterationRest, bind_of_ok hstop] at hread
  dsimp only at hread
  rw [bind_of_ok hstep] at hread
  cases stepped with
  | true =>
    rw [if_pos rfl] at hread ⊢
    obtain ⟨_, left, -, hwidth⟩ := exists_of_bind_ok hread
    obtain ⟨step, left, -, hcolon⟩ := exists_of_bind_ok hwidth
    rw [pure_bind] at hcolon
    obtain ⟨_, left, -, hpure⟩ := exists_of_bind_ok hcolon
    cases hpure
    exact ⟨step, rfl⟩
  | false =>
    rw [if_neg Bool.false_ne_true, pure_bind] at hread
    obtain ⟨_, left, -, hpure⟩ := exists_of_bind_ok hread
    cases hpure
    rfl

/-- Behind a second bound a loop does not run over items. -/
theorem iterationRest_ne_items {first value : Expr} {iteration : Iteration} {left : List Token}
    (hstop : rangeStop Phrase.read tokens = .ok (some stop, left))
    (hread : iterationRest Phrase.read first tokens = .ok (iteration, rest)) :
    iteration ≠ .items value := by
  have hnext := hread
  rw [iterationRest, bind_of_ok hstop] at hnext
  obtain ⟨stepped, left', hstep, -⟩ := exists_of_bind_ok hnext
  have hkind := iterationRest_of_stop hstop hstep hread
  split at hkind
  · obtain ⟨step, rfl⟩ := hkind
    unfold steppedIteration
    split <;> nofun
  · rw [hkind]
    nofun

end Parse

namespace Block

/-- The first statement of a program is read from its tokens. -/
theorem exists_statement {first : Token} {program : Block}
    (hprogram : ofTokens (first :: tokens) = .ok (stmt :: program))
    (hgoes : endsBlock first.kind = false) :
    ∃ between, statement Phrase.read (first :: tokens) = .ok (stmt, between) := by
  obtain ⟨rest, hread, -⟩ := ofTokens_eq_ok.mp hprogram
  obtain ⟨_, _, between, hblock, hstmt, -⟩ := exists_first_statement hread hgoes
  cases hblock
  exact ⟨between, hstmt⟩

/-- A statement in front of a program is the first one of a program. -/
theorem ofTokens_of_statement {first : Token} (hgoes : endsBlock first.kind = false)
    (hstmt : statement Phrase.read (first :: tokens) = .ok (stmt, after))
    (hafter : ofTokens after = .ok others) : ofTokens (first :: tokens) = .ok (stmt :: others) := by
  obtain ⟨rest, hread, hrest⟩ := ofTokens_eq_ok.mp hafter
  refine ofTokens_eq_ok.mpr ⟨rest, ?_, hrest⟩
  rw [read_statements_cases, if_neg (Bool.eq_false_iff.mp hgoes), bind_of_ok hstmt]
  exact read_statements_after hread [stmt]

/-- A program is what a loop is read as and the statements behind the loop. -/
theorem ofTokens_around_iff (marks : LoopMarks loopName) {iteration : Iteration}
    (hexpr : Expr.Spans tokens expr) (hcolon : colon.kind = .symbol .colon) (hrest : rest ≠ [])
    (hafter : ofTokens after = .ok others)
    (hbody : ∀ left, iterationRest Phrase.read expr rest = .ok (iteration, left) →
      closedBlock Phrase.read .forLoop left = .ok (block, after)) :
    ofTokens (marks.around (tokens ++ colon :: rest)) =
        .ok (.repeatOver marks.first.val.line loopName iteration block :: others) ↔
      ∃ left, iterationRest Phrase.read expr rest = .ok (iteration, left) := by
  have hgoes : endsBlock marks.first.val.kind = false := by
    rw [marks.first.property]
    rfl
  have hread := statement_around marks hexpr hcolon hrest
  constructor
  · intro hprogram
    obtain ⟨between, hstmt⟩ := exists_statement hprogram hgoes
    rw [show marks.first.val :: _ = marks.around (tokens ++ colon :: rest) from rfl, hread] at hstmt
    obtain ⟨iteration', left, hiteration, hblock⟩ := exists_of_bind_ok hstmt
    obtain ⟨block', left', -, hpure⟩ := exists_of_bind_ok hblock
    cases hpure
    exact ⟨left, hiteration⟩
  · rintro ⟨left, hiteration⟩
    refine ofTokens_of_statement hgoes (hread.trans ?_) hafter
    exact (bind_of_ok hiteration).trans (bind_of_ok (hbody left hiteration))

/-- In front of a body a loop runs over items if and only if the body does not start like a
bound. -/
theorem Spans.iterationRest_items_iff {left : List Token} (h : Spans body block)
    (hclose : close.kind = .keyword .endWord) (after : List Token) (value : Expr) :
    iterationRest Phrase.read value (body ++ close :: after) = .ok (.items value, left) ↔
      startsLikeBound body block = false ∧ left = body ++ close :: after := by
  cases hbound : startsLikeBound body block with
  | true =>
    obtain ⟨stop, rest, hstop⟩ := h.rangeStop_some hclose hbound after
    exact iff_of_false (fun hread => iterationRest_ne_items hstop hread rfl) nofun
  | false =>
    have hread : iterationRest Phrase.read value (body ++ close :: after) =
        .ok (.items value, body ++ close :: after) :=
      bind_of_ok (h.rangeStop_none hclose hbound after)
    rw [hread]
    simpa using eq_comm

/-- In front of a second bound and a body a loop runs over a range if and only if the body does not
start like a step. -/
theorem Spans.iterationRest_range_iff {left : List Token} (h : Spans body block)
    (hstop : Expr.Spans tokens stop) (hcolon : colon.kind = .symbol .colon)
    (hclose : close.kind = .keyword .endWord) (after : List Token) (start : Expr) :
    iterationRest Phrase.read start (tokens ++ colon :: (body ++ close :: after)) =
        .ok (.range start stop, left) ↔
      startsLikeStep body = false ∧ left = body ++ close :: after := by
  have hsymbol : colon.isSymbol .colon = true := beq_iff_eq.mpr hcolon
  have hfound := rangeStop_of_colon (hstop.read hcolon (body ++ close :: after)) hsymbol
  have hstep := h.stepNext hsymbol hclose after
  cases hstarts : startsLikeStep body with
  | true =>
    rw [hstarts] at hstep
    refine iff_of_false (fun hread => ?_) nofun
    have hkind := iterationRest_of_stop hfound hstep hread
    rw [if_pos rfl] at hkind
    obtain ⟨step, hstepped⟩ := hkind
    unfold steppedIteration at hstepped
    split at hstepped <;> cases hstepped
  | false =>
    rw [hstarts] at hstep
    have hne : body ++ close :: after ≠ [] := by simp
    have hread : iterationRest Phrase.read start (tokens ++ colon :: (body ++ close :: after)) =
        .ok (.range start stop, body ++ close :: after) := by
      rw [iterationRest, bind_of_ok hfound]
      dsimp only
      rw [bind_of_ok hstep, if_neg Bool.false_ne_true, pure_bind]
      exact bind_of_ok (expect_next _ hsymbol hne)
    rw [hread]
    simpa using eq_comm

section Loops

variable (marks : LoopMarks loopName) (hbody : Spans body block) (hafter : ofTokens after = .ok others)

include hbody hafter

theorem ofTokens_overItems_iff {items : List Token} {value : Expr} (hvalue : Expr.Spans items value) :
    ofTokens (marks.overItems items body ++ after) =
        .ok (.repeatOver marks.first.val.line loopName (.items value) block :: others) ↔
      startsLikeBound body block = false := by
  have hclose := marks.close.property
  have hne : after ≠ [] := by
    rintro rfl
    cases hafter
  have htokens : marks.overItems items body ++ after =
      marks.around (items ++ marks.outer.val :: (body ++ marks.close.val :: after)) := by
    simp [LoopMarks.overItems, LoopMarks.around]
  rw [htokens, ofTokens_around_iff marks hvalue marks.outer.property (by simp) hafter]
  · simp only [hbody.iterationRest_items_iff hclose, exists_and_left, exists_eq, and_true]
  · intro left hread
    obtain ⟨-, rfl⟩ := (hbody.iterationRest_items_iff hclose after value).mp hread
    exact hbody.closedBlock hclose hne .forLoop

theorem ofTokens_overRange_iff {first second : List Token} {start stop : Expr}
    (hstart : Expr.Spans first start) (hstop : Expr.Spans second stop) :
    ofTokens (marks.overRange first second body ++ after) =
        .ok (.repeatOver marks.first.val.line loopName (.range start stop) block :: others) ↔
      startsLikeStep body = false := by
  have hclose := marks.close.property
  have houter := marks.outer.property
  have hne : after ≠ [] := by
    rintro rfl
    cases hafter
  have htokens : marks.overRange first second body ++ after = marks.around (first ++
      marks.inner.val :: (second ++ marks.outer.val :: (body ++ marks.close.val :: after))) := by
    simp [LoopMarks.overRange, LoopMarks.around]
  rw [htokens, ofTokens_around_iff marks hstart marks.inner.property (by simp) hafter]
  · simp only [hbody.iterationRest_range_iff hstop houter hclose, exists_and_left, exists_eq, and_true]
  · intro left hread
    obtain ⟨-, rfl⟩ := (hbody.iterationRest_range_iff hstop houter hclose after start).mp hread
    exact hbody.closedBlock hclose hne .forLoop

/-- A loop over items is read as one, with its body, if and only if the body does not start like a
bound: with a function definition that starts with its name and in which nothing has a type. A loop
over a range is read as one, with its body, if and only if the body does not start like a step: with
a number or a minus sign. -/
theorem loop_header_told_from_body :
    (∀ items value, Expr.Spans items value →
      (ofTokens (marks.overItems items body ++ after) =
          .ok (.repeatOver marks.first.val.line loopName (.items value) block :: others) ↔
        startsLikeBound body block = false)) ∧
    ∀ first second start stop, Expr.Spans first start → Expr.Spans second stop →
      (ofTokens (marks.overRange first second body ++ after) =
          .ok (.repeatOver marks.first.val.line loopName (.range start stop) block :: others) ↔
        startsLikeStep body = false) :=
  ⟨fun _ _ hvalue => ofTokens_overItems_iff marks hbody hafter hvalue,
    fun _ _ _ _ hstart hstop => ofTokens_overRange_iff marks hbody hafter hstart hstop⟩

end Loops

/-- The body `f(v);` starts with a call, but no colon closes it. -/
theorem loop_header_told_from_body_of_call :
    let marks := LoopMarks.onLine 1 "v"
    let body : List Token := [.name 1 "f", .sign 1 .leftParen, .name 1 "v", .sign 1 .rightParen,
      .sign 1 .semicolon]
    let block : Block := [.evaluate (.call 1 (.var 1 "f") [.var 1 "v"])]
    Spans body block ∧ ofTokens [.endOn 1] = .ok [] ∧ Expr.Spans [.name 1 "a"] (.var 1 "a") ∧
      Expr.Spans [.name 1 "b"] (.var 1 "b") ∧
      ofTokens (marks.overItems [.name 1 "a"] body ++ [.endOn 1]) =
        .ok [.repeatOver 1 "v" (.items (.var 1 "a")) block] ∧
      ofTokens (marks.overRange [.name 1 "a"] [.name 1 "b"] body ++ [.endOn 1]) =
        .ok [.repeatOver 1 "v" (.range (.var 1 "a") (.var 1 "b")) block] := by
  intro marks body block
  have hbody : Spans body block := ⟨by decide, .endOn 1, rfl, rfl⟩
  have hafter : ofTokens [.endOn 1] = .ok [] := rfl
  have hfirst : Expr.Spans [.name 1 "a"] (.var 1 "a") := ⟨.endOn 1, rfl, rfl⟩
  have hsecond : Expr.Spans [.name 1 "b"] (.var 1 "b") := ⟨.endOn 1, rfl, rfl⟩
  obtain ⟨hitems, hrange⟩ := loop_header_told_from_body marks hbody hafter
  exact ⟨hbody, hafter, hfirst, hsecond, (hitems _ _ hfirst).mpr rfl,
    (hrange _ _ _ _ hfirst hsecond).mpr rfl⟩

/-- In `for v in a: f(x): return x; end end` the signature of the definition is taken for a second
bound, and in `for v in a: b: 1; end` the number for a step. -/
theorem body_taken_for_header :
    let marks := LoopMarks.onLine 1 "v"
    let definition : List Token := [.name 1 "f", .sign 1 .leftParen, .name 1 "x",
      .sign 1 .rightParen, .sign 1 .colon, .word 1 .returnWord, .name 1 "x", .sign 1 .semicolon,
      .word 1 .endWord]
    let defined : Block := [.define 1 "f" [⟨"x", none⟩] none [.giveBack 1 (some (.var 1 "x"))]]
    let number : List Token := [.written 1 (.number .one), .sign 1 .semicolon]
    let evaluated : Block := [.evaluate (.literal 1 (.number .one))]
    (Expr.Spans [.name 1 "a"] (.var 1 "a") ∧ Spans definition defined ∧
      ofTokens (marks.overItems [.name 1 "a"] definition ++ [.endOn 1]) ≠
        .ok [.repeatOver 1 "v" (.items (.var 1 "a")) defined]) ∧
    (Expr.Spans [.name 1 "b"] (.var 1 "b") ∧ Spans number evaluated ∧
      ofTokens (marks.overRange [.name 1 "a"] [.name 1 "b"] number ++ [.endOn 1]) ≠
        .ok [.repeatOver 1 "v" (.range (.var 1 "a") (.var 1 "b")) evaluated]) := by
  intro marks definition defined number evaluated
  have hdefinition : Spans definition defined := ⟨by decide, .endOn 1, rfl, rfl⟩
  have hnumber : Spans number evaluated := ⟨by decide, .endOn 1, rfl, rfl⟩
  refine ⟨⟨⟨.endOn 1, rfl, rfl⟩, hdefinition, fun hread => ?_⟩,
    ⟨⟨.endOn 1, rfl, rfl⟩, hnumber, fun hread => ?_⟩⟩
  · cases hread
  · cases hread

end Block

end DecimalScript
