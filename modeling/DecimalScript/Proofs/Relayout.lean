import DecimalScript.Proofs.Tiling

/-!
# Layout does not matter between tokens

A gap in front of the bytes that are read changes nothing but the line, and a token is read from
its slice alone as long as a blank byte or the end of the source comes next. So the slices of the
tokens of a source give the same tokens in any other layout that separates them.
-/

namespace DecimalScript

namespace Token

/-- Slices with other gaps before them. -/
def relaid (gaps : List (List UInt8)) (cuts : List Cut) : List UInt8 :=
  (List.zipWith (fun gap cut => gap ++ cut.slice) gaps cuts).flatten

/-- What a token is, without its line. -/
def content (token : Token) : TokenKind × String := (token.kind, token.lexeme)

variable {read : List Token} {line : Nat}

/-- What reading does once blank bytes are passed. -/
def readFrom (read : List Token) (line : Nat) : List UInt8 → Except LexicalError (List Token)
  | [] => .ok (endOn line :: read).reverse
  | b :: rest =>
    match scanHead b rest with
    | .error fault => .error ⟨fault, line⟩
    | .ok scanned =>
      tokensFrom
        (match scanned.kind with
          | none => read
          | some kind => ⟨kind, lexemeOf (b :: rest.take scanned.extra), line⟩ :: read)
        (line + newlines (b :: rest.take scanned.extra)) (rest.drop scanned.extra)

/-- Reading passes blank bytes first. -/
theorem tokensFrom_eq_readFrom (bytes : List UInt8) :
    tokensFrom read line bytes =
      readFrom read (line + newlines (bytes.takeWhile Text.isBlankByte))
        (bytes.dropWhile Text.isBlankByte) := by
  rw [tokensFrom.eq_def]
  dsimp only
  split
  · rename_i hend
    rw [hend, readFrom]
  · rename_i b rest hsplit
    rw [hsplit]
    rfl

/-- Reading stops at the end of the source. -/
theorem tokensFrom_nil : tokensFrom read line [] = .ok (endOn line :: read).reverse :=
  tokensFrom_eq_readFrom []

/-- A blank byte counts for the line only. -/
theorem tokensFrom_blank {b : UInt8} {bytes : List UInt8} (h : Text.isBlankByte b = true) :
    tokensFrom read line (b :: bytes) = tokensFrom read (line + newlines [b]) bytes := by
  rw [tokensFrom_eq_readFrom, tokensFrom_eq_readFrom, List.takeWhile_cons_of_pos h,
    List.dropWhile_cons_of_pos h, ← List.singleton_append, newlines_append, Nat.add_assoc]

/-- At a byte that is not blank, what its rule takes is passed. -/
theorem tokensFrom_head {b : UInt8} {rest after : List UInt8} {kind : Option TokenKind}
    (hblank : Text.isBlankByte b = false)
    (h : scanHead b (rest ++ after) = .ok ⟨kind, rest.length⟩) :
    tokensFrom read line (b :: rest ++ after) =
      tokensFrom ((kind.map fun kind => ⟨kind, lexemeOf (b :: rest), line⟩).toList ++ read)
        (line + newlines (b :: rest)) after := by
  rw [tokensFrom_eq_readFrom, List.cons_append, List.takeWhile_cons_of_neg (by simp [hblank]),
    List.dropWhile_cons_of_neg (by simp [hblank]), readFrom, h]
  dsimp only
  rw [List.take_left, List.drop_left]
  cases kind <;> rfl

/-- A line comment reaches up to its line feed or the end of the source. -/
theorem scanHead_line {body after : List UInt8} (hbody : code '\n' ∉ body)
    (hafter : ∀ b ∈ after.head?, b = code '\n') :
    scanHead (code '#') (body ++ after) = .ok ⟨none, body.length⟩ := by
  have hinside : ∀ b ∈ body, (b != code '\n') = true := fun b hb =>
    bne_iff_ne.mpr (ne_of_mem_of_not_mem hb hbody)
  have hstop : after.takeWhile (· != code '\n') = [] := by
    cases after with
    | nil => rfl
    | cons b after => simp [hafter b rfl]
  have hrun : (body ++ after).takeWhile (· != code '\n') = body := by
    rw [List.takeWhile_append_of_pos hinside, hstop, List.append_nil]
  unfold scanHead
  dsimp only
  rw [if_pos (beq_self_eq_true _), hrun]

/-- A block comment reaches up to its end mark. -/
theorem scanHead_block {body : List UInt8} (hbody : ¬[code '*', code '/'] <:+: body)
    (after : List UInt8) :
    scanHead (code '/') (code '*' :: (body ++ [code '*', code '/']) ++ after) =
      .ok ⟨none, (code '*' :: (body ++ [code '*', code '/'])).length⟩ := by
  have hlength : commentLength? (body ++ [code '*', code '/'] ++ after) =
      some (body.length + 2) := by
    rw [List.append_assoc]
    exact commentLength?_of_not_infix hbody after
  unfold scanHead
  dsimp only
  rw [if_neg (by decide), if_pos (by rfl), List.cons_append, List.drop_one, List.tail_cons,
    hlength]
  simp

/-- Reading passes a gap. An open gap must be all there is. -/
theorem tokensFrom_gap {ends : Bool} {gap rest : List UInt8} (h : Gap ends gap)
    (hrest : ends = true → rest = []) :
    tokensFrom read line (gap ++ rest) = tokensFrom read (line + newlines gap) rest := by
  induction h generalizing line with
  | nil => rfl
  | @blank ends b gap hb hgap ih =>
    rw [List.cons_append, tokensFrom_blank hb, ih hrest, Nat.add_assoc, ← newlines_append,
      List.singleton_append]
  | @line ends body gap hbody hgap ih =>
    have hsplit : code '#' :: (body ++ code '\n' :: gap) = code '#' :: body ++ [code '\n'] ++ gap := by
      simp
    have hscan : scanHead (code '#') (body ++ code '\n' :: (gap ++ rest)) =
        .ok ⟨none, body.length⟩ := scanHead_line hbody (by simp)
    calc tokensFrom read line (code '#' :: (body ++ code '\n' :: gap) ++ rest)
        = tokensFrom read line (code '#' :: body ++ code '\n' :: (gap ++ rest)) := by simp
      _ = tokensFrom read (line + newlines (code '#' :: body)) (code '\n' :: (gap ++ rest)) :=
        tokensFrom_head (by decide) hscan
      _ = tokensFrom read (line + newlines (code '#' :: body) + newlines [code '\n'] + newlines gap)
            rest := by rw [tokensFrom_blank (by decide), ih hrest]
      _ = _ := by simp only [hsplit, newlines_append, Nat.add_assoc]
  | @block ends body gap hbody hgap ih =>
    have hsplit : code '/' :: code '*' :: (body ++ code '*' :: code '/' :: gap) =
        code '/' :: code '*' :: (body ++ [code '*', code '/']) ++ gap := by simp
    have hhead := @tokensFrom_head read line _ _ _ _ (by decide)
      (scanHead_block hbody (gap ++ rest))
    rw [hsplit, List.append_assoc, hhead, newlines_append, ← Nat.add_assoc]
    exact ih hrest
  | @lastLine body hbody =>
    cases hrest rfl
    exact tokensFrom_head (by decide) (scanHead_line hbody (by simp))

/-- Reading goes on after the slice of a token, wherever the token is. -/
theorem tokensFrom_slice {kind : TokenKind} {slice old after : List UInt8}
    (h : Reads kind slice old) (hafter : EndsToken after) :
    tokensFrom read line (slice ++ after) =
      tokensFrom (⟨kind, lexemeOf slice, line⟩ :: read) (line + newlines slice) after := by
  obtain ⟨b, rest, rfl, hblank, hscan⟩ := h
  exact tokensFrom_head hblank (scanHead_append hafter (scanHead_truncate hscan))

/-- Separating gaps and what may stand at the end of a source end a token. -/
theorem endsToken_relaid {gaps : List (List UInt8)} {cuts : List Cut} {last : List UInt8}
    (hgaps : ∀ gap ∈ gaps, Separates gap) (hlast : EndsToken last) :
    EndsToken (relaid gaps cuts ++ last) := by
  match gaps, cuts with
  | [], _ => exact hlast
  | _ :: _, [] => exact hlast
  | gap :: gaps, cut :: cuts =>
    obtain ⟨-, b, hhead, hblank⟩ := hgaps gap List.mem_cons_self
    obtain ⟨rest, rfl⟩ := List.head?_eq_some_iff.mp hhead
    intro c hc
    cases hc
    exact hblank

/-- Slices with other gaps before them give the same tokens. -/
theorem tokensFrom_relaid {cuts : List Cut} {gaps : List (List UInt8)} {last : List UInt8}
    (hcuts : ∀ cut ∈ cuts, ∃ old, Reads cut.token.kind cut.slice old)
    (hlength : gaps.length = cuts.length) (hfirst : ∀ gap ∈ gaps.head?, Gap false gap)
    (hlater : ∀ gap ∈ gaps.tail, Separates gap) (hend : EndsToken last) (hlast : Gap true last) :
    ∃ tokens, tokensFrom read line (relaid gaps cuts ++ last) = .ok tokens ∧
      tokens.map content = read.reverse.map content ++
        (cuts.map fun cut => (cut.token.kind, lexemeOf cut.slice)) ++ [content (endOn line)] := by
  induction cuts generalizing gaps read line with
  | nil =>
    cases List.length_eq_zero_iff.mp hlength
    refine ⟨(endOn (line + newlines last) :: read).reverse, ?_, ?_⟩
    · have hgap := @tokensFrom_gap read line _ _ [] hlast fun _ => rfl
      rw [List.append_nil, tokensFrom_nil] at hgap
      exact hgap
    · simp [content, endOn]
  | cons cut cuts ih =>
    obtain ⟨hcut, hcuts⟩ := List.forall_mem_cons.mp hcuts
    obtain ⟨old, hreads⟩ := hcut
    match gaps, hlength with
    | gap :: gaps, hlength =>
      have hsplit : relaid (gap :: gaps) (cut :: cuts) ++ last =
          gap ++ (cut.slice ++ (relaid gaps cuts ++ last)) := by simp [relaid]
      have hseparate : ∀ gap ∈ gaps, Separates gap := hlater
      rw [hsplit, tokensFrom_gap (hfirst gap rfl) nofun,
        tokensFrom_slice hreads (endsToken_relaid hseparate hend)]
      obtain ⟨tokens, hread, hcontent⟩ := ih hcuts (Nat.succ.inj hlength)
        (fun gap hgap => (hseparate gap (List.mem_of_mem_head? hgap)).1)
        (fun gap hgap => hseparate gap (List.mem_of_mem_tail hgap))
      refine ⟨tokens, hread, hcontent.trans ?_⟩
      simp [content, endOn]

/-- Layout does not matter between tokens. The tokens of a source have slices that give the same
tokens, but for their lines, with any gaps that separate them. -/
theorem layout_irrelevant {source : List UInt8} {tokens : List Token}
    (h : ofSource source = .ok tokens) :
    ∃ cuts last, Tiles source cuts last ∧ Gap true last ∧
      tokens = cuts.map Cut.token ++ [endOn (1 + newlines source)] ∧
      ∀ gaps final, gaps.length = cuts.length → (∀ gap ∈ gaps.head?, Gap false gap) →
        (∀ gap ∈ gaps.tail, Separates gap) → EndsToken final → Gap true final →
        ∃ others, ofSource (relaid gaps cuts ++ final) = .ok others ∧
          others.map content = tokens.map content := by
  have haccount := accounts_of_ofSource source
  rw [h] at haccount
  obtain ⟨cuts, last, htiles, hlast, htokens⟩ := haccount
  refine ⟨cuts, last, htiles, hlast, htokens, fun gaps final hlength hfirst hlater hend hfinal => ?_⟩
  have hreads : ∀ cut ∈ cuts, ∃ old, Reads cut.token.kind cut.slice old := fun cut hcut => by
    obtain ⟨before, after, hsplit⟩ := List.append_of_mem hcut
    exact ⟨_, htiles.reads before cut after hsplit⟩
  obtain ⟨others, hothers, hcontent⟩ :=
    @tokensFrom_relaid [] 1 _ _ _ hreads hlength hfirst hlater hend hfinal
  refine ⟨others, hothers, ?_⟩
  rw [hcontent, htokens, List.map_append, List.map_map]
  refine congrArg₂ (· ++ ·) (List.map_congr_left fun cut hcut => ?_) rfl
  rw [Function.comp_apply, content, htiles.lexemes cut hcut]

/-- A source whose tokens stand without blanks between them. -/
def adjacentTokens : List UInt8 := "x==.5/**/-1.;#y".toList.map code

/-- The tokens of a source without blanks come back with a line feed and a comment before each. -/
theorem layout_irrelevant_of_adjacent :
    ∃ tokens, ofSource adjacentTokens = .ok tokens ∧ tokens.length = 8 ∧
      ∃ cuts others, tokens = cuts.map Cut.token ++ [endOn 1] ∧
        ofSource (relaid (List.replicate 7 ("\n/* */".toList.map code)) cuts ++ [code ' ']) =
          .ok others ∧ others.map content = tokens.map content := by
  have haccepted : ∃ tokens, ofSource adjacentTokens = .ok tokens ∧ tokens.length = 8 := by
    have hcount : (ofSource adjacentTokens).toOption.map List.length = some 8 := by decide +kernel
    obtain ⟨tokens, hsome, hlength⟩ := Option.map_eq_some_iff.mp hcount
    cases hread : ofSource adjacentTokens with
    | error error => rw [hread] at hsome; cases hsome
    | ok read => rw [hread] at hsome; cases hsome; exact ⟨_, rfl, hlength⟩
  obtain ⟨tokens, htokens, hlength⟩ := haccepted
  obtain ⟨cuts, last, -, -, hcuts, hlayouts⟩ := layout_irrelevant htokens
  have hgap : Separates ("\n/* */".toList.map code) :=
    ⟨.blank (by decide) (@Gap.block _ [code ' '] _ (by decide) .nil), by decide⟩
  have hgaps : ∀ gap ∈ List.replicate 7 ("\n/* */".toList.map code), Separates gap :=
    fun gap hgap' => List.eq_of_mem_replicate hgap' ▸ hgap
  have hcount : cuts.length = 7 := by simpa [hcuts] using hlength
  obtain ⟨others, hothers, hcontent⟩ := hlayouts (List.replicate 7 ("\n/* */".toList.map code))
    [code ' '] (by rw [hcount, List.length_replicate])
    (fun gap hhead => (hgaps gap (List.mem_of_mem_head? hhead)).1)
    (fun gap htail => hgaps gap (List.mem_of_mem_tail htail)) (fun b hb => by cases hb; rfl)
    (.blank (by decide) .nil)
  exact ⟨tokens, htokens, hlength, cuts, others, hcuts, hothers, hcontent⟩

end Token

end DecimalScript
