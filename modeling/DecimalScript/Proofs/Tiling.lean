import DecimalScript.Proofs.Lexemes

/-!
# Tokens tile the source

Reading keeps an account of the bytes it has passed: the slices of the tokens so far, the gap
before each of them, and a gap that is not closed yet, because a line comment ends before its
line feed. At the end, or where a construct is refused, that account covers the whole source.
-/

namespace DecimalScript

namespace Token

theorem newlines_append (first second : List UInt8) :
    newlines (first ++ second) = newlines first + newlines second := List.count_append

/-- Where a run of bytes of a class ends, a byte of another class follows. -/
theorem not_blank_of_dropWhile {bytes rest : List UInt8} {b : UInt8}
    (h : bytes.dropWhile Text.isBlankByte = b :: rest) : Text.isBlankByte b = false := by
  have hstop := List.head?_dropWhile_not Text.isBlankByte bytes
  rwa [h] at hstop

theorem drop_length_takeWhile (p : UInt8 → Bool) (bytes : List UInt8) :
    bytes.drop (bytes.takeWhile p).length = bytes.dropWhile p := by
  have hdrop : (bytes.takeWhile p ++ bytes.dropWhile p).drop (bytes.takeWhile p).length =
      bytes.dropWhile p := List.drop_left
  rwa [List.takeWhile_append_dropWhile] at hdrop

/-! ### Gaps -/

theorem Gap.append {sourceEnds : Bool} {first second : List UInt8} (hfirst : Gap false first)
    (hsecond : Gap sourceEnds second) : Gap sourceEnds (first ++ second) := by
  generalize hends : false = ends at hfirst
  induction hfirst with
  | nil => exact hsecond
  | blank hb _ ih => exact .blank hb (ih hends)
  | line hbody _ ih =>
    simp only [List.cons_append, List.append_assoc]
    exact .line hbody (ih hends)
  | block hbody _ ih =>
    simp only [List.cons_append, List.append_assoc]
    exact .block hbody (ih hends)
  | lastLine => cases hends

/-- A line feed closes a line comment. -/
theorem Gap.append_newline {ends sourceEnds : Bool} {first second : List UInt8}
    (hfirst : Gap ends first) (hsecond : Gap sourceEnds second) :
    Gap sourceEnds (first ++ code '\n' :: second) := by
  induction hfirst with
  | nil => exact .blank (by decide) hsecond
  | blank hb _ ih => exact .blank hb ih
  | line hbody _ ih =>
    simp only [List.cons_append, List.append_assoc]
    exact .line hbody ih
  | block hbody _ ih =>
    simp only [List.cons_append, List.append_assoc]
    exact .block hbody ih
  | lastLine hbody => exact .line hbody hsecond

/-- Blank bytes are a gap. -/
theorem Gap.of_blank {sourceEnds : Bool} {bytes : List UInt8}
    (h : ∀ b ∈ bytes, Text.isBlankByte b = true) : Gap sourceEnds bytes := by
  induction bytes with
  | nil => exact .nil
  | cons b bytes ih =>
    obtain ⟨hb, hbytes⟩ := List.forall_mem_cons.mp h
    exact .blank hb (ih hbytes)

/-- A gap that reading has passed: if it is not closed, a line feed or the end follows. -/
def Passed (gap rest : List UInt8) : Prop :=
  Gap true gap ∧ (Gap false gap ∨ ∀ b ∈ rest.head?, b = code '\n')

/-- Blank bytes continue a gap, and close it if the source goes on after them. -/
theorem Passed.blanks {gap bytes : List UInt8} (h : Passed gap bytes) :
    Gap true (gap ++ bytes.takeWhile Text.isBlankByte) ∧
      (bytes.dropWhile Text.isBlankByte ≠ [] →
        Gap false (gap ++ bytes.takeWhile Text.isBlankByte)) := by
  obtain ⟨hgap, hclosed | hline⟩ := h
  · have hblanks : ∀ ends, Gap ends (bytes.takeWhile Text.isBlankByte) :=
      fun _ => .of_blank fun b hb => List.mem_takeWhile_imp hb
    exact ⟨hclosed.append (hblanks true), fun _ => hclosed.append (hblanks false)⟩
  · cases bytes with
    | nil =>
      refine ⟨by simpa using hgap, fun hmore => absurd rfl hmore⟩
    | cons b bytes =>
      cases hline b rfl
      have hblanks : ∀ ends, Gap ends (bytes.takeWhile Text.isBlankByte) :=
        fun _ => .of_blank fun b hb => List.mem_takeWhile_imp hb
      rw [List.takeWhile_cons_of_pos (by decide)]
      exact ⟨hgap.append_newline (hblanks true), fun _ => hgap.append_newline (hblanks false)⟩

/-- A comment continues a closed gap. -/
theorem passed_of_scanHead {gap : List UInt8} {b : UInt8} {rest : List UInt8} {extra : Nat}
    (hgap : Gap false gap) (h : scanHead b rest = .ok ⟨none, extra⟩) :
    Passed (gap ++ b :: rest.take extra) (rest.drop extra) := by
  rcases comment_of_scanHead h with ⟨rfl, rfl⟩ | ⟨rfl, body, after, rfl, hbody, rfl⟩
  · have hbody : code '\n' ∉ rest.takeWhile (· != code '\n') := fun hmem => by
      simpa using List.mem_takeWhile_imp hmem
    rw [← List.prefix_iff_eq_take.mp (List.takeWhile_prefix _), drop_length_takeWhile]
    refine ⟨hgap.append (.lastLine hbody), .inr fun b hb => ?_⟩
    have hstop := List.head?_dropWhile_not (· != code '\n') rest
    rw [Option.mem_def.mp hb] at hstop
    simpa using hstop
  · have hblock : ∀ ends, Gap ends (code '/' :: code '*' :: (body ++ [code '*', code '/'])) :=
      fun _ => .block hbody .nil
    have hsplit : code '*' :: (body ++ code '*' :: code '/' :: after) =
        (code '*' :: (body ++ [code '*', code '/'])) ++ after := by simp
    have hlength : (code '*' :: (body ++ [code '*', code '/'])).length = body.length + 3 := by simp
    rw [hsplit, ← hlength, List.take_left, List.drop_left]
    exact ⟨hgap.append (hblock true), .inl (hgap.append (hblock false))⟩

/-! ### The account -/

/-- How an outcome of reading accounts for a source. Tokens and gaps make up an accepted source;
they make up a rejected one up to the construct with the fault. -/
def Accounts (source : List UInt8) : Except LexicalError (List Token) → Prop
  | .ok tokens => ∃ cuts last, Tiles source cuts last ∧ Gap true last ∧
      tokens = cuts.map Cut.token ++ [endOn (1 + newlines source)]
  | .error error => ∃ cuts gap construct, Tiles source cuts (gap ++ construct) ∧ Gap false gap ∧
      error.fault.StartsAt construct ∧
      error.line = 1 + newlines (cuts.flatMap Cut.bytes ++ gap)

/-- What is read of a slice is one token. -/
theorem reads_of_scanHead {b : UInt8} {rest : List UInt8} {kind : TokenKind} {extra : Nat}
    (hblank : Text.isBlankByte b = false) (h : scanHead b rest = .ok ⟨some kind, extra⟩) :
    Reads kind (b :: rest.take extra) (rest.drop extra) := by
  refine ⟨b, rest.take extra, rfl, hblank, ?_⟩
  rw [List.take_append_drop, List.length_take_of_le (extra_le_of_scanHead h)]
  exact h

/-- One more token is accounted for. -/
theorem Tiles.snoc {source gap slice after : List UInt8} {cuts : List Cut} {kind : TokenKind}
    (h : Tiles source cuts (gap ++ slice ++ after)) (hgap : Gap false gap)
    (hreads : Reads kind slice after) :
    Tiles source (cuts ++ [⟨gap, slice, kind, lexemeOf slice,
      1 + newlines (cuts.flatMap Cut.bytes ++ gap)⟩]) after := by
  -- The last cut of the longer list is the new one; any earlier cut has the new bytes behind it.
  have hsplits : ∀ (new : Cut) (before : List Cut) (cut : Cut) (later : List Cut),
      cuts ++ [new] = before ++ cut :: later →
        (before = cuts ∧ cut = new ∧ later = []) ∨
          ∃ between, cuts = before ++ cut :: between ∧ later = between ++ [new] := by
    intro new before cut later hcut
    rcases List.eq_nil_or_concat later with rfl | ⟨between, last, rfl⟩
    · obtain ⟨rfl, hlast⟩ := List.append_inj' hcut rfl
      cases hlast
      exact .inl ⟨rfl, rfl, rfl⟩
    · rw [List.concat_eq_append, ← List.cons_append, ← List.append_assoc] at hcut
      obtain ⟨rfl, hlast⟩ := List.append_inj' hcut rfl
      cases hlast
      exact .inr ⟨between, rfl, List.concat_eq_append⟩
  refine ⟨?_, ?_, fun before cut later hcut => ?_, ?_, fun before cut later hcut => ?_⟩
  · rw [h.bytes]
    simp [Cut.bytes]
  · intro cut hcut
    rcases List.mem_append.mp hcut with hold | hnew
    · exact h.gaps cut hold
    · cases List.mem_singleton.mp hnew
      exact hgap
  · rcases hsplits _ before cut later hcut with ⟨rfl, rfl, rfl⟩ | ⟨between, hold, rfl⟩
    · exact hreads
    · have hread := h.reads before cut between hold
      simpa [Cut.bytes] using hread
  · intro cut hcut
    rcases List.mem_append.mp hcut with hold | hnew
    · exact h.lexemes cut hold
    · cases List.mem_singleton.mp hnew
      rfl
  · rcases hsplits _ before cut later hcut with ⟨rfl, rfl, rfl⟩ | ⟨between, hold, rfl⟩
    · rfl
    · exact h.lines before cut between hold

/-- Reading on from an account of what was read accounts for the source. -/
theorem accounts_of_tokensFrom {source gap bytes : List UInt8} {cuts : List Cut}
    {read : List Token} {line : Nat} (htiles : Tiles source cuts (gap ++ bytes))
    (hgap : Passed gap bytes) (hread : read = (cuts.map Cut.token).reverse)
    (hline : line = 1 + newlines (cuts.flatMap Cut.bytes ++ gap)) :
    Accounts source (tokensFrom read line bytes) := by
  fun_induction tokensFrom read line bytes generalizing cuts gap with
  | case1 read line bytes here =>
    rename_i hend
    have hbytes := List.takeWhile_append_dropWhile (p := Text.isBlankByte) (l := bytes)
    rw [hend, List.append_nil] at hbytes
    have hlast := hgap.blanks.1
    rw [hbytes] at hlast
    refine ⟨cuts, gap ++ bytes, htiles, hlast, ?_⟩
    have hhere : here = 1 + newlines source := by
      simp only [here, hbytes, hline, htiles.bytes, newlines_append]
      omega
    rw [hhere, hread, List.reverse_cons, List.reverse_reverse]
  | case2 read line bytes here b rest hsplit fault =>
    rename_i hscan
    have hbytes := List.takeWhile_append_dropWhile (p := Text.isBlankByte) (l := bytes)
    rw [hsplit] at hbytes
    rw [← hbytes, ← List.append_assoc] at htiles
    refine ⟨cuts, _, b :: rest, htiles, hgap.blanks.2 (by simp [hsplit]),
      startsAt_of_scanHead (not_blank_of_dropWhile hsplit) hscan, ?_⟩
    simp only [here, hline, newlines_append]
    omega
  | case3 read line bytes here b rest hsplit scanned hscan slice =>
    rename_i next ih
    have hbytes := List.takeWhile_append_dropWhile (p := Text.isBlankByte) (l := bytes)
    have hrest : rest = rest.take scanned.extra ++ rest.drop scanned.extra :=
      (List.take_append_drop _ _).symm
    have hclosed := hgap.blanks.2 (by simp [hsplit])
    rw [hsplit] at hbytes
    obtain ⟨_ | kind, extra⟩ := scanned
    · have hnext : Tiles source cuts (gap ++ bytes.takeWhile Text.isBlankByte ++ slice ++
          rest.drop extra) := by
        rw [← hbytes] at htiles
        simpa [slice] using htiles
      refine ih hnext (passed_of_scanHead hclosed hscan) hread ?_
      simp only [here, hline, newlines_append]
      omega
    · rw [← hbytes] at htiles
      have hslice : Tiles source cuts ((gap ++ bytes.takeWhile Text.isBlankByte) ++ slice ++
          rest.drop extra) := by simpa [slice] using htiles
      have hsnoc := hslice.snoc hclosed (reads_of_scanHead (not_blank_of_dropWhile hsplit) hscan)
      have hhere : here = 1 + newlines (cuts.flatMap Cut.bytes ++
          (gap ++ bytes.takeWhile Text.isBlankByte)) := by
        simp only [here, hline, newlines_append]
        omega
      refine ih (show Tiles source _ ([] ++ _) from hsnoc) ⟨.nil, .inl .nil⟩ ?_ ?_
      · simp only [next, hread, hhere, slice, List.map_append, List.map_cons, List.map_nil,
          List.reverse_append, List.reverse_singleton, List.singleton_append]
      · rw [hhere, List.append_nil, List.flatMap_append, List.flatMap_singleton, Cut.bytes]
        simp only [newlines_append]
        omega

/-- Reading accounts for every source. -/
theorem accounts_of_ofSource (source : List UInt8) : Accounts source (ofSource source) := by
  have hstart : Tiles source [] ([] ++ source) :=
    ⟨rfl, by simp, by simp, by simp, by simp⟩
  exact accounts_of_tokensFrom hstart ⟨.nil, .inl .nil⟩ rfl rfl

/-- Tokens tile the source: an accepted source consists of the slices of its tokens, in order, and
of gaps; each token has the line on which its slice starts and the end marker has the last line. A
rejected source is tiled up to the construct with the fault, whose first byte has the line of the
error. -/
theorem tokens_tile_source (source : List UInt8) :
    match ofSource source with
    | .ok tokens => ∃ cuts last, Tiles source cuts last ∧ Gap true last ∧
        tokens = cuts.map Cut.token ++ [endOn (1 + newlines source)]
    | .error error => ∃ cuts gap construct, Tiles source cuts (gap ++ construct) ∧
        Gap false gap ∧ error.fault.StartsAt construct ∧
        error.line = 1 + newlines (cuts.flatMap Cut.bytes ++ gap) :=
  accounts_of_ofSource source

end Token

end DecimalScript
