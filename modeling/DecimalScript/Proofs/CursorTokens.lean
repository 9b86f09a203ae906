import DecimalScript.Proofs.Encoding
import DecimalScript.Proofs.ReadingPrograms
import DecimalScript.Proofs.Tiling
import DecimalScript.Proofs.TokenRules
import DecimalScript.Token.Cursor

/-!
# Reading by position stays within the source

What a reader does at a position is a matter of the bytes ahead of it. So each loop ends where the
corresponding run of these bytes ends, and each rule takes the bytes that it takes without
positions. The one position that may come to stand behind the end is not used for an access.
-/

namespace DecimalScript

namespace Token

namespace Cursor

/-- The bytes of a source from a position on, which may be its end. -/
def Ahead (source : List UInt8) (position : Nat) (bytes : List UInt8) : Prop :=
  ∃ before : List UInt8, before.length = position ∧ before ++ bytes = source

namespace Ahead

variable {source bytes first rest : List UInt8} {position : Nat} {b : UInt8}

/-- At the start, the whole source is ahead. -/
theorem start (source : List UInt8) : Ahead source 0 source := ⟨[], rfl, rfl⟩

/-- A source is as long as its position and what is ahead. -/
theorem length_eq (h : Ahead source position bytes) : source.length = position + bytes.length := by
  obtain ⟨before, rfl, rfl⟩ := h
  exact List.length_append

/-- A position moves on over some bytes. -/
theorem skip (h : Ahead source position (first ++ rest)) :
    Ahead source (position + first.length) rest := by
  obtain ⟨before, rfl, rfl⟩ := h
  exact ⟨before ++ first, List.length_append, List.append_assoc _ _ _⟩

/-- One byte further, what is ahead is one byte shorter. -/
theorem tail (h : Ahead source position (b :: rest)) : Ahead source (position + 1) rest := by
  have hfirst : Ahead source position ([b] ++ rest) := h
  exact hfirst.skip

/-- The byte at a position is the first one ahead. -/
theorem byteAt_eq (h : Ahead source position (b :: rest)) : byteAt source position = .ok b := by
  obtain ⟨before, rfl, rfl⟩ := h
  simp [byteAt]

/-- The rest of the source is what is ahead. -/
theorem suffixAt_eq (h : Ahead source position bytes) : suffixAt source position = .ok bytes := by
  obtain ⟨before, rfl, rfl⟩ := h
  simp [suffixAt]

/-- A slice from a position is the start of what is ahead. -/
theorem slice_eq (h : Ahead source position bytes) {length : Nat} (hlength : length ≤ bytes.length) :
    slice source position (position + length) = .ok (bytes.take length) := by
  have hwithin : position + length ≤ source.length := by
    rw [h.length_eq]
    omega
  obtain ⟨before, rfl, rfl⟩ := h
  rw [slice, if_pos ⟨Nat.le_add_right _ _, hwithin⟩, List.drop_left, Nat.add_sub_cancel_left]

end Ahead

variable {source bytes rest : List UInt8} {position line : Nat} {b : UInt8}

/-! ### The loops -/

/-- A loop over a class of bytes ends where nothing is ahead. -/
theorem runEnd_at_end (p : UInt8 → Bool) (h : Ahead source position []) :
    runEnd p source position = .ok position := by
  have hlength := h.length_eq
  rw [List.length_nil] at hlength
  rw [runEnd, if_neg (by omega)]
  rfl

/-- At a byte it goes on if that is of the class. -/
theorem runEnd_at_byte (p : UInt8 → Bool) (h : Ahead source position (b :: rest)) :
    runEnd p source position = if p b then runEnd p source (position + 1) else .ok position := by
  have hlength := h.length_eq
  rw [List.length_cons] at hlength
  rw [runEnd, if_pos (by omega), h.byteAt_eq]
  rfl

/-- A loop over a class of bytes ends where their run ends. -/
theorem runEnd_eq (p : UInt8 → Bool) (h : Ahead source position bytes) :
    runEnd p source position = .ok (position + (bytes.takeWhile p).length) := by
  induction bytes generalizing position with
  | nil => exact runEnd_at_end p h
  | cons b rest ih =>
    rw [runEnd_at_byte p h]
    by_cases hb : p b = true
    · rw [if_pos hb, ih h.tail, List.takeWhile_cons_of_pos hb, List.length_cons, Nat.add_assoc,
        Nat.add_comm 1]
    · rw [if_neg hb, List.takeWhile_cons_of_neg hb]
      rfl

/-- A loop over a string literal ends behind the source. -/
theorem literalEnd_behind (h : source.length ≤ position) :
    literalEnd source position = .ok position := by
  rw [literalEnd, if_neg (by omega)]
  rfl

/-- At a byte it ends with a quote and steps over what a backslash is before. -/
theorem literalEnd_at_byte (h : Ahead source position (b :: rest)) :
    literalEnd source position =
      if b == code '\x22' then .ok position
      else if b == code '\\' then literalEnd source (position + 2)
      else literalEnd source (position + 1) := by
  have hlength := h.length_eq
  rw [List.length_cons] at hlength
  rw [literalEnd, if_pos (by omega), h.byteAt_eq]
  rfl

/-- What a loop over a string literal finds: its closing quote, or no byte to read. -/
def FindsQuote (source : List UInt8) (position : Nat) (bytes : List UInt8) (stop : Nat) : Prop :=
  match literalLength? bytes with
  | some length => stop = position + length
  | none => source.length ≤ stop

/-- What is found later on is found from earlier, if nothing between them ends the literal. -/
theorem FindsQuote.earlier {passed stop : Nat} (h : FindsQuote source (position + passed) rest stop)
    (hlength : literalLength? bytes = (literalLength? rest).map (· + passed)) :
    FindsQuote source position bytes stop := by
  unfold FindsQuote at h ⊢
  rw [hlength]
  cases hrest : literalLength? rest with
  | none =>
    rw [hrest] at h
    exact h
  | some length =>
    rw [hrest] at h
    simp only [Option.map_some]
    omega

/-- A loop over a string literal ends, though it may step over the end of the source. -/
theorem literalEnd_eq (h : Ahead source position bytes) :
    ∃ stop, literalEnd source position = .ok stop ∧ FindsQuote source position bytes stop := by
  fun_induction literalLength? bytes generalizing position with
  | case1 =>
    have hend : source.length ≤ position := h.length_eq.le
    exact ⟨position, literalEnd_behind hend, hend⟩
  | case2 b rest hquote =>
    refine ⟨position, ?_, ?_⟩
    · rw [literalEnd_at_byte h, if_pos hquote]
    · rw [FindsQuote, eq_of_beq hquote, literalLength?_quote]
      rfl
  | case3 b hquote hescape =>
    have hbehind : source.length ≤ position + 2 := h.length_eq.trans_le (by simp)
    refine ⟨position + 2, ?_, ?_⟩
    · rw [literalEnd_at_byte h, if_neg hquote, if_pos hescape]
      exact literalEnd_behind hbehind
    · have hnone : literalLength? [b] = none := by
        rw [literalLength?, if_neg hquote, if_pos hescape]
      rw [FindsQuote, hnone]
      exact hbehind
  | case4 b hquote hescape c rest ih =>
    obtain ⟨stop, hstop, hfinds⟩ := ih h.tail.tail
    have hlater : FindsQuote source (position + 2) rest stop := hfinds
    refine ⟨stop, ?_, hlater.earlier ?_⟩
    · rw [literalEnd_at_byte h, if_neg hquote, if_pos hescape]
      exact hstop
    · rw [eq_of_beq hescape]
      exact literalLength?_escape c rest
  | case5 b rest hquote hescape ih =>
    obtain ⟨stop, hstop, hfinds⟩ := ih h.tail
    refine ⟨stop, ?_, hfinds.earlier (literalLength?_plain hquote hescape rest)⟩
    rw [literalEnd_at_byte h, if_neg hquote, if_neg hescape]
    exact hstop

/-! ### The rules -/

/-- What a rule by position gives if the rule without positions gives this: the same token or
comment up to a position behind it, or the same fault on a line. -/
def located (position line : Nat) : Except LexicalFault Scanned → Except Halt (Nat × Piece)
  | .error fault => .error (.fault ⟨fault, line⟩)
  | .ok ⟨none, extra⟩ => .ok (position + 1 + extra, .comment)
  | .ok ⟨some kind, extra⟩ => .ok (position + 1 + extra, .token kind)

/-- A fraction is at a position if digits follow a point there. -/
theorem fractionAt_eq (h : Ahead source position bytes) :
    fractionAt source position = .ok (fractionLength bytes != 0) := by
  have hlength := h.length_eq
  match bytes with
  | [] | [_] =>
    rw [fractionAt, if_neg (by simp at hlength; omega)]
    rfl
  | b :: d :: rest =>
    rw [fractionAt, if_pos (by simp at hlength; omega), h.byteAt_eq, h.tail.byteAt_eq]
    show (if (b == code '.') = true then Except.ok (isDigitByte d) else .ok false) = _
    unfold fractionLength
    by_cases hpoint : (b == code '.') = true
    · cases hdigit : isDigitByte d <;> simp [hpoint, hdigit]
    · simp [hpoint]

/-- A symbol of two bytes is at a position if it starts what is ahead. -/
theorem pairAt_eq (h : Ahead source position bytes) :
    pairAt source position = .ok (pairSymbol? bytes) := by
  have hlength := h.length_eq
  match bytes with
  | [] | [_] =>
    rw [pairAt, if_neg (by simp at hlength; omega)]
    rfl
  | b :: d :: rest =>
    rw [pairAt, if_pos (by simp at hlength; omega), h.slice_eq (by simp)]
    rfl

/-- A number ends behind its digits and its fraction. -/
theorem numberEnd_eq (h : Ahead source position bytes) :
    numberEnd source position = .ok (position + numberLength bytes) := by
  have hafter : Ahead source (position + (bytes.takeWhile isDigitByte).length)
      (bytes.drop (bytes.takeWhile isDigitByte).length) := by
    rw [drop_length_takeWhile]
    apply Ahead.skip
    rwa [List.takeWhile_append_dropWhile]
  rw [numberEnd, runEnd_eq isDigitByte h, numberLength]
  show (fractionAt source _ >>= fun fraction => _) = _
  rw [fractionAt_eq hafter]
  show (if (_ != 0) = true then _ else _) = _
  by_cases hfraction : fractionLength (bytes.drop (bytes.takeWhile isDigitByte).length) = 0
  · rw [if_neg (by simpa using hfraction), hfraction]
    rfl
  · obtain ⟨rest, hpoint, hlength⟩ := fractionLength_eq hfraction
    rw [hpoint] at hafter
    rw [if_pos (by simpa using hfraction), hlength, runEnd_eq isDigitByte hafter.tail, ← Nat.add_assoc,
      ← Nat.add_assoc]

/-- A string literal at a position is the one that what is ahead starts with. -/
theorem textAt_eq (h : Ahead source position (b :: rest)) :
    textAt source position line = located position line (scanText rest) := by
  obtain ⟨stop, hstop, hfinds⟩ := literalEnd_eq h.tail
  unfold textAt scanText
  rw [hstop]
  show (if source.length ≤ stop then _ else _) = _
  unfold FindsQuote at hfinds
  cases hlength : literalLength? rest with
  | none =>
    rw [hlength] at hfinds
    rw [if_pos hfinds]
    rfl
  | some length =>
    rw [hlength] at hfinds
    have hlt := literalLength?_lt hlength
    have hwithin : ¬source.length ≤ stop := by
      rw [h.tail.length_eq, hfinds]
      omega
    rw [if_neg hwithin, hfinds, h.tail.slice_eq hlt.le]
    dsimp only [bind, Except.bind]
    cases Text.unescape? (Text.decodeLossy (rest.take length)) with
    | none => rfl
    | some value => rfl

/-- So is a number. -/
theorem numberAt_eq (h : Ahead source position bytes) (hnumber : numberLength bytes ≠ 0) :
    numberAt source position line = located position line (scanNumber bytes) := by
  unfold numberAt scanNumber
  rw [numberEnd_eq h]
  show (slice source _ _ >>= fun raw => _) = _
  rw [h.slice_eq (numberLength_le bytes)]
  dsimp only [bind, Except.bind]
  cases Number.ofDigits? (Text.decodeLossy (bytes.take (numberLength bytes))) with
  | none => rfl
  | some value =>
    have hlength : position + numberLength bytes = position + 1 + (numberLength bytes - 1) := by
      omega
    rw [hlength]
    rfl

/-- A name at a position is the longest run of its bytes. -/
theorem nameAt_eq (h : Ahead source position (b :: rest)) :
    nameAt source position =
      .ok (position + 1 + (rest.takeWhile isNameByte).length,
        .token (nameKind (Text.stringLossy
          ((b :: rest).take ((rest.takeWhile isNameByte).length + 1))))) := by
  have hle := (List.takeWhile_prefix isNameByte (l := rest)).length_le
  have hslice := h.slice_eq (Nat.succ_le_succ hle)
  rw [nameAt, runEnd_eq isNameByte h.tail]
  show (slice source _ _ >>= fun name => _) = _
  rw [Nat.add_assoc, Nat.add_comm 1, hslice]
  rfl

/-- A digit is no symbol. -/
theorem singleSymbol?_of_digit (h : isDigitByte b = true) : singleSymbol? b = none := by
  have hnone : Symbol.singles.find? (fun single => b == code single.1) = none := by
    refine List.find?_eq_none.mpr fun single hsingle heq => ?_
    have hdigit : ∀ single ∈ Symbol.singles, isDigitByte (code single.1) = false := by decide
    rw [eq_of_beq heq, hdigit single hsingle] at h
    cases h
  exact congrArg (Option.map Prod.snd) hnone

/-- A number starts with no quote. -/
theorem not_quote_of_number (h : (isDigitByte b || fractionLength (b :: rest) != 0) = true) :
    (b == code '\x22') = false := by
  rw [beq_eq_false_iff_ne]
  rintro rfl
  rcases digit_or_dot_of_startsNumber h with hdigit | hdot
  · cases hdigit
  · cases hdot

/-- Where no number starts, symbols come before literals and names; a number starts with no symbol
and no quote. -/
theorem plainPieceAt_eq (h : Ahead source position (b :: rest)) :
    plainPieceAt source position line = located position line
      (if isDigitByte b || fractionLength (b :: rest) != 0 then scanNumber (b :: rest)
      else
        match singleSymbol? b with
        | some symbol => .ok ⟨some (.symbol symbol), 0⟩
        | none =>
          if b == code '\x22' then scanText rest
          else if isNameStart b then
            let length := (rest.takeWhile isNameByte).length
            .ok ⟨some (nameKind (Text.stringLossy ((b :: rest).take (length + 1)))), length⟩
          else .error (.strayByte b)) := by
  unfold plainPieceAt
  rw [h.byteAt_eq, fractionAt_eq h]
  dsimp only [bind, Except.bind]
  by_cases hnumber : (isDigitByte b || fractionLength (b :: rest) != 0) = true
  · have hsymbol : (if (fractionLength (b :: rest) != 0) = true then none else singleSymbol? b) =
        none := by
      split
      · rfl
      · rename_i hfraction
        rw [Bool.or_eq_true] at hnumber
        exact singleSymbol?_of_digit (hnumber.resolve_right hfraction)
    rw [hsymbol, if_pos hnumber]
    dsimp only
    rw [not_quote_of_number hnumber, if_neg (by decide), if_pos hnumber]
    exact numberAt_eq h (startsNumber_iff.mp hnumber)
  · have hplain := hnumber
    rw [Bool.or_eq_true, not_or] at hplain
    rw [if_neg hplain.2, if_neg hnumber, if_neg hnumber]
    cases singleSymbol? b with
    | some symbol => rfl
    | none =>
      dsimp only
      by_cases hquote : (b == code '\x22') = true
      · rw [if_pos hquote, if_pos hquote]
        exact textAt_eq h
      rw [if_neg hquote, if_neg hquote]
      by_cases hname : isNameStart b = true
      · rw [if_pos hname, if_pos hname]
        exact nameAt_eq h
      · rw [if_neg hname, if_neg hname]
        rfl

/-- The rule for what starts at a position is the rule for what the bytes ahead start with. -/
theorem pieceAt_eq (h : Ahead source position (b :: rest)) :
    pieceAt source position line = located position line (scanHead b rest) := by
  have hmark : [code '/', code '*'].isPrefixOf (b :: rest) =
      (b == code '/' && rest.head? == some (code '*')) := by
    cases rest with
    | nil => simp [List.isPrefixOf]
    | cons c rest => simp [List.isPrefixOf, BEq.comm]
  have hpath : startsPath (b :: rest) = true → isPathByte b = true := by
    intro hstarts
    have hdot : isPathByte (code '.') = true := by decide
    cases rest with
    | nil => cases hstarts
    | cons c rest =>
      simp only [startsPath, Bool.and_eq_true, beq_iff_eq] at hstarts
      rw [hstarts.1, hdot]
  unfold pieceAt scanHead
  rw [h.suffixAt_eq, h.byteAt_eq]
  show (if (b == code '#') = true then _ else _) = _
  by_cases hhash : (b == code '#') = true
  · have hfirst : (b != code '\n') = true := by
      rw [eq_of_beq hhash]
      decide
    rw [if_pos hhash, if_pos hhash, List.takeWhile_cons_of_pos (p := (· != code '\n')) hfirst,
      List.length_cons, Nat.add_comm _ 1, ← Nat.add_assoc]
    rfl
  rw [if_neg hhash, if_neg hhash, hmark]
  by_cases hcomment : (b == code '/' && rest.head? == some (code '*')) = true
  · rw [if_pos hcomment, if_pos hcomment]
    obtain ⟨after, rfl⟩ := List.head?_eq_some_iff.mp (eq_of_beq ((Bool.and_eq_true _ _).mp hcomment).2)
    rw [h.tail.tail.suffixAt_eq]
    dsimp only [bind, Except.bind]
    rw [List.drop_one, List.tail_cons]
    cases commentLength? after with
    | none => rfl
    | some length =>
      dsimp only [located]
      rw [Nat.add_assoc, Nat.add_assoc, Nat.add_comm length, ← Nat.add_assoc 1]
      rfl
  rw [if_neg hcomment, if_neg hcomment]
  by_cases hstarts : startsPath (b :: rest) = true
  · have hle := (List.takeWhile_prefix isPathByte (l := rest)).length_le
    have hslice := h.slice_eq (Nat.succ_le_succ hle)
    rw [if_pos hstarts, if_pos hstarts, List.takeWhile_cons_of_pos (hpath hstarts), List.length_cons]
    dsimp only [located]
    rw [hslice, Nat.add_assoc, Nat.add_comm 1]
    rfl
  rw [if_neg hstarts, if_neg hstarts, pairAt_eq h]
  dsimp only [bind, Except.bind]
  cases pairSymbol? (b :: rest) with
  | some symbol => rfl
  | none => exact plainPieceAt_eq h

/-! ### The rounds -/

/-- Where only blanks are ahead, the next piece is the end of the source. -/
theorem nextPiece_of_blank (h : bytes.dropWhile Text.isBlankByte = []) :
    nextPiece bytes line = .ok (bytes.length, .sourceEnd) := by
  have hall : bytes.takeWhile Text.isBlankByte = bytes := by
    have hsplit := List.takeWhile_append_dropWhile (p := Text.isBlankByte) (l := bytes)
    rwa [h, List.append_nil] at hsplit
  unfold nextPiece
  rw [hall]
  dsimp only
  rw [if_pos (beq_self_eq_true _)]
  rfl

/-- A round reads blank bytes and what the next rule reads. -/
theorem nextPiece_of_byte (h : bytes.dropWhile Text.isBlankByte = b :: rest) :
    nextPiece bytes line =
      located (bytes.takeWhile Text.isBlankByte).length
        (line + newlines (bytes.takeWhile Text.isBlankByte)) (scanHead b rest) := by
  have hsplit := List.takeWhile_append_dropWhile (p := Text.isBlankByte) (l := bytes)
  rw [h] at hsplit
  have hhere : Ahead bytes (bytes.takeWhile Text.isBlankByte).length (b :: rest) := ⟨_, rfl, hsplit⟩
  have hbyte : ((bytes.takeWhile Text.isBlankByte).length == bytes.length) = false := by
    rw [beq_eq_false_iff_ne, hhere.length_eq, List.length_cons]
    omega
  have hlength : (bytes.takeWhile Text.isBlankByte).length ≤ bytes.length :=
    (List.takeWhile_prefix _).length_le
  have hblanks := (Ahead.start bytes).slice_eq hlength
  rw [Nat.zero_add, ← List.prefix_iff_eq_take.mp (List.takeWhile_prefix _)] at hblanks
  unfold nextPiece
  dsimp only
  rw [hbyte, hblanks]
  exact pieceAt_eq hhere

/-- Each round but the last one reads at least one byte. -/
theorem nextPiece_progress {count : Nat} {piece : Piece}
    (h : nextPiece bytes line = .ok (count, piece)) : piece = .sourceEnd ∨ 0 < count := by
  match hsplit : bytes.dropWhile Text.isBlankByte with
  | [] =>
    rw [nextPiece_of_blank hsplit] at h
    cases h
    exact .inl rfl
  | b :: rest =>
    rw [nextPiece_of_byte hsplit] at h
    match hscan : scanHead b rest with
    | .error fault =>
      rw [hscan] at h
      cases h
    | .ok ⟨none, extra⟩ | .ok ⟨some kind, extra⟩ =>
      rw [hscan] at h
      cases h
      right
      omega

/-- Blank bytes before the bytes of a token are not part of its text. -/
theorem lexemeOf_append {blanks : List UInt8} (h : ∀ b ∈ blanks, Text.isBlankByte b = true)
    (bytes : List UInt8) : lexemeOf (blanks ++ bytes) = lexemeOf bytes := by
  induction blanks with
  | nil => rfl
  | cons b blanks ih =>
    obtain ⟨hb, hblanks⟩ := List.forall_mem_cons.mp h
    obtain ⟨hascii, hspace⟩ := Text.ascii_of_blank hb
    rw [← ih hblanks, lexemeOf, lexemeOf, List.cons_append, Text.decodeLossy_cons hascii, Text.trim,
      Text.trim, List.dropWhile_cons_of_pos hspace]

/-- The bytes that a round passes: a gap of blank bytes, and those of the rule after it. -/
theorem passed_of_round {extra : Nat} (h : bytes.dropWhile Text.isBlankByte = b :: rest)
    (hextra : extra ≤ rest.length) :
    ∃ passed, passed = bytes.takeWhile Text.isBlankByte ++ b :: rest.take extra ∧
      bytes = passed ++ rest.drop extra ∧
      passed.length = (bytes.takeWhile Text.isBlankByte).length + 1 + extra ∧
      passed.takeWhile Text.isBlankByte = bytes.takeWhile Text.isBlankByte := by
  refine ⟨_, rfl, ?_, ?_, ?_⟩
  · have hsplit := List.takeWhile_append_dropWhile (p := Text.isBlankByte) (l := bytes)
    rw [List.append_assoc, List.cons_append, List.take_append_drop, ← h, hsplit]
  · rw [List.length_append, List.length_cons, List.length_take_of_le hextra, Nat.add_assoc,
      Nat.add_comm 1]
  · have hblanks : ∀ b ∈ bytes.takeWhile Text.isBlankByte, Text.isBlankByte b = true :=
      fun _ hb => List.mem_takeWhile_imp hb
    have hfirst : ¬Text.isBlankByte b = true := by
      rw [not_blank_of_dropWhile h]
      decide
    rw [List.takeWhile_append_of_pos hblanks, List.takeWhile_cons_of_neg hfirst, List.append_nil]

section

variable {rounds count : Nat} {read : List Token}

/-- The round that finds the end of the source is the last one. -/
theorem tokensAt_of_end (h : Ahead source position bytes)
    (hpiece : nextPiece bytes line = .ok (bytes.length, .sourceEnd)) :
    tokensAt source (rounds + 1) read line position =
      .ok (endOn (line + newlines bytes) :: read).reverse := by
  rw [tokensAt, h.suffixAt_eq]
  show (nextPiece bytes line >>= fun round => _) = _
  rw [hpiece]
  show (slice source position (position + bytes.length) >>= fun text => _) = _
  rw [h.slice_eq le_rfl, List.take_length]
  rfl

/-- A round that finds a comment is followed by another one. -/
theorem tokensAt_of_comment (h : Ahead source position bytes)
    (hpiece : nextPiece bytes line = .ok (count, .comment)) (hcount : count ≤ bytes.length) :
    tokensAt source (rounds + 1) read line position =
      tokensAt source rounds read (line + newlines (bytes.take count)) (position + count) := by
  rw [tokensAt, h.suffixAt_eq]
  show (nextPiece bytes line >>= fun round => _) = _
  rw [hpiece]
  show (slice source position (position + count) >>= fun text => _) = _
  rw [h.slice_eq hcount]
  rfl

/-- A round that finds a token keeps it. -/
theorem tokensAt_of_token {kind : TokenKind} (h : Ahead source position bytes)
    (hpiece : nextPiece bytes line = .ok (count, .token kind)) (hcount : count ≤ bytes.length) :
    tokensAt source (rounds + 1) read line position =
      tokensAt source rounds
        (⟨kind, lexemeOf (bytes.take count),
          line + newlines ((bytes.take count).takeWhile Text.isBlankByte)⟩ :: read)
        (line + newlines (bytes.take count)) (position + count) := by
  rw [tokensAt, h.suffixAt_eq]
  show (nextPiece bytes line >>= fun round => _) = _
  rw [hpiece]
  show (slice source position (position + count) >>= fun text => _) = _
  rw [h.slice_eq hcount]
  rfl

/-- A reader with a position and with more rounds than there are bytes ahead reads what is read
without positions. -/
theorem tokensAt_eq (h : Ahead source position bytes) (hrounds : bytes.length < rounds) :
    tokensAt source rounds read line position = (tokensFrom read line bytes).mapError .fault := by
  obtain ⟨rounds, rfl⟩ : ∃ fewer, rounds = fewer + 1 := ⟨rounds - 1, by omega⟩
  fun_induction tokensFrom read line bytes generalizing rounds position with
  | case1 read line bytes lastLine =>
    rename_i hsplit
    have hall := List.takeWhile_append_dropWhile (p := Text.isBlankByte) (l := bytes)
    rw [hsplit, List.append_nil] at hall
    rw [tokensAt_of_end h (nextPiece_of_blank hsplit), ← hall]
    rfl
  | case2 read line bytes lastLine b rest hsplit fault =>
    rename_i hscan
    rw [tokensAt, h.suffixAt_eq]
    show (nextPiece bytes line >>= fun round => _) = _
    rw [nextPiece_of_byte hsplit, hscan]
    rfl
  | case3 read line bytes lastLine b rest hsplit scanned hscan text next =>
    rename_i ih
    have hpiece : nextPiece bytes line = _ := nextPiece_of_byte hsplit
    rw [hscan] at hpiece
    have hextra := extra_le_of_scanHead hscan
    obtain ⟨passed, hpassed, hbytes, hlength, hleading⟩ := passed_of_round hsplit hextra
    have htake : bytes.take passed.length = passed := by
      rw [hbytes, List.take_left]
    have hcount : passed.length ≤ bytes.length := by
      rw [hbytes, List.length_append]
      omega
    have hnext : Ahead source (position + passed.length) (rest.drop scanned.extra) := by
      rw [hbytes] at h
      exact h.skip
    have hfew : (rest.drop scanned.extra).length < rounds := by
      rw [hbytes, List.length_append] at hrounds
      omega
    have hlines : line + newlines passed = lastLine + newlines text := by
      rw [hpassed, newlines_append, ← Nat.add_assoc]
    obtain ⟨rounds, rfl⟩ : ∃ fewer, rounds = fewer + 1 := ⟨rounds - 1, by omega⟩
    have hrest := ih hnext rounds hfew
    obtain ⟨kind, extra⟩ := scanned
    dsimp only at hlength
    cases kind with
    | none =>
      dsimp only [located] at hpiece
      rw [← hlength] at hpiece
      rw [tokensAt_of_comment h hpiece hcount, htake, hlines]
      exact hrest
    | some kind =>
      dsimp only [located] at hpiece
      rw [← hlength] at hpiece
      have htext : lexemeOf passed = lexemeOf text := by
        rw [hpassed]
        exact lexemeOf_append (fun _ hb => List.mem_takeWhile_imp hb) text
      rw [tokensAt_of_token h hpiece hcount, htake, hlines, htext, hleading]
      exact hrest

end

end Cursor

/-! ### One end marker -/

/-- Tokens with one end marker, which is the last of them. -/
def MarkedOnce (tokens : List Token) : Prop :=
  ∃ front last, tokens = front ++ [last] ∧ last.kind = .endMarker ∧
    ∀ token ∈ front, token.kind ≠ .endMarker

/-- The tokens of a source have one end marker, which is the last of them. -/
theorem markedOnce_of_tokensFrom {read tokens : List Token} {line : Nat} {bytes : List UInt8}
    (hread : ∀ token ∈ read, token.kind ≠ .endMarker)
    (h : tokensFrom read line bytes = .ok tokens) : MarkedOnce tokens := by
  fun_induction tokensFrom read line bytes with
  | case1 read line bytes lastLine =>
    cases h
    refine ⟨read.reverse, endOn lastLine, List.reverse_cons, rfl, fun token htoken => ?_⟩
    exact hread token (List.mem_reverse.mp htoken)
  | case2 => cases h
  | case3 read line bytes lastLine b rest hsplit scanned hscan slice next ih =>
    refine ih (fun token htoken => ?_) h
    obtain ⟨kind, extra⟩ := scanned
    cases kind with
    | none => exact hread token htoken
    | some kind =>
      rcases List.mem_cons.mp htoken with rfl | hearlier
      · exact kind_ne_endMarker_of_scanHead hscan
      · exact hread token hearlier

/-- Reading by position, with a round for each byte and one more, is total on every byte string: it
needs no other round and asks for nothing outside the source. It ends with a fault of the source, or
with tokens that have one end marker, as their last one; a program that reads these does not ask for
a token behind it. Both are what is read without positions. The rounds suffice because each of them
reads a byte, unless it finds the end. -/
theorem tokens_by_position (source : List UInt8) (spare : Nat) :
    Cursor.tokens source (source.length + 1 + spare) = (ofSource source).mapError .fault ∧
      ((∃ error, Cursor.tokens source (source.length + 1 + spare) = .error (.fault error)) ∨
        ∃ tokens, Cursor.tokens source (source.length + 1 + spare) = .ok tokens ∧
          MarkedOnce tokens ∧ Closed tokens ∧ Block.ofTokens tokens ≠ .error .exhausted) ∧
      ∀ bytes line count piece, Cursor.nextPiece bytes line = .ok (count, piece) →
        piece = .sourceEnd ∨ 0 < count := by
  have hall : Cursor.tokens source (source.length + 1 + spare) =
      (ofSource source).mapError .fault :=
    Cursor.tokensAt_eq (Cursor.Ahead.start source) (by omega)
  rw [hall]
  refine ⟨rfl, ?_, fun _ _ _ _ => Cursor.nextPiece_progress⟩
  cases htokens : ofSource source with
  | error error => exact .inl ⟨error, rfl⟩
  | ok tokens =>
    have hclosed := closed_of_tokensFrom htokens
    exact .inr ⟨tokens, rfl, markedOnce_of_tokensFrom (by simp) htokens, hclosed,
      Block.ofTokens_ne_exhausted hclosed⟩

end Token

end DecimalScript
