import DecimalScript.Token.Layout
import Mathlib.Data.List.Infix
import Mathlib.Data.List.TakeWhile

/-!
# What one rule of the reader takes

A rule takes no more bytes than there are. What it skips is a comment, what it refuses starts a
construct with a fault, and what it keeps as a token depends on the bytes of the token alone, as
long as a blank byte or the end of the source comes next.
-/

namespace DecimalScript

namespace Token

section Runs

variable {p : UInt8 → Bool} {run after : List UInt8}

/-- A run that stays within the first bytes is a run of these bytes alone. -/
theorem takeWhile_of_length_le (h : ((run ++ after).takeWhile p).length ≤ run.length) :
    run.takeWhile p = (run ++ after).takeWhile p := by
  rw [List.takeWhile_append] at h ⊢
  split
  · rename_i hall
    rw [if_pos hall, List.length_append] at h
    have hnone : after.takeWhile p = [] := List.eq_nil_of_length_eq_zero (by omega)
    rw [hnone, List.append_nil]
    exact (List.takeWhile_prefix p).eq_of_length hall
  · rfl

/-- A run of bytes that are not blank ends before bytes that end a token. -/
theorem takeWhile_append_of_endsToken (run : List UInt8) (h : EndsToken after)
    (hp : ∀ b, Text.isBlankByte b = true → p b = false) :
    (run ++ after).takeWhile p = run.takeWhile p := by
  have hnone : after.takeWhile p = [] := by
    cases after with
    | nil => rfl
    | cons b after => simp [hp b (h b rfl)]
  rw [List.takeWhile_append, hnone, List.append_nil]
  split
  · rename_i hall
    exact ((List.takeWhile_prefix p).eq_of_length hall).symm
  · rfl

end Runs

/-- What a blank byte is not. -/
structure NoTokenByte (b : UInt8) : Prop where
  path : isPathByte b = false
  digit : isDigitByte b = false
  name : isNameByte b = false
  dot : (b == code '.') = false
  slash : (b == code '/') = false
  star : (b == code '*') = false
  hash : (b == code '#') = false
  /-- No symbol of two characters ends with the byte. -/
  pair : ∀ pair ∈ Symbol.pairs, (b == code pair.1.2) = false

/-- A blank byte continues no token. -/
theorem noTokenByte_of_blank {b : UInt8} (h : Text.isBlankByte b = true) : NoTokenByte b := by
  have hcases : b = 9 ∨ b = 10 ∨ b = 12 ∨ b = 13 ∨ b = 32 := by
    simpa [Text.isBlankByte, or_assoc] using h
  rcases hcases with rfl | rfl | rfl | rfl | rfl <;> constructor <;> decide

/-! ### Rules that look further than one byte -/

section Lookahead

variable {after : List UInt8}

/-- What ends a token does not complete the start of a comment. -/
theorem head?_append_of_endsToken (h : EndsToken after) (rest : List UInt8) :
    ((rest ++ after).head? == some (code '*')) = (rest.head? == some (code '*')) := by
  cases rest with
  | cons b rest => rfl
  | nil =>
    cases after with
    | nil => rfl
    | cons b after => simpa using (noTokenByte_of_blank (h b rfl)).star

/-- What ends a token does not complete the start of a module path. -/
theorem startsPath_append_of_endsToken (h : EndsToken after) (b : UInt8) (rest : List UInt8) :
    startsPath (b :: (rest ++ after)) = startsPath (b :: rest) := by
  cases after with
  | nil => rw [List.append_nil]
  | cons d after =>
    have hblank := noTokenByte_of_blank (h d rfl)
    match rest with
    | [] => simp [startsPath, hblank.slash, hblank.dot]
    | [c] => simp [startsPath, hblank.slash]
    | c :: e :: rest => rfl

/-- What ends a token does not complete a symbol of two characters. -/
theorem pairSymbol?_append_of_endsToken (h : EndsToken after) (b : UInt8) (rest : List UInt8) :
    pairSymbol? (b :: (rest ++ after)) = pairSymbol? (b :: rest) := by
  cases rest with
  | cons c rest => rfl
  | nil =>
    cases after with
    | nil => rfl
    | cons d after =>
      have hnone : ∀ pair ∈ Symbol.pairs, ¬(b == code pair.1.1 && d == code pair.1.2) = true :=
        fun pair hpair => by simp [(noTokenByte_of_blank (h d rfl)).pair pair hpair]
      exact congrArg (Option.map Prod.snd) (List.find?_eq_none.mpr hnone)

/-- What ends a token does not lengthen a fraction. -/
theorem fractionLength_append_of_endsToken (h : EndsToken after) (bytes : List UInt8) :
    fractionLength (bytes ++ after) = fractionLength bytes := by
  cases after with
  | nil => rw [List.append_nil]
  | cons d after =>
    have hblank := noTokenByte_of_blank (h d rfl)
    match bytes with
    | [] => cases after <;> simp [fractionLength, hblank.dot]
    | [c] => simp [fractionLength, hblank.digit]
    | c :: e :: rest =>
      have hrun := takeWhile_append_of_endsToken rest h fun b hb => (noTokenByte_of_blank hb).digit
      simp [fractionLength, hrun]

/-- What ends a token does not lengthen a number. -/
theorem numberLength_append_of_endsToken (h : EndsToken after) (bytes : List UInt8) :
    numberLength (bytes ++ after) = numberLength bytes := by
  have hrun := takeWhile_append_of_endsToken bytes h fun b hb => (noTokenByte_of_blank hb).digit
  have hlength := (List.takeWhile_prefix isDigitByte (l := bytes)).length_le
  rw [numberLength, numberLength, hrun, List.drop_append_of_le_length hlength,
    fractionLength_append_of_endsToken h]

/-- More bytes do not undo the start of a module path. -/
theorem startsPath_append {bytes : List UInt8} (h : startsPath bytes = true)
    (more : List UInt8) : startsPath (bytes ++ more) = true := by
  match bytes with
  | [] => cases h
  | [_] => cases h
  | [a, b] =>
    simp only [startsPath, List.head?_nil, Bool.and_eq_true, Bool.or_eq_true] at h
    simp [startsPath, h.1, h.2.resolve_right (by simp)]
  | a :: b :: c :: rest => exact h

/-- The start of a module path lies within its run of path bytes. -/
theorem startsPath_truncate {b : UInt8} {rest more : List UInt8}
    (h : startsPath (b :: rest ++ more) = true)
    (hrun : ((rest ++ more).takeWhile isPathByte).length ≤ rest.length) :
    startsPath (b :: rest) = true := by
  have hdot : isPathByte (code '.') = true := by decide
  have hslash : isPathByte (code '/') = true := by decide
  match rest, more with
  | c :: d :: rest, _ => exact h
  | [c], [] => exact h
  | [], [] => cases h
  | [c], d :: more =>
    simp only [startsPath, List.cons_append, List.nil_append, List.head?_cons, Bool.and_eq_true,
      Bool.or_eq_true, beq_iff_eq, Option.some.injEq] at h
    obtain ⟨rfl, rfl | ⟨rfl, rfl⟩⟩ := h
    · rfl
    · simp [hdot, hslash] at hrun
  | [], c :: more =>
    simp only [startsPath, List.cons_append, List.nil_append, Bool.and_eq_true, Bool.or_eq_true,
      beq_iff_eq] at h
    obtain ⟨rfl, rfl | ⟨rfl, -⟩⟩ := h
    · simp [hslash] at hrun
    · simp [hdot] at hrun

/-- More bytes do not undo a symbol of two characters. -/
theorem pairSymbol?_append {bytes : List UInt8} {symbol : Symbol}
    (h : pairSymbol? bytes = some symbol) (more : List UInt8) :
    pairSymbol? (bytes ++ more) = some symbol := by
  match bytes with
  | [] => cases h
  | [_] => cases h
  | a :: b :: rest => exact h

/-- A fraction within the first bytes is a fraction of these bytes alone. -/
theorem fractionLength_of_le {bytes more : List UInt8}
    (h : fractionLength (bytes ++ more) ≤ bytes.length) :
    fractionLength bytes = fractionLength (bytes ++ more) := by
  match bytes with
  | [] => exact (Nat.le_zero.mp h).symm
  | [c] =>
    cases more with
    | nil => rfl
    | cons d more =>
      simp only [fractionLength, List.cons_append, List.nil_append] at h ⊢
      split at h
      · simp at h
      · rename_i hnot
        rw [if_neg hnot]
  | c :: d :: rest =>
    simp only [fractionLength, List.cons_append, List.length_cons] at h ⊢
    split
    · rename_i hpoint
      rw [if_pos hpoint] at h
      have hrun : ((rest ++ more).takeWhile isDigitByte).length ≤ rest.length := by omega
      rw [takeWhile_of_length_le hrun]
    · rfl

/-- A number within the first bytes is a number of these bytes alone. -/
theorem numberLength_of_le {bytes more : List UInt8}
    (h : numberLength (bytes ++ more) ≤ bytes.length) :
    numberLength bytes = numberLength (bytes ++ more) := by
  have hwhole : ((bytes ++ more).takeWhile isDigitByte).length ≤ bytes.length :=
    (Nat.le_add_right _ _).trans h
  have hrun := takeWhile_of_length_le hwhole
  rw [numberLength, numberLength, hrun]
  rw [numberLength, List.drop_append_of_le_length hwhole] at h
  rw [List.drop_append_of_le_length hwhole, fractionLength_of_le]
  rw [List.length_drop]
  omega

end Lookahead

/-! ### Comments and string literals -/

/-- A block comment reaches up to the first end mark. -/
theorem commentLength?_eq_some {bytes : List UInt8} {length : Nat}
    (h : commentLength? bytes = some length) :
    ∃ body rest, bytes = body ++ code '*' :: code '/' :: rest ∧
      ¬[code '*', code '/'] <:+: body ∧ length = body.length + 2 := by
  fun_induction commentLength? bytes generalizing length with
  | case1 => cases h
  | case2 b rest hmark =>
    cases h
    simp only [Bool.and_eq_true, beq_iff_eq] at hmark
    obtain ⟨rfl, hslash⟩ := hmark
    obtain ⟨after, rfl⟩ := List.head?_eq_some_iff.mp hslash
    exact ⟨[], after, rfl, by decide, rfl⟩
  | case3 b rest hmark ih =>
    obtain ⟨inner, hinner, rfl⟩ := Option.map_eq_some_iff.mp h
    obtain ⟨body, after, rfl, hbody, rfl⟩ := ih hinner
    refine ⟨b :: body, after, rfl, fun hinfix => ?_, rfl⟩
    rcases List.infix_cons_iff.mp hinfix with hprefix | hlater
    · obtain ⟨rfl, hnext⟩ := List.cons_prefix_cons.mp hprefix
      obtain ⟨_, rfl⟩ := hnext
      exact hmark rfl
    · exact hbody hlater

/-- A block comment without an end has no end mark. -/
theorem commentLength?_eq_none {bytes : List UInt8} (h : commentLength? bytes = none) :
    ¬[code '*', code '/'] <:+: bytes := by
  fun_induction commentLength? bytes with
  | case1 => decide
  | case2 => cases h
  | case3 b rest hmark ih =>
    intro hinfix
    rcases List.infix_cons_iff.mp hinfix with hprefix | hlater
    · obtain ⟨rfl, hnext⟩ := List.cons_prefix_cons.mp hprefix
      obtain ⟨_, rfl⟩ := hnext
      exact hmark rfl
    · exact ih (Option.map_eq_none_iff.mp h) hlater

/-- The first end mark closes a block comment. -/
theorem commentLength?_of_not_infix {body : List UInt8}
    (h : ¬[code '*', code '/'] <:+: body) (rest : List UInt8) :
    commentLength? (body ++ code '*' :: code '/' :: rest) = some (body.length + 2) := by
  induction body with
  | nil => rfl
  | cons b body ih =>
    rw [List.infix_cons_iff, not_or] at h
    rw [List.cons_append, commentLength?, if_neg, ih h.2]
    · rfl
    intro hmark
    simp only [Bool.and_eq_true, beq_iff_eq] at hmark
    cases body with
    | nil => cases hmark.2
    | cons c body =>
      obtain ⟨rfl, hslash⟩ := hmark
      cases hslash
      exact h.1 (List.prefix_append _ _)

/-- A quote closes a string literal. -/
theorem literalLength?_quote (rest : List UInt8) :
    literalLength? (code '\x22' :: rest) = some 0 := by
  unfold literalLength?
  rfl

/-- A backslash and the byte after it belong to a string literal. -/
theorem literalLength?_escape (c : UInt8) (rest : List UInt8) :
    literalLength? (code '\\' :: c :: rest) = (literalLength? rest).map (· + 2) := by
  rw [literalLength?, if_neg (by decide)]
  rfl

/-- Any other byte belongs to a string literal. -/
theorem literalLength?_plain {b : UInt8} (hquote : ¬(b == code '\x22') = true)
    (hescape : ¬(b == code '\\') = true) (rest : List UInt8) :
    literalLength? (b :: rest) = (literalLength? rest).map (· + 1) := by
  rw [literalLength?.eq_def]
  dsimp only
  rw [if_neg hquote, if_neg hescape]

/-- The closing quote of a string literal is one of its bytes. -/
theorem literalLength?_lt {bytes : List UInt8} {length : Nat}
    (h : literalLength? bytes = some length) : length < bytes.length := by
  fun_induction literalLength? bytes generalizing length with
  | case1 => cases h
  | case2 => cases h; simp
  | case3 => cases h
  | case4 b hquote hescape c rest ih =>
    obtain ⟨inner, hinner, rfl⟩ := Option.map_eq_some_iff.mp h
    have := ih hinner
    simp only [List.length_cons]
    omega
  | case5 b rest hquote hescape ih =>
    obtain ⟨inner, hinner, rfl⟩ := Option.map_eq_some_iff.mp h
    have := ih hinner
    simp only [List.length_cons]
    omega

/-- More bytes do not change where a string literal is closed. -/
theorem literalLength?_append {bytes : List UInt8} {length : Nat}
    (h : literalLength? bytes = some length) (more : List UInt8) :
    literalLength? (bytes ++ more) = some length := by
  fun_induction literalLength? bytes generalizing length with
  | case1 => cases h
  | case2 b rest hquote =>
    cases h
    rw [eq_of_beq hquote]
    exact literalLength?_quote _
  | case3 => cases h
  | case4 b hquote hescape c rest ih =>
    obtain ⟨inner, hinner, rfl⟩ := Option.map_eq_some_iff.mp h
    rw [eq_of_beq hescape, List.cons_append, List.cons_append, literalLength?_escape, ih hinner,
      Option.map_some]
  | case5 b rest hquote hescape ih =>
    obtain ⟨inner, hinner, rfl⟩ := Option.map_eq_some_iff.mp h
    rw [List.cons_append, literalLength?_plain hquote hescape, ih hinner, Option.map_some]

/-- A string literal that is closed within the first bytes is closed in these bytes alone. -/
theorem literalLength?_of_lt {bytes more : List UInt8} {length : Nat}
    (h : literalLength? (bytes ++ more) = some length) (hlt : length < bytes.length) :
    literalLength? bytes = some length := by
  fun_induction literalLength? bytes generalizing length with
  | case1 => cases hlt
  | case2 b rest hquote =>
    rw [eq_of_beq hquote, List.cons_append, literalLength?_quote] at h
    exact h
  | case3 b hquote hescape =>
    rw [eq_of_beq hescape] at h
    cases more with
    | nil => cases h
    | cons c more =>
      rw [List.singleton_append, literalLength?_escape] at h
      obtain ⟨inner, -, rfl⟩ := Option.map_eq_some_iff.mp h
      simp at hlt
  | case4 b hquote hescape c rest ih =>
    rw [eq_of_beq hescape, List.cons_append, List.cons_append, literalLength?_escape] at h
    obtain ⟨inner, hinner, rfl⟩ := Option.map_eq_some_iff.mp h
    rw [ih hinner (by simp only [List.length_cons] at hlt; omega), Option.map_some]
  | case5 b rest hquote hescape ih =>
    rw [List.cons_append, literalLength?_plain hquote hescape] at h
    obtain ⟨inner, hinner, rfl⟩ := Option.map_eq_some_iff.mp h
    rw [ih hinner (by simp only [List.length_cons] at hlt; omega), Option.map_some]

/-! ### Numbers -/

/-- A fraction is no longer than the bytes it is read from. -/
theorem fractionLength_le (bytes : List UInt8) : fractionLength bytes ≤ bytes.length := by
  unfold fractionLength
  split
  · rename_i b d rest
    have hrun := (List.takeWhile_prefix isDigitByte (l := rest)).length_le
    split <;> simp only [List.length_cons] <;> omega
  · exact Nat.zero_le _

/-- A number is no longer than the bytes it is read from. -/
theorem numberLength_le (bytes : List UInt8) : numberLength bytes ≤ bytes.length := by
  have hrun := (List.takeWhile_prefix isDigitByte (l := bytes)).length_le
  have hfraction := fractionLength_le (bytes.drop (bytes.takeWhile isDigitByte).length)
  rw [List.length_drop] at hfraction
  rw [numberLength]
  omega

/-- A number starts where it has at least one byte. -/
theorem startsNumber_iff {b : UInt8} {rest : List UInt8} :
    (isDigitByte b || fractionLength (b :: rest) != 0) = true ↔ numberLength (b :: rest) ≠ 0 := by
  dsimp only [numberLength]
  by_cases hdigit : isDigitByte b = true
  · simp [hdigit]
  · rw [List.takeWhile_cons_of_neg hdigit, List.length_nil, List.drop_zero, Nat.zero_add]
    simp [hdigit]

/-- A number has digits and points only. -/
theorem digits_of_numberLength (bytes : List UInt8) :
    ∀ b ∈ bytes.take (numberLength bytes), isDigitByte b = true ∨ b = code '.' := by
  have hfraction : ∀ tail : List UInt8, ∀ b ∈ tail.take (fractionLength tail),
      isDigitByte b = true ∨ b = code '.' := by
    intro tail b hb
    unfold fractionLength at hb
    split at hb
    · rename_i point digit rest
      split at hb
      · rename_i hpoint
        simp only [Bool.and_eq_true, beq_iff_eq] at hpoint
        rw [List.take_succ_cons, List.take_succ_cons,
          ← List.prefix_iff_eq_take.mp (List.takeWhile_prefix _)] at hb
        rcases List.mem_cons.mp hb with rfl | hb
        · exact .inr hpoint.1
        rcases List.mem_cons.mp hb with rfl | hb
        · exact .inl hpoint.2
        · exact .inl (List.mem_takeWhile_imp hb)
      · simp at hb
    · simp at hb
  intro b hb
  rw [numberLength, List.take_add] at hb
  rcases List.mem_append.mp hb with hwhole | hrest
  · rw [← List.prefix_iff_eq_take.mp (List.takeWhile_prefix _)] at hwhole
    exact .inl (List.mem_takeWhile_imp hwhole)
  · exact hfraction _ b hrest

/-! ### The rule at a byte -/

/-- What is skipped is a line comment or a block comment. -/
theorem comment_of_scanHead {b : UInt8} {rest : List UInt8} {extra : Nat}
    (h : scanHead b rest = .ok ⟨none, extra⟩) :
    (b = code '#' ∧ extra = (rest.takeWhile (· != code '\n')).length) ∨
      (b = code '/' ∧ ∃ body after, rest = code '*' :: (body ++ code '*' :: code '/' :: after) ∧
        ¬[code '*', code '/'] <:+: body ∧ extra = body.length + 3) := by
  unfold scanHead at h
  dsimp only at h
  split at h
  · rename_i hhash
    cases h
    exact .inl ⟨eq_of_beq hhash, rfl⟩
  split at h
  · rename_i hmark
    simp only [Bool.and_eq_true, beq_iff_eq] at hmark
    obtain ⟨rfl, hstar⟩ := hmark
    obtain ⟨after, rfl⟩ := List.head?_eq_some_iff.mp hstar
    split at h
    · cases h
    · rename_i length hlength
      cases h
      obtain ⟨body, rest, hrest, hbody, rfl⟩ := commentLength?_eq_some hlength
      rw [List.drop_one, List.tail_cons] at hrest
      exact .inr ⟨rfl, body, rest, by rw [hrest], hbody, rfl⟩
  split at h
  · cases h
  split at h
  · cases h
  split at h
  · unfold scanNumber at h
    dsimp only at h
    split at h <;> cases h
  split at h
  · cases h
  split at h
  · unfold scanText at h
    split at h
    · cases h
    · split at h <;> cases h
  split at h <;> cases h

/-- A refused construct starts at the byte where its rule applies. -/
theorem startsAt_of_scanHead {b : UInt8} {rest : List UInt8} {fault : LexicalFault}
    (hblank : Text.isBlankByte b = false) (h : scanHead b rest = .error fault) :
    fault.StartsAt (b :: rest) := by
  unfold scanHead at h
  dsimp only at h
  split at h
  · cases h
  rename_i hhash
  split at h
  · rename_i hmark
    simp only [Bool.and_eq_true, beq_iff_eq] at hmark
    obtain ⟨rfl, hstar⟩ := hmark
    obtain ⟨after, rfl⟩ := List.head?_eq_some_iff.mp hstar
    split at h
    · rename_i hnone
      cases h
      exact ⟨after, rfl, commentLength?_eq_none hnone⟩
    · cases h
  split at h
  · cases h
  split at h
  · cases h
  split at h
  · rename_i hnumber
    unfold scanNumber at h
    dsimp only at h
    split at h
    · rename_i hrange
      cases h
      have hpos := startsNumber_iff.mp hnumber
      refine ⟨(b :: rest).take (numberLength (b :: rest)), (b :: rest).drop _,
        (List.take_append_drop _ _).symm, ?_, digits_of_numberLength _, rfl, ?_⟩
      · simp only [ne_eq, List.take_eq_nil_iff, not_or]
        exact ⟨by omega, List.cons_ne_nil _ _⟩
      · rw [String.toList_ofList]
        exact hrange
    · cases h
  rename_i hnumber
  split at h
  · cases h
  rename_i hsingle
  split at h
  · rename_i hquote
    cases eq_of_beq hquote
    unfold scanText at h
    split at h
    · rename_i hopen
      cases h
      exact ⟨rest, rfl, hopen⟩
    · rename_i length hlength
      split at h
      · rename_i hescape
        cases h
        have hle := (literalLength?_lt hlength).le
        refine ⟨rest.take length, rest.drop length, by rw [List.take_append_drop], ?_, hescape⟩
        rw [List.take_append_drop, hlength, List.length_take_of_le hle]
      · cases h
  rename_i hquote
  split at h
  · cases h
  rename_i hstart
  cases h
  simp only [Bool.or_eq_true, not_or] at hnumber
  refine ⟨rfl, hblank, by simpa using hhash, by simpa using hquote, ?_, hsingle⟩
  simp [isNameByte, hstart, hnumber.1]

/-- A rule takes no more bytes than there are. -/
theorem extra_le_of_scanHead {b : UInt8} {rest : List UInt8} {scanned : Scanned}
    (h : scanHead b rest = .ok scanned) : scanned.extra ≤ rest.length := by
  have hrun : ∀ p : UInt8 → Bool, (rest.takeWhile p).length ≤ rest.length :=
    fun p => (List.takeWhile_prefix p).length_le
  unfold scanHead at h
  dsimp only at h
  split at h
  · cases h
    exact hrun _
  split at h
  · rename_i hmark
    simp only [Bool.and_eq_true, beq_iff_eq] at hmark
    obtain ⟨after, rfl⟩ := List.head?_eq_some_iff.mp hmark.2
    split at h
    · cases h
    · rename_i length hlength
      cases h
      obtain ⟨body, tail, hafter, -, rfl⟩ := commentLength?_eq_some hlength
      rw [List.drop_one, List.tail_cons] at hafter
      simp only [hafter, List.length_cons, List.length_append]
      omega
  split at h
  · cases h
    exact hrun _
  split at h
  · rename_i symbol hpair
    cases h
    cases rest with
    | nil => cases hpair
    | cons c rest => simp
  split at h
  · have hle := numberLength_le (b :: rest)
    rw [List.length_cons] at hle
    unfold scanNumber at h
    dsimp only at h
    split at h
    · cases h
    · cases h
      dsimp only
      omega
  split at h
  · cases h
    exact Nat.zero_le _
  split at h
  · unfold scanText at h
    split at h
    · cases h
    · rename_i length hlength
      split at h
      · cases h
      · cases h
        exact literalLength?_lt hlength
  split at h
  · cases h
    exact hrun _
  · cases h

/-- A string literal is read from its own bytes as it is read in front of others. -/
theorem scanText_truncate {rest more : List UInt8} {kind : TokenKind}
    (h : scanText (rest ++ more) = .ok ⟨some kind, rest.length⟩) :
    scanText rest = .ok ⟨some kind, rest.length⟩ := by
  unfold scanText at h ⊢
  split at h
  · cases h
  rename_i length hlength
  split at h
  · cases h
  rename_i value hvalue
  have hextra : length + 1 = rest.length := congrArg Scanned.extra (Except.ok.inj h)
  rw [literalLength?_of_lt hlength (by omega)]
  rw [List.take_append_of_le_length (by omega)] at hvalue
  dsimp only
  rw [hvalue]
  exact h

/-- A string literal is read in front of any bytes as it is read from its own bytes. -/
theorem scanText_append {rest : List UInt8} {scanned : Scanned}
    (h : scanText rest = .ok scanned) (after : List UInt8) :
    scanText (rest ++ after) = .ok scanned := by
  unfold scanText at h ⊢
  split at h
  · cases h
  rename_i length hlength
  rw [literalLength?_append hlength]
  dsimp only
  rw [List.take_append_of_le_length (literalLength?_lt hlength).le]
  exact h

/-- A number is read from its own bytes as it is read in front of others. -/
theorem scanNumber_of_le {bytes more : List UInt8}
    (h : numberLength (bytes ++ more) ≤ bytes.length) :
    scanNumber bytes = scanNumber (bytes ++ more) := by
  unfold scanNumber
  dsimp only
  rw [numberLength_of_le h, List.take_append_of_le_length h]

/-- The bytes that a number takes after its first one. -/
theorem extra_of_scanNumber {bytes : List UInt8} {scanned : Scanned}
    (h : scanNumber bytes = .ok scanned) : scanned.extra = numberLength bytes - 1 := by
  unfold scanNumber at h
  dsimp only at h
  split at h
  · cases h
  · cases h
    rfl

/-- A token is read from its own bytes as it is read in front of others. -/
theorem scanHead_truncate {b : UInt8} {rest more : List UInt8} {kind : TokenKind}
    (h : scanHead b (rest ++ more) = .ok ⟨some kind, rest.length⟩) :
    scanHead b rest = .ok ⟨some kind, rest.length⟩ := by
  unfold scanHead at h ⊢
  dsimp only at h ⊢
  rw [← List.cons_append] at h
  split at h
  · cases h
  rename_i hhash
  rw [if_neg hhash]
  split at h
  · split at h <;> cases h
  rename_i hmark
  rw [if_neg fun hshort => hmark ?comment]
  case comment =>
    simp only [Bool.and_eq_true, beq_iff_eq] at hshort ⊢
    obtain ⟨after, rfl⟩ := List.head?_eq_some_iff.mp hshort.2
    exact ⟨hshort.1, rfl⟩
  split at h
  · rename_i hpath
    have hextra : ((rest ++ more).takeWhile isPathByte).length = rest.length :=
      congrArg Scanned.extra (Except.ok.inj h)
    have hrun := takeWhile_of_length_le hextra.le
    rw [if_pos (startsPath_truncate hpath hextra.le), hrun]
    rw [List.take_append_of_le_length (by rw [hextra, List.length_cons])] at h
    exact h
  rename_i hpath
  rw [if_neg fun hshort => hpath (startsPath_append hshort more)]
  split at h
  · rename_i symbol hpair
    have hextra : 1 = rest.length := congrArg Scanned.extra (Except.ok.inj h)
    obtain ⟨c, rfl⟩ := List.length_eq_one_iff.mp hextra.symm
    rw [show pairSymbol? [b, c] = some symbol from hpair]
    exact h
  rename_i hpair
  have hpair' : pairSymbol? (b :: rest) = none :=
    Option.eq_none_iff_forall_ne_some.mpr fun symbol hshort => by
      rw [pairSymbol?_append hshort] at hpair
      cases hpair
  rw [hpair']
  dsimp only
  split at h
  · rename_i hnumber
    have hlength := extra_of_scanNumber h
    have hle : numberLength (b :: rest ++ more) ≤ (b :: rest).length := by
      rw [List.length_cons]
      dsimp only at hlength
      omega
    rw [if_pos (startsNumber_iff.mpr ?_), scanNumber_of_le hle]
    · exact h
    · rw [numberLength_of_le hle]
      exact startsNumber_iff.mp hnumber
  rename_i hnumber
  have hzero : numberLength (b :: rest ++ more) = 0 :=
    not_not.mp fun hpos => hnumber (startsNumber_iff.mpr hpos)
  rw [if_neg fun hshort => startsNumber_iff.mp hshort ?_]
  · split at h
    · exact h
    split at h
    · rename_i hquote
      rw [if_pos hquote]
      exact scanText_truncate h
    rename_i hquote
    rw [if_neg hquote]
    split at h
    · rename_i hstart
      have hextra : ((rest ++ more).takeWhile isNameByte).length = rest.length :=
        congrArg Scanned.extra (Except.ok.inj h)
      rw [List.take_append_of_le_length (by rw [hextra, List.length_cons])] at h
      rw [if_pos hstart, takeWhile_of_length_le hextra.le]
      exact h
    · cases h
  · rw [numberLength_of_le (hzero.trans_le (Nat.zero_le _)), hzero]

/-- A token is read in front of bytes that end it as it is read from its own bytes. -/
theorem scanHead_append {b : UInt8} {rest after : List UInt8} {kind : TokenKind}
    (hafter : EndsToken after) (h : scanHead b rest = .ok ⟨some kind, rest.length⟩) :
    scanHead b (rest ++ after) = .ok ⟨some kind, rest.length⟩ := by
  have htake : ∀ p : UInt8 → Bool, (b :: (rest ++ after)).take ((rest.takeWhile p).length + 1) =
      (b :: rest).take ((rest.takeWhile p).length + 1) := fun p => by
    have hle := (List.takeWhile_prefix p (l := rest)).length_le
    rw [List.take_succ_cons, List.take_succ_cons, List.take_append_of_le_length hle]
  have hpath := takeWhile_append_of_endsToken rest hafter
    fun b hb => (noTokenByte_of_blank hb).path
  have hname := takeWhile_append_of_endsToken rest hafter
    fun b hb => (noTokenByte_of_blank hb).name
  have hlength : numberLength (b :: (rest ++ after)) = numberLength (b :: rest) :=
    numberLength_append_of_endsToken hafter (b :: rest)
  have hwithin : numberLength (b :: rest ++ after) ≤ (b :: rest).length :=
    hlength.trans_le (numberLength_le _)
  have hnumber : scanNumber (b :: (rest ++ after)) = scanNumber (b :: rest) :=
    (scanNumber_of_le hwithin).symm
  have hfraction : fractionLength (b :: (rest ++ after)) = fractionLength (b :: rest) :=
    fractionLength_append_of_endsToken hafter (b :: rest)
  unfold scanHead at h ⊢
  dsimp only at h ⊢
  rw [head?_append_of_endsToken hafter, startsPath_append_of_endsToken hafter,
    pairSymbol?_append_of_endsToken hafter, hpath, hname, hnumber, hfraction, htake, htake]
  split at h
  · cases h
  rename_i hhash
  rw [if_neg hhash]
  split at h
  · split at h <;> cases h
  rename_i hmark
  rw [if_neg hmark]
  split at h
  · rename_i hstart
    rw [if_pos hstart]
    exact h
  rename_i hstart
  rw [if_neg hstart]
  split at h
  · exact h
  split at h
  · rename_i hstart
    rw [if_pos hstart]
    exact h
  rename_i hstart
  rw [if_neg hstart]
  split at h
  · exact h
  split at h
  · rename_i hquote
    rw [if_pos hquote]
    exact scanText_append h after
  · rename_i hquote
    rw [if_neg hquote]
    exact h

end Token

end DecimalScript
