import DecimalScript.Proofs.Encoding
import DecimalScript.Proofs.Relayout
import DecimalScript.Proofs.TokenRules
import DecimalScript.Text.Literal

/-!
# String literals end where their escapes say

Two readers agree on a literal: one looks for the closing quote byte by byte and skips a byte after
each backslash, the other reads characters and escapes from the opening quote on. What both keep
is that no quote before the closing one stands outside of an escape, in bytes as in characters. So
the literal of a text is read as that text, and reading goes on behind its closing quote.
-/

namespace DecimalScript

namespace Text

/-- A text with no white space at either end stays as it is. -/
theorem trim_of_ends {text : List Char} (hfirst : ∀ c ∈ text.head?, isBlank c = false)
    (hlast : ∀ c ∈ text.getLast?, isBlank c = false) : trim text = text := by
  have hkeep : ∀ chars : List Char, (∀ c ∈ chars.head?, isBlank c = false) →
      chars.dropWhile isBlank = chars := by
    intro chars hhead
    cases chars with
    | nil => rfl
    | cons c chars => rw [List.dropWhile_cons_of_neg (by simp [hhead c rfl])]
  rw [trim, hkeep text hfirst, dropEndWhile, hkeep _ (by rwa [List.head?_reverse]),
    List.reverse_reverse]

/-! ### Reading escapes -/

theorem readLiteral?_quote (rest : List Char) :
    readLiteral? ('\x22' :: rest) = some ([], rest) := rfl

theorem readLiteral?_plain {c : Char} (hquote : c ≠ '\x22') (hslash : c ≠ '\\') (rest : List Char) :
    readLiteral? (c :: rest) = (readLiteral? rest).map fun (text, after) => (c :: text, after) := by
  rw [readLiteral?.eq_4 c rest (fun _ h => absurd h hslash) (fun _ _ h => absurd h hslash),
    if_neg hquote, if_neg hslash]

theorem readLiteral?_escape {c meant : Char} (h : simpleEscape? c = some meant)
    (rest : List Char) :
    readLiteral? ('\\' :: c :: rest) =
      (readLiteral? rest).map fun (text, after) => (meant :: text, after) := by
  have hcode : c ≠ 'u' := by
    rintro rfl
    cases h
  rw [readLiteral?.eq_3 c rest (fun _ hc => absurd hc hcode), h]
  rfl

theorem unescape?_plain {c : Char} (h : c ≠ '\\') (rest : List Char) :
    unescape? (c :: rest) = (unescape? rest).map (c :: ·) := by
  rw [unescape?.eq_4 c rest (fun _ hc => absurd hc h) (fun _ _ hc => absurd hc h), if_neg h]

/-- The escapes of a text stand for it. -/
theorem unescape?_escaped (text : List Char) : unescape? (escaped text) = some text := by
  induction text with
  | nil => rfl
  | cons c text ih =>
    rw [escaped] at ih
    rw [escaped, List.flatMap_cons]
    split
    · rename_i hmark
      rcases hmark with rfl | rfl
      · rw [List.cons_append, List.singleton_append, unescape?.eq_3 _ _ (by simp), ih]
        rfl
      · rw [List.cons_append, List.singleton_append, unescape?.eq_3 _ _ (by simp), ih]
        rfl
    · rename_i hplain
      rw [List.singleton_append, unescape?_plain (fun h => hplain (.inl h)), ih]
      rfl

/-! ### Closed bodies -/

/-- Whether no quote stands in a body outside of an escape and no escape is open at its end. -/
def isSealed {α : Type} [DecidableEq α] (quote slash : α) : (escaping : Bool) → List α → Bool
  | escaping, [] => !escaping
  | true, _ :: rest => isSealed quote slash false rest
  | false, x :: rest => x ≠ quote && isSealed quote slash (x = slash) rest

/-- A body of characters. -/
abbrev sealedChars : Bool → List Char → Bool := isSealed '\x22' '\\'

/-- A body of bytes. -/
abbrev sealedBytes : Bool → List UInt8 → Bool := isSealed (Token.code '\x22') (Token.code '\\')

theorem sealedChars_cons {c : Char} {rest : List Char} (h : sealedChars false (c :: rest) = true) :
    c ≠ '\x22' ∧ sealedChars (c = '\\') rest = true := by
  simpa [isSealed] using h

/-- The digits of a code are no marks. -/
theorem plain_of_hexNumber? {text : List Char} {code : Nat} (h : hexNumber? text = some code) :
    ∀ c ∈ text, c ≠ '\\' := by
  have hdigits : ∀ (digits : List Char) (start : Nat),
      digits.foldlM (fun value c => (hexDigit? c).map (value * 16 + ·)) start ≠ none →
        ∀ c ∈ digits, c ≠ '\\' := by
    intro digits
    induction digits with
    | nil => simp
    | cons d digits ih =>
      intro start hsome
      rw [List.foldlM_cons] at hsome
      cases hdigit : hexDigit? d with
      | none => simp [hdigit] at hsome
      | some value =>
        rw [hdigit] at hsome
        refine List.forall_mem_cons.mpr ⟨?_, ih _ hsome⟩
        rintro rfl
        cases hdigit
  unfold hexNumber? at h
  dsimp only at h
  split at h
  · split at h
    · cases h
    · exact List.forall_mem_cons.mpr ⟨by decide, hdigits _ 0 (by simp [h])⟩
  · split at h
    · cases h
    · exact hdigits _ 0 (by simp [h])

/-- A code in braces has no marks in it. -/
theorem plain_of_unescapeCode? {digits text value : List Char}
    (h : unescapeCode? digits text = some value) : ∀ c ∈ digits, c ≠ '\\' := by
  induction text generalizing digits with
  | nil => cases h
  | cons c text ih =>
    by_cases hbrace : c = '\x7d'
    · subst hbrace
      rw [unescapeCode?] at h
      obtain ⟨meant, hmeant, -⟩ := Option.bind_eq_some_iff.mp h
      obtain ⟨code, hcode, -⟩ := Option.bind_eq_some_iff.mp hmeant
      exact plain_of_hexNumber? hcode
    · rw [unescapeCode?.eq_3 digits c text hbrace] at h
      exact fun d hd => ih h d (List.mem_append_left _ hd)

/-- A closed body that stands for a text is read as that text up to the quote behind it. -/
theorem readLiteral?_of_unescape? (after text : List Char) :
    ∀ value, unescape? text = some value → sealedChars false text = true →
      readLiteral? (text ++ '\x22' :: after) = some (value, after) := by
  -- Inside the braces of a code the digits go along, and none of them is a backslash.
  induction text using unescape?.induct _ (fun digits text => ∀ value,
    unescapeCode? digits text = some value → sealedChars false text = true →
      readLiteralCode? digits (text ++ '\x22' :: after) = some (value, after)) with
  | case1 =>
    intro value h _
    cases h
    exact readLiteral?_quote after
  | case2 rest ih =>
    intro value h hsealed
    rw [unescape?] at h
    exact ih value h (by simpa [isSealed] using hsealed)
  | case3 c rest hcode ih =>
    intro value h hsealed
    rw [unescape?.eq_3 c rest hcode] at h
    obtain ⟨meant, hmeant, hrest⟩ := Option.bind_eq_some_iff.mp h
    obtain ⟨value, hvalue, rfl⟩ := Option.map_eq_some_iff.mp hrest
    have hread := ih value hvalue (by simpa [isSealed] using hsealed)
    rw [List.cons_append, List.cons_append, readLiteral?_escape hmeant, hread]
    rfl
  | case4 rest hcode hescape =>
    intro value h _
    rw [unescape?.eq_4 _ _ hcode hescape, if_pos rfl] at h
    cases h
  | case5 c rest _ _ hslash ih =>
    intro value h hsealed
    rw [unescape?_plain hslash] at h
    obtain ⟨value, hvalue, rfl⟩ := Option.map_eq_some_iff.mp h
    obtain ⟨hquote, hrest⟩ := sealedChars_cons hsealed
    have hread := ih value hvalue (by simpa [hslash] using hrest)
    rw [List.cons_append, readLiteral?_plain hquote hslash, hread]
    rfl
  | case6 digits value h => cases h
  | case7 digits rest ih value h hsealed =>
    rw [unescapeCode?] at h
    obtain ⟨meant, hmeant, hrest⟩ := Option.bind_eq_some_iff.mp h
    obtain ⟨value, hvalue, rfl⟩ := Option.map_eq_some_iff.mp hrest
    have hread := ih value hvalue (by simpa [isSealed] using hsealed)
    rw [List.cons_append, readLiteralCode?, hmeant, hread]
    rfl
  | case8 digits c rest hbrace ih value h hsealed =>
    rw [unescapeCode?.eq_3 digits c rest hbrace] at h
    have hslash : c ≠ '\\' := plain_of_unescapeCode? h c (by simp)
    rw [List.cons_append, readLiteralCode?.eq_3 digits c _ hbrace]
    exact ih value h (by simpa [hslash] using (sealedChars_cons hsealed).2)

/-! ### Bodies in their bytes -/

theorem sealed_of_foreign {c : Char} (h : Foreign c) (escaping : Bool) (rest : List Char) :
    sealedChars escaping (c :: rest) = sealedChars false rest := by
  have hmarks : c ≠ '\x22' ∧ c ≠ '\\' := by
    constructor <;> (rintro rfl; revert h; unfold Foreign; decide)
  cases escaping <;> simp [isSealed, hmarks]

theorem sealed_of_foreigns {run : List Char} (h : ∀ c ∈ run, Foreign c) (hrun : run ≠ [])
    (escaping : Bool) (rest : List Char) :
    sealedChars escaping (run ++ rest) = sealedChars false rest := by
  induction run generalizing escaping with
  | nil => exact absurd rfl hrun
  | cons c run ih =>
    obtain ⟨hc, hmore⟩ := List.forall_mem_cons.mp h
    rw [List.cons_append, sealed_of_foreign hc]
    cases run with
    | nil => rfl
    | cons d run => exact ih hmore (by simp) false

/-- The marks are the characters of their bytes. -/
theorem mark_iff_of_ascii {b : UInt8} (h : b.toNat < 0x80) :
    (Char.ofNat b.toNat = '\x22' ↔ b = Token.code '\x22') ∧
      (Char.ofNat b.toNat = '\\' ↔ b = Token.code '\\') := by
  have hall : ∀ n : Fin 256, n.val < 0x80 →
      (Char.ofNat n.val = '\x22' ↔ UInt8.ofFin n = Token.code '\x22') ∧
        (Char.ofNat n.val = '\\' ↔ UInt8.ofFin n = Token.code '\\') := by decide +kernel
  exact hall b.toFin h

theorem sealedBytes_of_wide {b : UInt8} (h : 0x80 ≤ b.toNat) (escaping : Bool)
    (rest : List UInt8) : sealedBytes escaping (b :: rest) = sealedBytes false rest := by
  have hmarks : b ≠ Token.code '\x22' ∧ b ≠ Token.code '\\' := by
    constructor <;> (rintro rfl; revert h; decide)
  cases escaping <;> simp [isSealed, hmarks]

theorem sealedChars_of_ascii {b : UInt8} (h : b.toNat < 0x80) (escaping : Bool) {text : List Char}
    {rest : List UInt8} (hrest : ∀ escaping, sealedBytes escaping rest = true →
      sealedChars escaping text = true) (hsealed : sealedBytes escaping (b :: rest) = true) :
    sealedChars escaping (Char.ofNat b.toNat :: text) = true := by
  obtain ⟨hquote, hslash⟩ := mark_iff_of_ascii h
  cases escaping with
  | true => exact hrest false hsealed
  | false =>
    simp only [isSealed, Bool.and_eq_true, decide_eq_true_eq, ne_eq, hquote, hslash] at hsealed ⊢
    exact ⟨hsealed.1, hrest _ hsealed.2⟩

/-- A body that is closed in its bytes is closed in its characters. An escape in bytes is over with
the first byte after the backslash, one in characters with the first character. -/
theorem sealedChars_of_sealedBytes {bytes : List UInt8} {pending : Option OpenSequence}
    {inBytes inChars : Bool} (hpending : ∀ s ∈ pending, Wide s)
    (hsame : pending = none → inChars = inBytes) (hopen : pending ≠ none → inBytes = false)
    (h : sealedBytes inBytes bytes = true) :
    sealedChars inChars ((decodeItems pending bytes).map (·.getD '\uFFFD')) = true := by
  have hmalformed : Foreign '\uFFFD' := .inr (by decide)
  induction bytes generalizing pending inBytes inChars with
  | nil =>
    cases pending with
    | none => rwa [hsame rfl]
    | some sequence =>
      rw [show decodeItems (some sequence) [] = [none] from rfl]
      exact sealed_of_foreign hmalformed inChars []
  | cons b rest ih =>
    by_cases hascii : b.toNat < 0x80
    · have hfirst : ∀ escaping, sealedBytes escaping (b :: rest) = true →
          sealedChars escaping ((decodeItems none (b :: rest)).map (·.getD '\uFFFD')) = true := by
        intro escaping hsealed
        have hcons := decodeLossy_cons hascii rest
        rw [decodeLossy] at hcons
        rw [hcons]
        refine sealedChars_of_ascii hascii escaping (fun _ hrest => ?_) hsealed
        exact ih (by simp) (fun _ => rfl) (fun hne => absurd rfl hne) hrest
      cases pending with
      | none =>
        rw [hsame rfl]
        exact hfirst inBytes h
      | some sequence =>
        rw [decodeItems_fresh hpending (fresh_cons hascii), List.map_append,
          sealed_of_foreigns (by simpa [decodeItems] using hmalformed) (by simp [decodeItems])]
        rw [hopen (by simp)] at h
        exact hfirst false h
    · obtain ⟨hitems, hprogress⟩ := decodeStep_of_wide hpending (Nat.le_of_not_lt hascii)
      rw [sealedBytes_of_wide (Nat.le_of_not_lt hascii)] at h
      rw [decodeItems]
      dsimp only
      rw [List.map_append]
      by_cases hnone : (decodeStep pending b).1 = []
      · rw [hnone, List.map_nil, List.nil_append]
        exact ih (wide_of_decodeStep hpending) (fun hnext => absurd hnone (hprogress hnext))
          (fun _ => rfl) h
      · rw [sealed_of_foreigns (by simpa using hitems) (by simpa using hnone)]
        exact ih (wide_of_decodeStep hpending) (fun _ => rfl) (fun _ => rfl) h

/-- Bytes without marks leave a body as it is. -/
theorem sealedBytes_append_of_plain {run : List UInt8}
    (h : ∀ b ∈ run, b ≠ Token.code '\x22' ∧ b ≠ Token.code '\\') (rest : List UInt8) :
    sealedBytes false (run ++ rest) = sealedBytes false rest := by
  induction run with
  | nil => rfl
  | cons b run ih =>
    obtain ⟨⟨hquote, hslash⟩, hrun⟩ := List.forall_mem_cons.mp h
    simpa [isSealed, hquote, hslash] using ih hrun

/-- The bytes of a character that is no mark are no marks. -/
theorem plain_of_encodeChar {c : Char} (h : ¬(c = '\\' ∨ c = '\x22')) :
    ∀ b ∈ String.utf8EncodeChar c, b ≠ Token.code '\x22' ∧ b ≠ Token.code '\\' := by
  rw [not_or] at h
  rcases encodeChar_cases c with ⟨b, hbyte, hascii, rfl⟩ | ⟨-, hwide⟩
  · rw [hbyte, List.forall_mem_singleton, ne_eq, ne_eq, ← (mark_iff_of_ascii hascii).1,
      ← (mark_iff_of_ascii hascii).2]
    exact ⟨h.2, h.1⟩
  · intro b hb
    have hb := hwide b hb
    constructor <;> (rintro rfl; revert hb; decide)

/-- The escapes of a text are a closed body. -/
theorem sealedBytes_escaped (text : List Char) :
    sealedBytes false (utf8 (escaped text)) = true := by
  induction text with
  | nil => rfl
  | cons c text ih =>
    rw [escaped, List.flatMap_cons, utf8, List.flatMap_append]
    rw [escaped, utf8] at ih
    split
    · rename_i hmark
      rcases hmark with rfl | rfl
      · exact ih
      · exact ih
    · rename_i hplain
      rw [List.flatMap_singleton, sealedBytes_append_of_plain (plain_of_encodeChar hplain)]
      exact ih

end Text

namespace Token

/-! ### The closing quote -/

/-- The closing quote is the first one behind a closed body. -/
theorem literalLength?_eq_some_iff {bytes : List UInt8} {length : Nat} :
    literalLength? bytes = some length ↔ ∃ body after, bytes = body ++ code '\x22' :: after ∧
      body.length = length ∧ Text.sealedBytes false body = true := by
  constructor
  · intro h
    fun_induction literalLength? bytes generalizing length with
    | case1 => cases h
    | case2 b rest hquote =>
      cases h
      exact ⟨[], rest, by rw [eq_of_beq hquote]; rfl, rfl, rfl⟩
    | case3 => cases h
    | case4 b hquote hescape c rest ih =>
      obtain ⟨inner, hinner, rfl⟩ := Option.map_eq_some_iff.mp h
      obtain ⟨body, after, rfl, rfl, hsealed⟩ := ih hinner
      rw [eq_of_beq hescape]
      exact ⟨code '\\' :: c :: body, after, rfl, rfl, hsealed⟩
    | case5 b rest hquote hescape ih =>
      obtain ⟨inner, hinner, rfl⟩ := Option.map_eq_some_iff.mp h
      obtain ⟨body, after, rfl, rfl, hsealed⟩ := ih hinner
      have hmarks : b ≠ code '\x22' ∧ b ≠ code '\\' :=
        ⟨fun h => hquote (beq_iff_eq.mpr h), fun h => hescape (beq_iff_eq.mpr h)⟩
      refine ⟨b :: body, after, rfl, rfl, ?_⟩
      simpa [Text.isSealed, hmarks] using hsealed
  · rintro ⟨body, after, rfl, rfl, hsealed⟩
    fun_induction literalLength? body with
    | case1 => exact literalLength?_quote after
    | case2 b rest hquote =>
      simp [Text.isSealed, eq_of_beq hquote] at hsealed
    | case3 b hquote hescape =>
      simp [Text.isSealed, eq_of_beq hescape] at hsealed
    | case4 b hquote hescape c rest ih =>
      rw [eq_of_beq hescape] at hsealed ⊢
      rw [List.cons_append, List.cons_append, literalLength?_escape, ih hsealed]
      rfl
    | case5 b rest hquote hescape ih =>
      have hmarks : b ≠ code '\x22' ∧ b ≠ code '\\' :=
        ⟨fun h => hquote (beq_iff_eq.mpr h), fun h => hescape (beq_iff_eq.mpr h)⟩
      rw [List.cons_append, literalLength?_plain hquote hescape,
        ih (by simpa [Text.isSealed, hmarks] using hsealed)]
      rfl

/-- A quote opens a string literal. -/
theorem scanHead_quote (rest : List UInt8) : scanHead (code '\x22') rest = scanText rest := by
  have hpath : startsPath (code '\x22' :: rest) = false := by
    cases rest <;> rfl
  have hpair : pairSymbol? (code '\x22' :: rest) = none := by
    cases rest with
    | nil => rfl
    | cons c rest =>
      have hfirst : ∀ pair ∈ Symbol.pairs, (code '\x22' == code pair.1.1) = false := by decide
      rw [pairSymbol?, List.find?_eq_none.mpr fun pair hmem => by simp [hfirst pair hmem]]
      rfl
  have hnumber :
      (isDigitByte (code '\x22') || fractionLength (code '\x22' :: rest) != 0) = false := by
    cases rest <;> rfl
  have hsingle : singleSymbol? (code '\x22') = none := by decide
  unfold scanHead
  dsimp only
  rw [if_neg (by decide), if_neg (by simp [show (code '\x22' == code '/') = false by decide]),
    hpath, if_neg (by decide), hpair, hnumber, hsingle]
  rfl

/-- The literal of a text is read as the text, whatever follows it. -/
theorem scanText_escaped (text : List Char) (after : List UInt8) :
    scanText (Text.utf8 (Text.escaped text) ++ code '\x22' :: after) =
      .ok ⟨some (.text (String.ofList text)), (Text.utf8 (Text.escaped text)).length + 1⟩ := by
  have hlength := literalLength?_eq_some_iff.mpr
    ⟨_, after, rfl, rfl, Text.sealedBytes_escaped text⟩
  unfold scanText
  rw [hlength]
  dsimp only
  rw [List.take_left, Text.decodeLossy_utf8, Text.unescape?_escaped]

/-- A literal keeps its quotes as a lexeme. -/
theorem lexemeOf_literal (text : List Char) :
    lexemeOf (Text.utf8 (Text.literal text)) = String.ofList (Text.literal text) := by
  rw [lexemeOf, Text.decodeLossy_utf8, Text.trim_of_ends]
  · rintro _ ⟨⟩
    decide
  · intro c hc
    rw [Text.literal, ← List.cons_append, List.getLast?_concat] at hc
    cases hc
    decide

/-- A token that is a text was read from a literal, and reading it by its escapes ends at the same
quote. -/
theorem literal_of_reads {value : String} {slice after : List UInt8}
    (h : Reads (.text value) slice after) :
    ∃ body, slice = code '\x22' :: (body ++ [code '\x22']) ∧
      literalLength? (body ++ code '\x22' :: after) = some body.length ∧
      Text.readLiteral? (Text.decodeLossy (body ++ code '\x22' :: after)) =
        some (value.toList, Text.decodeLossy after) := by
  obtain ⟨b, rest, rfl, -, hscan⟩ := h
  generalize hkind : TokenKind.text value = kind at hscan
  generalize hextra : rest.length = extra at hscan
  cases rule_of_scanHead hscan with
  | path | pair | number | single => cases hkind
  | name =>
    unfold nameKind at hkind
    split at hkind <;> cases hkind
  | @text length text hquote hlength hvalue =>
    cases hkind
    obtain ⟨body, behind, hbytes, rfl, hsealed⟩ := literalLength?_eq_some_iff.mp hlength
    have hrest : rest = body ++ [code '\x22'] ∧ behind = after := by
      rw [← List.singleton_append, ← List.append_assoc] at hbytes
      obtain ⟨hrest, hafter⟩ := List.append_inj hbytes (by simpa using hextra)
      exact ⟨hrest, hafter.symm⟩
    obtain ⟨rfl, rfl⟩ := hrest
    refine ⟨body, by rw [hquote], ?_, ?_⟩
    · simpa using hlength
    · rw [hbytes, List.take_left] at hvalue
      have hchars := @Text.sealedChars_of_sealedBytes body none false false (by simp) (fun _ => rfl)
        (fun hne => absurd rfl hne) hsealed
      rw [Text.decodeLossy_append (Text.fresh_cons (by decide)), Text.decodeLossy_cons (by decide),
        String.toList_ofList]
      exact Text.readLiteral?_of_unescape? _ _ _ hvalue hchars

/-- String literals round-trip: the literal of a text is read as one token with that text as its
value, and reading goes on right behind its closing quote. In an accepted source the quote that
closes a literal byte by byte is the one at which reading its escapes from the opening quote on
ends. -/
theorem literals_round_trip :
    (∀ (text : String) (read : List Token) (line : Nat) (after : List UInt8),
      tokensFrom read line (Text.utf8 (Text.literal text.toList) ++ after) =
        tokensFrom (⟨.text text, String.ofList (Text.literal text.toList), line⟩ :: read)
          (line + newlines (Text.utf8 (Text.literal text.toList))) after) ∧
    ∀ source, match ofSource source with
      | .error _ => True
      | .ok tokens => ∃ cuts last, Tiles source cuts last ∧ Gap true last ∧
          tokens = cuts.map Cut.token ++ [endOn (1 + newlines source)] ∧
          ∀ before cut later value, cuts = before ++ cut :: later → cut.token.kind = .text value →
            ∃ body after, after = later.flatMap Cut.bytes ++ last ∧
              cut.slice = code '\x22' :: (body ++ [code '\x22']) ∧
              literalLength? (body ++ code '\x22' :: after) = some body.length ∧
              Text.readLiteral? (Text.decodeLossy (body ++ code '\x22' :: after)) =
                some (value.toList, Text.decodeLossy after) := by
  refine ⟨fun text read line after => ?_, fun source => ?_⟩
  · have hbytes : Text.utf8 (Text.literal text.toList) =
        code '\x22' :: (Text.utf8 (Text.escaped text.toList) ++ [code '\x22']) := by
      rw [Text.literal, Text.utf8, List.flatMap_cons, List.flatMap_append]
      rfl
    have hscan : scanHead (code '\x22')
        (Text.utf8 (Text.escaped text.toList) ++ [code '\x22'] ++ after) =
          .ok ⟨some (.text text),
            (Text.utf8 (Text.escaped text.toList) ++ [code '\x22']).length⟩ := by
      rw [scanHead_quote, List.append_assoc, List.singleton_append, scanText_escaped,
        String.ofList_toList, List.length_append, List.length_singleton]
    have hhead := @tokensFrom_head read line _ _ _ _ (by decide) hscan
    rw [← hbytes, lexemeOf_literal] at hhead
    exact hhead
  · have haccount := accounts_of_ofSource source
    cases hread : ofSource source with
    | error error => trivial
    | ok tokens =>
      rw [hread] at haccount
      obtain ⟨cuts, last, htiles, hlast, htokens⟩ := haccount
      refine ⟨cuts, last, htiles, hlast, htokens, fun before cut later value hcut hkind => ?_⟩
      have hreads := htiles.reads before cut later hcut
      rw [hkind] at hreads
      obtain ⟨body, hslice, hlength, hown⟩ := literal_of_reads hreads
      exact ⟨body, _, rfl, hslice, hlength, hown⟩

end Token

end DecimalScript
