import DecimalScript.Proofs.CutTexts

/-!
# Lexemes and their slices

A token other than a module path ends in a character that is one byte and no white space, so nothing
of it is trimmed. A module path may end in white space that does not separate tokens; what is left of
it begins with the same dots and slash, and so it is a module path again.
-/

namespace DecimalScript

namespace Text

/-- Nothing is dropped in front of a character that is not of the class. -/
theorem dropEndWhile_append_cons {p : Char → Bool} {c : Char} (hc : p c = false)
    (before after : List Char) :
    dropEndWhile p (before ++ c :: after) = before ++ c :: dropEndWhile p after := by
  have hdrop : ∀ chars rest : List Char,
      (chars ++ c :: rest).dropWhile p = chars.dropWhile p ++ c :: rest := by
    intro chars rest
    induction chars with
    | nil => exact List.dropWhile_cons_of_neg (by simp [hc])
    | cons d chars ih =>
      cases hd : p d with
      | true =>
        rw [List.cons_append, List.dropWhile_cons_of_pos hd, List.dropWhile_cons_of_pos hd, ih]
      | false =>
        rw [List.cons_append, List.dropWhile_cons_of_neg (by simp [hd]),
          List.dropWhile_cons_of_neg (by simp [hd]), List.cons_append]
  simp [dropEndWhile, hdrop]

/-- A trimmed text has no white space at its ends. -/
theorem trim_trim (text : List Char) : trim (trim text) = trim text := by
  refine trim_of_ends (fun c hc => ?_) fun c hc => ?_
  · obtain ⟨rest, hrest⟩ := dropEndWhile_prefix isBlank (text.dropWhile isBlank)
    have hfirst : (text.dropWhile isBlank).head? = some c := by
      rw [← hrest, List.head?_append, ← trim, Option.mem_def.mp hc]
      rfl
    have hstop := List.head?_dropWhile_not isBlank text
    rwa [hfirst] at hstop
  · rw [trim, dropEndWhile, List.getLast?_reverse] at hc
    have hstop := List.head?_dropWhile_not isBlank (text.dropWhile isBlank).reverse
    rwa [Option.mem_def.mp hc] at hstop

/-- Texts with the same bytes are the same. -/
theorem utf8_inj {first second : List Char} : utf8 first = utf8 second ↔ first = second :=
  ⟨fun h => by rw [← decodeLossy_utf8 first, h, decodeLossy_utf8], congrArg utf8⟩

end Text

namespace Token

/-! ### Ends of tokens -/

/-- A token that is no module path ends in a character that is one byte and no white space. -/
theorem Reads.path_or_solid {kind : TokenKind} {slice after : List UInt8}
    (h : Reads kind slice after) :
    (∃ value, kind = .path value) ∨ ∀ b ∈ slice.getLast?, Solid b := by
  have hpairs : ∀ pair ∈ Symbol.pairs, Solid (code pair.1.2) := by decide +kernel
  have hreads := h
  obtain ⟨b, rest, rfl, -, hscan⟩ := h
  generalize hextra : rest.length = extra at hscan
  cases rule_of_scanHead hscan with
  | path => exact .inl ⟨_, rfl⟩
  | pair hpair =>
    obtain ⟨pair, hmem, -, hsecond⟩ := pair_of_pairSymbol? hpair
    obtain ⟨x, rfl⟩ := List.length_eq_one_iff.mp hextra
    obtain rfl : x = code pair.1.2 := Option.some.inj hsecond
    refine .inr fun last hlast => ?_
    obtain rfl : code pair.1.2 = last := Option.some.inj hlast
    exact hpairs pair hmem
  | number =>
    refine .inr fun x hx => ?_
    rcases digits_of_reads hreads x (List.mem_of_mem_getLast? hx) with hdigit | rfl
    · exact solid_of_nameByte (by simp [isNameByte, hdigit])
    · decide
  | single hsingle =>
    obtain rfl := List.length_eq_zero_iff.mp hextra
    refine .inr fun x hx => ?_
    obtain rfl : b = x := Option.some.inj hx
    exact (rule_of_scanHead hscan).solid
  | text =>
    obtain ⟨body, hslice, -⟩ := literal_of_reads hreads
    refine .inr fun x hx => ?_
    rw [hslice, ← List.cons_append, List.getLast?_concat] at hx
    cases hx
    decide
  | name hstarts =>
    refine .inr fun x hx => solid_of_nameByte ?_
    rcases List.mem_cons.mp (List.mem_of_mem_getLast? hx) with rfl | hrest
    · simp [isNameByte, hstarts]
    · exact run_of_length hextra x hrest

/-! ### Module paths -/

/-- A module path is its slice, which goes on to the end with bytes of paths. -/
theorem Reads.of_path {value : String} {slice after : List UInt8}
    (h : Reads (.path value) slice after) :
    value = Text.stringLossy slice ∧ startsPath slice = true ∧
      ∀ x ∈ slice.tail, isPathByte x = true := by
  obtain ⟨b, rest, rfl, -, hscan⟩ := h
  generalize hkind : TokenKind.path value = kind at hscan
  generalize hextra : rest.length = extra at hscan
  cases rule_of_scanHead hscan with
  | pair | number | single | text => cases hkind
  | name =>
    unfold nameKind at hkind
    split at hkind <;> cases hkind
  | path hstarts =>
    refine ⟨?_, startsPath_truncate hstarts hextra.ge, run_of_length hextra⟩
    rw [← hextra, ← List.cons_append, ← List.length_cons, List.take_left] at hkind
    exact TokenKind.path.inj hkind

/-- Bytes of paths that start as a path does are a module path. -/
theorem reads_path {bytes : List UInt8} (hstarts : startsPath bytes = true)
    (hbytes : ∀ x ∈ bytes.tail, isPathByte x = true) :
    Reads (.path (Text.stringLossy bytes)) bytes [] := by
  cases bytes with
  | nil => cases hstarts
  | cons b rest =>
    obtain rfl := dot_of_startsPath hstarts
    have hrun : rest.takeWhile isPathByte = rest := List.takeWhile_eq_self_iff.mpr hbytes
    refine ⟨_, rest, rfl, by decide, ?_⟩
    unfold scanHead
    dsimp only
    have hslash : ¬(code '.' == code '/' && rest.head? == some (code '*')) = true := by
      rw [show (code '.' == code '/') = false by decide, Bool.false_and]
      exact Bool.false_ne_true
    rw [List.append_nil, if_neg (by decide), if_neg hslash, if_pos hstarts, hrun,
      ← List.length_cons, List.take_length]

/-- The dots and the slash that a path starts with are not trimmed. -/
theorem startsPath_trim {slice : List UInt8} (h : startsPath slice = true) :
    startsPath (Text.utf8 (Text.trim (Text.decodeLossy slice))) = true := by
  have hdot : Text.isBlank '.' = false := by decide
  have hslash : Text.isBlank '/' = false := by decide
  -- The slash stays, as it is no white space, and so does what is in front of it.
  have hkept : ∀ front more, Text.trim ('.' :: (front ++ '/' :: more)) =
      '.' :: (front ++ '/' :: Text.dropEndWhile Text.isBlank more) := by
    intro front more
    rw [Text.trim, List.dropWhile_cons_of_neg (by simp [hdot]), ← List.cons_append,
      Text.dropEndWhile_append_cons hslash, List.cons_append]
  rcases slice with _ | ⟨a, _ | ⟨b, rest⟩⟩
  · cases h
  · cases h
  · rw [startsPath, Bool.and_eq_true, beq_iff_eq, Bool.or_eq_true, Bool.and_eq_true, beq_iff_eq,
      beq_iff_eq, beq_iff_eq] at h
    obtain ⟨rfl, rfl | ⟨rfl, hthird⟩⟩ := h
    · rw [Text.decodeLossy_cons (by decide), Text.decodeLossy_cons (by decide)]
      exact congrArg (fun kept => startsPath (Text.utf8 kept)) (hkept [] _)
    · obtain ⟨more, rfl⟩ := List.head?_eq_some_iff.mp hthird
      rw [Text.decodeLossy_cons (by decide), Text.decodeLossy_cons (by decide),
        Text.decodeLossy_cons (by decide)]
      exact congrArg (fun kept => startsPath (Text.utf8 kept)) (hkept ['.'] _)

/-! ### Lexemes read alone -/

/-- A token is read alone from its slice. -/
theorem Reads.readAlone {kind : TokenKind} {slice after : List UInt8} (h : Reads kind slice after) :
    ReadAlone kind (lexemeOf slice) slice := by
  have hread : tokensFrom [] 1 (slice ++ []) = _ :=
    tokensFrom_slice h (show EndsToken [] from nofun)
  rwa [List.append_nil, tokensFrom_nil] at hread

theorem bytesOf_lexemeOf (slice : List UInt8) :
    Text.bytesOf (lexemeOf slice) = Text.utf8 (Text.trim (Text.decodeLossy slice)) := by
  rw [Text.bytesOf, lexemeOf, String.toList_ofList]

theorem trimmed_eq_self {kind : TokenKind} (h : ¬∃ value, kind = .path value) :
    kind.trimmed = kind := by
  cases kind with
  | path value => exact absurd ⟨value, rfl⟩ h
  | symbol | keyword | identifier | text | number | endMarker => rfl

/-- What is left of a path has bytes of paths only. -/
theorem pathBytes_trim {slice : List UInt8} (hwhole : Text.utf8 (Text.decodeLossy slice) = slice)
    (hkept : Text.trim (Text.decodeLossy slice) <+: Text.decodeLossy slice)
    (hbytes : ∀ x ∈ slice.tail, isPathByte x = true) :
    ∀ x ∈ (Text.utf8 (Text.trim (Text.decodeLossy slice))).tail, isPathByte x = true := by
  obtain ⟨dropped, hdropped⟩ := hkept
  have hslice : Text.utf8 (Text.trim (Text.decodeLossy slice)) ++ Text.utf8 dropped = slice := by
    rw [← Text.utf8_append, hdropped, hwhole]
  rw [← hslice] at hbytes
  cases hbegin : Text.utf8 (Text.trim (Text.decodeLossy slice)) with
  | nil => nofun
  | cons b rest =>
    rw [hbegin] at hbytes
    exact fun x hx => hbytes x (List.mem_append_left _ hx)

/-- From the lexeme of a token its kind is read again, but for white space at the end of a path. The
lexeme is the slice exactly if there is none. -/
theorem Reads.lexeme_again {kind : TokenKind} {slice after : List UInt8} (h : Reads kind slice after)
    (hwhole : Text.utf8 (Text.decodeLossy slice) = slice) :
    (Text.bytesOf (lexemeOf slice) = slice ↔ kind.trimmed = kind) ∧
      ReadAlone kind.trimmed (lexemeOf slice) (Text.bytesOf (lexemeOf slice)) := by
  by_cases hpath : ∃ value, kind = .path value
  · obtain ⟨value, rfl⟩ := hpath
    obtain ⟨hvalue, hstarts, hbytes⟩ := h.of_path
    have hkept := h.lexeme.2
    rw [lexemeOf, String.toList_ofList] at hkept
    have hagain := (reads_path (startsPath_trim hstarts) (pathBytes_trim hwhole hkept hbytes)).readAlone
    have htrimmed : TokenKind.trimmed (.path value) = .path (lexemeOf slice) := by
      rw [TokenKind.trimmed, hvalue, Text.trimmed, Text.stringLossy, String.toList_ofList, lexemeOf]
    rw [bytesOf_lexemeOf, htrimmed]
    refine ⟨?_, ?_⟩
    · rw [TokenKind.path.injEq, hvalue, lexemeOf, Text.stringLossy, String.ofList_inj,
        ← Text.utf8_inj, hwhole]
    · rw [Text.stringLossy, Text.decodeLossy_utf8] at hagain
      rwa [lexemeOf, Text.decodeLossy_utf8, Text.trim_trim] at hagain
  · have hsame := h.lexeme_of_solid (h.path_or_solid.resolve_left hpath)
    have hslice : Text.bytesOf (lexemeOf slice) = slice := by rw [Text.bytesOf, hsame, hwhole]
    rw [trimmed_eq_self hpath, hslice]
    exact ⟨iff_of_true rfl rfl, h.readAlone⟩

/-- The tokens of a text have cuts, and from the lexeme of a token, alone, its kind is read again
but for white space at the end of a module path. Lexemes are faithful exactly for the other
tokens. -/
theorem lexemes_faithful_iff {text : String} {tokens : List Token}
    (h : ofSource (Text.bytesOf text) = .ok tokens) :
    ∃ cuts last, Tiles (Text.bytesOf text) cuts last ∧ Gap true last ∧
      tokens = cuts.map Cut.token ++ [endOn (1 + newlines (Text.bytesOf text))] ∧
      ∀ cut ∈ cuts, (cut.Faithful ↔ cut.token.kind.trimmed = cut.token.kind) ∧
        ReadAlone cut.token.kind.trimmed cut.token.lexeme (Text.bytesOf cut.token.lexeme) := by
  have haccounts := accounts_of_ofSource (Text.bytesOf text)
  rw [h] at haccounts
  obtain ⟨cuts, last, htiles, hlast, htokens⟩ := haccounts
  refine ⟨cuts, last, htiles, hlast, htokens, fun cut hcut => ?_⟩
  obtain ⟨before, after, hsplit⟩ := List.append_of_mem hcut
  obtain ⟨hslice, hagain⟩ := (htiles.reads before cut after hsplit).lexeme_again
    ((htiles.consists hlast).whole cut hcut).slice
  rw [← htiles.lexemes cut hcut] at hslice hagain
  refine ⟨⟨fun hfaithful => hslice.mp hfaithful.slice, fun htrimmed => ⟨hslice.mpr htrimmed, ?_⟩⟩,
    hagain⟩
  rwa [htrimmed] at hagain

/-- A path that ends in a no-break space is read from its lexeme without it; the semicolon behind it
is read as it is. -/
theorem path_before_semicolon :
    ∃ path semicolon : Cut,
      ofSource (Text.bytesOf "./a\u00a0;") = .ok [path.token, semicolon.token, endOn 1] ∧
      ¬path.Faithful ∧ ReadAlone (.path "./a") path.token.lexeme (Text.bytesOf path.token.lexeme) ∧
      semicolon.Faithful := by
  have htokens : ofSource (Text.bytesOf "./a\u00a0;") = .ok ([⟨.path "./a\u00a0", "./a", 1⟩,
      ⟨.symbol .semicolon, ";", 1⟩] ++ [endOn 1]) := by decide +kernel
  obtain ⟨cuts, -, -, -, hcuts, hfaithful⟩ := lexemes_faithful_iff htokens
  obtain ⟨hmap, -⟩ := List.append_inj' hcuts rfl
  obtain ⟨path, others, rfl, hpath, hothers⟩ := List.map_eq_cons_iff.mp hmap.symm
  obtain ⟨semicolon, last, rfl, hsemicolon, -⟩ := List.map_eq_cons_iff.mp hothers
  obtain ⟨hpathIff, hagain⟩ := hfaithful path (by simp)
  refine ⟨path, semicolon, by rw [htokens, hpath, hsemicolon]; rfl, ?_, ?_, ?_⟩
  · rw [hpathIff, hpath]
    decide +kernel
  · rw [hpath] at hagain ⊢
    exact hagain
  · rw [(hfaithful semicolon (by simp)).1, hsemicolon]
    rfl

/-- However the text is cut, the path is not read again from its lexeme. -/
theorem trimmed_path_not_faithful :
    ∃ tokens, ofSource (Text.bytesOf "./a\u00a0") = .ok tokens ∧
      ¬∃ cuts last, Tiles (Text.bytesOf "./a\u00a0") cuts last ∧ Gap true last ∧
        tokens = cuts.map Cut.token ++ [endOn (1 + newlines (Text.bytesOf "./a\u00a0"))] ∧
        ∀ cut ∈ cuts, cut.Faithful := by
  refine ⟨[⟨.path "./a\u00a0", "./a", 1⟩] ++ [endOn 1], by decide +kernel, ?_⟩
  rintro ⟨cuts, last, -, -, hcuts, hfaithful⟩
  obtain ⟨hmap, -⟩ := List.append_inj' hcuts rfl
  obtain ⟨cut, others, rfl, hcut, -⟩ := List.map_eq_cons_iff.mp hmap.symm
  have hagain := (hfaithful cut (by simp)).again
  rw [hcut] at hagain
  revert hagain
  unfold ReadAlone
  decide +kernel

end Token

end DecimalScript
