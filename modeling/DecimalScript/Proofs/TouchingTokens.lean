import DecimalScript.Proofs.Literals

/-!
# Tokens that touch

Two tokens with nothing between them were told apart by their bytes. Where one ends in a byte of a
name and the next starts with one, a number comes first and no digit after it. So a name is never
read right behind its own spelling.
-/

namespace DecimalScript

namespace Token

/-- What follows a run is of no class that the run is of. -/
theorem stops_of_length {p : UInt8 → Bool} {run after : List UInt8} {c : UInt8}
    (h : run.length = ((run ++ c :: after).takeWhile p).length) : p c = false := by
  have hdrop := drop_length_takeWhile p (run ++ c :: after)
  rw [← h, List.drop_left] at hdrop
  have hstop := List.head?_dropWhile_not p (run ++ c :: after)
  rwa [← hdrop] at hstop

/-- A run consists of bytes of its class. -/
theorem run_of_length {p : UInt8 → Bool} {run after : List UInt8}
    (h : run.length = ((run ++ after).takeWhile p).length) : ∀ x ∈ run, p x = true := by
  have hall : run.takeWhile p = run :=
    (List.takeWhile_prefix p).eq_of_length (by rw [takeWhile_of_length_le h.ge, h])
  intro x hx
  rw [← hall] at hx
  exact List.mem_takeWhile_imp hx

/-- No digit follows a number. -/
theorem digit_stops_number (bytes : List UInt8) :
    ∀ c ∈ (bytes.drop (numberLength bytes)).head?, isDigitByte c = false := by
  intro c hc
  rw [numberLength, ← List.drop_drop, drop_length_takeWhile] at hc
  by_cases hfraction : fractionLength (bytes.dropWhile isDigitByte) = 0
  · have hstop := List.head?_dropWhile_not isDigitByte bytes
    rw [hfraction, List.drop_zero] at hc
    rwa [Option.mem_def.mp hc] at hstop
  · obtain ⟨rest, hpoint, hlength⟩ := fractionLength_eq hfraction
    have hstop := List.head?_dropWhile_not isDigitByte rest
    rw [hlength, hpoint, Nat.add_comm 1, List.drop_succ_cons, drop_length_takeWhile] at hc
    rwa [Option.mem_def.mp hc] at hstop

/-- Where a token ends in a byte of a name and a byte of a name follows it, the token is a number
and the byte no digit. -/
theorem number_of_touching {kind : TokenKind} {slice after : List UInt8} {c last : UInt8}
    (h : Reads kind slice (c :: after)) (hc : isNameByte c = true) (hlast : last ∈ slice.getLast?)
    (hname : isNameByte last = true) :
    (∃ value, kind = .number value) ∧ isDigitByte c = false := by
  have hpath : ∀ n : Fin 256,
      isNameByte (UInt8.ofFin n) = true → isPathByte (UInt8.ofFin n) = true := by decide +kernel
  have hpairs : ∀ pair ∈ Symbol.pairs, isNameByte (code pair.1.2) = false := by decide
  have hsingles : ∀ single ∈ Symbol.singles, isNameByte (code single.1) = false := by decide
  have hreads := h
  obtain ⟨b, rest, rfl, -, hscan⟩ := h
  generalize hextra : rest.length = extra at hscan
  cases rule_of_scanHead hscan with
  | path =>
    have hpathByte : isPathByte c = true := hpath c.toFin hc
    rw [stops_of_length hextra] at hpathByte
    cases hpathByte
  | pair hpair =>
    obtain ⟨pair, hmem, -, hsecond⟩ := pair_of_pairSymbol? hpair
    obtain ⟨x, rfl⟩ := List.length_eq_one_iff.mp hextra
    obtain rfl : x = code pair.1.2 := Option.some.inj hsecond
    obtain rfl : code pair.1.2 = last := Option.some.inj hlast
    rw [hpairs pair hmem] at hname
    cases hname
  | number hstarts =>
    refine ⟨⟨_, rfl⟩, digit_stops_number (b :: rest ++ c :: after) c ?_⟩
    have hlength : numberLength (b :: rest ++ c :: after) = (b :: rest).length := by
      have hpositive := startsNumber_iff.mp hstarts
      rw [List.cons_append, List.length_cons]
      omega
    rw [hlength, List.drop_left]
    rfl
  | single hsingle =>
    obtain ⟨single, hmem, rfl⟩ := single_of_singleSymbol? hsingle
    obtain rfl := List.length_eq_zero_iff.mp hextra
    obtain rfl : code single.1 = last := Option.some.inj hlast
    rw [hsingles single hmem] at hname
    cases hname
  | text =>
    obtain ⟨body, hslice, -⟩ := literal_of_reads hreads
    rw [hslice, ← List.cons_append, List.getLast?_concat] at hlast
    cases hlast
    cases hname
  | name =>
    rw [stops_of_length hextra] at hc
    cases hc

/-! ### What stands before a name -/

/-- A gap ends in no byte of a name. -/
theorem Gap.last {gap : List UInt8} (h : Gap false gap) :
    ∀ last ∈ gap.getLast?, ¬isNameByte last = true := by
  have hcons : ∀ (b : UInt8) (rest : List UInt8), ¬isNameByte b = true →
      (∀ last ∈ rest.getLast?, ¬isNameByte last = true) →
        ∀ last ∈ (b :: rest).getLast?, ¬isNameByte last = true := by
    intro b rest hb hrest last hlast
    rw [List.getLast?_cons, Option.mem_some_iff] at hlast
    cases hmore : rest.getLast? with
    | none => simpa [hmore, ← hlast] using hb
    | some more => simpa [hmore, ← hlast] using hrest more hmore
  generalize hends : false = ends at h
  induction h with
  | nil => simp
  | blank hb _ ih => exact hcons _ _ (by simp [(noTokenByte_of_blank hb).name]) (ih hends)
  | @line _ body rest _ _ ih =>
    rw [← List.cons_append, List.getLast?_append_of_ne_nil _ (List.cons_ne_nil _ _)]
    exact hcons (code '\n') rest (by decide) (ih hends)
  | @block _ body rest _ _ ih =>
    rw [← List.cons_append, ← List.cons_append,
      List.getLast?_append_of_ne_nil _ (List.cons_ne_nil _ _), List.getLast?_cons_cons]
    exact hcons (code '/') rest (by decide) (ih hends)
  | lastLine => cases hends

/-- A number consists of digits and points. -/
theorem digits_of_reads {value : Number} {slice after : List UInt8}
    (h : Reads (.number value) slice after) :
    ∀ b ∈ slice, isDigitByte b = true ∨ b = code '.' := by
  obtain ⟨b, rest, rfl, -, hscan⟩ := h
  generalize hkind : TokenKind.number value = kind at hscan
  generalize hextra : rest.length = extra at hscan
  cases rule_of_scanHead hscan with
  | path | pair | single | text => cases hkind
  | name =>
    unfold nameKind at hkind
    split at hkind <;> cases hkind
  | number hstarts =>
    have hpositive := startsNumber_iff.mp hstarts
    have hlength : numberLength (b :: rest ++ after) = (b :: rest).length := by
      rw [List.cons_append, List.length_cons]
      omega
    have hbytes := digits_of_numberLength (b :: rest ++ after)
    rwa [hlength, List.take_left] at hbytes

/-- An identifier consists of bytes of names. -/
theorem nameBytes_of_reads {name : String} {slice after : List UInt8}
    (h : Reads (.identifier name) slice after) :
    (∃ b ∈ slice.head?, isNameStart b = true) ∧ ∀ b ∈ slice, isNameByte b = true := by
  obtain ⟨b, rest, rfl, -, hscan⟩ := h
  generalize hkind : TokenKind.identifier name = kind at hscan
  generalize hextra : rest.length = extra at hscan
  cases rule_of_scanHead hscan with
  | path | pair | number | single | text => cases hkind
  | name hstarts =>
    exact ⟨⟨b, rfl, hstarts⟩,
      List.forall_mem_cons.mpr ⟨by simp [isNameByte, hstarts], run_of_length hextra⟩⟩

section

variable {source last : List UInt8} {done later : List Cut} {cut : Cut}

/-- Where a byte of a name stands right before a slice that starts with one, it ends a number and
the slice starts with no digit. -/
theorem number_before_slice {first final : UInt8} (h : Tiles source (done ++ cut :: later) last)
    (hfinal : final ∈ (done.flatMap Cut.bytes ++ cut.gap).getLast?)
    (hname : isNameByte final = true) (hfirst : first ∈ cut.slice.head?)
    (hstarts : isNameByte first = true) :
    cut.gap = [] ∧ isDigitByte first = false ∧
      ∃ earlier number value, done = earlier ++ [number] ∧ number.token.kind = .number value := by
  have hgap : cut.gap = [] := by
    by_contra hne
    rw [List.getLast?_append_of_ne_nil _ hne] at hfinal
    exact (h.gaps cut (by simp)).last final hfinal hname
  rw [hgap, List.append_nil] at hfinal
  rcases List.eq_nil_or_concat done with rfl | ⟨earlier, number, rfl⟩
  · cases hfinal
  rw [List.concat_eq_append] at *
  obtain ⟨b, rest, hslice, -⟩ := h.reads earlier number (cut :: later) (by simp)
  rw [List.flatMap_append, List.flatMap_singleton, Cut.bytes, ← List.append_assoc,
    List.getLast?_append_of_ne_nil _ (by simp [hslice])] at hfinal
  obtain ⟨_, behind, hcut, -⟩ := h.reads (earlier ++ [number]) cut later rfl
  rw [hcut] at hfirst
  cases hfirst
  have hreads := h.reads earlier number (cut :: later) (by simp)
  rw [List.flatMap_cons, Cut.bytes, hgap, hcut] at hreads
  obtain ⟨⟨value, hvalue⟩, hdigit⟩ := number_of_touching hreads hstarts hfinal hname
  exact ⟨hgap, hdigit, earlier, number, value, rfl, hvalue⟩

/-- No identifier stands right behind its own spelling. -/
theorem not_behind_itself {name : String} (h : Tiles source (done ++ cut :: later) last)
    (hkind : cut.token.kind = .identifier name) :
    ¬cut.slice <:+ done.flatMap Cut.bytes ++ cut.gap := by
  intro hbehind
  have hreads := h.reads done cut later rfl
  rw [hkind] at hreads
  obtain ⟨⟨first, hfirst, hstart⟩, hnames⟩ := nameBytes_of_reads hreads
  have hmem : first ∈ cut.slice := List.mem_of_mem_head? hfirst
  have hlast : cut.slice.getLast (List.ne_nil_of_mem hmem) ∈
      (done.flatMap Cut.bytes ++ cut.gap).getLast? := by
    obtain ⟨ahead, hahead⟩ := hbehind
    rw [← hahead, List.getLast?_append_of_ne_nil _ (List.ne_nil_of_mem hmem)]
    exact List.getLast?_eq_getLast_of_ne_nil _
  obtain ⟨hgap, hdigit, earlier, number, value, rfl, hnumber⟩ := number_before_slice h hlast
    (hnames _ (List.getLast_mem _)) hfirst (hnames _ hmem)
  have hsplit : earlier ++ [number] ++ cut :: later = earlier ++ number :: (cut :: later) := by simp
  rw [hsplit] at h
  have hdigits := h.reads earlier number (cut :: later) rfl
  rw [hnumber] at hdigits
  have hallDigits := digits_of_reads hdigits
  have hnotHere : first ∉ number.slice := by
    intro hhere
    rcases hallDigits first hhere with hfound | rfl
    · rw [hdigit] at hfound
      cases hfound
    · cases hstart
  rw [hgap, List.append_nil, List.flatMap_append, List.flatMap_singleton, Cut.bytes,
    ← List.append_assoc] at hbehind
  -- The spelling is longer than the number, so it has a byte of a name right before the number.
  rcases List.suffix_or_suffix_of_suffix hbehind (List.suffix_append _ number.slice) with
    hshort | ⟨ahead, hahead⟩
  · exact hnotHere (hshort.subset hmem)
  · have hne : ahead ≠ [] := by
      rintro rfl
      rw [List.nil_append] at hahead
      exact hnotHere (hahead ▸ hmem)
    obtain ⟨further, hfurther⟩ := hbehind
    rw [← hahead, ← List.append_assoc, List.append_left_inj] at hfurther
    have hbefore : ahead.getLast hne ∈ (earlier.flatMap Cut.bytes ++ number.gap).getLast? := by
      rw [← hfurther, List.getLast?_append_of_ne_nil _ hne]
      exact List.getLast?_eq_getLast_of_ne_nil _
    obtain ⟨x, rest, hslice, -⟩ := hdigits
    have hnameByte : ∀ b, b ∈ ahead ∨ b ∈ number.slice → isNameByte b = true := fun b hb =>
      hnames b (hahead ▸ List.mem_append.mpr hb)
    have hx : x ∈ number.slice := by simp [hslice]
    obtain ⟨-, hnone, -⟩ := number_before_slice h hbefore
      (hnameByte _ (.inl (List.getLast_mem hne))) (show x ∈ number.slice.head? by simp [hslice])
      (hnameByte x (.inr hx))
    rcases hallDigits x hx with hfound | rfl
    · rw [hnone] at hfound
      cases hfound
    · cases hnameByte _ (.inr hx)

end

end Token

end DecimalScript
