import DecimalScript.Proofs.TouchingTokens

/-!
# Texts cut into tokens

Gaps and slices start with ASCII bytes, so the cuts in the bytes of a text are cuts between its
characters: a text is made of the characters of its gaps and slices, and each of them has just the
bytes it was read from.
-/

namespace DecimalScript

namespace Text

theorem Fresh.append {first second : List UInt8} (hfirst : Fresh first)
    (hsecond : first = [] → Fresh second) : Fresh (first ++ second) := by
  cases first with
  | nil => exact hsecond rfl
  | cons b rest => exact fresh_cons (hfirst b rfl)

theorem dropEndWhile_prefix (p : Char → Bool) (text : List Char) :
    dropEndWhile p text <+: text := by
  rw [dropEndWhile, ← List.reverse_suffix, List.reverse_reverse]
  exact List.dropWhile_suffix p

theorem dropEndWhile_ne_nil {p : Char → Bool} {text : List Char} {c : Char} (hc : p c = false)
    (hmem : c ∈ text) : dropEndWhile p text ≠ [] := by
  intro hnil
  rw [dropEndWhile, List.reverse_eq_nil_iff, List.dropWhile_eq_nil_iff] at hnil
  have hall := hnil c (List.mem_reverse.mpr hmem)
  rw [hc] at hall
  cases hall

/-- A text with a character that is no white space is not empty when it is trimmed. -/
theorem trim_ne_nil {text : List Char} {c : Char} (hc : isBlank c = false) (hmem : c ∈ text) :
    trim text ≠ [] := by
  refine dropEndWhile_ne_nil hc ?_
  rw [← List.takeWhile_append_dropWhile (p := isBlank) (l := text), List.mem_append] at hmem
  refine hmem.resolve_left fun hblank => ?_
  rw [List.mem_takeWhile_imp hblank] at hc
  cases hc

end Text

namespace Token

theorem Gap.fresh {ends : Bool} {gap : List UInt8} (h : Gap ends gap) : Text.Fresh gap := by
  cases h with
  | nil => exact Text.fresh_nil
  | blank hb => exact Text.fresh_cons (Text.ascii_of_blank hb).1
  | line | block | lastLine => exact Text.fresh_cons (by decide)

theorem Reads.solid {kind : TokenKind} {slice after : List UInt8} (h : Reads kind slice after) :
    ∃ b rest, slice = b :: rest ∧ Solid b := by
  obtain ⟨b, rest, rfl, -, hscan⟩ := h
  exact ⟨b, rest, rfl, (rule_of_scanHead hscan).solid⟩

/-! ### Characters of cuts -/

/-- The characters of a cut. -/
def Cut.chars (cut : Cut) : List Char := Text.decodeLossy cut.gap ++ Text.decodeLossy cut.slice

/-- A cut between characters. -/
structure Cut.Whole (cut : Cut) : Prop where
  /-- The gap has the bytes of its characters. -/
  gap : Text.utf8 (Text.decodeLossy cut.gap) = cut.gap
  /-- The slice has the bytes of its characters. -/
  slice : Text.utf8 (Text.decodeLossy cut.slice) = cut.slice

/-- A text consists of the characters of its cuts and of what is behind them. -/
structure Consists (text : List Char) (cuts : List Cut) (last : List UInt8) : Prop where
  /-- The characters stand one behind the other. -/
  text : text = cuts.flatMap Cut.chars ++ Text.decodeLossy last
  /-- All cuts are between characters. -/
  whole : ∀ cut ∈ cuts, cut.Whole
  /-- What is behind the cuts has the bytes of its characters. -/
  last : Text.utf8 (Text.decodeLossy last) = last

/-- Cuts in front of gaps and slices that start afresh are cuts between characters. -/
theorem consists_of_fresh {text : List Char} {cuts : List Cut} {last : List UInt8}
    (hfresh : ∀ cut ∈ cuts, Text.Fresh cut.gap ∧ cut.slice ≠ [] ∧ Text.Fresh cut.slice)
    (hlast : Text.Fresh last) (h : Text.utf8 text = cuts.flatMap Cut.bytes ++ last) :
    Consists text cuts last := by
  have hrest : ∀ cuts : List Cut, (∀ cut ∈ cuts, Text.Fresh cut.gap ∧ cut.slice ≠ [] ∧
      Text.Fresh cut.slice) → Text.Fresh (cuts.flatMap Cut.bytes ++ last) := by
    intro cuts hfresh
    cases cuts with
    | nil => exact hlast
    | cons cut cuts =>
      obtain ⟨⟨hgap, hne, hslice⟩, -⟩ := List.forall_mem_cons.mp hfresh
      rw [List.flatMap_cons, Cut.bytes, List.append_assoc, List.append_assoc]
      exact hgap.append fun _ => hslice.append fun hnil => absurd hnil hne
  induction cuts generalizing text with
  | nil =>
    rw [List.flatMap_nil, List.nil_append] at h
    have hread : Text.decodeLossy last = text := by rw [← h, Text.decodeLossy_utf8]
    exact ⟨by rw [hread]; rfl, by simp, by rw [hread, h]⟩
  | cons cut cuts ih =>
    obtain ⟨⟨hgap, hne, hslice⟩, hcuts⟩ := List.forall_mem_cons.mp hfresh
    rw [List.flatMap_cons, Cut.bytes, List.append_assoc, List.append_assoc] at h
    obtain ⟨gap, more, rfl, hgapBytes, hmore⟩ :=
      Text.cut_of_fresh h (hslice.append fun hnil => absurd hnil hne)
    obtain ⟨slice, rest, rfl, hsliceBytes, hrestBytes⟩ := Text.cut_of_fresh hmore (hrest cuts hcuts)
    obtain ⟨htext, hwhole, hlastBytes⟩ := ih hcuts hrestBytes
    have hgapText : Text.decodeLossy cut.gap = gap := by rw [← hgapBytes, Text.decodeLossy_utf8]
    have hsliceText : Text.decodeLossy cut.slice = slice := by
      rw [← hsliceBytes, Text.decodeLossy_utf8]
    have hcut : cut.Whole := ⟨by rw [hgapText, hgapBytes], by rw [hsliceText, hsliceBytes]⟩
    refine ⟨?_, List.forall_mem_cons.mpr ⟨hcut, hwhole⟩, hlastBytes⟩
    rw [List.flatMap_cons, Cut.chars, hgapText, hsliceText, htext, List.append_assoc,
      List.append_assoc]

/-- A text consists of the characters of its tokens and of the gaps between them. -/
theorem Tiles.consists {text : List Char} {cuts : List Cut} {last : List UInt8}
    (h : Tiles (Text.utf8 text) cuts last) (hlast : Gap true last) : Consists text cuts last := by
  refine consists_of_fresh (fun cut hcut => ⟨(h.gaps cut hcut).fresh, ?_⟩) hlast.fresh h.bytes
  obtain ⟨before, after, hsplit⟩ := List.append_of_mem hcut
  obtain ⟨b, rest, hslice, hsolid⟩ := (h.reads before cut after hsplit).solid
  rw [hslice]
  exact ⟨List.cons_ne_nil b rest, Text.fresh_cons hsolid.1⟩

/-! ### Lexemes in their slices -/

/-- A lexeme is what a slice begins with, and it is not empty. -/
theorem Reads.lexeme {kind : TokenKind} {slice after : List UInt8} (h : Reads kind slice after) :
    (lexemeOf slice).toList ≠ [] ∧ (lexemeOf slice).toList <+: Text.decodeLossy slice := by
  obtain ⟨b, rest, rfl, hascii, hblank⟩ := h.solid
  have hkeep : Text.trim (Text.decodeLossy (b :: rest)) =
      Text.dropEndWhile Text.isBlank (Text.decodeLossy (b :: rest)) := by
    rw [Text.trim, Text.decodeLossy_cons hascii, List.dropWhile_cons_of_neg (by simp [hblank])]
  rw [lexemeOf, String.toList_ofList, hkeep]
  refine ⟨?_, Text.dropEndWhile_prefix _ _⟩
  rw [Text.decodeLossy_cons hascii]
  exact Text.dropEndWhile_ne_nil hblank (List.mem_cons_self ..)

/-- A slice that ends in a character that is one byte and no white space is its lexeme. -/
theorem Reads.lexeme_of_solid {kind : TokenKind} {slice after : List UInt8}
    (h : Reads kind slice after) (hlast : ∀ b ∈ slice.getLast?, Solid b) :
    (lexemeOf slice).toList = Text.decodeLossy slice := by
  obtain ⟨b, rest, hslice, hsolid⟩ := h.solid
  have hsplit := List.dropLast_concat_getLast (l := slice) (by simp [hslice])
  obtain ⟨hascii, hend⟩ := hlast _ (List.getLast?_eq_some_getLast _)
  rw [lexemeOf, String.toList_ofList, Text.trim_of_ends]
  · rw [hslice, Text.decodeLossy_cons hsolid.1]
    rintro _ ⟨⟩
    exact hsolid.2
  · rw [← hsplit, Text.decodeLossy_append (Text.fresh_cons hascii), Text.decodeLossy_cons hascii,
      show Text.decodeLossy [] = [] from rfl, List.getLast?_concat]
    rintro _ ⟨⟩
    exact hend

/-- Cuts are of tokens that mark no end, and each lexeme stands in its cut. -/
theorem Tiles.found {source last : List UInt8} {cuts : List Cut} (h : Tiles source cuts last) :
    ∀ cut ∈ cuts, cut.token.kind ≠ .endMarker ∧ cut.token.lexeme.toList <:+: cut.chars := by
  intro cut hcut
  obtain ⟨before, after, hsplit⟩ := List.append_of_mem hcut
  have hreads := h.reads before cut after hsplit
  refine ⟨?_, ?_⟩
  · obtain ⟨b, rest, -, -, hscan⟩ := hreads
    exact kind_ne_endMarker_of_scanHead hscan
  · rw [h.lexemes cut hcut]
    exact hreads.lexeme.2.isInfix.trans (List.suffix_append _ _).isInfix

/-- There are no tokens in white space. -/
theorem Tiles.nil_of_blank {text : List Char} {cuts : List Cut} {last : List UInt8}
    (h : Tiles (Text.utf8 text) cuts last) (hlast : Gap true last) (hblank : Text.trim text = []) :
    cuts = [] := by
  cases cuts with
  | nil => rfl
  | cons cut cuts =>
    obtain ⟨b, rest, hslice, hascii, hsolid⟩ := (h.reads [] cut cuts rfl).solid
    refine absurd hblank (Text.trim_ne_nil hsolid ?_)
    rw [(h.consists hlast).text, List.flatMap_cons, Cut.chars, hslice, Text.decodeLossy_cons hascii]
    simp

theorem utf8_flatMap_chars {cuts : List Cut} (h : ∀ cut ∈ cuts, cut.Whole) :
    Text.utf8 (cuts.flatMap Cut.chars) = cuts.flatMap Cut.bytes := by
  induction cuts with
  | nil => rfl
  | cons cut cuts ih =>
    obtain ⟨hcut, hcuts⟩ := List.forall_mem_cons.mp h
    rw [List.flatMap_cons, List.flatMap_cons, Text.utf8_append, ih hcuts, Cut.chars,
      Text.utf8_append, hcut.gap, hcut.slice, Cut.bytes]

/-- The characters of an identifier are its lexeme, and do not stand right before it. -/
theorem lexeme_of_identifier {text : List Char} {done later : List Cut} {cut : Cut}
    {last : List UInt8} {name : String} (h : Tiles (Text.utf8 text) (done ++ cut :: later) last)
    (hwhole : ∀ cut' ∈ done ++ cut :: later, cut'.Whole)
    (hkind : cut.token.kind = .identifier name) :
    cut.token.lexeme.toList = Text.decodeLossy cut.slice ∧
      ¬Text.decodeLossy cut.slice <:+ done.flatMap Cut.chars ++ Text.decodeLossy cut.gap := by
  have hreads := h.reads done cut later rfl
  rw [hkind] at hreads
  refine ⟨?_, fun hbehind => ?_⟩
  · rw [h.lexemes cut (by simp)]
    refine hreads.lexeme_of_solid fun b hb => solid_of_nameByte ?_
    exact (nameBytes_of_reads hreads).2 b (List.mem_of_mem_getLast? hb)
  · obtain ⟨hdone, hcut⟩ := List.forall_mem_append.mp hwhole
    obtain ⟨⟨hgap, hslice⟩, -⟩ := List.forall_mem_cons.mp hcut
    obtain ⟨ahead, hahead⟩ := hbehind
    refine not_behind_itself h hkind ⟨Text.utf8 ahead, ?_⟩
    have hbytes := congrArg Text.utf8 hahead
    rwa [Text.utf8_append, Text.utf8_append, hslice, hgap, utf8_flatMap_chars hdone] at hbytes

end Token

end DecimalScript
