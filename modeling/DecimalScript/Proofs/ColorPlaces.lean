import DecimalScript.Proofs.Highlighting

/-!
# Where colours come to their places

If the lexeme of each token is its whole slice and does not begin earlier behind the token before
it, each search ends at the token and the colours are in their places. If a search ends anywhere
else, they are not: something of the token is left, and it becomes a part of its own only if the
token is a name that stands right behind its own spelling.
-/

namespace DecimalScript

namespace Prompt

open Token (Cut)

/-! ### Parts without empty ones -/

/-- Parts with characters in them. -/
def NoneEmpty (parts : List Part) : Prop := ∀ part ∈ parts, part.2 ≠ []

theorem noneEmpty_append {first second : List Part} :
    NoneEmpty (first ++ second) ↔ NoneEmpty first ∧ NoneEmpty second := List.forall_mem_append

theorem noneEmpty_plainPart (text : List Char) : NoneEmpty (plainPart text) := by
  cases text with
  | nil => simp [plainPart, NoneEmpty]
  | cons c text => simp [plainPart, NoneEmpty]

theorem noneEmpty_colorTokens {text : List Char} {tokens : List Token}
    (h : ∀ token ∈ tokens, token.kind ≠ .endMarker → token.lexeme.toList ≠ []) :
    NoneEmpty (colorTokens text tokens) := by
  fun_induction colorTokens text tokens with
  | case1 text => exact noneEmpty_plainPart text
  | case2 text token rest hend => exact noneEmpty_plainPart text
  | case3 text token rest hend hcut ih => exact ih (List.forall_mem_cons.mp h).2
  | case4 text token rest hend before after hcut ih =>
    obtain ⟨htoken, hrest⟩ := List.forall_mem_cons.mp h
    exact noneEmpty_append.mpr ⟨noneEmpty_plainPart before,
      List.forall_mem_cons.mpr ⟨htoken hend, ih hrest⟩⟩

/-- No parts are without characters but none. -/
theorem NoneEmpty.eq_nil {parts : List Part} (h : NoneEmpty parts)
    (htext : parts.flatMap (·.2) = []) : parts = [] := by
  cases parts with
  | nil => rfl
  | cons part parts =>
    rw [List.flatMap_cons, List.append_eq_nil_iff] at htext
    exact absurd htext.1 (h part (List.mem_cons_self ..))

/-- Of two ways to cut parts, the one that reaches further in the text takes more parts. -/
theorem NoneEmpty.append_of_text {first second rest others : List Part} {more : List Char}
    (hne : NoneEmpty (first ++ rest)) (h : first ++ rest = second ++ others)
    (htext : first.flatMap (·.2) = second.flatMap (·.2) ++ more) :
    ∃ between, first = second ++ between ∧ others = between ++ rest ∧
      between.flatMap (·.2) = more := by
  rcases List.append_eq_append_iff.mp h with ⟨between, rfl, rfl⟩ | ⟨between, rfl, rfl⟩
  · rw [List.flatMap_append, List.append_assoc, List.self_eq_append_right,
      List.append_eq_nil_iff] at htext
    obtain ⟨hbetween, rfl⟩ := htext
    obtain rfl := (noneEmpty_append.mp (noneEmpty_append.mp hne).2).1.eq_nil hbetween
    exact ⟨[], by simp, by simp, rfl⟩
  · rw [List.flatMap_append, List.append_cancel_left_eq] at htext
    exact ⟨between, rfl, rfl, htext⟩

/-! ### Places of cuts -/

theorem PlainParts.text {bytes : List UInt8} {parts : List Part} (h : PlainParts bytes parts) :
    parts.flatMap (·.2) = Text.decodeLossy bytes := by
  rw [← h.bytes, Text.decodeLossy_utf8]

theorem plainParts_plainPart {bytes : List UInt8}
    (h : Text.utf8 (Text.decodeLossy bytes) = bytes) :
    PlainParts bytes (plainPart (Text.decodeLossy bytes)) := by
  refine ⟨fun part hpart => ?_, by rwa [flatMap_plainPart]⟩
  unfold plainPart at hpart
  split at hpart
  · cases hpart
  · cases List.mem_singleton.mp hpart
    rfl

/-- In its place, the part of a cut stands behind the characters before its slice. -/
theorem ColorsInPlace.split {done later : List Cut} {cut : Cut} {last : List UInt8}
    {parts : List Part} (h : ColorsInPlace (done ++ cut :: later) last parts)
    (hwhole : ∀ cut' ∈ done, cut'.Whole) :
    ∃ before after,
      parts = before ++ (tokenColor cut.token.kind, Text.decodeLossy cut.slice) :: after ∧
        before.flatMap (·.2) = done.flatMap Cut.chars ++ Text.decodeLossy cut.gap := by
  induction done generalizing parts with
  | nil =>
    cases h with
    | @token _ _ _ before after text hgap htext hlater =>
      refine ⟨before, after, ?_, hgap.text⟩
      rw [← htext, Text.decodeLossy_utf8]
  | cons first done ih =>
    cases h with
    | @token _ _ _ front rest text hgap htext hlater =>
      obtain ⟨before, after, rfl, hbefore⟩ := ih hlater (List.forall_mem_cons.mp hwhole).2
      refine ⟨front ++ (tokenColor first.token.kind, text) :: before, after, by simp, ?_⟩
      rw [List.flatMap_append, List.flatMap_cons, hgap.text, hbefore, List.flatMap_cons, Cut.chars,
        ← htext, Text.decodeLossy_utf8]
      simp only [List.append_assoc]

/-- A first cut with its part in front leaves the others to the other parts. -/
theorem colorsInPlace_cons_iff {cut : Cut} {cuts : List Cut} {last : List UInt8}
    {after : List Part} (hcut : cut.Whole)
    (hne : NoneEmpty (plainPart (Text.decodeLossy cut.gap) ++
      (tokenColor cut.token.kind, Text.decodeLossy cut.slice) :: after)) :
    ColorsInPlace (cut :: cuts) last (plainPart (Text.decodeLossy cut.gap) ++
      (tokenColor cut.token.kind, Text.decodeLossy cut.slice) :: after) ↔
        ColorsInPlace cuts last after := by
  constructor
  · generalize hparts : plainPart (Text.decodeLossy cut.gap) ++
      (tokenColor cut.token.kind, Text.decodeLossy cut.slice) :: after = parts at hne
    intro h
    cases h with
    | @token _ _ _ before rest text hgap htext hrest =>
      have hreach : before.flatMap (·.2) =
          (plainPart (Text.decodeLossy cut.gap)).flatMap (·.2) ++ [] := by
        rw [flatMap_plainPart, hgap.text, List.append_nil]
      obtain ⟨between, hbefore, hothers, hbetween⟩ := hne.append_of_text hparts.symm hreach
      rw [hbefore] at hne
      obtain rfl := (noneEmpty_append.mp (noneEmpty_append.mp hne).1).2.eq_nil hbetween
      cases hothers
      exact hrest
  · exact .token (plainParts_plainPart hcut.gap) hcut.slice

/-! ### Searches -/

/-- Cuts of tokens that can be told by their lexemes. -/
structure Searchable (cuts : List Cut) : Prop where
  /-- They are cuts between characters. -/
  whole : ∀ cut ∈ cuts, cut.Whole
  /-- None of the tokens marks an end. -/
  kind : ∀ cut ∈ cuts, cut.token.kind ≠ .endMarker
  /-- Each slice begins with a lexeme that is not empty. -/
  lexeme : ∀ cut ∈ cuts, cut.token.lexeme.toList ≠ [] ∧
    cut.token.lexeme.toList <+: Text.decodeLossy cut.slice
  /-- No name stands right behind its own spelling. -/
  name : ∀ done cut later, cuts = done ++ cut :: later → tokenColor cut.token.kind = .plain →
    ¬cut.token.lexeme.toList <:+ done.flatMap Cut.chars ++ Text.decodeLossy cut.gap

theorem Searchable.tail {cut : Cut} {cuts : List Cut} (h : Searchable (cut :: cuts)) :
    Searchable cuts := by
  refine ⟨(List.forall_mem_cons.mp h.whole).2, (List.forall_mem_cons.mp h.kind).2,
    (List.forall_mem_cons.mp h.lexeme).2, fun done cut' later hsplit hcolor hbehind => ?_⟩
  refine h.name (cut :: done) cut' later (by rw [hsplit, List.cons_append]) hcolor ?_
  rw [List.flatMap_cons, List.append_assoc]
  exact hbehind.trans (List.suffix_append _ _)

theorem Searchable.noneEmpty {cuts : List Cut} (h : Searchable cuts) (text : List Char)
    (line : Nat) :
    NoneEmpty (colorTokens text (cuts.map Cut.token ++ [Token.endOn line])) := by
  refine noneEmpty_colorTokens fun token htoken hkind => ?_
  rcases List.mem_append.mp htoken with hmem | hmem
  · obtain ⟨cut, hcut, rfl⟩ := List.mem_map.mp hmem
    exact (h.lexeme cut hcut).1
  · cases List.mem_singleton.mp hmem
    exact absurd rfl hkind

/-- A lexeme was found in what was passed and its cut, and `left` is left of the cut. -/
structure Found (passed : List Char) (cut : Cut) (more before left : List Char) : Prop where
  /-- All that follows the cut is left. -/
  search : Text.cutAt? cut.token.lexeme.toList (passed ++ (cut.chars ++ more)) =
    some (before, left ++ more)
  /-- What is found is in the cut and what was passed. -/
  split : passed ++ cut.chars = before ++ cut.token.lexeme.toList ++ left
  /-- If nothing of the cut is left, the lexeme is the slice, in its place. -/
  whole : left = [] → before = passed ++ Text.decodeLossy cut.gap ∧
    cut.token.lexeme.toList = Text.decodeLossy cut.slice

theorem exists_found {cut : Cut} (h : cut.token.lexeme.toList <+: Text.decodeLossy cut.slice)
    (passed more : List Char) : ∃ before left, Found passed cut more before left := by
  obtain ⟨behind, hslice⟩ := h
  have hchars : passed ++ cut.chars =
      (passed ++ Text.decodeLossy cut.gap) ++ (cut.token.lexeme.toList ++ behind) := by
    rw [Cut.chars, hslice, List.append_assoc]
  obtain ⟨before, after, hcut, left, rfl⟩ := Text.cutAt?_of_append cut.token.lexeme.toList
    (passed ++ Text.decodeLossy cut.gap) (behind ++ more)
  rw [← List.append_assoc cut.token.lexeme.toList, ← List.append_assoc (passed ++ _), ← hchars,
    List.append_assoc, ← List.append_assoc left] at hcut
  have hsplit : passed ++ cut.chars = before ++ cut.token.lexeme.toList ++ (left ++ behind) := by
    have heq := (Text.cutAt?_eq_some_iff.mp hcut).eq
    rw [← List.append_assoc passed, ← List.append_assoc cut.token.lexeme.toList,
      ← List.append_assoc before] at heq
    rw [List.append_cancel_right heq, List.append_assoc]
  refine ⟨before, left ++ behind, hcut, hsplit, fun hnil => ?_⟩
  rw [hnil, List.append_nil, hchars, (List.append_eq_nil_iff.mp hnil).2, List.append_nil] at hsplit
  refine ⟨(List.append_cancel_right hsplit).symm, ?_⟩
  rw [← hslice, (List.append_eq_nil_iff.mp hnil).2, List.append_nil]

/-- The parts behind what is found are those of what is left. -/
theorem Found.colorTokens {passed more before left : List Char} {cut : Cut}
    (h : Found passed cut more before left) (hkind : cut.token.kind ≠ .endMarker)
    (rest : List Token) :
    colorTokens (passed ++ (cut.chars ++ more)) (cut.token :: rest) =
      plainPart before ++ tokenPart cut.token :: Prompt.colorTokens (left ++ more) rest := by
  rw [Prompt.colorTokens, if_neg hkind, h.search]
  rfl

/-- What stands behind a cut does not matter for whether its lexeme stands first. -/
theorem standsFirst_iff {cut : Cut} (more : List Char) :
    cut.StandsFirst ↔ Text.cutAt? cut.token.lexeme.toList (cut.chars ++ more) =
      some (Text.decodeLossy cut.gap, more) := by
  have hmore : more = [] ++ more := rfl
  rw [Cut.StandsFirst, Text.cutAt?_eq_some_iff, Text.cutAt?_eq_some_iff]
  conv => rhs; rw [hmore]
  exact Text.FirstCut.append_iff.symm

/-! ### Searches that end too early -/

section

variable {done later : List Cut} {cut : Cut} {last : List UInt8} {left : List Char}
  {front : List Part}

/-- If a part in the default colour starts with what is left of a token, the colours are not in
their places. The part would have to be that of the token, which would be a name with its spelling
right before it. -/
theorem not_in_place_of_plain {behind : List Char} {rest : List Part}
    (hcuts : Searchable (done ++ cut :: later)) (hleft : left ≠ [])
    (htext : (front ++ [tokenPart cut.token]).flatMap (·.2) ++ left =
      done.flatMap Cut.chars ++ cut.chars)
    (hne : NoneEmpty (front ++ tokenPart cut.token :: (.plain, left ++ behind) :: rest)) :
    ¬ColorsInPlace (done ++ cut :: later) last
      (front ++ tokenPart cut.token :: (.plain, left ++ behind) :: rest) := by
  intro hplace
  obtain ⟨before, after, hparts, hbefore⟩ := hplace.split (List.forall_mem_append.mp hcuts.whole).1
  have hreach :
      (before ++ [(tokenColor cut.token.kind, Text.decodeLossy cut.slice)]).flatMap (·.2) =
        (front ++ [tokenPart cut.token]).flatMap (·.2) ++ left := by
    rw [htext, List.flatMap_append, hbefore, Cut.chars, List.flatMap_singleton]
    simp only [List.append_assoc]
  have hsame : (before ++ [(tokenColor cut.token.kind, Text.decodeLossy cut.slice)]) ++ after =
      (front ++ [tokenPart cut.token]) ++ (.plain, left ++ behind) :: rest := by
    rw [List.append_assoc, List.append_assoc]
    exact hparts.symm
  rw [hparts, List.append_cons] at hne
  obtain ⟨between, hsplit, hothers, hbetween⟩ := hne.append_of_text hsame hreach
  -- What is left takes one part: none is too few, and a second one would have no characters.
  cases between with
  | nil => exact hleft hbetween.symm
  | cons part between =>
    obtain rfl : (.plain, left ++ behind) = part := (List.cons.inj hothers).1
    rw [hsplit] at hne
    have hnone : NoneEmpty between :=
      (List.forall_mem_cons.mp (noneEmpty_append.mp (noneEmpty_append.mp hne).1).2).2
    rw [List.flatMap_cons, List.append_assoc, List.append_right_eq_self,
      List.append_eq_nil_iff] at hbetween
    obtain ⟨rfl, htail⟩ := hbetween
    obtain rfl := hnone.eq_nil htail
    obtain ⟨rfl, hpart⟩ := List.append_inj' hsplit rfl
    have hcolor : tokenColor cut.token.kind = .plain := (Prod.mk.inj (List.cons.inj hpart).1).1
    refine hcuts.name done cut later rfl hcolor ?_
    rw [← hbefore, List.flatMap_append, List.flatMap_singleton]
    exact List.suffix_append _ _

/-- If a search leaves something of its token, the colours are not in their places: what is left
either stays so with the next token or gets a part in the default colour. -/
theorem not_in_place_of_left (line : Nat) (hcuts : Searchable (done ++ cut :: later))
    (hleft : left ≠ [])
    (htext : (front ++ [tokenPart cut.token]).flatMap (·.2) ++ left =
      done.flatMap Cut.chars ++ cut.chars)
    (hne : NoneEmpty (front ++ tokenPart cut.token ::
      colorTokens (left ++ (later.flatMap Cut.chars ++ Text.decodeLossy last))
        (later.map Cut.token ++ [Token.endOn line]))) :
    ¬ColorsInPlace (done ++ cut :: later) last (front ++ tokenPart cut.token ::
      colorTokens (left ++ (later.flatMap Cut.chars ++ Text.decodeLossy last))
        (later.map Cut.token ++ [Token.endOn line])) := by
  induction later generalizing done cut left front with
  | nil =>
    have hrest : colorTokens (left ++ ([].flatMap Cut.chars ++ Text.decodeLossy last))
        ([].map Cut.token ++ [Token.endOn line]) =
          [(.plain, left ++ ([].flatMap Cut.chars ++ Text.decodeLossy last))] := by
      simp [colorTokens, Token.endOn, plainPart, hleft]
    rw [hrest] at hne ⊢
    exact not_in_place_of_plain hcuts hleft htext hne
  | cons next later ih =>
    have hmember : next ∈ done ++ cut :: next :: later := by simp
    obtain ⟨before, behind, hfound⟩ := exists_found (hcuts.lexeme next hmember).2 left
      (later.flatMap Cut.chars ++ Text.decodeLossy last)
    rw [List.flatMap_cons, List.append_assoc, List.map_cons, List.cons_append,
      hfound.colorTokens (hcuts.kind next hmember)] at hne ⊢
    by_cases hbehind : behind = []
    · obtain ⟨rfl, -⟩ := hfound.whole hbehind
      have hplain : plainPart (left ++ Text.decodeLossy next.gap) =
          [(.plain, left ++ Text.decodeLossy next.gap)] := by simp [plainPart, hleft]
      rw [hplain] at hne ⊢
      exact not_in_place_of_plain hcuts hleft htext hne
    · have hnext : ((front ++ tokenPart cut.token :: plainPart before) ++
          [tokenPart next.token]).flatMap (·.2) ++ behind =
            (done ++ [cut]).flatMap Cut.chars ++ next.chars := by
        have hright : (done ++ [cut]).flatMap Cut.chars ++ next.chars =
            (front ++ [tokenPart cut.token]).flatMap (·.2) ++ (left ++ next.chars) := by
          rw [List.flatMap_append, List.flatMap_singleton, ← htext, List.append_assoc]
        rw [hright, hfound.split]
        simp [flatMap_plainPart, tokenPart]
      have hplace := @ih (done ++ [cut]) next behind
        (front ++ tokenPart cut.token :: plainPart before) (by simpa using hcuts) hbehind hnext
        (by simpa using hne)
      simpa using hplace

end

/-! ### All searches -/

/-- The colours of cuts are in their places exactly if each lexeme stands first. -/
theorem colorsInPlace_iff {cuts : List Cut} {last : List UInt8} (hcuts : Searchable cuts)
    (hlast : Text.utf8 (Text.decodeLossy last) = last) (line : Nat) :
    ColorsInPlace cuts last (colorTokens (cuts.flatMap Cut.chars ++ Text.decodeLossy last)
      (cuts.map Cut.token ++ [Token.endOn line])) ↔ ∀ cut ∈ cuts, cut.StandsFirst := by
  induction cuts with
  | nil =>
    have hparts : colorTokens ([].flatMap Cut.chars ++ Text.decodeLossy last)
        ([].map Cut.token ++ [Token.endOn line]) = plainPart (Text.decodeLossy last) := by
      simp [colorTokens, Token.endOn]
    rw [hparts]
    exact iff_of_true (.last (plainParts_plainPart hlast)) (by simp)
  | cons cut cuts ih =>
    have hmember : cut ∈ cut :: cuts := List.mem_cons_self ..
    obtain ⟨before, left, hfound⟩ := exists_found (hcuts.lexeme cut hmember).2 []
      (cuts.flatMap Cut.chars ++ Text.decodeLossy last)
    have hne := hcuts.noneEmpty ((cut :: cuts).flatMap Cut.chars ++ Text.decodeLossy last) line
    have hparts := hfound.colorTokens (hcuts.kind cut hmember)
      (cuts.map Cut.token ++ [Token.endOn line])
    have hcut := hfound.search
    rw [List.nil_append] at hparts hcut
    rw [List.flatMap_cons, List.append_assoc, List.map_cons, List.cons_append, hparts] at hne ⊢
    rw [List.forall_mem_cons, standsFirst_iff (cuts.flatMap Cut.chars ++ Text.decodeLossy last),
      hcut]
    by_cases hleft : left = []
    · obtain ⟨rfl, hslice⟩ := hfound.whole hleft
      subst hleft
      rw [List.nil_append, tokenPart, hslice] at hne ⊢
      rw [colorsInPlace_cons_iff (hcuts.whole cut hmember) hne, List.nil_append, ih hcuts.tail]
      simp
    · refine iff_of_false ?_ fun h => hleft ?_
      · refine @not_in_place_of_left [] cuts cut last left (plainPart before) line hcuts hleft
          ?_ hne
        rw [List.flatMap_append, flatMap_plainPart, List.flatMap_singleton]
        exact hfound.split.symm
      · have hmore := (Prod.mk.inj (Option.some.inj h.1)).2
        exact List.append_left_eq_self.mp hmore

/-- The cuts of a text can be told by their lexemes. -/
theorem searchable_of_tiles {text : List Char} {cuts : List Cut} {last : List UInt8}
    (h : Token.Tiles (Text.utf8 text) cuts last) (hlast : Token.Gap true last) :
    Searchable cuts := by
  have hwhole := (h.consists hlast).whole
  refine ⟨hwhole, fun cut hcut => (h.found cut hcut).1, fun cut hcut => ?_,
    fun done cut later hsplit hcolor => ?_⟩
  · obtain ⟨before, after, hsplit⟩ := List.append_of_mem hcut
    rw [h.lexemes cut hcut]
    exact (h.reads before cut after hsplit).lexeme
  · have hname : ∃ name, cut.token.kind = .identifier name := by
      generalize cut.token.kind = kind at hcolor
      cases kind with
      | identifier name => exact ⟨name, rfl⟩
      | _ => cases hcolor
    obtain ⟨name, hkind⟩ := hname
    subst hsplit
    obtain ⟨hlexeme, hbehind⟩ := Token.lexeme_of_identifier h hwhole hkind
    rwa [hlexeme]

/-- Colours are in their places exactly where no search goes astray: for every text that has tokens,
highlighting covers the bytes of each token with one part in its colour, and the gaps with parts in
the default colour, if and only if the lexeme of each token is all of its slice and does not begin
earlier behind the token before it. -/
theorem colors_in_place_iff_standing_first (text : String) (tokens : List Token)
    (h : Token.ofSource (Text.bytesOf text) = .ok tokens) :
    ∃ cuts last, Token.Tiles (Text.bytesOf text) cuts last ∧ Token.Gap true last ∧
      tokens = cuts.map Cut.token ++ [Token.endOn (1 + Token.newlines (Text.bytesOf text))] ∧
        (ColorsInPlace cuts last (highlight text) ↔ ∀ cut ∈ cuts, cut.StandsFirst) := by
  have haccounts := Token.accounts_of_ofSource (Text.bytesOf text)
  rw [h] at haccounts
  obtain ⟨cuts, last, htiles, hlast, rfl⟩ := haccounts
  refine ⟨cuts, last, htiles, hlast, rfl, ?_⟩
  have hconsists := htiles.consists hlast
  rw [← colorsInPlace_iff (searchable_of_tiles htiles hlast) hconsists.last, ← hconsists.text,
    highlight, h]

/-- A word that a comment before it repeats. -/
theorem places_of_repeated_word :
    ∃ cuts last, Token.Tiles (Text.bytesOf "# let\nlet") cuts last ∧ Token.Gap true last ∧
      [⟨.keyword .letWord, "let", 2⟩, Token.endOn 2] =
        cuts.map Cut.token ++ [Token.endOn (1 + Token.newlines (Text.bytesOf "# let\nlet"))] ∧
        (ColorsInPlace cuts last (highlight "# let\nlet") ↔ ∀ cut ∈ cuts, cut.StandsFirst) :=
  colors_in_place_iff_standing_first "# let\nlet" _ (by decide +kernel)

/-- A line comment without its line feed is no gap between tokens. -/
theorem not_gap_of_open_comment {bytes : List UInt8}
    (h : bytes.head? = some (Token.code '#') ∧ Token.code '\n' ∉ bytes) :
    ¬Token.Gap false bytes := by
  obtain ⟨hhead, hnone⟩ := h
  intro hgap
  cases hgap with
  | nil => cases hhead
  | blank hb =>
    cases hhead
    cases hb
  | line => simp at hnone
  | block => cases hhead

/-- The word in the comment takes the colour of the token behind it, so the colours are not in
their places however the text is cut. -/
theorem repeated_word_takes_color :
    ∃ tokens, Token.ofSource (Text.bytesOf "# let\nlet") = .ok tokens ∧
      ¬∃ cuts last, Token.Tiles (Text.bytesOf "# let\nlet") cuts last ∧ Token.Gap true last ∧
        tokens = cuts.map Cut.token ++
          [Token.endOn (1 + Token.newlines (Text.bytesOf "# let\nlet"))] ∧
          ColorsInPlace cuts last (highlight "# let\nlet") := by
  refine ⟨[⟨.keyword .letWord, "let", 2⟩, Token.endOn 2], by decide +kernel, ?_⟩
  rintro ⟨cuts, last, htiles, -, htokens, hplace⟩
  have hparts : highlight "# let\nlet" =
      [(.plain, ['#', ' ']), (.keyword, ['l', 'e', 't']), (.plain, ['\n', 'l', 'e', 't'])] := by
    decide +kernel
  rw [← List.singleton_append] at htokens
  obtain ⟨hmap, -⟩ := List.append_inj' htokens rfl
  obtain ⟨cut, rfl⟩ : ∃ cut, cuts = [cut] := List.length_eq_one_iff.mp (by simpa using
    (congrArg List.length hmap).symm)
  have hcolor : tokenColor cut.token.kind = .keyword := by rw [← (List.cons.inj hmap).1]; rfl
  generalize hshown : highlight "# let\nlet" = shown at hplace
  rw [hparts] at hshown
  cases hplace with
  | @token _ _ _ before after text hbefore _ _ =>
    rw [hcolor] at hshown
    -- The part in the colour of the word is the second one, so the gap would be half a comment.
    rcases before with _ | ⟨first, _ | ⟨second, before⟩⟩
    · cases hshown
    · cases hshown
      have hgap := htiles.gaps cut (List.mem_singleton_self _)
      rw [← hbefore.bytes] at hgap
      exact not_gap_of_open_comment (by decide) hgap
    · rw [List.cons_append, List.cons_append, List.cons.injEq, List.cons.injEq] at hshown
      obtain ⟨-, rfl, -⟩ := hshown
      cases hbefore.color (.keyword, ['l', 'e', 't']) (by simp)

end Prompt

end DecimalScript
