import DecimalScript.Proofs.CutTexts
import DecimalScript.Proofs.Occurrences
import DecimalScript.Prompt.Placement
import DecimalScript.Syntax.Leaves

/-!
# Coloured parts make up the text

Each cut leaves out nothing, so the parts give the text back for any list of tokens. For the tokens
of the text none is skipped. A lexeme may be found earlier than its token stands, never later, so
what is left always ends with all that stands behind the token.
-/

namespace DecimalScript

namespace Prompt

theorem flatMap_plainPart (text : List Char) : (plainPart text).flatMap (·.2) = text := by
  cases text with
  | nil => rfl
  | cons c text => simp [plainPart]

/-- Parts of a text make it up, whichever tokens are looked for. -/
theorem flatMap_colorTokens (text : List Char) (tokens : List Token) :
    (colorTokens text tokens).flatMap (·.2) = text := by
  fun_induction colorTokens text tokens with
  | case1 text => exact flatMap_plainPart text
  | case2 text token rest hend => exact flatMap_plainPart text
  | case3 text token rest hend hcut ih => exact ih
  | case4 text token rest hend before after hcut ih =>
    rw [List.flatMap_append, List.flatMap_cons, flatMap_plainPart, ih]
    exact (Text.cutAt?_eq_some_iff.mp hcut).eq.symm

/-- Tokens that are found have their parts in the colouring, in order. -/
theorem parts_of_findsAll {text : List Char} {tokens : List Token} (h : FindsAll text tokens) :
    ((Token.beforeEnd tokens).map tokenPart).Sublist (colorTokens text tokens) := by
  induction tokens generalizing text with
  | nil => exact List.nil_sublist _
  | cons token rest ih =>
    by_cases hend : token.kind = .endMarker
    · simp [Token.beforeEnd, hend]
    · rw [FindsAll, if_neg hend] at h
      obtain ⟨before, after, hcut, hrest⟩ := h
      have hstart : Token.beforeEnd (token :: rest) = token :: Token.beforeEnd rest := by
        simp [Token.beforeEnd, hend]
      rw [hstart, colorTokens, if_neg hend, hcut]
      exact ((ih hrest).cons_cons _).trans (List.sublist_append_right _ _)

/-- Tokens are found in a text that ends with their cuts, whatever was left before them. -/
theorem findsAll_of_cuts {cuts : List Token.Cut} (tail : List Char) (line : Nat)
    (h : ∀ cut ∈ cuts, cut.token.kind ≠ .endMarker ∧ cut.token.lexeme.toList <:+: cut.chars)
    (passed : List Char) :
    FindsAll (passed ++ (cuts.flatMap Token.Cut.chars ++ tail))
      (cuts.map Token.Cut.token ++ [Token.endOn line]) := by
  induction cuts generalizing passed with
  | nil => simp [FindsAll, Token.endOn]
  | cons cut cuts ih =>
    obtain ⟨⟨hkind, ahead, behind, hchars⟩, hcuts⟩ := List.forall_mem_cons.mp h
    have hsplit : passed ++ ((cut :: cuts).flatMap Token.Cut.chars ++ tail) =
        (passed ++ ahead) ++ (cut.token.lexeme.toList ++
          (behind ++ (cuts.flatMap Token.Cut.chars ++ tail))) := by
      rw [List.flatMap_cons, ← hchars]
      simp only [List.append_assoc]
    obtain ⟨before, after, hcut, left, hleft⟩ := Text.cutAt?_of_append cut.token.lexeme.toList
      (passed ++ ahead) (behind ++ (cuts.flatMap Token.Cut.chars ++ tail))
    rw [hsplit, List.map_cons, List.cons_append, FindsAll, if_neg hkind]
    refine ⟨before, after, hcut, ?_⟩
    rw [← hleft, ← List.append_assoc]
    exact ih hcuts (left ++ behind)

/-- Highlighting keeps the text. The parts of any text make it up; and where the text has tokens,
each of them is found in what is left behind the one before it, and has its part. -/
theorem highlighting_keeps_text (text : String) :
    (highlight text).flatMap (·.2) = text.toList ∧
      ∀ tokens, Token.ofSource (Text.bytesOf text) = .ok tokens →
        FindsAll text.toList tokens ∧
          ((Token.beforeEnd tokens).map tokenPart).Sublist (highlight text) := by
  refine ⟨?_, fun tokens htokens => ?_⟩
  · unfold highlight
    split
    · simp
    · exact flatMap_colorTokens _ _
  · have haccounts := Token.accounts_of_ofSource (Text.bytesOf text)
    rw [htokens] at haccounts
    obtain ⟨cuts, last, htiles, hlast, rfl⟩ := haccounts
    have htext := (htiles.consists hlast).text
    have hfinds := findsAll_of_cuts (Text.decodeLossy last)
      (1 + Token.newlines (Text.bytesOf text)) htiles.found []
    rw [List.nil_append, ← htext] at hfinds
    refine ⟨hfinds, ?_⟩
    rw [highlight, htokens]
    exact parts_of_findsAll hfinds

/-- A lexeme in the comment before its token: it takes the first of the two words. -/
theorem highlighting_keeps_repeated_word :
    (highlight "# let\nlet").flatMap (·.2) = "# let\nlet".toList ∧
      ∃ tokens, Token.ofSource (Text.bytesOf "# let\nlet") = .ok tokens ∧
        FindsAll "# let\nlet".toList tokens ∧
          ((Token.beforeEnd tokens).map tokenPart).Sublist (highlight "# let\nlet") := by
  obtain ⟨htext, htokens⟩ := highlighting_keeps_text "# let\nlet"
  have hread : Token.ofSource (Text.bytesOf "# let\nlet") =
      .ok [⟨.keyword .letWord, "let", 2⟩, Token.endOn 2] := by decide +kernel
  exact ⟨htext, _, hread, htokens _ hread⟩

end Prompt

end DecimalScript
