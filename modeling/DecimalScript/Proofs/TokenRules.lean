import DecimalScript.Proofs.Lexemes

/-!
# Rules by which tokens are read

A token is read by one of six rules. The rule is told by the first bytes of the token, which says
how far the token reaches, and no rule starts with white space or with a byte that is not ASCII.
-/

namespace DecimalScript

namespace Token

/-- What a token is, and how many bytes after the first it takes, by the rule that it is read by. -/
inductive Rule (b : UInt8) (rest : List UInt8) : TokenKind → Nat → Prop where
  /-- A module path. -/
  | path (hstarts : startsPath (b :: rest) = true) :
    Rule b rest (.path (Text.stringLossy
      ((b :: rest).take ((rest.takeWhile isPathByte).length + 1))))
      (rest.takeWhile isPathByte).length
  /-- A symbol of two characters. -/
  | pair {symbol : Symbol} (hpair : pairSymbol? (b :: rest) = some symbol) :
    Rule b rest (.symbol symbol) 1
  /-- A number. -/
  | number {value : Number} (hstarts : (isDigitByte b || fractionLength (b :: rest) != 0) = true)
      (hvalue : Number.ofDigits?
        (Text.decodeLossy ((b :: rest).take (numberLength (b :: rest)))) = some value) :
    Rule b rest (.number value) (numberLength (b :: rest) - 1)
  /-- A symbol of one character. -/
  | single {symbol : Symbol} (hsingle : singleSymbol? b = some symbol) :
    Rule b rest (.symbol symbol) 0
  /-- A string literal. -/
  | text {length : Nat} {value : List Char} (hquote : b = code '\x22')
      (hlength : literalLength? rest = some length)
      (hvalue : Text.unescape? (Text.decodeLossy (rest.take length)) = some value) :
    Rule b rest (.text (String.ofList value)) (length + 1)
  /-- A name. -/
  | name (hstarts : isNameStart b = true) :
    Rule b rest (nameKind (Text.stringLossy
      ((b :: rest).take ((rest.takeWhile isNameByte).length + 1))))
      (rest.takeWhile isNameByte).length

/-- A token is read by one of the rules. -/
theorem rule_of_scanHead {b : UInt8} {rest : List UInt8} {kind : TokenKind} {extra : Nat}
    (h : scanHead b rest = .ok ⟨some kind, extra⟩) : Rule b rest kind extra := by
  unfold scanHead at h
  dsimp only at h
  split at h
  · cases h
  split at h
  · split at h <;> cases h
  split at h
  · rename_i hpath
    cases h
    exact .path hpath
  split at h
  · rename_i symbol hpair
    cases h
    exact .pair hpair
  split at h
  · rename_i hnumber
    unfold scanNumber at h
    dsimp only at h
    split at h
    · cases h
    · rename_i value hvalue
      cases h
      exact .number hnumber hvalue
  split at h
  · rename_i symbol hsingle
    cases h
    exact .single hsingle
  split at h
  · rename_i hquote
    unfold scanText at h
    split at h
    · cases h
    rename_i length hlength
    split at h
    · cases h
    · rename_i value hvalue
      cases h
      exact .text (eq_of_beq hquote) hlength hvalue
  split at h
  · rename_i hname
    cases h
    exact .name hname
  · cases h

theorem nameKind_ne_endMarker (name : String) : nameKind name ≠ .endMarker := by
  unfold nameKind
  split <;> nofun

/-- No rule reads an end marker. -/
theorem kind_ne_endMarker_of_scanHead {b : UInt8} {rest : List UInt8} {kind : TokenKind}
    {extra : Nat} (h : scanHead b rest = .ok ⟨some kind, extra⟩) : kind ≠ .endMarker := by
  cases rule_of_scanHead h with
  | name => exact nameKind_ne_endMarker _
  | _ => nofun

/-! ### The first byte -/

/-- A byte that is read as a character on its own, and as no white space. -/
def Solid (b : UInt8) : Prop := b.toNat < 0x80 ∧ Text.isBlank (Char.ofNat b.toNat) = false

instance (b : UInt8) : Decidable (Solid b) := inferInstanceAs (Decidable (_ ∧ _))

theorem solid_of_nameByte {b : UInt8} (h : isNameByte b = true) : Solid b := by
  have hall : ∀ n : Fin 256, isNameByte (UInt8.ofFin n) = true → Solid (UInt8.ofFin n) := by
    decide +kernel
  exact hall b.toFin h

/-- Bytes that are no ASCII, and white space, start nothing. -/
theorem solid_of_starts {b : UInt8} (h : b = code '.' ∨ b = code '\x22' ∨ isDigitByte b = true ∨
    isNameStart b = true ∨ (∃ single ∈ Symbol.singles, b = code single.1) ∨
      ∃ pair ∈ Symbol.pairs, b = code pair.1.1) : Solid b := by
  rcases h with rfl | rfl | hdigit | hname | ⟨single, hsingle, rfl⟩ | ⟨pair, hpair, rfl⟩
  · decide
  · decide
  · exact solid_of_nameByte (by simp [isNameByte, hdigit])
  · exact solid_of_nameByte (by simp [isNameByte, hname])
  · revert single
    decide +kernel
  · revert pair
    decide +kernel

theorem pair_of_pairSymbol? {a : UInt8} {rest : List UInt8} {symbol : Symbol}
    (h : pairSymbol? (a :: rest) = some symbol) :
    ∃ pair ∈ Symbol.pairs, a = code pair.1.1 ∧ rest.head? = some (code pair.1.2) := by
  cases rest with
  | nil => cases h
  | cons b rest =>
    obtain ⟨pair, hfound, -⟩ := Option.map_eq_some_iff.mp h
    have hspelled := List.find?_some hfound
    simp only [Bool.and_eq_true, beq_iff_eq] at hspelled
    exact ⟨pair, List.mem_of_find?_eq_some hfound, hspelled.1, congrArg some hspelled.2⟩

theorem single_of_singleSymbol? {b : UInt8} {symbol : Symbol} (h : singleSymbol? b = some symbol) :
    ∃ single ∈ Symbol.singles, b = code single.1 := by
  obtain ⟨single, hfound, -⟩ := Option.map_eq_some_iff.mp h
  have hspelled := List.find?_some hfound
  exact ⟨single, List.mem_of_find?_eq_some hfound, beq_iff_eq.mp hspelled⟩

theorem dot_of_startsPath {b : UInt8} {rest : List UInt8} (h : startsPath (b :: rest) = true) :
    b = code '.' := by
  cases rest with
  | nil => cases h
  | cons c rest =>
    rw [startsPath, Bool.and_eq_true] at h
    exact eq_of_beq h.1

/-- A fraction starts with its point and a digit. -/
theorem fractionLength_eq {bytes : List UInt8} (h : fractionLength bytes ≠ 0) :
    ∃ rest, bytes = code '.' :: rest ∧
      fractionLength bytes = 1 + (rest.takeWhile isDigitByte).length := by
  unfold fractionLength at h ⊢
  split at h
  · rename_i b d rest
    split at h
    · rename_i hpoint
      simp only [Bool.and_eq_true, beq_iff_eq] at hpoint
      obtain ⟨rfl, hdigit⟩ := hpoint
      refine ⟨d :: rest, rfl, ?_⟩
      rw [List.takeWhile_cons_of_pos hdigit, List.length_cons]
      simp only [hdigit]
      simp
      omega
    · cases h rfl
  · cases h rfl

/-- A number starts with a digit or a point. -/
theorem digit_or_dot_of_startsNumber {b : UInt8} {rest : List UInt8}
    (h : (isDigitByte b || fractionLength (b :: rest) != 0) = true) :
    isDigitByte b = true ∨ b = code '.' := by
  rw [Bool.or_eq_true, bne_iff_ne] at h
  refine h.imp_right fun hfraction => ?_
  obtain ⟨_, hpoint, _⟩ := fractionLength_eq hfraction
  exact (List.cons.inj hpoint).1

/-- A token starts with a character that is one byte and no white space. -/
theorem Rule.solid {b : UInt8} {rest : List UInt8} {kind : TokenKind} {extra : Nat}
    (h : Rule b rest kind extra) : Solid b := by
  refine solid_of_starts ?_
  cases h with
  | path hstarts => exact .inl (dot_of_startsPath hstarts)
  | pair hpair =>
    obtain ⟨pair, hmem, hfirst, -⟩ := pair_of_pairSymbol? hpair
    exact .inr (.inr (.inr (.inr (.inr ⟨pair, hmem, hfirst⟩))))
  | number hstarts =>
    rcases digit_or_dot_of_startsNumber hstarts with hdigit | hdot
    · exact .inr (.inr (.inl hdigit))
    · exact .inl hdot
  | single hsingle => exact .inr (.inr (.inr (.inr (.inl (single_of_singleSymbol? hsingle)))))
  | text hquote => exact .inr (.inl hquote)
  | name hstarts => exact .inr (.inr (.inr (.inl hstarts)))

end Token

end DecimalScript
