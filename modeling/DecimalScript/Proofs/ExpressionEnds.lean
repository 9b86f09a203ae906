import DecimalScript.Proofs.Climbing
import DecimalScript.Proofs.ReadingProgress

/-!
# Where reading an expression ends

An expression is told by the tokens that are consumed and by the kind of the next one. So it may be
read where nothing else is known of what follows, and be read again there. A higher level ends it
earlier, in front of an operator that no longer belongs to it: the reading with the lower level goes
on from there.
-/

namespace DecimalScript

namespace Parse

variable {level level' : Nat} {left expr : Expr} {tokens rest : List Token}

/-- An operand is read in front of the operators of an expression. -/
theorem exists_operand (h : Phrase.read (.expression level) tokens = .ok (expr, rest)) :
    ∃ head between, operand Phrase.read tokens = .ok (head, between) ∧
      Phrase.read (.operators level head) between = .ok (expr, rest) := by
  rw [Phrase.read_eq] at h
  exact exists_of_bind_ok h

/-- Where an operator is taken, its right operand is read and the operators go on behind it. -/
theorem exists_right_operand {token : Token} {more : List Token} {op : BinaryOp}
    (hop : binaryOp? token.kind = some op) (hlevel : level < op.level)
    (h : Phrase.read (.operators level left) (token :: more) = .ok (expr, rest)) :
    ∃ right between, more ≠ [] ∧ between.length ≤ more.length ∧
      Phrase.read (.expression op.level) more = .ok (right, between) ∧
      Phrase.read (.operators level (.binary left.line op left right)) between =
        .ok (expr, rest) := by
  rw [Phrase.read_operators_cons, hop] at h
  simp only [if_pos hlevel] at h
  obtain ⟨_, left', hskip, hnext⟩ := exists_of_bind_ok h
  have hmore : more ≠ [] := by
    rintro rfl
    cases hskip
  cases hskip.symm.trans (skip_one hmore)
  obtain ⟨right, between, hright, hrest⟩ := exists_of_bind_ok hnext
  have hleaves := (Phrase.leaves_read (.expression op.level) more).2
  rw [hright] at hleaves
  obtain ⟨hfewer, -, -⟩ := hleaves
  exact ⟨right, between, hmore, Nat.le_of_lt_succ hfewer, hright, hrest⟩

/-- A higher level takes a first part of the operators, and the lower one goes on from there. The
induction is on the number of tokens: up to the first operator that is too loose, both levels read
the same operands. -/
theorem read_operators_split (hle : level ≤ level')
    (h : Phrase.read (.operators level left) tokens = .ok (expr, rest)) :
    ∃ first between, Phrase.read (.operators level' left) tokens = .ok (first, between) ∧
      Phrase.read (.operators level first) between = .ok (expr, rest) := by
  induction hlength : tokens.length using Nat.strongRecOn generalizing tokens left with
  | ind length ih =>
  cases tokens with
  | nil =>
    rw [Phrase.read_eq] at h
    cases h
  | cons token more =>
    by_cases htaken : ∃ op ∈ binaryOp? token.kind, level' < op.level
    · obtain ⟨op, hop, htighter⟩ := htaken
      have hlevel : level < op.level := Nat.lt_of_le_of_lt hle htighter
      obtain ⟨right, between, hmore, hfewer, hright, hnext⟩ := exists_right_operand hop hlevel h
      have hshorter : between.length < length := by
        rw [← hlength, List.length_cons]
        omega
      obtain ⟨first, after, hfirst, hgoes⟩ := ih between.length hshorter hnext rfl
      refine ⟨first, after, ?_, hgoes⟩
      rw [Phrase.read_operators_of_lt hop htighter hmore hright]
      exact hfirst
    · have hstops : Stops level' (token :: more) := by
        intro op hop
        exact Nat.le_of_not_lt fun htighter => htaken ⟨op, hop, htighter⟩
      exact ⟨left, token :: more, Phrase.read_operators_of_stops (List.cons_ne_nil _ _) hstops, h⟩

/-- With a higher level an expression is read too, and it ends no later: the lower level goes on
from there. -/
theorem read_expression_split (hle : level ≤ level')
    (h : Phrase.read (.expression level) tokens = .ok (expr, rest)) :
    ∃ first between, Phrase.read (.expression level') tokens = .ok (first, between) ∧
      Phrase.read (.operators level first) between = .ok (expr, rest) := by
  obtain ⟨head, middle, hhead, hoperators⟩ := exists_operand h
  obtain ⟨first, between, hfirst, hgoes⟩ := read_operators_split hle hoperators
  exact ⟨first, between, (read_expression hhead).trans hfirst, hgoes⟩

end Parse

namespace Expr

open Parse

variable {level level' count : Nat} {expr : Expr} {tokens rest : List Token}

theorem ofTokens_eq_read (level : Nat) (tokens : List Token) :
    ofTokens level tokens = Phrase.read (.expression level) tokens := rfl

/-- The tokens that are counted are those in front of the rest. -/
theorem countedOfTokens_eq_ok : countedOfTokens level tokens = .ok (expr, count) ↔
    ∃ rest, ofTokens level tokens = .ok (expr, rest) ∧ count = tokens.length - rest.length := by
  unfold countedOfTokens
  cases hread : ofTokens level tokens with
  | error stop => exact ⟨nofun, nofun⟩
  | ok result =>
    constructor
    · intro h
      cases h
      exact ⟨result.2, rfl, rfl⟩
    · rintro ⟨rest, h, rfl⟩
      cases h
      rfl

/-- An expression takes a token at least, and never the last one. -/
theorem countedOfTokens_bounds (h : countedOfTokens level tokens = .ok (expr, count)) :
    0 < count ∧ count < tokens.length := by
  obtain ⟨rest, hread, rfl⟩ := countedOfTokens_eq_ok.mp h
  have hleaves := ((Consuming.expression level).leaves tokens).2
  rw [← ofTokens_eq_read, hread] at hleaves
  obtain ⟨hfewer, -, -⟩ := hleaves
  obtain ⟨used, -, hkeeps, -⟩ := followsOn_read.expression level tokens expr rest hread
  have hne : tokens ≠ [] := List.length_pos_iff.mp (Nat.zero_lt_of_lt hfewer)
  have hsome := List.length_pos_iff.mpr (hkeeps hne)
  omega

/-- The tokens that an expression takes, and one more, are enough to read it. -/
theorem countedOfTokens_of_take (h : countedOfTokens level tokens = .ok (expr, count))
    {other : List Token} (hsame : other.take (count + 1) = tokens.take (count + 1)) :
    countedOfTokens level other = .ok (expr, count) := by
  have hfewer := (countedOfTokens_bounds h).2
  obtain ⟨rest, hread, hcount⟩ := countedOfTokens_eq_ok.mp h
  obtain ⟨used, rfl, -, hused⟩ := followsOn_read.expression level tokens expr rest hread
  obtain rfl : count = used.length := by simpa using hcount
  obtain ⟨next, more, rfl⟩ := List.exists_cons_of_length_pos (l := rest) (by simpa using hfewer)
  rw [List.take_length_add_append] at hsame
  -- The other tokens start with those used and with the same next token, so that they fit.
  have hother : other = used ++ next :: other.drop (used.length + 1) := by
    conv_lhs => rw [← List.take_append_drop (used.length + 1) other, hsame]
    simp
  have hfits : Fits (continues level) (next :: more) (next :: other.drop (used.length + 1)) :=
    ⟨List.cons_ne_nil _ _, .inl rfl⟩
  rw [hother]
  refine countedOfTokens_eq_ok.mpr ⟨_, hused _ hfits, ?_⟩
  simp

/-- An expression is read with a higher level too, and takes no more tokens. -/
theorem countedOfTokens_of_level (hle : level ≤ level')
    (h : countedOfTokens level tokens = .ok (expr, count)) :
    ∃ first count', countedOfTokens level' tokens = .ok (first, count') ∧ count' ≤ count := by
  obtain ⟨rest, hread, rfl⟩ := countedOfTokens_eq_ok.mp h
  obtain ⟨first, between, hfirst, hgoes⟩ := read_expression_split hle hread
  have hleaves := (Phrase.leaves_read (.operators level first) between).2
  rw [hgoes] at hleaves
  obtain ⟨hshorter, -, -⟩ := hleaves
  refine ⟨first, _, countedOfTokens_eq_ok.mpr ⟨between, hfirst, rfl⟩, ?_⟩
  omega

end Expr

/-- An expression is told by the tokens it takes and by one more. It takes one at least and never
the last one, so there is another one behind it. All tokens that start with these are read in the
same way. With a higher level an expression is read from the same tokens, and it takes no more of
them. -/
theorem expression_told_by_next_token {level count : Nat} {expr : Expr} {tokens : List Token}
    (h : Expr.countedOfTokens level tokens = .ok (expr, count)) :
    (0 < count ∧ count < tokens.length) ∧
    (∀ other : List Token, other.take (count + 1) = tokens.take (count + 1) →
      Expr.countedOfTokens level other = .ok (expr, count)) ∧
    ∀ level', level ≤ level' → ∃ first count',
      Expr.countedOfTokens level' tokens = .ok (first, count') ∧ count' ≤ count := by
  refine ⟨Expr.countedOfTokens_bounds h, fun other hsame => ?_, fun level' hle => ?_⟩
  · exact Expr.countedOfTokens_of_take h hsame
  · exact Expr.countedOfTokens_of_level hle h

/-- In front of a semicolon `a + b * c` is read whatever stands behind the semicolon, and with the
level of a sum only `a` is read. -/
theorem expression_told_by_semicolon :
    let front : List Token := [.name 1 "a", .sign 1 .plus, .name 1 "b", .sign 1 .star, .name 1 "c",
      .sign 1 .semicolon]
    let sum : Expr := .binary 1 .add (.var 1 "a") (.binary 1 .multiply (.var 1 "b") (.var 1 "c"))
    Expr.countedOfTokens 2 (front ++ [.endOn 1]) = .ok (sum, 5) ∧
      Expr.countedOfTokens 2 (front ++ [.sign 1 .rightParen, .endOn 2]) = .ok (sum, 5) ∧
      ∃ first count, Expr.countedOfTokens 4 (front ++ [.endOn 1]) = .ok (first, count) ∧
        count ≤ 5 := by
  intro front sum
  have hread : Expr.countedOfTokens 2 (front ++ [.endOn 1]) = .ok (sum, 5) := rfl
  obtain ⟨-, hsame, hhigher⟩ := expression_told_by_next_token hread
  exact ⟨hread, hsame _ rfl, hhigher 4 (by decide)⟩

end DecimalScript
