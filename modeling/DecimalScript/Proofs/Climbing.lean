import DecimalScript.Proofs.Followers
import DecimalScript.Proofs.Rendering
import DecimalScript.Syntax.Strata
import Mathlib.Data.List.Induction
import Mathlib.Data.List.TakeWhile

/-!
# Operators are grouped by strata

The reader of operators folds to the left and reads right operands with a level of their own. Each
chain has a tree in the stratum of its loosest operators, and reading the chain with any looser level
folds it into this tree, so that the tree is the only one.
-/

namespace DecimalScript

namespace Parse

variable {goesOn : TokenKind → Bool} {rest : List Token} {level : Nat} {left right : Expr}
  {token : Token} {op : BinaryOp}

/-- There are tokens, and the first one does not go on. -/
def BreaksOff (goesOn : TokenKind → Bool) (rest : List Token) : Prop :=
  ∃ next after, rest = next :: after ∧ goesOn next.kind = false

theorem BreaksOff.fits {other : List Token} (h : BreaksOff goesOn other) :
    Fits goesOn rest other := by
  obtain ⟨next, after, rfl, hbreaks⟩ := h
  exact ⟨List.cons_ne_nil _ _, .inr hbreaks⟩

theorem BreaksOff.mono {goesOn' : TokenKind → Bool} (h : BreaksOff goesOn' rest)
    (hgoes : ∀ kind, goesOn' kind = false → goesOn kind = false) : BreaksOff goesOn rest := by
  obtain ⟨next, after, rfl, hbreaks⟩ := h
  exact ⟨next, after, rfl, hgoes _ hbreaks⟩

/-- An operator does not start a suffix. -/
theorem startsSuffix_of_binaryOp? {kind : TokenKind} (h : binaryOp? kind = some op) :
    startsSuffix kind = false := by
  unfold startsSuffix
  split
  · cases h
  · cases h
  · cases h
  · rfl

theorem continues_of_binaryOp? {kind : TokenKind} (h : binaryOp? kind = some op)
    (hlevel : op.level ≤ level) : continues level kind = false := by
  rw [continues, startsSuffix_of_binaryOp? h, h]
  simpa using hlevel

/-- An expression is an operand with the operators after it. -/
theorem read_expression {tokens : List Token} (h : operand Phrase.read tokens = .ok (left, rest)) :
    Phrase.read (.expression level) tokens = Phrase.read (.operators level left) rest := by
  rw [← Phrase.rule_read_eq_read]
  exact bind_of_ok h

/-- Where no operator binds tightly enough the left operand is complete. -/
theorem read_operators_of_breaksOff (h : BreaksOff (continues level) rest) :
    Phrase.read (.operators level left) rest = .ok (left, rest) := by
  obtain ⟨next, after, rfl, hbreaks⟩ := h
  refine Phrase.read_operators_of_stops (List.cons_ne_nil _ _) fun op hop => ?_
  have hnone := (Bool.or_eq_false_iff.mp hbreaks).2
  rw [show binaryOp? next.kind = some op from hop] at hnone
  simpa using hnone

end Parse

namespace Expr

open Parse

variable {level : Nat} {first tree : Expr} {links links' : Links} {tokens more rest : List Token}
  {op : BinaryOp}

theorem IsOperand.read {expr : Expr} (h : IsOperand tokens expr)
    (hrest : BreaksOff startsSuffix rest) : operand Phrase.read (tokens ++ rest) = .ok (expr, rest) := by
  obtain ⟨next, after, hread⟩ := h
  obtain ⟨used, hused, -, hsame⟩ := settles_operand followsOn_read _ _ _ hread
  cases List.append_cancel_right hused
  exact hsame rest hrest.fits

/-! ### Links -/

theorem Linked.split (h : Linked (links ++ links') more) :
    ∃ taken left, more = taken ++ left ∧ Linked links taken ∧ Linked links' left := by
  induction links generalizing more with
  | nil => exact ⟨[], more, rfl, .nil, h⟩
  | cons link links ih =>
    cases h with
    | cons hop hoperand hmore =>
      obtain ⟨taken, left, rfl, htaken, hleft⟩ := ih hmore
      exact ⟨_, left, by simp, .cons hop hoperand htaken, hleft⟩

/-- Behind an operand the links of a chain stop the suffixes. -/
theorem Linked.breaksOff (h : Linked links more) (hrest : BreaksOff startsSuffix rest) :
    BreaksOff startsSuffix (more ++ rest) := by
  cases h with
  | nil => exact hrest
  | cons hop hoperand hmore => exact ⟨_, _, rfl, startsSuffix_of_binaryOp? hop⟩

/-! ### Trees of chains -/

/-- An operand is added to a chain with an operator of the stratum, behind the whole tree. -/
theorem Stratum.append (h : Stratum op.level first links tree) (second : Expr) :
    Stratum op.level first (links ++ [(op, second)]) (.binary tree.line op tree second) :=
  .binary h .operand

/-- A chain of a stratum is an expression of the strata before it. -/
theorem Stratum.loosen (h : Stratum level first links tree) {level' : Nat} (hle : level' ≤ level) :
    Stratum level' first links tree := by
  induction level with
  | zero =>
    obtain rfl := Nat.le_zero.mp hle
    exact h
  | succ level ih =>
    rcases Nat.lt_or_ge level level' with htop | hlower
    · obtain rfl := Nat.le_antisymm hle htop
      exact h
    · exact ih (.tighter h) hlower

/-- A chain of a stratum is still one when an operator that is not looser and an operand are added:
an operator of the stratum takes the whole tree, a tighter one is added to the last right
operand. -/
theorem Stratum.extend (h : Stratum level first links tree) (hop : level ≤ op.level)
    (second : Expr) : ∃ tree', Stratum level first (links ++ [(op, second)]) tree' := by
  induction h with
  | operand => exact ⟨_, (Stratum.operand.append second).loosen hop⟩
  | @tighter level first tree links h ih =>
    rcases Nat.lt_or_eq_of_le hop with htighter | rfl
    · obtain ⟨tree', h'⟩ := ih htighter
      exact ⟨tree', h'.tighter⟩
    · exact ⟨_, h.tighter.append second⟩
  | @binary op' first last left right links links' hleft hright _ ih =>
    rcases Nat.lt_or_eq_of_le hop with htighter | hsame
    · obtain ⟨right', hright'⟩ := ih htighter
      exact ⟨_, by simpa using hleft.binary hright'⟩
    · have hwhole := hleft.binary hright
      rw [hsame] at hwhole ⊢
      exact ⟨_, hwhole.append second⟩

/-- Each chain whose operators are not looser than a stratum has a tree in it. -/
theorem exists_stratum (first : Expr) (h : ∀ link ∈ links, level ≤ link.1.level) :
    ∃ tree, Stratum level first links tree := by
  induction links using List.reverseRecOn with
  | nil => exact ⟨first, .operand⟩
  | append_singleton links link ih =>
    obtain ⟨tree, htree⟩ := ih fun link' hlink' => h link' (List.mem_append_left _ hlink')
    exact htree.extend (h link (List.mem_append_right _ (List.mem_singleton_self _))) link.2

/-- Reading with a looser level folds a chain into its tree. The induction is on the tree: in front
of its operator the tree on the left is folded, and the one on the right is read with the level of
the operator. -/
theorem Stratum.read (h : Stratum level first links tree) {outer : Nat} (houter : outer < level)
    (hlinks : Linked links more) (hrest : BreaksOff (continues level) rest) :
    Phrase.read (.operators outer first) (more ++ rest) =
      Phrase.read (.operators outer tree) rest := by
  induction h generalizing outer more rest with
  | operand =>
    cases hlinks
    rfl
  | tighter h ih =>
    have htighter := hrest.mono fun _ => continues_of_level (Nat.le_succ _)
    exact ih (Nat.lt_succ_of_lt houter) hlinks htighter
  | @binary op first second left right links links' hleft hright ihleft ihright =>
    obtain ⟨taken, behind, rfl, htaken, hbehind⟩ := hlinks.split
    cases hbehind with
    | @cons token _ tokens more _ _ hop hoperand hmore =>
      have hbreaks : BreaksOff startsSuffix rest := hrest.mono fun _ => startsSuffix_of_continues
      have htoken : BreaksOff (continues op.level) (token :: (tokens ++ more) ++ rest) :=
        ⟨_, _, rfl, continues_of_binaryOp? hop (Nat.le_refl _)⟩
      have hfolded := ihright (Nat.lt_succ_self _) hmore
        (hrest.mono fun _ => continues_of_level (Nat.le_succ _))
      have hsecond : Phrase.read (.expression op.level) (tokens ++ more ++ rest) =
          .ok (right, rest) := by
        rw [List.append_assoc, read_expression (hoperand.read (hmore.breaksOff hbreaks)), hfolded,
          read_operators_of_breaksOff hrest]
      have hne : tokens ++ more ++ rest ≠ [] := by
        obtain ⟨next, after, rfl, -⟩ := hrest
        simp
      rw [List.append_assoc, ihleft houter htaken htoken, List.cons_append,
        Phrase.read_operators_of_lt hop houter hne hsecond]

theorem level_lt_of_tighterLinks {link : BinaryOp × Expr} (h : link ∈ tighterLinks level links) :
    level < link.1.level := by
  have htighter := List.mem_takeWhile_imp (p := fun link : BinaryOp × Expr => level < link.1.level) h
  simpa using htighter

/-- Each operator binds tighter than the level zero. -/
theorem looserLinks_zero (links : Links) : looserLinks 0 links = [] := by
  refine List.dropWhile_eq_nil_iff.mpr fun link _ => ?_
  cases link.1 <;> rfl

theorem Linked.breaksOff_looser {stop : Token} {after : List Token}
    (h : Linked (looserLinks level links) more) (hop : binaryOp? stop.kind = none)
    (hsuffix : startsSuffix stop.kind = false) :
    BreaksOff (continues level) (more ++ stop :: after) := by
  generalize hlooser : looserLinks level links = looser at h
  cases h with
  | nil =>
    refine ⟨stop, after, rfl, ?_⟩
    rw [continues, hsuffix, hop]
    rfl
  | @cons token op _ _ expr _ hop hoperand hmore =>
    have hhead := List.head?_dropWhile_not (fun link : BinaryOp × Expr => decide (level < link.1.level))
      links
    rw [show links.dropWhile _ = _ from hlooser] at hhead
    refine ⟨token, _, rfl, continues_of_binaryOp? hop ?_⟩
    simpa using hhead

/-- A chain of operands and operators is grouped by strata. With a level, an expression takes the
operators that bind tighter than it up to the first one that does not, and its tree is the only one
that the chain of these operators has in the next stratum. The level zero takes the whole chain. -/
theorem chain_is_stratified (level : Nat) {stop : Token} (after : List Token)
    (hfirst : IsOperand tokens first) (hlinks : Linked links more)
    (hop : binaryOp? stop.kind = none) (hsuffix : startsSuffix stop.kind = false) :
    ∃ taken left tree, more = taken ++ left ∧
      Linked (tighterLinks level links) taken ∧ Linked (looserLinks level links) left ∧
      Expr.ofTokens level (tokens ++ (more ++ stop :: after)) = .ok (tree, left ++ stop :: after) ∧
      Stratum (level + 1) first (tighterLinks level links) tree ∧
      (∀ other, Stratum (level + 1) first (tighterLinks level links) other → other = tree) ∧
      (level = 0 → left = []) := by
  have hsplit : tighterLinks level links ++ looserLinks level links = links :=
    List.takeWhile_append_dropWhile
  rw [← hsplit] at hlinks
  obtain ⟨taken, left, rfl, htaken, hleft⟩ := hlinks.split
  have hbreaks : BreaksOff (continues level) (left ++ stop :: after) :=
    hleft.breaksOff_looser hop hsuffix
  have hfolds : ∀ tree, Stratum (level + 1) first (tighterLinks level links) tree →
      Expr.ofTokens level (tokens ++ (taken ++ left ++ stop :: after)) =
        .ok (tree, left ++ stop :: after) := by
    intro tree htree
    have hread : Expr.ofTokens level (tokens ++ (taken ++ left ++ stop :: after)) =
        Phrase.read (.expression level) (tokens ++ (taken ++ left ++ stop :: after)) := rfl
    have hsuffixes := htaken.breaksOff (hbreaks.mono fun _ => startsSuffix_of_continues)
    have htighter := hbreaks.mono fun _ => continues_of_level (Nat.le_succ level)
    rw [hread, List.append_assoc taken, read_expression (hfirst.read hsuffixes),
      htree.read (Nat.lt_succ_self _) htaken htighter, read_operators_of_breaksOff hbreaks]
  obtain ⟨tree, htree⟩ : ∃ tree, Stratum (level + 1) first (tighterLinks level links) tree :=
    exists_stratum first fun _ => level_lt_of_tighterLinks
  refine ⟨taken, left, tree, rfl, htaken, hleft, hfolds tree htree, htree, fun other hother => ?_, ?_⟩
  · have hsame := (hfolds other hother).symm.trans (hfolds tree htree)
    cases hsame
    rfl
  · rintro rfl
    rw [looserLinks_zero] at hleft
    cases hleft
    rfl

/-- Inside the right operand of an equation, `a + b * c and d` is read up to its last operator. -/
theorem chain_is_stratified_of_sum :
    let name (id : String) : Token := ⟨.identifier id, id, 1⟩
    let mark (symbol : Symbol) : Token := ⟨.symbol symbol, "", 1⟩
    let more := [mark .plus, name "b", mark .star, name "c", ⟨.keyword .andWord, "and", 1⟩, name "d"]
    let links : Links := [(.add, .var 1 "b"), (.multiply, .var 1 "c"), (.both, .var 1 "d")]
    IsOperand [name "a"] (.var 1 "a") ∧ Linked links more ∧
      ∃ left, Linked [(.both, .var 1 "d")] left ∧
        Expr.ofTokens 2 (name "a" :: (more ++ [mark .semicolon, .endOn 1])) =
          .ok (.binary 1 .add (.var 1 "a") (.binary 1 .multiply (.var 1 "b") (.var 1 "c")),
            left ++ [mark .semicolon, .endOn 1]) := by
  intro name mark more links
  have hname (id : String) : IsOperand [name id] (.var 1 id) := ⟨.endOn 1, [], rfl⟩
  have hlinks : Linked links more :=
    .cons rfl (hname "b") (.cons rfl (hname "c") (.cons rfl (hname "d") .nil))
  have hop : binaryOp? (mark .semicolon).kind = none := rfl
  have hsuffix : startsSuffix (mark .semicolon).kind = false := rfl
  obtain ⟨taken, left, tree, -, -, hleft, hread, -, hunique, -⟩ :=
    chain_is_stratified 2 [.endOn 1] (hname "a") hlinks hop hsuffix
  have hproduct : Stratum 5 (.var 1 "b") [(.multiply, .var 1 "c")]
      (.binary 1 .multiply (.var 1 "b") (.var 1 "c")) :=
    (Stratum.operand : Stratum BinaryOp.multiply.level _ _ _).append (.var 1 "c")
  have hsum : Stratum 4 (.var 1 "a") [(.add, .var 1 "b"), (.multiply, .var 1 "c")]
      (.binary 1 .add (.var 1 "a") (.binary 1 .multiply (.var 1 "b") (.var 1 "c"))) :=
    (Stratum.operand : Stratum BinaryOp.add.level _ _ _).binary hproduct
  cases hunique _ hsum.tighter
  exact ⟨hname "a", hlinks, left, hleft, hread⟩

end Expr

end DecimalScript
