import DecimalScript.Eval.Operators
import DecimalScript.Proofs.ByteOrder
import DecimalScript.Proofs.FloorCeiling

/-!
# Equality and order of values

Two values are equal exactly if they have one outline, so equality is an equivalence. The order of
numbers is that of the rationals they stand for, and the order of texts is that of their bytes. The
six operators tell what equality and order say, and the four that need an order refuse all other
values.
-/

namespace DecimalScript

namespace Value

variable {a b c : Value}

/-! ### Equality -/

/-- Equality compares outlines. -/
theorem equal_iff_outline : a.equal b = true ↔ a.outline = b.outline := by
  induction a, b using equal.induct _
    (fun as bs => equalFields as bs = true ↔ outlineFields as = outlineFields bs)
    (fun as bs => equalItems as bs = true ↔ outlineItems as = outlineItems bs) with
  | case1 a b => simp [equal, outline]
  | case2 a b => simp [equal, outline]
  | case3 a b => simp [equal, outline]
  | case4 as bs ih => simp [equal, outline, ih]
  | case5 as bs ih => simp [equal, outline, ih]
  | case6 => simp [equal, outline]
  | case7 => simp [equal, outline]
  | case8 a b => cases a <;> cases b <;> simp_all [equal, outline]
  | case9 => simp [equalItems, outlineItems]
  | case10 a as b bs ih ihs => simp [equalItems, outlineItems, ih, ihs]
  | case11 as bs hnil hcons =>
    match as, bs with
    | [], [] => exact (hnil rfl rfl).elim
    | [], b :: bs => simp [equalItems, outlineItems]
    | a :: as, [] => simp [equalItems, outlineItems]
    | a :: as, b :: bs => exact (hcons a as b bs rfl rfl).elim
  | case12 => simp [equalFields, outlineFields]
  | case13 x a as y b bs ih ihs => simp [equalFields, outlineFields, ih, ihs, and_assoc]
  | case14 as bs hnil hcons =>
    match as, bs with
    | [], [] => exact (hnil rfl rfl).elim
    | [], (y, b) :: bs => simp [equalFields, outlineFields]
    | (x, a) :: as, [] => simp [equalFields, outlineFields]
    | (x, a) :: as, (y, b) :: bs => exact (hcons x a as y b bs rfl rfl).elim

/-- Equality is an equivalence. -/
theorem equal_equivalence : Equivalence fun a b : Value => a.equal b = true where
  refl _ := equal_iff_outline.mpr rfl
  symm h := equal_iff_outline.mpr (equal_iff_outline.mp h).symm
  trans h h' := equal_iff_outline.mpr ((equal_iff_outline.mp h).trans (equal_iff_outline.mp h'))

/-! ### Order -/

/-- The values that have an order are the comparable ones. -/
theorem order?_isSome_iff : (order? a b).isSome = true ↔ Comparable a b := by
  constructor
  · intro h
    unfold order? at h
    split at h
    · exact .numbers _ _
    · exact .texts _ _
    · cases h
  · rintro (⟨x, y⟩ | ⟨s, t⟩)
    · rfl
    · rfl

theorem order?_numbers {x y : Number} :
    order? (number x) (number y) = some .lt ↔ x.value < y.value := by
  have hraw : compare x y = compare x.raw y.raw := rfl
  rw [order?, Option.some_inj, hraw, Std.compare_eq_lt, Number.value, Number.value,
    div_lt_div_iff_of_pos_right Number.scale_pos, Int.cast_lt]

theorem order?_texts {s t : String} :
    order? (text s) (text t) = some .lt ↔ Text.bytesOf s < Text.bytesOf t := by
  rw [order?, Option.some_inj, ← Text.lt_iff_bytes]
  exact compareOfLessAndEq_eq_lt

/-- Values in an order are equal exactly if neither comes first. -/
theorem equal_eq_isEq {order : Ordering} (h : order? a b = some order) :
    a.equal b = order.isEq := by
  rw [Bool.eq_iff_iff, Ordering.isEq_iff_eq_eq]
  unfold order? at h
  split at h
  · rename_i x y
    cases h
    rw [equal, beq_iff_eq]
    exact (Number.ext_raw_iff.trans Std.compare_eq_iff_eq.symm : x = y ↔ compare x.raw y.raw = .eq)
  · cases h
    rw [equal, beq_iff_eq]
    exact Std.compare_eq_iff_eq.symm
  · cases h

theorem order?_trans (h : order? a b = some .lt) (h' : order? b c = some .lt) :
    order? a c = some .lt := by
  have hab : Comparable a b := order?_isSome_iff.mp (by rw [h]; rfl)
  have hbc : Comparable b c := order?_isSome_iff.mp (by rw [h']; rfl)
  cases hab with
  | numbers =>
    cases hbc with
    | numbers => exact order?_numbers.mpr ((order?_numbers.mp h).trans (order?_numbers.mp h'))
  | texts =>
    cases hbc with
    | texts => exact order?_texts.mpr (List.lt_trans (order?_texts.mp h) (order?_texts.mp h'))

/-! ### Operators -/

/-- An operator answers with a truth value, on whatever line it stands. -/
def Answers (op : BinaryOp) (a b : Value) (truth : Bool) : Prop :=
  ∀ line, a.applyBinary op b line = .ok (boolean truth)

/-- The operators that need an order tell what it says. -/
theorem answers_of_order? {order : Ordering} (h : order? a b = some order) :
    Answers .less a b order.isLT ∧ Answers .greater a b order.isGT ∧
      Answers .lessEqual a b order.isLE ∧ Answers .greaterEqual a b order.isGE := by
  have hcompared : ∀ (line : Nat) (holds : Ordering → Bool),
      compared a b line holds = .ok (boolean (holds order)) := fun line holds => by
    rw [compared, h]
  exact ⟨fun line => hcompared line _, fun line => hcompared line _,
    fun line => hcompared line _, fun line => hcompared line _⟩

/-- Only what comes first in an order is less. -/
theorem answers_less_iff : Answers .less a b true ↔ order? a b = some .lt := by
  refine ⟨fun h => ?_, fun h => (answers_of_order? h).1⟩
  have hcompared : compared a b 0 (·.isLT) = .ok (boolean true) := h 0
  unfold compared at hcompared
  cases horder : order? a b with
  | none =>
    rw [horder] at hcompared
    cases hcompared
  | some order =>
    rw [horder] at hcompared
    cases order with
    | lt => rfl
    | eq | gt => cases hcompared

/-- Without an order the operators that need one are of the wrong type. -/
theorem refused_of_not_comparable (h : ¬Comparable a b) (line : Nat) (holds : Ordering → Bool) :
    ∃ message, compared a b line holds = .error (.typeMismatch message line) := by
  have hnone : order? a b = none := by
    rw [← Option.not_isSome_iff_eq_none]
    exact mt order?_isSome_iff.mp h
  exact ⟨_, by rw [compared, hnone]; rfl⟩

/-- Equality is an equivalence on all values, and the operators for it always answer and are
opposite. Of two numbers or two texts exactly one is less, or they are equal; the weak operators are
the negations of the strict ones, and being less is transitive. Numbers are in the order of the
rationals they stand for and texts in that of their bytes. Any other two values cannot be put in
order. -/
theorem equality_and_order_lawful :
    (Equivalence fun a b : Value => a.equal b = true) ∧
    (∀ a b : Value, Answers .equal a b (a.equal b) ∧ Answers .notEqual a b (!a.equal b)) ∧
    (∀ a b, Comparable a b →
      (Answers .less a b true ∧ Answers .equal a b false ∧ Answers .greater a b false) ∨
      (Answers .less a b false ∧ Answers .equal a b true ∧ Answers .greater a b false) ∨
      (Answers .less a b false ∧ Answers .equal a b false ∧ Answers .greater a b true)) ∧
    (∀ a b, Comparable a b → ∃ less greater, Answers .less a b less ∧
      Answers .greater a b greater ∧ Answers .lessEqual a b (!greater) ∧
      Answers .greaterEqual a b (!less)) ∧
    (∀ a b c, Answers .less a b true → Answers .less b c true → Answers .less a c true) ∧
    (∀ x y, Answers .less (number x) (number y) true ↔ x.value < y.value) ∧
    (∀ s t, Answers .less (text s) (text t) true ↔ Text.bytesOf s < Text.bytesOf t) ∧
    ∀ a b, ¬Comparable a b → ∀ op ∈ [BinaryOp.less, .lessEqual, .greater, .greaterEqual],
      ∀ line, ∃ message, a.applyBinary op b line = .error (.typeMismatch message line) := by
  have hequal : ∀ a b, Answers .equal a b (a.equal b) := fun _ _ _ => rfl
  refine ⟨equal_equivalence, fun a b => ⟨hequal a b, fun _ => rfl⟩, fun a b h => ?_,
    fun a b h => ?_, fun a b c h h' => ?_, fun x y => answers_less_iff.trans order?_numbers,
    fun s t => answers_less_iff.trans order?_texts, fun a b h op hop line => ?_⟩
  · obtain ⟨order, horder⟩ := Option.isSome_iff_exists.mp (order?_isSome_iff.mpr h)
    obtain ⟨hless, hgreater, -⟩ := answers_of_order? horder
    have hsame := hequal a b
    rw [equal_eq_isEq horder] at hsame
    cases order with
    | lt => exact .inl ⟨hless, hsame, hgreater⟩
    | eq => exact .inr (.inl ⟨hless, hsame, hgreater⟩)
    | gt => exact .inr (.inr ⟨hless, hsame, hgreater⟩)
  · obtain ⟨order, horder⟩ := Option.isSome_iff_exists.mp (order?_isSome_iff.mpr h)
    obtain ⟨hless, hgreater, hlessEqual, hgreaterEqual⟩ := answers_of_order? horder
    refine ⟨_, _, hless, hgreater, ?_, ?_⟩
    · cases order <;> exact hlessEqual
    · cases order <;> exact hgreaterEqual
  · exact answers_less_iff.mpr (order?_trans (answers_less_iff.mp h) (answers_less_iff.mp h'))
  · simp only [List.mem_cons, List.not_mem_nil, or_false] at hop
    rcases hop with rfl | rfl | rfl | rfl
    · exact refused_of_not_comparable h line _
    · exact refused_of_not_comparable h line _
    · exact refused_of_not_comparable h line _
    · exact refused_of_not_comparable h line _

/-- Words in the order of their bytes, and two lambdas with one body that are neither equal nor in
an order. -/
theorem words_and_lambdas_compared :
    let body : Expr := .literal 1 (.boolean true)
    Answers .less (text "Zoo") (text "zoo") true ∧ Answers .less (text "zoo") (text "écu") true ∧
      Answers .less (text "Zoo") (text "écu") true ∧
      Answers .greaterEqual (text "zoo") (text "Zoo") true ∧
      Answers .notEqual (array [lambda 0 [] body]) (array [lambda 1 [] body]) true ∧
      ¬Comparable (lambda 0 [] body) (lambda 1 [] body) ∧
      ∃ message, (lambda 0 [] body).applyBinary .less (lambda 1 [] body) 3 =
        .error (.typeMismatch message 3) := by
  intro body
  obtain ⟨-, hequal, -, hweak, htrans, -, hbytes, hrefused⟩ := equality_and_order_lawful
  have hfirst : Answers .less (text "Zoo") (text "zoo") true := (hbytes _ _).mpr (by decide)
  have hsecond : Answers .less (text "zoo") (text "écu") true := (hbytes _ _).mpr (by decide)
  have hlambdas : ¬Comparable (lambda 0 [] body) (lambda 1 [] body) := nofun
  refine ⟨hfirst, hsecond, htrans _ _ _ hfirst hsecond, ?_, (hequal _ _).2, hlambdas,
    hrefused _ _ hlambdas .less (by decide) 3⟩
  obtain ⟨less, greater, hless, -, -, hgreaterEqual⟩ := hweak _ _ (.texts "zoo" "Zoo")
  have hnot : less = false := by
    cases less with
    | false => rfl
    | true => exact absurd ((hbytes _ _).mp hless) (by decide)
  subst hnot
  exact hgreaterEqual

end Value

end DecimalScript
