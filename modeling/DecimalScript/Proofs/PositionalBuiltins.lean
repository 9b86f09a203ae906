import DecimalScript.Library.Positional
import DecimalScript.Proofs.FloorCeiling
import DecimalScript.Proofs.TextSearch

/-!
# Built-ins by position do not panic

With as many values as it accepts, a built-in by position is the built-in itself: no position it
reads is without a value, nothing is drawn from nothing, and every integer fits its word. Only the
counts of lengths and places need values that a memory has room for; all other integers are whole
parts of numbers.
-/

namespace DecimalScript

namespace Number

/-- An integer that passed the guard of a long word is the count of a number. -/
theorem guarded_bind_ofRaw? (x : Int) : (Word.long.guarded x).bind ofRaw? = ofRaw? x := by
  by_cases h : Word.long.Holds x
  · rw [Word.guarded_of_holds h]
    rfl
  · have hnone : ofRaw? x = none := dif_neg h
    rw [Word.guarded_of_not_holds h, hnone]
    rfl

/-- The absolute value by steps is the absolute value. -/
theorem absSteps_eq (n : Number) : n.absSteps = n.abs? := by
  rw [absSteps, guarded_bind_ofRaw?]
  rfl

/-- The number nearest to a float, by steps, is that number: what saturates is only the power of two
just above the range. -/
theorem floatSteps_eq (value : Float) : floatSteps value = ofFloat? value := by
  refine bind_congr fun scaled => ?_
  have hends : Word.long.least = minRaw ∧ Word.long.greatest = maxRaw := ⟨rfl, rfl⟩
  have horder : minRaw ≤ maxRaw := by decide
  unfold ofRoundedRaw? Word.saturated
  rw [hends.1, hends.2]
  by_cases htop : scaled.round = maxRaw + 1
  · rw [if_pos htop, if_pos (by omega), htop]
    congr 1
  · rw [if_neg htop]
    by_cases hrange : minRaw ≤ scaled.round ∧ scaled.round ≤ maxRaw
    · rw [if_pos (by omega), Int.min_eq_left hrange.2, Int.max_eq_right hrange.1]
    · rw [if_neg (by omega), ofRaw?, dif_neg hrange]

end Number

namespace Steps

variable {α β : Type}

/-- Evaluations that do not panic follow each other as evaluations do. -/
theorem ofEval_bind (x : Eval α) (f : α → Eval β) :
    ofEval (x >>= f) = ofEval x >>= fun a => ofEval (f a) := by
  funext m
  show (ofEval (x >>= f)) m = (ofEval x >>= fun a => ofEval (f a)) m
  simp only [ofEval, ExceptT.lift, ExceptT.mk, bind, ExceptT.bind, EStateM.bind, Functor.map,
    EStateM.map]
  cases x m with
  | ok a after => rfl
  | error stop after => rfl

/-- Computations with values follow each other in steps as they do without. -/
theorem answer_bind (x : Except Fault α) (f : α → Except Fault β) :
    answer (x >>= f) = answer x >>= fun a => answer (f a) := by
  cases x with
  | ok a => rfl
  | error fault => rfl

/-- Evaluation is done in steps if what follows its start is. -/
theorem ofEval_bind_congr {x : Eval α} {f : α → Eval β} {next : α → Steps β}
    (h : ∀ a, next a = ofEval (f a)) : (ofEval x >>= next) = ofEval (x >>= f) :=
  (bind_congr h).trans (ofEval_bind x f).symm

/-- So is a computation with values. -/
theorem answer_bind_congr {x : Except Fault α} {f : α → Except Fault β} {next : α → Steps β}
    (h : ∀ a, next a = answer (f a)) : (answer x >>= next) = answer (x >>= f) :=
  (bind_congr h).trans (answer_bind x f).symm

/-- What is made of a value in the end is made of it in steps as well. -/
theorem ofEval_map (x : Eval α) (f : α → β) :
    ofEval (do return f (← x)) = (do return f (← ofEval x) : Steps β) :=
  ofEval_bind x fun a => pure (f a)

/-- The same holds for what is made of the value of a computation. -/
theorem answer_map (x : Except Fault α) (f : α → β) :
    answer (do return f (← x)) = (do return f (← answer x) : Steps β) :=
  answer_bind x fun a => .ok (f a)

/-- A result of floating point is the same by steps. -/
theorem ofFloating_eq (function : String) (result : Float) (line : Nat) :
    ofFloating function result line = answer (Builtin.ofFloat function result line) := by
  rw [ofFloating, Number.floatSteps_eq, Builtin.ofFloat]
  cases Number.ofFloat? result <;> rfl

/-! ### Integers -/

/-- A step whose result its word can hold does not panic. -/
theorem ofWords_plain {word : Number.Word} {x : Int} (h : word.Holds x) :
    ofWords (word.plain x) = pure x := by
  rw [Number.Word.plain, if_pos h]
  rfl

/-- A count up to the greatest number of units fits a word. -/
theorem asLong_eq {n : Nat} (h : n ≤ Number.maxRaw) : asLong n = pure (n : Int) :=
  ofWords_plain ⟨Int.le_trans (by decide) (Int.natCast_nonneg n), h⟩

/-- No whole part is larger than the largest one that can be represented. -/
theorem natAbs_whole_le (n : Number) : n.whole.natAbs ≤ 9223372036854 := by
  rw [Number.whole, Int.natAbs_tdiv]
  exact Nat.div_le_div_right n.natAbs_raw_le

/-- The whole part of a number fits a word. -/
theorem ofWords_whole (n : Number) : ofWords (Number.Word.long.plain n.whole) = pure n.whole :=
  ofWords_plain (Number.long_holds_of_natAbs ((natAbs_whole_le n).trans (by decide)))

/-- Between the whole parts of two numbers every integer can be represented. -/
theorem scaled_between {a b : Number} {x : Int} (hlow : a.whole ≤ x) (hhigh : x ≤ b.whole) :
    ∃ n, Number.ofInt? x = some n ∧ scaled x = pure n := by
  have ha := natAbs_whole_le a
  have hb := natAbs_whole_le b
  have hfits : ¬(x * Number.scale < Number.minRaw ∨ Number.maxRaw < x * Number.scale) := by
    unfold Number.scale Number.minRaw Number.maxRaw
    omega
  obtain ⟨n, hn⟩ := Option.ne_none_iff_exists'.mp (mt Number.ofRaw?_eq_none_iff.mp hfits)
  have hn : Number.ofInt? x = some n := hn
  exact ⟨n, hn, by rw [scaled, hn]⟩

/-- A product of the exponentiation loop by steps is the product itself. -/
theorem productSteps_eq (result square : Number) (exponent : Nat) :
    Number.productSteps result square exponent =
      .ok (if exponent % 2 = 1 then result.mul? square else some result) := by
  unfold Number.productSteps
  split
  · exact Number.mulSteps_eq _ _
  · rfl

/-- The exponentiation loop by steps is the loop itself. -/
theorem powerSteps_eq (result square : Number) (exponent : Nat) :
    Number.powerSteps result square exponent = .ok (Number.powerLoop result square exponent) := by
  induction exponent using Nat.strong_induction_on generalizing result square with
  | _ exponent ih =>
    rw [Number.powerSteps, productSteps_eq]
    by_cases hzero : exponent = 0
    · rw [if_pos hzero, hzero, Number.Squaring.powerLoop_zero]
      rfl
    · rw [if_neg hzero, Number.Squaring.powerLoop_turn hzero]
      cases if exponent % 2 = 1 then result.mul? square else some result with
      | none => rfl
      | some product =>
        by_cases hlast : exponent / 2 = 0
        · simp only [bind, Except.bind, Option.bind, if_pos hlast]
          rfl
        · simp only [bind, Except.bind, Option.bind, if_neg hlast, Number.mulSteps_eq]
          cases square.mul? square with
          | none => rfl
          | some square => exact ih (exponent / 2) (by omega) product square

/-! ### Random draws -/

/-- What is drawn below a bound that is not zero is below it. -/
theorem drawBelow_bind {bound : Nat} (hbound : bound ≠ 0) {f : Nat → Eval α}
    {next : Nat → Steps α} (h : ∀ i < bound, next i = ofEval (f i)) :
    (drawBelow bound >>= next) = ofEval (Eval.random bound >>= f) := by
  rw [drawBelow, if_neg hbound, ofEval_bind]
  funext m
  exact congrFun (h _ (m.draws.next_lt (Nat.pos_of_ne_zero hbound))) _

/-- What is drawn between two integers in order is one of them or between them. -/
theorem drawBetween_bind {low high : Int} (horder : ¬high < low) {f : Nat → Eval α}
    {next : Int → Steps α}
    (h : ∀ i < (high - low).toNat + 1, next (low + i) = ofEval (f i)) :
    (drawBetween low high >>= next) = ofEval (Eval.random ((high - low).toNat + 1) >>= f) := by
  rw [drawBetween, if_neg horder, bind_assoc]
  refine drawBelow_bind (Nat.succ_ne_zero _) fun i hi => ?_
  rw [pure_bind, h i hi]

/-! ### Places -/

/-- A place that fits a word is the value it is shown as. -/
theorem placeValue_eq {place : Option Nat} (h : ∀ i, place = some i → i ≤ Number.maxRaw) :
    placeValue place = pure (Builtin.positionValue place) := by
  cases place with
  | none => rfl
  | some i =>
    rw [placeValue, asLong_eq (h i rfl), pure_bind]
    rfl

/-- A text that does not occur in another one is not found in its bytes. -/
theorem byteIndexIn?_eq_none {part text : List Char} (h : Text.indexIn? part text = none) :
    Text.byteIndexIn? (Text.utf8 part) (Text.utf8 text) = none := by
  rw [Text.indexIn?_eq_none_iff, Text.occursIn_iff] at h
  have hpart : part ≠ [] := by
    rintro rfl
    exact h List.nil_infix
  by_contra hfound
  obtain ⟨n, hn⟩ := Option.ne_none_iff_exists'.mp hfound
  obtain ⟨first, last, hbytes⟩ := Text.occurs_of_byteIndexIn? hn
  obtain ⟨earlier, later, rfl, -⟩ := Text.occurrence_of_bytes hpart hbytes
  exact h ⟨earlier, later, List.append_assoc _ _ _⟩

/-- The first occurrence in bytes is where characters begin, and as many are before it as before the
first occurrence in characters. -/
theorem placeIn_eq (part text : String) :
    placeIn part text = pure (Text.indexIn? part.toList text.toList) := by
  unfold placeIn Text.bytesOf
  cases hindex : Text.indexIn? part.toList text.toList with
  | some n =>
    obtain ⟨before, after, hcut, rfl⟩ := Text.indexIn?_eq_some hindex
    have hbefore : (Text.utf8 text.toList).take (Text.utf8 before).length = Text.utf8 before := by
      rw [hcut.eq, Text.utf8_append, List.take_left]
    rw [hcut.byteIndexIn?]
    simp only [charsBefore, hbefore, Text.decode?_utf8]
    rfl
  | none => rw [byteIndexIn?_eq_none hindex]

end Steps

namespace Positional

open Steps

variable {body : List Value → Nat → Steps Value}

/-- The constants by steps are the constants. -/
theorem constant?_eq (name : String) : constant? name = Builtin.constant? name := by
  unfold constant? Builtin.constant? Number.pi Number.euler
  rw [Number.floatSteps_eq, Number.floatSteps_eq]

/-- What matches as a number is of that kind. -/
theorem isNumber_eq (value : Value) : isNumber value = (value.kind == .number) := by
  cases value <;> rfl

/-- What matches as a text is of that kind. -/
theorem isText_eq (value : Value) : isText value = (value.kind == .text) := by
  cases value <;> rfl

/-- What matches as an array is of that kind. -/
theorem isArray_eq (value : Value) : isArray value = (value.kind == .array) := by
  cases value <;> rfl

/-- What matches as an object is of that kind. -/
theorem isObject_eq (value : Value) : isObject value = (value.kind == .object) := by
  cases value <;> rfl

/-- A built-in by position that takes as many values as a built-in and does the same with them. -/
structure Agrees (positional : Positional) (builtin : Builtin) : Prop where
  arity : (positional.least, positional.greatest) = builtin.arity
  run : ∀ values line answer, (∀ value ∈ values, value.InMemory) →
    builtin.applyTo? values line = some answer → positional.run values line = ofEval answer

namespace Agrees

/-- What reads position zero does so in a list of one value. -/
theorem unary {run : Value → Nat → Eval Value}
    (h : ∀ a line, a.InMemory → body [a] line = ofEval (run a line)) :
    Agrees ⟨1, 1, body⟩ (.unary run) where
  arity := rfl
  run values line answer hmemory happly := by
    obtain ⟨a, rfl, rfl⟩ := Builtin.unary_applies.mp happly
    exact h a line (hmemory a List.mem_cons_self)

/-- What reads positions zero and one does so in a list of two values. -/
theorem binary {run : Value → Value → Nat → Eval Value}
    (h : ∀ a b line, a.InMemory → body [a, b] line = ofEval (run a b line)) :
    Agrees ⟨2, 2, body⟩ (.binary run) where
  arity := rfl
  run values line answer hmemory happly := by
    obtain ⟨a, b, rfl, rfl⟩ := Builtin.binary_applies.mp happly
    exact h a b line (hmemory a List.mem_cons_self)

/-- What reads positions zero to two does so in a list of three values. -/
theorem ternary {run : Value → Value → Value → Nat → Eval Value}
    (h : ∀ a b c line, body [a, b, c] line = ofEval (run a b c line)) :
    Agrees ⟨3, 3, body⟩ (.ternary run) where
  arity := rfl
  run values line answer _ happly := by
    obtain ⟨a, b, c, rfl, rfl⟩ := Builtin.ternary_applies.mp happly
    exact h a b c line

/-! #### The core library -/

/-- A length is cast to a word, which has room for what is in memory. -/
theorem length : Agrees ⟨1, 1, Positional.length⟩ (.ofUnary Builtin.length) :=
  unary fun a line hmemory => by
    have hcount : ∀ n, a.count? = some n → (asLong n >>= fun x => pure (.ofInt x) : Steps Value) =
        pure (.ofCount n) := fun n hn => by
      rw [asLong_eq (hmemory n hn), pure_bind]
      rfl
    cases a with
    | text s => exact hcount _ rfl
    | array items => exact hcount _ rfl
    | object fields => exact hcount _ rfl
    | number _ | boolean _ | lambda _ _ _ | nothing => rfl

/-- The text of a value is that of the value at position zero. -/
theorem toText : Agrees ⟨1, 1, Positional.toText⟩ (.ofUnary Builtin.toText) :=
  unary fun _ _ _ => rfl

/-- So is the name of its kind. -/
theorem kindName : Agrees ⟨1, 1, Positional.kindName⟩ (.ofUnary Builtin.kindName) :=
  unary fun _ _ _ => rfl

/-- Reading input by steps: the prompt if there is one, the flush, the line. -/
theorem input : Agrees ⟨0, 1, Positional.input⟩ (.optional Builtin.input) where
  arity := rfl
  run values line answer _ happly := by
    obtain ⟨prompt, rfl, rfl⟩ := Builtin.optional_applies.mp happly
    have hread : (do
        ofEval Eval.flush
        return .text (← ofEval (Eval.readLine line)) : Steps Value) =
        ofEval (Builtin.input.readText line) := by
      exact ofEval_bind_congr fun _ => (ofEval_map _ _).symm
    cases prompt with
    | none => exact hread
    | some prompt =>
      exact ofEval_bind_congr fun _ => hread

/-! #### The mathematical library -/

/-- An absolute value comes from a guarded negation. -/
theorem abs : Agrees ⟨1, 1, Positional.abs⟩ (.ofUnary Builtin.abs) := unary fun a line _ => by
  refine answer_bind_congr fun n => ?_
  rw [Number.absSteps_eq]

/-- What rounds on words is what rounds, if each step fits. -/
theorem rounding {name : String} {f : Number → Except Number.Overflow (Option Number)}
    {exact : Number → Option Number} (h : ∀ n, f n = .ok (exact n)) :
    Agrees ⟨1, 1, Positional.rounding name f⟩ (.ofUnary fun a line => do
      Builtin.inRange name (exact (← Builtin.numberArg name a line)) line) :=
  unary fun a line _ => by
    refine answer_bind_congr fun n => ?_
    rw [h]
    rfl

/-- A power is found by steps whose products are formed in wide words. -/
theorem pow : Agrees ⟨2, 2, Positional.pow⟩ (.ofBinary Builtin.pow) := binary fun a b line _ => by
  refine answer_bind_congr fun base => ?_
  refine answer_bind_congr fun exponent => ?_
  split
  · rw [ofWords_whole, pure_bind, powerSteps_eq]
    rfl
  · exact ofFloating_eq _ _ _

/-- A root is put into a word by steps. -/
theorem sqrt : Agrees ⟨1, 1, Positional.sqrt⟩ (.ofUnary Builtin.sqrt) := unary fun a line _ => by
  refine answer_bind_congr fun n => ?_
  by_cases h : n.raw < 0
  · rw [if_pos h, if_pos h]
    rfl
  · rw [if_neg h, if_neg h]
    exact ofFloating_eq _ _ _

/-- So is what a function of floating point gives. -/
theorem floating (name : String) (f : Float → Float) :
    Agrees ⟨1, 1, Positional.floating name f⟩ (.ofUnary (Builtin.floating name f)) :=
  unary fun _ _ _ => answer_bind_congr fun _ => ofFloating_eq _ _ _

/-- The smaller number is found by one comparison. -/
theorem min : Agrees ⟨2, 2, Positional.min⟩ (.ofBinary Builtin.min) := binary fun _ _ _ _ => by
  refine answer_bind_congr fun first => ?_
  exact (answer_map _ _).symm

/-- The larger number is found by one comparison. -/
theorem max : Agrees ⟨2, 2, Positional.max⟩ (.ofBinary Builtin.max) := binary fun _ _ _ _ => by
  refine answer_bind_congr fun first => ?_
  exact (answer_map _ _).symm

/-- A random fraction is drawn below a bound that is not zero and put into a word by steps. -/
theorem random : Agrees ⟨0, 0, Positional.random⟩ (.nullary Builtin.random) where
  arity := rfl
  run values line answer _ happly := by
    obtain ⟨rfl, rfl⟩ := Builtin.nullary_applies.mp happly
    exact drawBelow_bind (by decide) fun draw _ => ofFloating_eq _ _ _

/-- Between whole parts in order there is something to draw, and what is drawn can be scaled. -/
theorem randomInt : Agrees ⟨2, 2, Positional.randomInt⟩ (.binary Builtin.randomInt) :=
  binary fun a b line _ => by
    refine ofEval_bind_congr fun low => ?_
    rw [ofWords_whole, pure_bind]
    refine ofEval_bind_congr fun high => ?_
    rw [ofWords_whole, pure_bind]
    by_cases h : high.whole < low.whole
    · rw [if_pos h, if_pos h]
      rfl
    · rw [if_neg h, if_neg h]
      refine drawBetween_bind h fun i hi => ?_
      obtain ⟨n, hn, hscaled⟩ :=
        scaled_between (x := low.whole + i) (a := low) (b := high) (by omega) (by omega)
      rw [hscaled, Value.ofInt, hn]
      rfl

/-- From an array that is not empty an element is drawn, and it is there. -/
theorem choice : Agrees ⟨1, 1, Positional.choice⟩ (.unary Builtin.choice) :=
  unary fun a line _ => by
    refine ofEval_bind_congr fun items => ?_
    cases items with
    | nil => rfl
    | cons first rest =>
      refine drawBelow_bind (Nat.succ_ne_zero rest.length) fun i hi => ?_
      rw [valueAt, List.getD_eq_getElem?_getD, List.getElem?_eq_getElem hi]
      rfl

/-- A constant by its name comes from the same table. -/
theorem getConstant : Agrees ⟨1, 1, Positional.getConstant⟩ (.ofUnary Builtin.getConstant) :=
  unary fun a line _ => by
    refine answer_bind_congr fun name => ?_
    rw [constant?_eq]
    cases Builtin.constant? name <;> rfl

/-! #### The utility library -/

/-- A test for a form is a test for a kind. -/
theorem test {matched : Value → Bool} {kind : Value.Kind}
    (h : ∀ value : Value, matched value = (value.kind == kind)) :
    Agrees ⟨1, 1, Positional.test matched⟩ (.ofUnary (Builtin.isKind kind)) :=
  unary fun a line _ => by
    show (pure (.boolean (matched a)) : Steps Value) = _
    rw [h]
    rfl

/-- A place fits a word, and a cut before it is between characters. -/
theorem find : Agrees ⟨2, 2, Positional.find⟩ (.ofBinary Builtin.find) :=
  binary fun a b line hmemory => by
    cases a with
    | array items =>
      refine placeValue_eq fun i hi => ?_
      obtain ⟨hlength, -⟩ := List.findIdx?_eq_some_iff_getElem.mp hi
      exact (Int.ofNat_le.mpr hlength.le).trans (hmemory _ rfl)
    | text s =>
      cases b with
      | text needle =>
        show (placeIn needle s >>= _) = _
        rw [placeIn_eq, pure_bind]
        refine placeValue_eq fun i hi => ?_
        obtain ⟨before, after, hcut, rfl⟩ := Text.indexIn?_eq_some hi
        refine (Int.ofNat_le.mpr ?_).trans (hmemory _ rfl)
        rw [← String.length_toList, hcut.eq, List.length_append]
        exact Nat.le_add_right _ _
      | number _ | boolean _ | array _ | object _ | lambda _ _ _ | nothing => rfl
    | number _ | boolean _ | object _ | lambda _ _ _ | nothing => rfl

/-- A copy is the value at position zero. -/
theorem copy : Agrees ⟨1, 1, Positional.copy⟩ (.ofUnary Builtin.copy) := unary fun _ _ _ => rfl

/-- The second value is looked at only where there are fields or elements. -/
theorem has : Agrees ⟨2, 2, Positional.has⟩ (.ofBinary Builtin.has) := binary fun a b line _ => by
  cases a with
  | object fields =>
    exact (answer_map _ _).symm
  | array items => rfl
  | number _ | text _ | boolean _ | lambda _ _ _ | nothing => rfl

/-- The first element is the one at position zero, if there is one. -/
theorem first : Agrees ⟨1, 1, Positional.first⟩ (.ofUnary Builtin.first) :=
  unary fun a line _ => by
    refine answer_bind_congr fun items => ?_
    rw [List.head?_eq_getElem?]
    rfl

/-- The last element is the one before the length, if there is one. -/
theorem last : Agrees ⟨1, 1, Positional.last⟩ (.ofUnary Builtin.last) :=
  unary fun a line _ => by
    refine answer_bind_congr fun items => ?_
    rw [List.getLast?_eq_getElem?]
    rfl

/-- An element is put behind all others. -/
theorem push : Agrees ⟨2, 2, Positional.push⟩ (.ofBinary Builtin.push) :=
  binary fun _ _ _ _ => (answer_map _ _).symm

/-- All elements but the last are kept. -/
theorem pop : Agrees ⟨1, 1, Positional.pop⟩ (.ofUnary Builtin.pop) :=
  unary fun a line _ => by
    refine answer_bind_congr fun items => ?_
    rw [List.dropLast_eq_take]
    rfl

/-- Elements and characters are put in reverse order. -/
theorem reverse : Agrees ⟨1, 1, Positional.reverse⟩ (.ofUnary Builtin.reverse) :=
  unary fun a _ _ => by
    cases a with
    | array items => rfl
    | text s => rfl
    | number _ | boolean _ | object _ | lambda _ _ _ | nothing => rfl

/-! #### The text library -/

/-- A function of a text is applied to the value at position zero. -/
theorem onText (name : String) (f : String → String) :
    Agrees ⟨1, 1, Positional.onText name f⟩ (.ofUnary (Builtin.onText name f)) :=
  unary fun _ _ _ => (answer_map _ _).symm

/-- A text is cut at a separator, or into its characters if that is empty. -/
theorem split : Agrees ⟨2, 2, Positional.split⟩ (.ofBinary Builtin.split) :=
  binary fun a b line _ => by
    refine answer_bind_congr fun s => ?_
    refine answer_bind_congr fun separator => ?_
    cases separator.isEmpty <;> rfl

/-- The texts of the elements are put together. -/
theorem join : Agrees ⟨2, 2, Positional.join⟩ (.ofBinary Builtin.join) :=
  binary fun _ _ _ _ => by
    refine answer_bind_congr fun items => ?_
    exact (answer_map _ _).symm

/-- A text is looked for in another. -/
theorem contains : Agrees ⟨2, 2, Positional.contains⟩ (.ofBinary Builtin.contains) :=
  binary fun _ _ _ _ => by
    refine answer_bind_congr fun s => ?_
    exact (answer_map _ _).symm

/-- Occurrences are replaced, unless the part is empty. -/
theorem replace : Agrees ⟨3, 3, Positional.replace⟩ (.ofTernary Builtin.replace) :=
  ternary fun a b c line => by
    refine answer_bind_congr fun s => ?_
    refine answer_bind_congr fun part => ?_
    refine answer_bind_congr fun replacement => ?_
    cases part.isEmpty <;> rfl

end Agrees

end Positional

/-- A name stands for entries that match in two tables whose entries match in order, or for none in
either. -/
theorem NameTable.rel_get? {α β : Type} {related : α → β → Prop} {table : NameTable α}
    {other : NameTable β}
    (hmatch : List.Forall₂ (fun x y => x.1 = y.1 ∧ related x.2 y.2) table other) (name : String) :
    Option.Rel related (table.get? name) (other.get? name) := by
  induction hmatch with
  | nil => exact .none
  | @cons x y _ _ hfirst _ ih =>
    obtain ⟨key, first⟩ := x
    obtain ⟨_, second⟩ := y
    obtain ⟨rfl, hrelated⟩ := hfirst
    unfold get? at ih ⊢
    rw [List.lookup_cons, List.lookup_cons]
    cases name == key with
    | true => exact .some hrelated
    | false => exact ih

namespace Library

open Positional

/-- Every built-in is there by position, in the place of the same name. -/
theorem positionals_agree (library : Library) :
    List.Forall₂ (fun positional builtin => positional.1 = builtin.1 ∧
      Agrees positional.2 builtin.2) library.positionals library.builtins := by
  cases library with
  | core =>
    unfold positionals builtins Positional.core Builtin.core
    exact .cons ⟨rfl, .length⟩ <| .cons ⟨rfl, .toText⟩ <| .cons ⟨rfl, .kindName⟩ <|
      .cons ⟨rfl, .input⟩ .nil
  | math =>
    unfold positionals builtins Positional.math Builtin.math
    exact .cons ⟨rfl, .abs⟩ <| .cons ⟨rfl, .pow⟩ <| .cons ⟨rfl, .sqrt⟩ <|
      .cons ⟨rfl, .rounding Number.floorSteps_eq⟩ <| .cons ⟨rfl, .rounding Number.ceilSteps_eq⟩ <|
      .cons ⟨rfl, .floating _ _⟩ <| .cons ⟨rfl, .floating _ _⟩ <| .cons ⟨rfl, .floating _ _⟩ <|
      .cons ⟨rfl, .min⟩ <| .cons ⟨rfl, .max⟩ <| .cons ⟨rfl, .random⟩ <|
      .cons ⟨rfl, .randomInt⟩ <| .cons ⟨rfl, .choice⟩ <| .cons ⟨rfl, .getConstant⟩ .nil
  | util =>
    unfold positionals builtins Positional.util Builtin.util
    exact .cons ⟨rfl, .kindName⟩ <| .cons ⟨rfl, .toText⟩ <| .cons ⟨rfl, .length⟩ <|
      .cons ⟨rfl, .test isNumber_eq⟩ <| .cons ⟨rfl, .test isText_eq⟩ <|
      .cons ⟨rfl, .test isArray_eq⟩ <| .cons ⟨rfl, .test isObject_eq⟩ <|
      .cons ⟨rfl, .find⟩ <| .cons ⟨rfl, .copy⟩ <| .cons ⟨rfl, .has⟩ <|
      .cons ⟨rfl, .first⟩ <| .cons ⟨rfl, .last⟩ <| .cons ⟨rfl, .push⟩ <| .cons ⟨rfl, .pop⟩ <|
      .cons ⟨rfl, .reverse⟩ .nil
  | text =>
    unfold positionals builtins Positional.text Builtin.text
    exact .cons ⟨rfl, .onText _ _⟩ <| .cons ⟨rfl, .onText _ _⟩ <| .cons ⟨rfl, .onText _ _⟩ <|
      .cons ⟨rfl, .split⟩ <| .cons ⟨rfl, .join⟩ <| .cons ⟨rfl, .contains⟩ <|
      .cons ⟨rfl, .replace⟩ .nil

/-- A name stands for a built-in of a library and for the same one by position, or for neither. -/
theorem positional?_agrees (library : Library) (name : String) :
    Option.Rel Agrees (library.positional? name) (library.builtin? name) :=
  NameTable.rel_get? library.positionals_agree name

end Library

end DecimalScript
