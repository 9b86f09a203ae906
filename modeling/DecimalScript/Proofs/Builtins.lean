import DecimalScript.Proofs.Sequencing

/-!
# Built-in functions

Built-ins that look at values only stay within every class of values. Those that act on
the machine touch its console only. So what holds of values in the class, of faults, of
the console and of sequences holds of every built-in of every library, and a comparison is
one such thing.
-/

namespace DecimalScript

namespace Meets

variable {good : Value → Prop} {function : String} {value : Value} {line : Nat}

/-- A number argument is followed by what the built-in does with it. -/
theorem withNumber {rest : Number → Except Fault Value} (h : ∀ n, Meets good (rest n)) :
    Meets good (Builtin.numberArg function value line >>= rest) := by
  cases value with
  | number n => exact h n
  | text _ | boolean _ | array _ | object _ | lambda _ _ _ | nothing => rfl

/-- A text argument is followed by what the built-in does with it. -/
theorem withText {rest : String → Except Fault Value} (h : ∀ s, Meets good (rest s)) :
    Meets good (Builtin.textArg function value line >>= rest) := by
  cases value with
  | text s => exact h s
  | number _ | boolean _ | array _ | object _ | lambda _ _ _ | nothing => rfl

end Meets

namespace ValueClass

variable {good : Value → Prop} (law : ValueClass good)

include law

/-- An array argument has items of the class. -/
theorem withArray {function : String} {value : Value} {line : Nat}
    {rest : List Value → Except Fault Value} (hvalue : good value)
    (h : ∀ items, (∀ item ∈ items, good item) → Meets good (rest items)) :
    Meets good (Builtin.arrayArg function value line >>= rest) := by
  cases value with
  | array items => exact h items (law.array.mp hvalue)
  | number _ | text _ | boolean _ | object _ | lambda _ _ _ | nothing => rfl

/-- A number in range is good, as every number is. -/
theorem inRange (function : String) (result : Option Number) (line : Nat) :
    Meets good (Builtin.inRange function result line) := by
  cases result with
  | some n => exact law.number n
  | none => rfl

/-- So is one that is near to a float. -/
theorem ofFloat (function : String) (result : Float) (line : Nat) :
    Meets good (Builtin.ofFloat function result line) := by
  unfold Builtin.ofFloat
  split
  · exact law.number _
  · rfl

/-- So is a length. -/
theorem length (a : Value) (line : Nat) : Meets good (Builtin.length a line) := by
  unfold Builtin.length
  split
  · exact law.ofCount _
  · exact law.ofCount _
  · exact law.ofCount _
  · rfl

/-- So is a power. -/
theorem pow (a b : Value) (line : Nat) : Meets good (Builtin.pow a b line) := by
  refine .withNumber fun base => .withNumber fun exponent => ?_
  split
  · exact law.inRange _ _ _
  · exact law.ofFloat _ _ _

/-- So is a root. -/
theorem sqrt (a : Value) (line : Nat) : Meets good (Builtin.sqrt a line) := by
  refine .withNumber fun n => ?_
  by_cases h : n.raw < 0
  · simp only [h, if_true]
    rfl
  · simp only [h, if_false]
    exact law.ofFloat _ _ _

/-- The mathematical constants are numbers. -/
theorem mathConstant {name : String} {value : Value} (h : Builtin.constant? name = some value) :
    good value := by
  unfold Builtin.constant? at h
  split at h
  · obtain ⟨n, _, rfl⟩ := Option.map_eq_some_iff.mp h
    exact law.number n
  · split at h
    · obtain ⟨n, _, rfl⟩ := Option.map_eq_some_iff.mp h
      exact law.number n
    · cases h

/-- So is a constant. -/
theorem getConstant (a : Value) (line : Nat) : Meets good (Builtin.getConstant a line) := by
  refine .withText fun name => ?_
  cases h : Builtin.constant? name with
  | some value => exact law.mathConstant h
  | none => rfl

/-- The parts of a text are texts in an array. -/
theorem split (a b : Value) (line : Nat) : Meets good (Builtin.split a b line) := by
  refine .withText fun s => .withText fun separator => ?_
  split
  · refine law.array.mpr fun item hitem => ?_
    obtain ⟨c, _, rfl⟩ := List.mem_map.mp hitem
    exact law.ofChar c
  · refine law.array.mpr fun item hitem => ?_
    obtain ⟨part, _, rfl⟩ := List.mem_map.mp hitem
    exact law.text _

/-- The elements put together are a text. -/
theorem join {a : Value} (ha : good a) (b : Value) (line : Nat) :
    Meets good (Builtin.join a b line) :=
  law.withArray ha fun _ _ => .withText fun _ => law.text _

/-- A text with parts replaced is one. -/
theorem replace (a b c : Value) (line : Nat) : Meets good (Builtin.replace a b c line) := by
  refine .withText fun s => .withText fun part => .withText fun replacement => ?_
  split
  · exact law.text _
  · exact law.text _

/-- A place is a number. -/
theorem find (a b : Value) (line : Nat) : Meets good (Builtin.find a b line) := by
  have hposition : ∀ position, good (Builtin.positionValue position) := by
    intro position
    cases position with
    | some i => exact law.ofInt _
    | none => exact law.ofInt _
  unfold Builtin.find
  split
  · exact hposition _
  · exact hposition _
  · rfl

/-- Whether something is there is a truth value. -/
theorem has (a b : Value) (line : Nat) : Meets good (Builtin.has a b line) := by
  unfold Builtin.has
  split
  · exact .withText fun _ => law.boolean _
  · exact law.boolean _
  · rfl

/-- The first element of a good array is good, and so is nothing. -/
theorem first {a : Value} (ha : good a) (line : Nat) : Meets good (Builtin.first a line) := by
  refine law.withArray ha fun items hitems => ?_
  cases items with
  | nil => exact law.nothing
  | cons item rest => exact hitems item List.mem_cons_self

/-- So is the last one. -/
theorem last {a : Value} (ha : good a) (line : Nat) : Meets good (Builtin.last a line) := by
  refine law.withArray ha fun items hitems => ?_
  show good (items.getLast?.getD .nothing)
  cases h : items.getLast? with
  | none => exact law.nothing
  | some item => exact hitems item (List.mem_of_getLast? h)

/-- A good array with one more good element is good. -/
theorem push {a b : Value} (ha : good a) (hb : good b) (line : Nat) :
    Meets good (Builtin.push a b line) := by
  refine law.withArray ha fun items hitems => law.array.mpr fun item hitem => ?_
  rcases List.mem_append.mp hitem with h | h
  · exact hitems item h
  · rw [List.mem_singleton.mp h]
    exact hb

/-- A good array with one element less is good. -/
theorem pop {a : Value} (ha : good a) (line : Nat) : Meets good (Builtin.pop a line) :=
  law.withArray ha fun _ hitems => law.array.mpr fun item hitem =>
    hitems item (List.dropLast_subset _ hitem)

/-- So is one in reverse order. -/
theorem reverse {a : Value} (ha : good a) (line : Nat) : Meets good (Builtin.reverse a line) := by
  unfold Builtin.reverse
  split
  · exact law.array.mpr fun item hitem => law.array.mp ha item (List.mem_reverse.mp hitem)
  · exact law.text _
  · rfl

end ValueClass

/-- Something that can hold of evaluations with a class of results, and holds of what built-ins are
made of. -/
structure ConsoleLaw (good : Value → Prop) (holds : {α : Type} → (α → Prop) → Eval α → Prop) :
    Prop where
  values : ValueClass good
  pure : ∀ {α : Type} {results : α → Prop} {a : α}, results a → holds results (pure a)
  bind : ∀ {α β : Type} {results : α → Prop} {results' : β → Prop} {x : Eval α} {f : α → Eval β},
    holds results x → (∀ a, results a → holds results' (f a)) → holds results' (x >>= f)
  /-- Faults that the program can handle. -/
  raise : ∀ {α : Type} {results : α → Prop} {fault : Fault}, fault.isFatal = false →
    holds results (Eval.raise fault)
  write : ∀ text, holds (fun _ => True) (Eval.write text)
  flush : holds (fun _ => True) Eval.flush
  random : ∀ bound, holds (fun _ => True) (Eval.random bound)
  takeLine : ∀ line, holds (fun _ => True) (Eval.takeLine line)

/-- A comparison holds of what built-ins are made of. -/
theorem Comparison.consoleLaw (C : Comparison) :
    ConsoleLaw C.good fun good x => C.Holds .value false good x x where
  values := C.values
  pure := .pure
  bind := .bind
  raise := .raise
  write := .write
  flush := .flush
  random := .random
  takeLine := .takeLine

namespace Builtin

variable {good : Value → Prop} {holds : {α : Type} → (α → Prop) → Eval α → Prop}

/-- Something holds of a built-in on values of the class. -/
def Tame (good : Value → Prop) (holds : {α : Type} → (α → Prop) → Eval α → Prop) :
    Builtin → Prop
  | nullary run => ∀ line, holds good (run line)
  | unary run => ∀ a line, good a → holds good (run a line)
  | binary run => ∀ a b line, good a → good b → holds good (run a b line)
  | ternary run => ∀ a b c line, good a → good b → good c → holds good (run a b c line)
  | optional run => ∀ a line, holds good (run a line)

/-- Applying a built-in to good values. -/
theorem Tame.applyTo {builtin : Builtin} (h : builtin.Tame good holds) {values : List Value}
    (hvalues : ∀ value ∈ values, good value) {line : Nat} {applied : Eval Value}
    (happlied : builtin.applyTo? values line = some applied) : holds good applied := by
  unfold applyTo? at happlied
  split at happlied
  · cases happlied
    exact h line
  · cases happlied
    exact h _ line (hvalues _ (by simp))
  · cases happlied
    exact h _ _ line (hvalues _ (by simp)) (hvalues _ (by simp))
  · cases happlied
    exact h _ _ _ line (hvalues _ (by simp)) (hvalues _ (by simp)) (hvalues _ (by simp))
  · cases happlied
    exact h none line
  · cases happlied
    exact h (some _) line
  · cases happlied

end Builtin

namespace ConsoleLaw

open Builtin

variable {good : Value → Prop} {holds : {α : Type} → (α → Prop) → Eval α → Prop}
  (law : ConsoleLaw good holds)

include law

/-- A result of operators and built-in functions. -/
theorem ofExcept {α : Type} {results : α → Prop} {result : Except Fault α}
    (h : Meets results result) : holds results (Eval.ofExcept result) := by
  cases result with
  | ok a => exact law.pure h
  | error fault => exact law.raise h

/-- Reading a line of input. -/
theorem readLine (line : Nat) : holds (fun _ => True) (Eval.readLine line) := by
  refine law.bind (law.takeLine line) fun bytes _ => ?_
  cases Eval.lineText bytes with
  | none => exact law.raise rfl
  | some text => exact law.pure trivial

/-- A built-in that looks at a value only is tame if it makes good values of good ones. -/
theorem ofUnary {run : Value → Nat → Except Fault Value}
    (h : ∀ a line, good a → Meets good (run a line)) : (ofUnary run).Tame good holds :=
  fun a line ha => law.ofExcept (h a line ha)

/-- So is one that looks at two values only. -/
theorem ofBinary {run : Value → Value → Nat → Except Fault Value}
    (h : ∀ a b line, good a → good b → Meets good (run a b line)) :
    (ofBinary run).Tame good holds :=
  fun a b line ha hb => law.ofExcept (h a b line ha hb)

/-- One that looks at three texts need not be given good values. -/
theorem ofTernary {run : Value → Value → Value → Nat → Except Fault Value}
    (h : ∀ a b c line, Meets good (run a b c line)) : (ofTernary run).Tame good holds :=
  fun a b c line _ _ _ => law.ofExcept (h a b c line)

/-- Reading input writes a prompt, flushes it and takes a line. -/
theorem input : (optional input).Tame good holds := by
  have hread : ∀ line, holds good (input.readText line) :=
    fun line => law.bind law.flush fun _ _ =>
      law.bind (law.readLine line) fun _ _ => law.pure (law.values.text _)
  intro prompt line
  cases prompt with
  | none => exact hread line
  | some value => exact law.bind (law.write _) fun _ _ => hread line

/-- A random fraction is a number. -/
theorem randomFraction : (nullary Builtin.random).Tame good holds :=
  fun _ => law.bind (law.random _) fun _ _ => law.ofExcept (law.values.ofFloat _ _ _)

/-- A random whole number is drawn once its bounds are known to be in order. -/
theorem randomInt : (binary randomInt).Tame good holds := by
  have harg : ∀ (v : Value) (line : Nat), Meets (fun _ => True) (numberArg "randint" v line) := by
    intro v line
    cases v with
    | number n => trivial
    | text _ | boolean _ | array _ | object _ | lambda _ _ _ | nothing => rfl
  intro a b line _ _
  refine law.bind (law.ofExcept (harg a line)) fun low _ => ?_
  refine law.bind (law.ofExcept (harg b line)) fun high _ => ?_
  have hdraw : holds good
      (do return .ofInt (low.whole + (← Eval.random ((high.whole - low.whole).toNat + 1)))) :=
    law.bind (law.random _) fun _ _ => law.pure (law.values.ofInt _)
  by_cases h : high.whole < low.whole
  · simp only [h, if_true]
    have hrefused : holds (fun _ : Unit => True)
        (Eval.raise (.invalidOperation "randint() needs low <= high" line)) := law.raise rfl
    exact law.bind hrefused fun _ _ => hdraw
  · simp only [h, if_false]
    exact hdraw

/-- A random element is one of the elements. -/
theorem choice : (unary choice).Tame good holds := by
  intro a line ha
  have harg : Meets (fun items => ∀ item ∈ items, good item) (arrayArg "choice" a line) := by
    cases a with
    | array items => exact law.values.array.mp ha
    | number _ | text _ | boolean _ | object _ | lambda _ _ _ | nothing => rfl
  refine law.bind (law.ofExcept harg) fun items hitems => ?_
  cases items with
  | nil => exact law.raise rfl
  | cons first rest =>
    refine law.bind (law.random _) fun i _ => law.pure ?_
    rw [List.getD_eq_getElem?_getD]
    cases h : (first :: rest)[i]? with
    | none => exact hitems first List.mem_cons_self
    | some item => exact hitems item (List.mem_of_getElem? h)

end ConsoleLaw

namespace Library

variable {good : Value → Prop} {holds : {α : Type} → (α → Prop) → Eval α → Prop}

/-- It holds of every built-in of every library. -/
theorem tame_builtins (law : ConsoleLaw good holds) (library : Library) :
    ∀ entry ∈ library.builtins, entry.2.Tame good holds := by
  have values := law.values
  cases library with
  | core =>
    simp only [builtins, Builtin.core, List.forall_mem_cons]
    refine ⟨?_, ?_, ?_, law.input, by simp⟩
    · exact law.ofUnary fun a line _ => values.length a line
    · exact law.ofUnary fun a line _ => values.text _
    · exact law.ofUnary fun a line _ => values.text _
  | math =>
    simp only [builtins, Builtin.math, List.forall_mem_cons]
    refine ⟨?_, ?_, ?_, ?_, ?_, ?_, ?_, ?_, ?_, ?_, law.randomFraction, law.randomInt,
      law.choice, ?_, by simp⟩
    · exact law.ofUnary fun _ _ _ => .withNumber fun _ => values.inRange _ _ _
    · exact law.ofBinary fun a b line _ _ => values.pow a b line
    · exact law.ofUnary fun a line _ => values.sqrt a line
    · exact law.ofUnary fun _ _ _ => .withNumber fun _ => values.inRange _ _ _
    · exact law.ofUnary fun _ _ _ => .withNumber fun _ => values.inRange _ _ _
    · exact law.ofUnary fun _ _ _ => .withNumber fun _ => values.ofFloat _ _ _
    · exact law.ofUnary fun _ _ _ => .withNumber fun _ => values.ofFloat _ _ _
    · exact law.ofUnary fun _ _ _ => .withNumber fun _ => values.ofFloat _ _ _
    · exact law.ofBinary fun _ _ _ _ _ => .withNumber fun _ => .withNumber fun _ =>
        values.number _
    · exact law.ofBinary fun _ _ _ _ _ => .withNumber fun _ => .withNumber fun _ =>
        values.number _
    · exact law.ofUnary fun a line _ => values.getConstant a line
  | util =>
    simp only [builtins, Builtin.util, List.forall_mem_cons]
    refine ⟨?_, ?_, ?_, ?_, ?_, ?_, ?_, ?_, ?_, ?_, ?_, ?_, ?_, ?_, ?_, by simp⟩
    · exact law.ofUnary fun a line _ => values.text _
    · exact law.ofUnary fun a line _ => values.text _
    · exact law.ofUnary fun a line _ => values.length a line
    · exact law.ofUnary fun a line _ => values.boolean _
    · exact law.ofUnary fun a line _ => values.boolean _
    · exact law.ofUnary fun a line _ => values.boolean _
    · exact law.ofUnary fun a line _ => values.boolean _
    · exact law.ofBinary fun a b line _ _ => values.find a b line
    · exact law.ofUnary fun _ _ ha => ha
    · exact law.ofBinary fun a b line _ _ => values.has a b line
    · exact law.ofUnary fun _ line ha => values.first ha line
    · exact law.ofUnary fun _ line ha => values.last ha line
    · exact law.ofBinary fun _ _ line ha hb => values.push ha hb line
    · exact law.ofUnary fun _ line ha => values.pop ha line
    · exact law.ofUnary fun _ line ha => values.reverse ha line
  | text =>
    simp only [builtins, Builtin.text, List.forall_mem_cons]
    refine ⟨?_, ?_, ?_, ?_, ?_, ?_, ?_, by simp⟩
    · exact law.ofUnary fun _ _ _ => .withText fun _ => values.text _
    · exact law.ofUnary fun _ _ _ => .withText fun _ => values.text _
    · exact law.ofUnary fun _ _ _ => .withText fun _ => values.text _
    · exact law.ofBinary fun a b line _ _ => values.split a b line
    · exact law.ofBinary fun _ b line ha _ => values.join ha b line
    · exact law.ofBinary fun _ _ _ _ _ => .withText fun _ => .withText fun _ =>
        values.boolean _
    · exact law.ofTernary fun a b c line => values.replace a b c line

/-- It holds of what a library calls by a name. -/
theorem tame_of_builtin? (law : ConsoleLaw good holds) {library : Library} {name : String}
    {builtin : Builtin} (h : library.builtin? name = some builtin) : builtin.Tame good holds :=
  library.tame_builtins law (name, builtin) (NameTable.mem_of_get? h)

end Library

/-- The constants of a library are in every class of values. -/
theorem ValueClass.libraryConstant {good : Value → Prop} (law : ValueClass good)
    {library : Library} {name : String} {value : Value}
    (h : library.constant? name = some value) : good value := by
  cases library with
  | math => exact law.mathConstant h
  | core | util | text => cases h

end DecimalScript
