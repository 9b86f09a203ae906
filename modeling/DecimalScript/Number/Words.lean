import DecimalScript.Number.Float
import DecimalScript.Number.Text

/-!
# Numbers on machine words

The same arithmetic and the same reading of text, done step by step on words of a fixed width. A
step that is guarded has no result where its word cannot hold it. A step that is not guarded must
have one, and an overflow there is an outcome of its own. A step that wraps around keeps what its
word can hold of the result, and one that saturates stops at the ends of its word.
-/

namespace DecimalScript

namespace Number

/-- The integers that a word can hold. -/
structure Word where
  /-- The least of them. -/
  least : Int
  /-- The greatest of them. -/
  greatest : Int
  deriving DecidableEq

/-- A step whose result its word cannot hold, though nothing guards it. -/
inductive Overflow where
  | unguarded
  deriving DecidableEq

namespace Word

/-- A byte without a sign. -/
def byte : Word := ⟨0, 255⟩

/-- A word of 64 bits with a sign, which holds the counts of all numbers. -/
def long : Word := ⟨minRaw, maxRaw⟩

/-- A word of 64 bits without a sign, in which distances and limits are compared. -/
def unsigned : Word := ⟨0, 18446744073709551615⟩

/-- A word of 128 bits with a sign, in which products and scaled dividends are formed. -/
def wide : Word :=
  ⟨-170141183460469231731687303715884105728, 170141183460469231731687303715884105727⟩

/-- Whether a word can hold an integer. -/
def Holds (word : Word) (x : Int) : Prop := word.least ≤ x ∧ x ≤ word.greatest

instance (word : Word) (x : Int) : Decidable (word.Holds x) :=
  inferInstanceAs (Decidable (word.least ≤ x ∧ x ≤ word.greatest))

/-- A guarded step: no result where the word cannot hold it. -/
def guarded (word : Word) (x : Int) : Option Int := if word.Holds x then some x else none

/-- A step that is not guarded. -/
def plain (word : Word) (x : Int) : Except Overflow Int :=
  if word.Holds x then .ok x else .error .unguarded

/-- A step that wraps around: the integer of the word that differs from the result by a multiple of
how many it can hold. -/
def wrapped (word : Word) (x : Int) : Int :=
  word.least + (x - word.least) % (word.greatest - word.least + 1)

/-- A step that saturates: the integer of the word that is nearest to the result. -/
def saturated (word : Word) (x : Int) : Int := max word.least (min x word.greatest)

variable {word : Word} {x : Int}

theorem guarded_of_holds (h : word.Holds x) : word.guarded x = some x := if_pos h

theorem guarded_of_not_holds (h : ¬word.Holds x) : word.guarded x = none := if_neg h

/-- A step whose result its word can hold goes on with it. -/
theorem plain_bind {α : Type} (h : word.Holds x) (next : Int → Except Overflow α) :
    (word.plain x >>= next) = next x := by
  rw [plain, if_pos h]
  rfl

end Word

/-- The product by steps: the exact product and its quotient by the scale are formed in a wide word,
and the quotient is guarded when it is put back into a long one. -/
def mulSteps (a b : Number) : Except Overflow (Option Number) := do
  let product ← Word.wide.plain (a.raw * b.raw)
  let quotient ← Word.wide.plain (product.tdiv scale)
  return ofRaw? quotient

/-- The quotient by steps: the dividend is scaled and divided in a wide word, and the quotient is
guarded when it is put back into a long one. -/
def divSteps (a b : Number) : Except Overflow (Option Number) := do
  if b.isZero then return none
  let scaled ← Word.wide.plain (a.raw * scale)
  let quotient ← Word.wide.plain (scaled.tdiv b.raw)
  return ofRaw? quotient

/-- The distance by steps: both counts are cast to words without a sign, and the smaller number is
taken from the greater one there. -/
def distanceSteps (a b : Number) : Int :=
  if a < b then Word.unsigned.wrapped (Word.unsigned.wrapped b.raw - Word.unsigned.wrapped a.raw)
  else Word.unsigned.wrapped (Word.unsigned.wrapped a.raw - Word.unsigned.wrapped b.raw)

/-- The magnitude by steps: a negative count is negated in its own word, where the least one is its
own negative, and then cast to a word without a sign. -/
def magnitudeSteps (n : Number) : Int :=
  Word.unsigned.wrapped (if n.raw < 0 then Word.long.wrapped (-n.raw) else n.raw)

/-- The absolute value by steps: the negation of a negative count is guarded. -/
def absSteps (n : Number) : Option Number :=
  if n.raw < 0 then (Word.long.guarded (-n.raw)).bind ofRaw? else some n

/-- The number nearest to a float, by steps: a scaled and rounded float is compared with the ends of
a long word, the greater of which is rounded up as a float, and then cast to such a word. -/
def floatSteps (value : Float) : Option Number := do
  let scaled ← Binary.ofBits? (value * 1000000.0).toBits.toNat
  if Word.long.least ≤ scaled.round ∧ scaled.round ≤ Word.long.greatest + 1 then
    ofRaw? (Word.long.saturated scaled.round)
  else none

/-- The greatest whole quotient by the scale, by steps: the truncated one, and one less where the
remainder is negative. -/
def unitsSteps (n : Number) : Except Overflow Int := do
  let quotient ← Word.long.plain (n.raw.tdiv scale)
  if n.raw.tmod scale < 0 then Word.long.plain (quotient - 1) else return quotient

/-- The floor by steps: only scaling the quotient back is guarded. -/
def floorSteps (n : Number) : Except Overflow (Option Number) := do
  return ofRaw? ((← unitsSteps n) * scale)

/-- The ceiling by steps: one more than the quotient, unless the number is integral, and scaled
back. -/
def ceilSteps (n : Number) : Except Overflow (Option Number) := do
  let below ← unitsSteps n
  let units ← if n.isIntegral then pure below else Word.long.plain (below + 1)
  return ofRaw? (units * scale)

/-- A result by steps: multiplied by the square if the exponent is odd. -/
def productSteps (result square : Number) (exponent : Nat) : Except Overflow (Option Number) :=
  if exponent % 2 = 1 then mulSteps result square else return some result

/-- The exponentiation loop by steps of products. -/
def powerSteps (result square : Number) (exponent : Nat) : Except Overflow (Option Number) :=
  if exponent = 0 then return some result
  else do
    match ← productSteps result square exponent with
    | none => return none
    | some product =>
      if exponent / 2 = 0 then return some product
      else
        match ← mulSteps square square with
        | none => return none
        | some square => powerSteps product square (exponent / 2)
termination_by exponent
decreasing_by omega

/-- The value of a run of digits after a value that is there already, each step guarded. -/
def wholeSteps (value : Int) : List Char → Option Int
  | [] => some value
  | c :: rest => do
    let shifted ← Word.long.guarded (value * 10)
    let value ← Word.long.guarded (shifted + digitValue c)
    wholeSteps value rest

/-- What a unit in a decimal place counts for, a number of places above the last one. -/
def placeValue : Nat → Int
  | 0 => 1
  | above + 1 => placeValue above * 10

/-- The sum of a fraction by steps, after a sum that is there already: each digit is taken from its
character, weighed by its place and added, with a number of places left. Nothing guards these. -/
def fractionSteps (sum : Int) : Nat → List Char → Except Overflow Int
  | 0, _ => return sum
  | _, [] => return sum
  | left + 1, c :: rest => do
    let place ← Word.long.plain (placeValue left)
    let digit ← Word.byte.plain (c.toNat - '0'.toNat)
    let term ← Word.long.plain (digit * place)
    let sum ← Word.long.plain (sum + term)
    fractionSteps sum left rest

/-- Reads decimal text by steps. -/
def parseSteps (text : List Char) : Except Overflow (Option Number) := do
  let (wholeDigits, fraction) := cutAtPoint text
  if wholeDigits.isEmpty && fraction.isEmpty then return none
  else if (wholeDigits ++ fraction).all isDigit then
    match wholeSteps 0 wholeDigits with
    | none => return none
    | some whole =>
      let sum ← fractionSteps 0 places fraction
      match Word.long.guarded (whole * scale) with
      | none => return none
      | some scaled => return ofRaw? (scaled + sum)
  else return none

end Number

end DecimalScript
