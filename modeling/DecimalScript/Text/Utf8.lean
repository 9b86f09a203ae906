/-!
# UTF-8 text in byte strings

Bytes are read one at a time. A lead byte opens a sequence and fixes the range of the
byte after it, so that overlong forms, surrogates and codes past the last plane are
refused at the first byte that cannot continue. What was read of a sequence when it is
refused is one malformed part; lossy reading shows each part as one U+FFFD.
-/

namespace DecimalScript.Text

/-- The UTF-8 bytes of a text. -/
def utf8 (text : List Char) : List UInt8 := text.flatMap String.utf8EncodeChar

/-- The UTF-8 bytes of a string. -/
def bytesOf (text : String) : List UInt8 := utf8 text.toList

/-- A sequence that lacks at least one continuation byte. -/
structure OpenSequence where
  /-- How many bytes follow the next one. -/
  further : Nat
  /-- The least value the next byte may have. -/
  low : Nat
  /-- The greatest value the next byte may have. -/
  high : Nat
  /-- The bits read so far. -/
  code : Nat
  deriving DecidableEq

/-- Characters and malformed parts that one byte completes, and the sequence it leaves open.
A malformed part is `none`. -/
abbrev DecodeStep := List (Option Char) × Option OpenSequence

/-- Reads a byte where no sequence is open. -/
def openSequence (b : Nat) : DecodeStep :=
  if b < 0x80 then ([some (Char.ofNat b)], none)
  else if b < 0xC2 then ([none], none)
  else if b < 0xE0 then ([], some ⟨0, 0x80, 0xBF, b - 0xC0⟩)
  else if b = 0xE0 then ([], some ⟨1, 0xA0, 0xBF, 0⟩)
  else if b = 0xED then ([], some ⟨1, 0x80, 0x9F, b - 0xE0⟩)
  else if b < 0xF0 then ([], some ⟨1, 0x80, 0xBF, b - 0xE0⟩)
  else if b = 0xF0 then ([], some ⟨2, 0x90, 0xBF, 0⟩)
  else if b < 0xF4 then ([], some ⟨2, 0x80, 0xBF, b - 0xF0⟩)
  else if b = 0xF4 then ([], some ⟨2, 0x80, 0x8F, b - 0xF0⟩)
  else ([none], none)

/-- Reads a byte after an open sequence: it continues the sequence, or ends it as a malformed
part and is read on its own. -/
def continueSequence (sequence : OpenSequence) (b : Nat) : DecodeStep :=
  if sequence.low ≤ b && b ≤ sequence.high then
    let code := sequence.code * 64 + (b - 0x80)
    if sequence.further = 0 then ([some (Char.ofNat code)], none)
    else ([], some ⟨sequence.further - 1, 0x80, 0xBF, code⟩)
  else
    let (items, next) := openSequence b
    (none :: items, next)

/-- Reads one byte. -/
def decodeStep (pending : Option OpenSequence) (b : UInt8) : DecodeStep :=
  match pending with
  | none => openSequence b.toNat
  | some sequence => continueSequence sequence b.toNat

/-- The characters and malformed parts of a byte string, given the sequence left open before it. -/
def decodeItems (pending : Option OpenSequence) : List UInt8 → List (Option Char)
  | [] => if pending.isSome then [none] else []
  | b :: rest =>
    let (items, next) := decodeStep pending b
    items ++ decodeItems next rest

/-- The characters of a byte string, each malformed part replaced by U+FFFD. -/
def decodeLossy (bytes : List UInt8) : List Char :=
  (decodeItems none bytes).map (·.getD '\uFFFD')

/-- The characters of a byte string, unless it has a malformed part. -/
def decode? (bytes : List UInt8) : Option (List Char) := (decodeItems none bytes).mapM id

/-- The string a byte string reads as, each malformed part replaced by U+FFFD. -/
def stringLossy (bytes : List UInt8) : String := String.ofList (decodeLossy bytes)

end DecimalScript.Text
