import ComponentMarkup.Text.Numeral
import ComponentMarkup.Toml.Value

/-!
# Numbers, dates and truth values

A scalar that is not a string is a word: a run of letters, digits and a few signs.  Underscores may stand
between digits.  Whole numbers fit into 64 bits with a sign, and a positive number must not be too great for a
double.
-/

namespace ComponentMarkup.Toml

open ComponentMarkup.Text

/-- Characters that scalar words are made of. -/
def isScalarChar (c : Char) : Bool :=
  isLetter c || isDigit c || c == '_' || c == '+' || c == '-' || c == '.' || c == ':'

/-! ## Numbers -/

/-- The digits of a group, in which underscores may stand between digits. -/
def digitsOf? (isDigit : Char → Bool) : List Char → Option (List Char)
  | [] => none
  | [c] => if isDigit c then some [c] else none
  | c :: '_' :: cs => if isDigit c then (digitsOf? isDigit cs).map (c :: ·) else none
  | c :: cs => if isDigit c then (digitsOf? isDigit cs).map (c :: ·) else none

/-- The digits of a decimal number without needless zeros at its start. -/
def decimalDigits? (cs : List Char) : Option (List Char) :=
  if cs.head? == some '0' && cs.length ≠ 1 then none else digitsOf? isDigit cs

/-- A sign at the start, and what follows it. -/
def splitSign : List Char → Bool × List Char
  | '-' :: cs => (true, cs)
  | '+' :: cs => (false, cs)
  | cs => (false, cs)

/-- The value of a digit of any base up to 16. -/
def radixDigitValue (c : Char) : Nat :=
  if isDigit c then digitValue c else c.toLower.toNat - 'a'.toNat + 10

/-- The value of digits in a base. -/
def radixValue (base : Nat) (cs : List Char) : Nat :=
  cs.foldl (fun value c => base * value + radixDigitValue c) 0

/-- A number within 64 bits with a sign. -/
def bounded? (z : Int) : Option Int :=
  let bound : Int := Nat.pow 2 63
  if -bound ≤ z ∧ z < bound then some z else none

/-- A number in a base other than ten. -/
def radixInteger? (base : Nat) (isDigit : Char → Bool) (cs : List Char) : Option Int :=
  (digitsOf? isDigit cs).bind fun digits => bounded? (radixValue base digits)

/-- A whole number. -/
def integer? : List Char → Option Int
  | '0' :: 'x' :: cs => radixInteger? 16 isHexDigit cs
  | '0' :: 'o' :: cs => radixInteger? 8 (fun c => '0' ≤ c && c ≤ '7') cs
  | '0' :: 'b' :: cs => radixInteger? 2 (fun c => c == '0' || c == '1') cs
  | cs =>
    let (negative, cs) := splitSign cs
    (decimalDigits? cs).bind fun digits =>
      let n : Int := radixValue 10 digits
      bounded? (if negative then -n else n)

/-- Whether `digits · 10 ^ exponent` is too great for a double, so that it would round to infinity. -/
def isTooGreat (digits : List Char) (exponent : Int) : Bool :=
  let digits := digits.dropWhile (· == '0')
  let size : Int := digits.length + exponent
  if digits.isEmpty || size < 300 then false
  else if 320 < size then true
  else
    let value := radixValue 10 digits
    let limit := Nat.pow 2 1024 - Nat.pow 2 970
    if 0 ≤ exponent then limit ≤ value * Nat.pow 10 exponent.toNat
    else limit * Nat.pow 10 (-exponent).toNat ≤ value

/-- The exponent of a number, given what follows its mark. -/
def exponent? (cs : List Char) : Option Int :=
  let (negative, cs) := splitSign cs
  (digitsOf? isDigit cs).map fun digits =>
    let n : Int := radixValue 10 digits
    if negative then -n else n

/-- Whether a character marks an exponent. -/
def isExponentMark (c : Char) : Bool :=
  c == 'e' || c == 'E'

/-- The digits and the exponent of a number with a fraction, an exponent or both. -/
def decimal? (cs : List Char) : Option (List Char × Int) := do
  let isEnd := fun c => c == '.' || isExponentMark c
  let whole ← decimalDigits? (cs.takeWhile fun c => !isEnd c)
  match cs.dropWhile fun c => !isEnd c with
  | '.' :: rest =>
    let fraction ← digitsOf? isDigit (rest.takeWhile fun c => !isExponentMark c)
    let exponent ←
      match rest.dropWhile fun c => !isExponentMark c with
      | [] => some 0
      | _ :: rest => exponent? rest
    return (whole ++ fraction, exponent - fraction.length)
  | _ :: rest =>
    let exponent ← exponent? rest
    return (whole, exponent)
  | [] => none

/-- Whether a word is a number that is not whole. -/
def isFloat (cs : List Char) : Bool :=
  let (negative, body) := splitSign cs
  body == "inf".toList || body == "nan".toList ||
    (decimal? body).any fun (digits, exponent) => negative || !isTooGreat digits exponent

/-! ## Words -/

/-- The value of a word. -/
def scalar? (cs : List Char) : Option Value :=
  if cs == "true".toList then some (.boolean true)
  else if cs == "false".toList then some (.boolean false)
  else
    match moment? cs with
    | some moment => some (.moment moment)
    | none =>
      if isFloat cs then some (.float (String.ofList cs)) else (integer? cs).map Value.integer

/-- Reads a word, or a date and a time with a space between them. -/
def readScalar? (cs : List Char) : Option (Value × List Char) :=
  let word := cs.takeWhile isScalarChar
  let rest := cs.dropWhile isScalarChar
  match readDate? word, rest with
  | some (date, []), ' ' :: more =>
    let time := more.takeWhile isScalarChar
    if time.isEmpty then some (.moment (.date date), rest)
    else
      (zonedTime? time).map fun (time, zone) =>
        (.moment (.dateTime date time zone), more.dropWhile isScalarChar)
  | _, _ => (scalar? word).map fun value => (value, rest)

end ComponentMarkup.Toml
