import Mathlib.Data.Rat.Defs
import Mathlib.Algebra.Order.Field.Rat
import OmniCare.PyText

/-! # Python numbers read from text

Two kinds of number reach the program as text it did not write: a JSON number that
`json.loads` reads as a `float`, and an amount that `Decimal` reads.

A finite `float` is represented by its shortest decimal numeral, which is the one
`repr` prints and which identifies it.  Rounding of a numeral with more digits than
a `float` holds, and of arithmetic, is not modelled.  A `Decimal` is exact.
-/
namespace OmniCare

/-- Removes the trailing zeros of a decimal coefficient, at most `fuel` of them. -/
def dropZeros : Nat → Nat → Int → Nat × Int
  | 0, m, e => (m, e)
  | fuel + 1, m, e =>
      if m ≠ 0 ∧ m % 10 = 0 then dropZeros fuel (m / 10) (e + 1) else (m, e)

/-- `m * 10 ^ e` as a rational number. -/
def scaled (m : Int) (e : Int) : ℚ :=
  if 0 ≤ e then m * (10 : ℚ) ^ e.toNat else m / (10 : ℚ) ^ (-e).toNat

/-! ## Floats -/

/-- A Python `float`. -/
inductive PyFloat
  | nan
  | inf (negative : Bool)
  /-- `mantissa * 10 ^ exponent`, the mantissa without trailing zeros. -/
  | fin (mantissa : Int) (exponent : Int)
  deriving DecidableEq, Repr

namespace PyFloat

/-- The float `m * 10 ^ e`: infinite from the largest float on, zero below the
smallest one. -/
def ofDecimal (negative : Bool) (m : Nat) (e : Int) : PyFloat :=
  let digits := (Nat.toDigits 10 m).length
  if m = 0 ∨ digits + e < -323 then .fin 0 0
  else if 310 < digits + e then .inf negative
  else
    let (m, e) := dropZeros digits m e
    if (179769313486231580793728971405301 * 10 ^ 276 : ℚ) ≤ scaled m e then .inf negative
    else .fin (if negative then -m else m) e

/-- `float(n)` of an integer. -/
def ofInt (n : Int) : Except PyError PyFloat :=
  match ofDecimal (n < 0) n.natAbs 0 with
  | .inf _ => .error ⟨"OverflowError", "int too large to convert to float"⟩
  | x => .ok x

/-- The value of a finite float. -/
def value? : PyFloat → Option ℚ
  | .fin m e => some (scaled m e)
  | _ => none

/-- `bool(x)`: whether the float is not zero. -/
def truthy : PyFloat → Bool
  | .fin m _ => m != 0
  | _ => true

/-- `x < y`; a comparison with `nan` fails. -/
def lt : PyFloat → PyFloat → Bool
  | .nan, _ | _, .nan => false
  | .inf a, .inf b => a && !b
  | .inf a, .fin .. => a
  | .fin .., .inf b => !b
  | .fin m e, .fin m' e' => scaled m e < scaled m' e'

/-- `x <= y`. -/
def le : PyFloat → PyFloat → Bool
  | .nan, _ | _, .nan => false
  | x, y => !lt y x

/-- `min(x, y)`: the second argument only if it is smaller. -/
def min (x y : PyFloat) : PyFloat := if lt y x then y else x

/-- `max(x, y)`: the second argument only if it is larger. -/
def max (x y : PyFloat) : PyFloat := if lt x y then y else x

/-- `x / 100.0`. -/
def percent : PyFloat → PyFloat
  | .fin m e => if m = 0 then .fin 0 0 else .fin m (e - 2)
  | x => x

/-- `repr(x)`: the shortest numeral, in scientific notation when the decimal point
would stand more than four places before the digits or sixteen after. -/
def repr : PyFloat → Text
  | .nan => "nan"
  | .inf negative => if negative then "-inf" else "inf"
  | .fin m e =>
      let digits := Text.ofNat m.natAbs
      let point : Int := digits.length + e
      let body : Text :=
        if m = 0 then "0.0"
        else if -4 < point ∧ point ≤ 16 then
          if point ≤ 0 then "0.".toList ++ List.replicate (-point).toNat '0' ++ digits
          else if (digits.length : Int) ≤ point then
            digits ++ List.replicate e.toNat '0' ++ ".0".toList
          else digits.take point.toNat ++ '.' :: digits.drop point.toNat
        else
          let tail := digits.drop 1
          let power := Text.ofNat (point - 1).natAbs
          digits.take 1 ++ (if tail.isEmpty then [] else '.' :: tail) ++
            (if point - 1 < 0 then "e-" else "e+").toList ++
            (if power.length < 2 then '0' :: power else power)
      if m < 0 then '-' :: body else body

end PyFloat

/-! ## Numerals -/

/-- The decimal digits a text starts with, by a digit test, and what follows. -/
def spanDigits (s : Text) : Text × Text := s.span isDigit

/-- A signed numeral without its sign: digits, an optional fraction, an optional
exponent, at least one digit, and nothing else. -/
def readNumeral (s : Text) : Option (Nat × Int) :=
  let (whole, rest) := spanDigits s
  let (fraction, rest) :=
    match rest with
    | '.' :: r => spanDigits r
    | r => ([], r)
  if whole.isEmpty ∧ fraction.isEmpty then none
  else
    let m := Text.toNat (whole ++ fraction)
    let places : Int := -(fraction.length : Int)
    match rest with
    | [] => some (m, places)
    | c :: r =>
        if c.toLower ≠ 'e' then none
        else
          let (negative, r) :=
            match r with
            | '-' :: r => (true, r)
            | '+' :: r => (false, r)
            | r => (false, r)
          let (power, rest) := spanDigits r
          if power.isEmpty ∨ !rest.isEmpty then none
          else some (m, places + (if negative then -(Text.toNat power : Int) else Text.toNat power))

/-- Splits an optional sign off a text. -/
def readSign : Text → Bool × Text
  | '-' :: r => (true, r)
  | '+' :: r => (false, r)
  | r => (false, r)

/-- Removes the underscores between digits, where `digit` tells whether the character
before was one; `none` when an underscore stands elsewhere. -/
def dropUnderscores (digit : Bool) : Text → Option Text
  | [] => some []
  | '_' :: s =>
      if digit && s.head?.any isDigit then dropUnderscores false s else none
  | c :: s => (dropUnderscores (isDigit c) s).map (c :: ·)

/-- `float(s)` of a text; `none` is `ValueError`. -/
def floatOfText (s : Text) : Option PyFloat := do
  let s ← dropUnderscores false (Text.strip s)
  let (negative, body) := readSign s
  match String.ofList (Text.lower body) with
  | "nan" => some .nan
  | "inf" | "infinity" => some (.inf negative)
  | _ => (readNumeral body).map fun (m, e) => .ofDecimal negative m e

/-! ## Decimals -/

/-- A Python `Decimal`. -/
inductive PyDecimal
  | nan
  | inf (negative : Bool)
  /-- `coefficient * 10 ^ exponent`. -/
  | fin (coefficient : Int) (exponent : Int)
  deriving DecidableEq, Repr

namespace PyDecimal

/-- `Decimal(s)` of a text; `none` is `InvalidOperation`.  Underscores are ignored
wherever they stand, and a `NaN` may carry a payload of digits. -/
def ofText (s : Text) : Option PyDecimal :=
  let s := (Text.strip s).filter (· ≠ '_')
  let (negative, body) := readSign s
  let lowered := Text.lower body
  if lowered = "inf".toList ∨ lowered = "infinity".toList then some (.inf negative)
  else
    match Text.dropPrefix? "nan" (if lowered.head? = some 's' then lowered.tail else lowered) with
    | some payload => if payload.all isDigit then some .nan else none
    | none =>
        (readNumeral body).map fun (m, e) => .fin (if negative then -m else m) e

/-- `int(d)`: the fraction is cut off. -/
def toInt : PyDecimal → Except PyError Int
  | .nan => .error ⟨"ValueError", "cannot convert NaN to integer"⟩
  | .inf _ => .error ⟨"OverflowError", "cannot convert Infinity to integer"⟩
  | .fin m e =>
      .ok (if 0 ≤ e then m * 10 ^ e.toNat else m.tdiv (10 ^ (-e).toNat))

end PyDecimal
end OmniCare
