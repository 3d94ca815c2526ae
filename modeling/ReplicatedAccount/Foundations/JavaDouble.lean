import ReplicatedAccount.Foundations.ExtendedNumber
import ReplicatedAccount.Foundations.JavaText

/-
  The texts that `Double.parseDouble` accepts, and the values
  they stand for.

  Finite literals are read without rounding; literals beyond
  the range of doubles are infinite.

  Key definitions include:
    * `DoubleLiteral.decimalLiteral`
    * `DoubleLiteral.hexadecimalLiteral`
    * `DoubleLiteral.parseDouble`
-/

------------------------------------------------------------
-- Parts of a Literal
------------------------------------------------------------

namespace Foundations

namespace DoubleLiteral

/- An optional sign; the flag says that it is a minus. -/
def signed : List Char → Bool × List Char
| '-' :: cs => (true, cs)
| '+' :: cs => (false, cs)
| cs => (false, cs)

/-
  The digits before and after an optional point, and what
  follows them.
-/
def significand
    (isDigit : Char → Bool)
    (cs : List Char) :
    List Char × List Char × List Char :=
  let whole := cs.takeWhile isDigit
  match cs.dropWhile isDigit with
  | '.' :: rest =>
      (whole, rest.takeWhile isDigit, rest.dropWhile isDigit)
  | rest => (whole, [], rest)

/- The digits of an exponent behind its optional sign. -/
def exponent (cs : List Char) : Option (Int × List Char) :=
  let (negative, digits) := signed cs
  let read := digits.takeWhile Char.isDigit
  if read.isEmpty then
    none
  else
    let magnitude : Int := Nat.ofDigitChars 10 read 0
    some
      (if negative then -magnitude else magnitude,
        digits.dropWhile Char.isDigit)

/- A literal ends here, or with the suffix of its type. -/
def endsLiteral : List Char → Bool
| [] => true
| [c] => c = 'f' || c = 'F' || c = 'd' || c = 'D'
| _ => false

/- An integer times a power of a base. -/
def scaled (digits base : Nat) : Int → ℚ
| .ofNat k => (digits * base ^ k : Nat)
| .negSucc k => (digits : ℚ) / (base ^ (k + 1) : Nat)

end DoubleLiteral

end Foundations

------------------------------------------------------------
-- Literals
------------------------------------------------------------

namespace Foundations

namespace DoubleLiteral

open JavaText

/- Decimal digits with an optional point and exponent. -/
def decimalLiteral (cs : List Char) : Option ℚ :=
  let (whole, fraction, rest) := significand Char.isDigit cs
  if whole.isEmpty && fraction.isEmpty then
    none
  else
    let digits := Nat.ofDigitChars 10 (whole ++ fraction) 0
    match rest with
    | 'e' :: tail | 'E' :: tail =>
        match exponent tail with
        | none => none
        | some (e, suffix) =>
            if endsLiteral suffix then
              some (scaled digits 10 (e - fraction.length))
            else
              none
    | suffix =>
        if endsLiteral suffix then
          some (scaled digits 10 (-fraction.length))
        else
          none

def hexDigit (c : Char) : Option Nat :=
  if c.isDigit then
    some (c.toNat - '0'.toNat)
  else if 'a' ≤ c ∧ c ≤ 'f' then
    some (c.toNat - 'a'.toNat + 10)
  else if 'A' ≤ c ∧ c ≤ 'F' then
    some (c.toNat - 'A'.toNat + 10)
  else
    none

def ofHexDigits (cs : List Char) : Nat :=
  cs.foldl (fun n c => 16 * n + (hexDigit c).getD 0) 0

/-
  Hexadecimal digits with an optional point and a binary
  exponent.  A point after the last digit needs no fraction,
  but a literal without digits is none.
-/
def hexadecimalLiteral (cs : List Char) : Option ℚ :=
  let (whole, fraction, rest) :=
    significand (fun c => (hexDigit c).isSome) cs
  if whole.isEmpty && fraction.isEmpty then
    none
  else
    match rest with
    | 'p' :: tail | 'P' :: tail =>
        match exponent tail with
        | none => none
        | some (e, suffix) =>
            if endsLiteral suffix then
              some
                (scaled (ofHexDigits (whole ++ fraction)) 2
                  (e - 4 * fraction.length))
            else
              none
    | _ => none

/- The literal behind the sign. -/
def literal : List Char → Option ℚ
| '0' :: 'x' :: cs => hexadecimalLiteral cs
| '0' :: 'X' :: cs => hexadecimalLiteral cs
| cs => decimalLiteral cs

/-
  Half a unit in the last place above the largest double.
  From here on, rounding to the nearest double overflows.
-/
def overflowThreshold : ℚ := 2 ^ 1024 - 2 ^ 970

/- The value of a literal with its sign. -/
def ofLiteral (negative : Bool) (q : ℚ) : Extended ℚ :=
  if q < overflowThreshold then
    .finite (if negative then -q else q)
  else
    .infinite negative

/- `Double.parseDouble`. -/
def parseDouble (s : String) : Option (Extended ℚ) :=
  let (negative, cs) := signed (trim s).toList
  if cs = "NaN".toList then
    some .nan
  else if cs = "Infinity".toList then
    some (.infinite negative)
  else
    (literal cs).map (ofLiteral negative)

example : parseDouble "12.50" = some (.finite (25 / 2)) := by
  decide +kernel

example : parseDouble "-0x1.8p1f" = some (.finite (-3)) := by
  decide +kernel

example : parseDouble "1e400" = some (.infinite false) := by
  decide +kernel

example : parseDouble "1.2.3" = none := by
  decide +kernel

end DoubleLiteral

end Foundations
