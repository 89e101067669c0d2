import LintFixture.Text.Basic

/-!
# Numerals

Reading a number of bounded size, digit by digit from the left. A character that
is no digit is reported before the overflow of the number it would extend.
-/

namespace LintFixture

/-- Why a text is not the numeral of a number within the bound. -/
inductive NumeralError where
  | empty
  | invalidDigit
  | tooLarge
  deriving DecidableEq, Repr

def NumeralError.message : NumeralError → String
  | .empty => "cannot parse integer from empty string"
  | .invalidDigit => "invalid digit found in string"
  | .tooLarge => "number too large to fit in target type"

namespace Numeral

/-- The value of a digit; letters of either case continue after nine. -/
def digit? (base : Nat) (c : Char) : Option Nat :=
  let value :=
    if '0' ≤ c ∧ c ≤ '9' then some (c.toNat - '0'.toNat)
    else if 'a' ≤ c ∧ c ≤ 'z' then some (c.toNat - 'a'.toNat + 10)
    else if 'A' ≤ c ∧ c ≤ 'Z' then some (c.toNat - 'A'.toNat + 10)
    else none
  value.filter (· < base)

/-- The number whose digits are those of `value` followed by the given ones. -/
def extend (base limit value : Nat) : Text → Except NumeralError Nat
  | [] => .ok value
  | c :: rest =>
    match digit? base c with
    | none => .error .invalidDigit
    | some d =>
      let next := value * base + d
      if limit < next then .error .tooLarge else extend base limit next rest

/-- Reads a nonempty run of digits whose number is at most `limit`. -/
def read (base limit : Nat) : Text → Except NumeralError Nat
  | [] => .error .empty
  | digits => extend base limit 0 digits

/-- The largest count or offset: all of 64 bits. -/
def maxSize : Nat := 0xFFFFFFFFFFFFFFFF

/-- Reads a count or offset: decimal digits after an optional plus sign. -/
def readSize : Text → Except NumeralError Nat
  | '+' :: d :: rest => read 10 maxSize (d :: rest)
  | t => read 10 maxSize t

end Numeral

end LintFixture
