/-!
# Numerals

Reading an unsigned number: an optional plus sign and at least one digit of the
radix, up to a limit. What is wrong with a numeral is found from left to right.
-/

namespace Retrocore.Text

/-- Why a text is no numeral. -/
inductive NumeralError where
  | empty
  | invalidDigit
  | tooLarge
  deriving DecidableEq, Repr

def NumeralError.message : NumeralError → String
  | .empty => "cannot parse integer from empty string"
  | .invalidDigit => "invalid digit found in string"
  | .tooLarge => "number too large to fit in target type"

/-- The value of a digit, if it is one in the radix. Letters of either case
count from ten. -/
def digitValue? (radix : Nat) (c : Char) : Option Nat :=
  let n := c.toNat
  let v :=
    if 48 ≤ n ∧ n ≤ 57 then some (n - 48)
    else if 97 ≤ n ∧ n ≤ 122 then some (n - 87)
    else if 65 ≤ n ∧ n ≤ 90 then some (n - 55)
    else none
  v.filter (· < radix)

/-- Reads digits behind others that stand for `acc`. -/
def readDigits (radix limit acc : Nat) : List Char → Except NumeralError Nat
  | [] => .ok acc
  | c :: cs =>
    match digitValue? radix c with
    | none => .error .invalidDigit
    | some d =>
      if acc * radix + d ≤ limit then readDigits radix limit (acc * radix + d) cs
      else .error .tooLarge

/-- Reads a numeral of a number up to the limit. -/
def readNumeral (radix limit : Nat) (cs : List Char) : Except NumeralError Nat :=
  match cs with
  | [] => .error .empty
  | ['+'] => .error .invalidDigit
  | '+' :: ds => readDigits radix limit 0 ds
  | ds => readDigits radix limit 0 ds

/-- The text behind `0x`, if it starts so. -/
def hexMarked? : List Char → Option (List Char)
  | '0' :: 'x' :: rest => some rest
  | _ => none

end Retrocore.Text
