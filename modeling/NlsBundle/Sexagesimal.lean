import NlsBundle.Text.Basic

/-!
# Base-60 numerals

Numbers written in base 60, most significant digit first. The digits are the ten decimal digits, the
capital letters without I and O, the underscore and the small letters without l.
-/

namespace NlsBundle.Sexagesimal

def digits : Text := "0123456789ABCDEFGHJKLMNPQRSTUVWXYZ_abcdefghijkmnopqrstuvwxyz".toList

/-- The digit of a value below 60. -/
def digit (n : Nat) : Char := digits.getD n '0'

/-- The digits of a number without leading zeros; zero has none. -/
def significant (n : Nat) : Text :=
  if n = 0 then [] else significant (n / 60) ++ [digit (n % 60)]
termination_by n
decreasing_by omega

/-- The numeral of a natural number. -/
def numeral (n : Nat) : Text := if n = 0 then ['0'] else significant n

/-- The numeral of what may be an integer: zero and everything that is no integer is written as
zero, and there are no numerals for negative integers. -/
def numeralOf : Option Int → Text
  | none => ['0']
  | some (.ofNat n) => numeral n
  | some (.negSucc _) => []

/-- The value of a digit: its place among the digits. -/
def digitValue (c : Char) : Nat := digits.idxOf c

/-- The number that a text of digits stands for. -/
def value (t : Text) : Nat := t.foldl (fun n c => 60 * n + digitValue c) 0

end NlsBundle.Sexagesimal
