/-!
# Hexadecimal numbers

Numbers in diagnostics and in escape sequences are written with a fixed least
count of hexadecimal digits, upper or lower case.  `value?` reads such a
number in either case.
-/

namespace JvmCalls.Hexadecimal

/-- The digits of `number` in base 16, padded with zeros on the left to at
least `width` digits, each mapped through `style`. -/
private def padded (style : Char → Char) (width number : Nat) : String :=
  let digits := Nat.toDigits 16 number
  String.ofList (List.replicate (width - digits.length) '0' ++ digits.map style)

def lower (width number : Nat) : String := padded id width number

def upper (width number : Nat) : String := padded Char.toUpper width number

def digit? (character : Char) : Option Nat :=
  if '0' ≤ character ∧ character ≤ '9' then some (character.toNat - '0'.toNat)
  else if 'a' ≤ character ∧ character ≤ 'f' then some (character.toNat - 'a'.toNat + 10)
  else if 'A' ≤ character ∧ character ≤ 'F' then some (character.toNat - 'A'.toNat + 10)
  else none

/-- The number that digits stand for, the most significant one first. -/
def value? (digits : List Char) : Option Nat :=
  digits.foldlM (fun number digit => (digit? digit).map (16 * number + ·)) 0

end JvmCalls.Hexadecimal
