import RefCache.Text.Blank

/-! Decimal numbers in text: how they are written, zero-padded to a width where asked, and the
reading of a positive setting. A setting is an optional plus sign and one or more digits between
blanks; its value must be positive and below the bound. -/

namespace RefCache

def decimal (n : Nat) : List Char := Nat.toDigits 10 n

def decimalInt : Int → List Char
  | .ofNat n => decimal n
  | .negSucc n => '-' :: decimal (n + 1)

def padded (width n : Nat) : List Char :=
  List.replicate (width - (decimal n).length) '0' ++ decimal n

def decimalValue (digits : List Char) : Nat := Nat.ofDigitChars 10 digits 0

def dropPlus : List Char → List Char
  | '+' :: rest => rest
  | cs => cs

def readPositive (bound : Nat) (text : String) : Option Nat :=
  let digits := dropPlus (trim text.toList)
  if digits.isEmpty || !digits.all Char.isDigit then none
  else
    let n := decimalValue digits
    if 0 < n ∧ n < bound then some n else none

end RefCache
