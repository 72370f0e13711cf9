import RefCache.Json.Token

/-! What a JSON number stands for. A plain number is an integer if it fits 64 bits, signed when it
is negative; `-0` and everything else is a float, whose value is never asked for, but which must
lie within the range of doubles. Twenty digits at most are taken into account; what is left of
them in front of the point counts as powers of ten. -/

namespace RefCache.Json

def wordBound : Nat := Nat.pow 2 64

/-- The digits taken into account, as a number, and a power of ten. -/
structure Scaled where
  significand : Nat
  power : Int
  deriving DecidableEq, Repr

namespace Numeral

def digitValue (c : Char) : Nat := c.toNat - '0'.toNat

/-- Reads digits in front of the point; from the first one that does not fit, they only scale. -/
def takeWhole (s : Scaled) : List Char → Scaled
  | [] => s
  | c :: rest =>
    let next := s.significand * 10 + digitValue c
    if next < wordBound then takeWhole ⟨next, s.power⟩ rest
    else ⟨s.significand, s.power + (rest.length + 1)⟩

/-- Reads digits after the point up to the first one that does not fit. -/
def takeFraction (s : Scaled) : List Char → Scaled
  | [] => s
  | c :: rest =>
    let next := s.significand * 10 + digitValue c
    if next < wordBound then takeFraction ⟨next, s.power - 1⟩ rest else s

def exponentBound : Nat := Nat.pow 2 31

def clampExponent (e : Int) : Int :=
  max (-(exponentBound : Int)) (min (exponentBound - 1) e)

/-- The value of the digits, or nothing if it is no 32-bit number. -/
def exponentValue (digits : List Char) : Option Nat :=
  let e := Nat.ofDigitChars 10 digits 0
  if e < exponentBound then some e else none

def mantissa (n : Numeral) : Scaled := takeFraction (takeWhole ⟨0, 0⟩ n.whole) n.fraction

/-- The double nearest to a natural number, a tie going to the even neighbour. -/
def nearestDouble (n : Nat) : Nat :=
  if n < Nat.pow 2 53 then n
  else
    let unit := Nat.pow 2 (n.log2 - 52)
    let low := n / unit
    let rest := n % unit
    let up := unit < 2 * rest || (unit == 2 * rest && low % 2 == 1)
    (if up then low + 1 else low) * unit

/-- The first natural number that rounds to infinity. -/
def overflowBound : Nat := Nat.pow 2 1024 - Nat.pow 2 970

def scaledInRange (s : Scaled) : Bool :=
  if s.power < 0 then true
  else if 308 < s.power then s.significand == 0
  else nearestDouble s.significand * nearestDouble (Nat.pow 10 s.power.toNat) < overflowBound

def inRange (n : Numeral) : Bool :=
  let m := n.mantissa
  match exponentValue n.exponent with
  | none => m.significand == 0 || n.exponentNegative
  | some e =>
    let power := if n.exponentNegative then m.power - e else m.power + e
    scaledInRange ⟨m.significand, clampExponent power⟩

/-- The integer a plain number stands for, if it is one. -/
def integer? (n : Numeral) : Option Int :=
  let value := Nat.ofDigitChars 10 n.whole 0
  if !n.plain then none
  else if n.negative then
    if value = 0 ∨ Nat.pow 2 63 < value then none else some (-(value : Int))
  else if value < wordBound then some value else none

end Numeral

end RefCache.Json
