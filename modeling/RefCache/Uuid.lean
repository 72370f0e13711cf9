/-! Identifiers of 128 bits. They are written as 32 small hexadecimal digits in five groups; both
cases are read, without the hyphens, in braces, or after `urn:uuid:` as well. -/

namespace RefCache

structure Uuid where
  bits : BitVec 128
  deriving DecidableEq, Repr

namespace Uuid

def zero : Uuid := ⟨0⟩

instance : Inhabited Uuid := ⟨zero⟩

instance : Ord Uuid := ⟨fun a b => compare a.bits b.bits⟩

instance : Std.TransOrd Uuid where
  eq_swap {a b} := (Std.OrientedCmp.eq_swap : compare a.bits b.bits = _)
  isLE_trans {a b _c} := (Std.TransCmp.isLE_trans : (compare a.bits b.bits).isLE → _)

instance : Std.LawfulEqOrd Uuid where
  eq_of_compare {a b} h := by
    cases a; cases b; congr; exact Std.LawfulEqOrd.eq_of_compare h

def hexValue (c : Char) : Option Nat :=
  if '0' ≤ c ∧ c ≤ '9' then some (c.toNat - '0'.toNat)
  else if 'a' ≤ c ∧ c ≤ 'f' then some (c.toNat - 'a'.toNat + 10)
  else if 'A' ≤ c ∧ c ≤ 'F' then some (c.toNat - 'A'.toNat + 10)
  else none

/-- The 32 digits, the most significant first. -/
def digits (u : Uuid) : List Char :=
  (List.range 32).map fun i => Nat.digitChar (u.bits.toNat / Nat.pow 16 (31 - i) % 16)

def grouped (sizes : List Nat) (cs : List Char) : List Char :=
  match sizes with
  | [] => cs
  | n :: rest => cs.take n ++ '-' :: grouped rest (cs.drop n)

def chars (u : Uuid) : List Char := grouped [8, 4, 4, 4] u.digits

def text (u : Uuid) : String := String.ofList u.chars

def ofDigits? (cs : List Char) : Option Uuid := do
  if cs.length ≠ 32 then none
  let values ← cs.mapM hexValue
  some ⟨BitVec.ofNat 128 (values.foldl (fun n v => n * 16 + v) 0)⟩

def ungrouped? (sizes : List Nat) (cs : List Char) : Option (List Char) :=
  match sizes with
  | [] => some cs
  | n :: rest =>
    match cs.drop n with
    | '-' :: tail => (ungrouped? rest tail).map (cs.take n ++ ·)
    | _ => none

def ofHyphenated? (cs : List Char) : Option Uuid :=
  if cs.length = 36 then (ungrouped? [8, 4, 4, 4] cs).bind ofDigits? else none

def ofChars? (cs : List Char) : Option Uuid :=
  if cs.length = 32 then ofDigits? cs
  else if cs.head? = some '\x7b' ∧ cs.getLast? = some '\x7d' then ofHyphenated? cs.tail.dropLast
  else if (cs.take 9).map Char.toLower = "urn:uuid:".toList then ofHyphenated? (cs.drop 9)
  else ofHyphenated? cs

def ofText? (text : String) : Option Uuid := ofChars? text.toList

end Uuid

end RefCache
