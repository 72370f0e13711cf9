import RefCache.Uuid

/-! Bytes in text: a percent sign with two hexadecimal digits stands for one byte, every other
character for its bytes in UTF-8. -/

namespace RefCache

def charBytes (c : Char) : List UInt8 := (String.singleton c).toUTF8.toList

def percentDecode : List Char → List UInt8
  | [] => []
  | ['%'] => charBytes '%'
  | ['%', a] => charBytes '%' ++ percentDecode [a]
  | '%' :: a :: b :: rest =>
    match Uuid.hexValue a, Uuid.hexValue b with
    | some high, some low => UInt8.ofNat (high * 16 + low) :: percentDecode rest
    | _, _ => charBytes '%' ++ percentDecode (a :: b :: rest)
  | c :: rest => charBytes c ++ percentDecode rest

/-- The text that the bytes spell, if they spell one. -/
def bytesText? (bytes : List UInt8) : Option String := String.fromUTF8? bytes.toByteArray

end RefCache
