import RefCache.Text.Decimal

/-! JSON values and their compact text. Members keep the order in which they are given. In a
string the quote, the backslash and the control characters below the blank are escaped, the
latter in the short form where there is one. -/

namespace RefCache

inductive Json where
  | null
  | bool (value : Bool)
  | int (value : Int)
  | text (value : String)
  | array (items : List Json)
  | object (members : List (String × Json))

namespace Json

def escapeChar (c : Char) : List Char :=
  if c = '"' then ['\\', '"']
  else if c = '\\' then ['\\', '\\']
  else if c = '\n' then ['\\', 'n']
  else if c = '\r' then ['\\', 'r']
  else if c = '\t' then ['\\', 't']
  else if c = '\x08' then ['\\', 'b']
  else if c = '\x0c' then ['\\', 'f']
  else if c.toNat < 0x20 then
    ['\\', 'u', '0', '0', Nat.digitChar (c.toNat / 16), Nat.digitChar (c.toNat % 16)]
  else [c]

def quoted (s : String) : List Char := '"' :: (s.toList.flatMap escapeChar ++ ['"'])

mutual

def chars : Json → List Char
  | .null => ['n', 'u', 'l', 'l']
  | .bool true => ['t', 'r', 'u', 'e']
  | .bool false => ['f', 'a', 'l', 's', 'e']
  | .int value => decimalInt value
  | .text value => quoted value
  | .array [] => ['[', ']']
  | .array (first :: rest) => '[' :: (chars first ++ laterItems rest)
  | .object [] => ['{', '}']
  | .object ((key, value) :: rest) =>
    '{' :: (quoted key ++ ':' :: (chars value ++ laterMembers rest))

/-- The items after the first, and the bracket. -/
def laterItems : List Json → List Char
  | [] => [']']
  | item :: rest => ',' :: (chars item ++ laterItems rest)

def laterMembers : List (String × Json) → List Char
  | [] => ['}']
  | (key, value) :: rest => ',' :: (quoted key ++ ':' :: (chars value ++ laterMembers rest))

end

def render (j : Json) : String := String.ofList j.chars

def texts (items : List String) : Json := .array (items.map .text)

def count (n : Nat) : Json := .int n

def orNull {α : Type} (encode : α → Json) : Option α → Json
  | some a => encode a
  | none => .null

end Json

end RefCache
