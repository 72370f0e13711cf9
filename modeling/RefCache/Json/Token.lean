import RefCache.Text.Blank

/-! The tokens of a JSON text. The text is read character by character; what cannot go on is kept
as a token with its flaw, and nothing after it is looked at. A reader that stops earlier never
sees that flaw, so the first complaint from left to right wins. -/

namespace RefCache

/-- Why a text is refused: it is not JSON, it is JSON of another type, or it ends too early. -/
inductive Fault where
  | malformed
  | mismatch
  | truncated
  deriving DecidableEq, Repr

/-- What is told of a fault: its class, and not where it stands. -/
def Fault.name : Fault → String
  | .malformed => "syntax"
  | .mismatch => "data"
  | .truncated => "eof"

namespace Json

inductive Word where
  | null
  | yes
  | no
  deriving DecidableEq, Repr

/-- A character of a string, or the value of an escape of four hexadecimal digits. -/
inductive Piece where
  | char (c : Char)
  | unit (value : Nat)
  deriving DecidableEq, Repr

/-- A number as written; `plain` if it has neither fraction nor exponent. -/
structure Numeral where
  negative : Bool
  whole : List Char
  fraction : List Char
  exponentNegative : Bool
  exponent : List Char
  plain : Bool
  deriving DecidableEq, Repr

inductive Token where
  | mark (c : Char)
  | word (value : Word) (flaw : Option Fault)
  | number (value : Numeral) (flaw : Option Fault)
  | text (pieces : List Piece) (flaw : Option Fault)
  | stray
  | ended
  deriving DecidableEq, Repr

/-- How far the number under way has come. -/
inductive NumeralPart where
  | sign
  | zero
  | whole
  | point
  | fraction
  | exponentMark
  | exponentSign
  | exponent
  deriving DecidableEq, Repr

def NumeralPart.complete : NumeralPart → Bool
  | .zero | .whole | .fraction | .exponent => true
  | .sign | .point | .exponentMark | .exponentSign => false

/-- What the characters read last belong to; pieces are kept backwards. -/
inductive Mode where
  | between
  | text (pieces : List Piece)
  | escape (pieces : List Piece)
  | hex (pieces : List Piece) (digits : List Char)
  | word (value : Word) (left : List Char)
  | number (value : Numeral) (part : NumeralPart)
  | halted
  deriving DecidableEq, Repr

/-- The tokens so far, the latest first. -/
structure Lexer where
  tokens : List Token
  mode : Mode
  deriving DecidableEq, Repr

namespace Lexer

def emit (s : Lexer) (t : Token) : Lexer := ⟨t :: s.tokens, .between⟩

def halt (s : Lexer) (t : Token) : Lexer := ⟨t :: s.tokens, .halted⟩

def enter (s : Lexer) (m : Mode) : Lexer := { s with mode := m }

def isSpace (c : Char) : Bool := c == ' ' || c == '\n' || c == '\t' || c == '\r'

def isMark (c : Char) : Bool :=
  c == '[' || c == ']' || c == '\x7b' || c == '\x7d' || c == ',' || c == ':'

def startNumeral (negative : Bool) (whole : List Char) : Numeral :=
  ⟨negative, whole, [], false, [], true⟩

def begin (s : Lexer) (c : Char) : Lexer :=
  if isSpace c then s.enter .between
  else if isMark c then s.emit (.mark c)
  else if c = '"' then s.enter (.text [])
  else if c = 't' then s.enter (.word .yes ['r', 'u', 'e'])
  else if c = 'f' then s.enter (.word .no ['a', 'l', 's', 'e'])
  else if c = 'n' then s.enter (.word .null ['u', 'l', 'l'])
  else if c = '-' then s.enter (.number (startNumeral true []) .sign)
  else if c = '0' then s.enter (.number (startNumeral false ['0']) .zero)
  else if c.isDigit then s.enter (.number (startNumeral false [c]) .whole)
  else s.halt .stray

/-- The character that a one-letter escape stands for. -/
def shortEscape (c : Char) : Option Char :=
  if c = '"' ∨ c = '\\' ∨ c = '/' then some c
  else if c = 'b' then some '\x08'
  else if c = 'f' then some '\x0c'
  else if c = 'n' then some '\n'
  else if c = 'r' then some '\r'
  else if c = 't' then some '\t'
  else none

def hexDigit (c : Char) : Option Nat :=
  if c.isDigit then some (c.toNat - '0'.toNat)
  else if 'a' ≤ c ∧ c ≤ 'f' then some (c.toNat - 'a'.toNat + 10)
  else if 'A' ≤ c ∧ c ≤ 'F' then some (c.toNat - 'A'.toNat + 10)
  else none

def hexValue (digits : List Char) : Option Nat :=
  (digits.mapM hexDigit).map (·.foldl (fun n d => n * 16 + d) 0)

/-- An escape takes the next four bytes, whatever they are, and is then judged. -/
def hexStep (s : Lexer) (pieces : List Piece) (digits : List Char) : Lexer :=
  if byteLength digits < 4 then s.enter (.hex pieces digits)
  else match hexValue digits with
    | some value => s.enter (.text (.unit value :: pieces))
    | none => s.halt (.text pieces.reverse (some .malformed))

def textStep (s : Lexer) (pieces : List Piece) (c : Char) : Lexer :=
  if c = '"' then s.emit (.text pieces.reverse none)
  else if c = '\\' then s.enter (.escape pieces)
  else if c.toNat < 0x20 then s.halt (.text pieces.reverse (some .malformed))
  else s.enter (.text (.char c :: pieces))

def escapeStep (s : Lexer) (pieces : List Piece) (c : Char) : Lexer :=
  if c = 'u' then s.enter (.hex pieces [])
  else match shortEscape c with
    | some value => s.enter (.text (.char value :: pieces))
    | none => s.halt (.text pieces.reverse (some .malformed))

def wordStep (s : Lexer) (value : Word) (left : List Char) (c : Char) : Lexer :=
  match left with
  | [] => s.halt (.word value (some .malformed))
  | [last] => if c = last then s.emit (.word value none) else s.halt (.word value (some .malformed))
  | next :: rest =>
    if c = next then s.enter (.word value rest) else s.halt (.word value (some .malformed))

/-- The number with one more character, or nothing if the character does not belong to it. -/
def extend (n : Numeral) (part : NumeralPart) (c : Char) : Option (Numeral × NumeralPart) :=
  match part with
  | .sign =>
    if c = '0' then some ({ n with whole := ['0'] }, .zero)
    else if c.isDigit then some ({ n with whole := [c] }, .whole)
    else none
  | .zero | .whole =>
    if c.isDigit ∧ part = .whole then some ({ n with whole := n.whole ++ [c] }, .whole)
    else if c = '.' then some ({ n with plain := false }, .point)
    else if c = 'e' ∨ c = 'E' then some ({ n with plain := false }, .exponentMark)
    else none
  | .point | .fraction =>
    if c.isDigit then some ({ n with fraction := n.fraction ++ [c] }, .fraction)
    else if part = .fraction ∧ (c = 'e' ∨ c = 'E') then some (n, .exponentMark)
    else none
  | .exponentMark =>
    if c = '+' then some (n, .exponentSign)
    else if c = '-' then some ({ n with exponentNegative := true }, .exponentSign)
    else if c.isDigit then some ({ n with exponent := [c] }, .exponent)
    else none
  | .exponentSign | .exponent =>
    if c.isDigit then some ({ n with exponent := n.exponent ++ [c] }, .exponent) else none

def numberStep (s : Lexer) (n : Numeral) (part : NumeralPart) (c : Char) : Lexer :=
  match extend n part c with
  | some (n, part) => s.enter (.number n part)
  | none =>
    if part.complete ∧ ¬(part = .zero ∧ c.isDigit) then (s.emit (.number n none)).begin c
    else s.halt (.number n (some .malformed))

def step (s : Lexer) (c : Char) : Lexer :=
  match s.mode with
  | .between => s.begin c
  | .text pieces => s.textStep pieces c
  | .escape pieces => s.escapeStep pieces c
  | .hex pieces digits => s.hexStep pieces (digits ++ [c])
  | .word value left => s.wordStep value left c
  | .number n part => s.numberStep n part c
  | .halted => s

/-- The end of the text ends a complete number and cuts anything else that is under way. -/
def finish (s : Lexer) : List Token :=
  match s.mode with
  | .between | .halted => s.tokens.reverse
  | .text pieces | .escape pieces | .hex pieces _ =>
    (.text pieces.reverse (some .truncated) :: s.tokens).reverse
  | .word value _ => (.word value (some .truncated) :: s.tokens).reverse
  | .number n part =>
    (.number n (if part.complete then none else some .truncated) :: s.tokens).reverse

end Lexer

def tokens (cs : List Char) : List Token := (cs.foldl Lexer.step ⟨[], .between⟩).finish

end Json

end RefCache
