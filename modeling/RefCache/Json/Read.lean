import RefCache.Json.Tree
import RefCache.Json.Numeral
import RefCache.Uuid

/-! Typed reading of JSON trees. A reader goes through its tree from left to right and answers the
first fault it meets. Values that no reader wants are only held against the grammar. -/

namespace RefCache.Json

abbrev Read (α : Type) := Tree → Except Fault α

def isLeading (n : Nat) : Bool := 0xd800 ≤ n && n < 0xdc00

def isTrailing (n : Nat) : Bool := 0xdc00 ≤ n && n < 0xe000

/-- The characters of a string. A pair of escapes of surrogate values is one character, and such
a value alone is refused; what stands right after a leading one is met before any later flaw. -/
def pieceChars (flaw : Option Fault) : List Piece → Except Fault (List Char)
  | [] => match flaw with
    | some fault => .error fault
    | none => .ok []
  | .char c :: rest => (pieceChars flaw rest).map (c :: ·)
  | .unit high :: rest =>
    if isTrailing high then .error .malformed
    else if isLeading high then
      match rest with
      | .unit low :: later =>
        if isTrailing low then
          (pieceChars flaw later).map
            (Char.ofNat (0x10000 + (high - 0xd800) * 0x400 + (low - 0xdc00)) :: ·)
        else .error .malformed
      | .char _ :: _ => .error .malformed
      | [] => .error (flaw.getD .malformed)
    else (pieceChars flaw rest).map (Char.ofNat high :: ·)

/-- A number must be whole and in range before its type is looked at. -/
def numberFault (n : Numeral) (flaw : Option Fault) : Option Fault :=
  match flaw with
  | some fault => some fault
  | none => if n.inRange then none else some .malformed

/-- The complaint about a tree of the wrong type: scalars are read first, containers are not. -/
def wrongType : Tree → Fault
  | .word _ flaw => flaw.getD .mismatch
  | .number n flaw => (numberFault n flaw).getD .mismatch
  | .text pieces flaw =>
    match pieceChars flaw pieces with
    | .error fault => fault
    | .ok _ => .mismatch
  | .array _ _ => .mismatch
  | .object _ _ => .mismatch
  | .broken fault => fault

def readText : Read String
  | .text pieces flaw => (pieceChars flaw pieces).map String.ofList
  | t => .error (wrongType t)

def readBool : Read Bool
  | .word .yes none => .ok true
  | .word .no none => .ok false
  | t => .error (wrongType t)

/-- An integer of the given range, both ends included. -/
def readInt (low high : Int) : Read Int
  | .number n flaw =>
    match numberFault n flaw with
    | some fault => .error fault
    | none => match n.integer? with
      | some i => if low ≤ i ∧ i ≤ high then .ok i else .error .mismatch
      | none => .error .mismatch
  | t => .error (wrongType t)

def readInt32 : Read Int := readInt (-2147483648) 2147483647

def readInt64 : Read Int := readInt (-9223372036854775808) 9223372036854775807

def readUuid : Read Uuid := fun t => do
  match Uuid.ofText? (← readText t) with
  | some u => .ok u
  | none => .error .mismatch

def readOption {α : Type} (read : Read α) : Read (Option α)
  | .word .null none => .ok none
  | .word .null (some fault) => .error fault
  | t => (read t).map some

def itemsOf {α : Type} (read : Read α) (flaw : Option Fault) : List Tree → Except Fault (List α)
  | [] => match flaw with
    | some fault => .error fault
    | none => .ok []
  | t :: rest => do
    let a ← read t
    let later ← itemsOf read flaw rest
    .ok (a :: later)

def readList {α : Type} (read : Read α) : Read (List α)
  | .array items flaw => itemsOf read flaw items
  | t => .error (wrongType t)

/-- The key of a member of a map or a record, or of the object that a variant is. -/
def keyText : Token → Except Fault String
  | .text pieces flaw => (pieceChars flaw pieces).map String.ofList
  | .ended => .error .truncated
  | _ => .error .malformed

def membersOf {α : Type} (read : Read α) (flaw : Option Fault) :
    List (Token × Tree) → Except Fault (List (String × α))
  | [] => match flaw with
    | some fault => .error fault
    | none => .ok []
  | (key, t) :: rest => do
    let name ← keyText key
    let a ← read t
    let later ← membersOf read flaw rest
    .ok ((name, a) :: later)

/-- The members of an object used as a map, in the order of the text, repetitions included. -/
def readMembers {α : Type} (read : Read α) : Read (List (String × α))
  | .object members flaw => membersOf read flaw members
  | t => .error (wrongType t)

mutual

/-- What is wrong with the grammar of a value that is passed over. -/
def skip : Tree → Except Fault Unit
  | .word _ flaw => skipFlaw flaw
  | .number _ flaw => if flaw.isSome then .error .malformed else .ok ()
  | .text _ flaw => skipFlaw flaw
  | .array items flaw => skipItems flaw items
  | .object members flaw => skipMembers flaw members
  | .broken fault => .error fault

def skipItems (flaw : Option Fault) : List Tree → Except Fault Unit
  | [] => skipFlaw flaw
  | t :: rest =>
    match skip t with
    | .error fault => .error fault
    | .ok _ => skipItems flaw rest

def skipMembers (flaw : Option Fault) : List (Token × Tree) → Except Fault Unit
  | [] => skipFlaw flaw
  | (key, t) :: rest =>
    match skipKey key with
    | .error fault => .error fault
    | .ok _ =>
      match skip t with
      | .error fault => .error fault
      | .ok _ => skipMembers flaw rest

def skipFlaw : Option Fault → Except Fault Unit
  | some fault => .error fault
  | none => .ok ()

def skipKey : Token → Except Fault Unit
  | .text _ flaw => skipFlaw flaw
  | .ended => .error .truncated
  | _ => .error .malformed

end

/-- What a record does without: nothing, a member of an object only, or a place in an array too. -/
inductive Need where
  | always
  | inArray
  | never
  deriving DecidableEq, Repr

/-- A field of a record: its name, when it is needed, and what its value must be. -/
structure Slot where
  name : String
  need : Need
  check : Tree → Except Fault Unit

def slot {α : Type} (name : String) (need : Need) (read : Read α) : Slot :=
  ⟨name, need, fun t => (read t).map fun _ => ()⟩

/-- The trees of a record's fields by name. -/
abbrev Slots := List (String × Tree)

/-- A record as an array of its fields in order. -/
def positional (flaw : Option Fault) : List Slot → List Tree → Except Fault Slots
  | [], [] => match flaw with
    | some fault => .error fault
    | none => .ok []
  | [], _ :: _ => .error .malformed
  | s :: slots, t :: items => do
    s.check t
    let later ← positional flaw slots items
    .ok ((s.name, t) :: later)
  | s :: slots, [] =>
    match flaw with
    | some fault => .error fault
    | none => if s.need = .never then positional none slots [] else .error .mismatch

/-- A record as an object: unknown members are passed over, no field comes twice. -/
def named (slots : List Slot) (flaw : Option Fault) (found : Slots) :
    List (Token × Tree) → Except Fault Slots
  | [] => match flaw with
    | some fault => .error fault
    | none =>
      if slots.all fun s => s.need != .always || (found.lookup s.name).isSome then .ok found
      else .error .mismatch
  | (key, t) :: rest => do
    let name ← keyText key
    match slots.find? (·.name == name) with
    | none =>
      skip t
      named slots flaw found rest
    | some s =>
      if (found.lookup name).isSome then .error .mismatch
      else
        s.check t
        named slots flaw ((name, t) :: found) rest

def readSlots (slots : List Slot) : Read Slots
  | .array items flaw => positional flaw slots items
  | .object members flaw => named slots flaw [] members
  | t => .error (wrongType t)

def fieldOf {α : Type} (found : Slots) (name : String) (read : Read α) : Except Fault α :=
  match found.lookup name with
  | some t => read t
  | none => .error .mismatch

def optionalField {α : Type} (found : Slots) (name : String) (read : Read (Option α)) :
    Except Fault (Option α) :=
  match found.lookup name with
  | some t => read t
  | none => .ok none

/-- One of a fixed set of names, as a string or as the key of an object whose value is null. -/
def readVariant {α : Type} (ofName : String → Option α) : Read α
  | .text pieces flaw => do
    match ofName (← (pieceChars flaw pieces).map String.ofList) with
    | some a => .ok a
    | none => .error .mismatch
  | .object members flaw =>
    match members with
    | [] => .error (flaw.getD .malformed)
    | (key, t) :: rest => do
      match ofName (← keyText key) with
      | none => .error .mismatch
      | some a =>
        match t with
        | .word .null none =>
          match rest, flaw with
          | [], none => .ok a
          | [], some fault => .error fault
          | _ :: _, _ => .error .malformed
        | .word .null (some fault) => .error fault
        | t => .error (wrongType t)
  | .broken fault => .error fault
  | _ => .error .malformed

/-- Reads a whole text; only white space may follow the value. -/
def read {α : Type} (reader : Read α) (text : String) : Except Fault α := do
  let d := document text.toList
  let a ← reader d.root
  if d.trailing then .error .malformed else .ok a

end RefCache.Json
