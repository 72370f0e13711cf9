import RefCache.Json.Token

/-! A JSON text as a tree. Where the text breaks off or goes wrong the tree does too: the flaw
stands where a reader going from left to right meets it, and the containers around it end there. -/

namespace RefCache.Json

/-- A value, or what stands in its place. The keys of an object are kept as tokens, since only a
reader knows what it makes of one that is no string; a container that does not end properly after
its last part carries the flaw. -/
inductive Tree where
  | word (value : Word) (flaw : Option Fault)
  | number (value : Numeral) (flaw : Option Fault)
  | text (pieces : List Piece) (flaw : Option Fault)
  | array (items : List Tree) (flaw : Option Fault)
  | object (members : List (Token × Tree)) (flaw : Option Fault)
  | broken (fault : Fault)

/-- A tree and whether anything follows it. -/
structure Document where
  root : Tree
  trailing : Bool

/-- A container under way, its parts backwards. -/
inductive Frame where
  | array (items : List Tree)
  | object (members : List (Token × Tree)) (key : Token)

def Frame.add : Frame → Tree → Frame
  | .array items, t => .array (t :: items)
  | .object members key, t => .object ((key, t) :: members) key

def Frame.close (flaw : Option Fault) : Frame → Tree
  | .array items => .array items.reverse flaw
  | .object members _ => .object members.reverse flaw

inductive Expecting where
  | value
  | itemOrEnd
  | separator
  | keyOrEnd
  | key
  | colon
  | nothing

/-- The containers under way, the innermost first, and what must come next. Once the outermost
value is there it is kept in `document`. -/
structure Builder where
  frames : List Frame
  expecting : Expecting
  document : Option Document

namespace Builder

def start : Builder := ⟨[], .value, none⟩

/-- Puts a finished value where it belongs. -/
def place (b : Builder) (t : Tree) : Builder :=
  match b.frames with
  | [] => ⟨[], .nothing, some ⟨t, false⟩⟩
  | frame :: outer => ⟨frame.add t :: outer, .separator, none⟩

def open_ (b : Builder) (frame : Frame) (next : Expecting) : Builder :=
  ⟨frame :: b.frames, next, none⟩

def close (b : Builder) : Builder :=
  match b.frames with
  | [] => b
  | frame :: outer => place ⟨outer, .value, none⟩ (frame.close none)

/-- Ends every container with the fault. -/
def closeAll (fault : Fault) : List Frame → Tree → Tree
  | [], t => t
  | frame :: outer, t => closeAll fault outer ((frame.add t).close (some fault))

/-- Stops at a value that cannot be read. -/
def breakAt (b : Builder) (fault : Fault) : Builder :=
  ⟨[], .nothing, some ⟨closeAll fault b.frames (.broken fault), false⟩⟩

/-- Stops after the last part of the innermost container. -/
def breakAfter (b : Builder) (fault : Fault) : Builder :=
  match b.frames with
  | [] => b
  | frame :: outer =>
    ⟨[], .nothing, some ⟨closeAll fault outer (frame.close (some fault)), false⟩⟩

def onValue (b : Builder) : Token → Builder
  | .word value flaw => b.place (.word value flaw)
  | .number value flaw => b.place (.number value flaw)
  | .text pieces flaw => b.place (.text pieces flaw)
  | .mark c =>
    if c = '[' then b.open_ (.array []) .itemOrEnd
    else if c = '\x7b' then b.open_ (.object [] .ended) .keyOrEnd
    else b.breakAt .malformed
  | .stray => b.breakAt .malformed
  | .ended => b.breakAt .truncated

/-- A key, whatever token it is; unless it is a string, nothing can follow it. -/
def onKey (b : Builder) (t : Token) : Builder :=
  match b.frames with
  | .object members _ :: outer =>
    match t with
    | .text _ none => ⟨.object members t :: outer, .colon, none⟩
    | .ended => breakAt ⟨.object members t :: outer, .value, none⟩ .truncated
    | _ => breakAt ⟨.object members t :: outer, .value, none⟩ .malformed
  | _ => b

def closes (b : Builder) (t : Token) : Bool :=
  match b.frames with
  | .array _ :: _ => t == .mark ']'
  | .object _ _ :: _ => t == .mark '\x7d'
  | [] => false

def onSeparator (b : Builder) (t : Token) : Builder :=
  if b.closes t then b.close
  else if t == .mark ',' then
    match b.frames with
    | .array _ :: _ => { b with expecting := .value }
    | _ => { b with expecting := .key }
  else if t == .ended then b.breakAfter .truncated
  else b.breakAfter .malformed

def step (b : Builder) (t : Token) : Builder :=
  match b.expecting with
  | .value => b.onValue t
  | .itemOrEnd => if b.closes t then b.close else b.onValue t
  | .separator => b.onSeparator t
  | .keyOrEnd => if b.closes t then b.close else b.onKey t
  | .key => b.onKey t
  | .colon =>
    if t == .mark ':' then { b with expecting := .value }
    else if t == .ended then b.breakAt .truncated
    else b.breakAt .malformed
  | .nothing => { b with document := b.document.map fun d => { d with trailing := true } }

def run (ts : List Token) : Document :=
  let b := ts.foldl step start
  match b.document with
  | some d => d
  | none => ((b.step .ended).document).getD ⟨.broken .truncated, false⟩

end Builder

/-- The document a text holds. -/
def document (cs : List Char) : Document := Builder.run (tokens cs)

end RefCache.Json
