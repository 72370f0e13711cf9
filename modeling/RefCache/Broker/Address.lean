import RefCache.Text.Decimal
import RefCache.Text.Percent

/-! Addresses of brokers. An address is a URL: a scheme, possibly an authority with credentials, a
host and a service number, then a path and a query. It leads to a broker over the network, where
the path is the number of a database, or over a socket in the file system, where the path is the
socket. -/

namespace RefCache

/-- The parts of an address; the parts of the authority are empty where they are missing. -/
structure Address where
  scheme : List Char
  user : List Char
  password : List Char
  host : List Char
  path : List Char
  query : List Char
  deriving DecidableEq, Repr

namespace Address

/-- The text before a character, and the text after it if it occurs. -/
def cut (c : Char) (cs : List Char) : List Char × Option (List Char) :=
  match cs.dropWhile (· != c) with
  | [] => (cs, none)
  | _ :: after => (cs.takeWhile (· != c), some after)

/-- Control characters and blanks do not count at the ends, nor line breaks and tabs anywhere. -/
def clean (cs : List Char) : List Char :=
  let skip (c : Char) : Bool := c ≤ ' '
  let cs := (cs.dropWhile skip).reverse.dropWhile skip
  cs.reverse.filter fun c => c != '\t' && c != '\n' && c != '\r'

def isScheme (cs : List Char) : Bool :=
  cs.head?.any Char.isAlpha && cs.all fun c => c.isAlphanum || c == '+' || c == '-' || c == '.'

def isHexGroup (cs : List Char) : Bool :=
  !cs.isEmpty && cs.length ≤ 4 && cs.all fun c => (Uuid.hexValue c).isSome

def isDottedQuad (cs : List Char) : Bool :=
  let parts := cs.splitOn '.'
  parts.length == 4 && parts.all fun p =>
    !p.isEmpty && p.all Char.isDigit && decimalValue p ≤ 255 &&
      (p.length == 1 || p.head? != some '0')

/-- How many groups of an IPv6 address are written; a dotted quad may take the place of the last
two. -/
def groupCount? (quad : Bool) (cs : List Char) : Option Nat :=
  let groups := if cs.isEmpty then [] else cs.splitOn ':'
  if groups.all isHexGroup then some groups.length
  else if quad && groups.dropLast.all isHexGroup && isDottedQuad (groups.getLastD []) then
    some (groups.length + 1)
  else none

/-- Splits at the first double colon. -/
def cutDoubleColon : List Char → List Char × Option (List Char)
  | [] => ([], none)
  | ':' :: ':' :: rest => ([], some rest)
  | c :: rest =>
    let (before, after) := cutDoubleColon rest
    (c :: before, after)

/-- Eight groups, or fewer with a double colon for the groups left out. -/
def isIpv6 (cs : List Char) : Bool :=
  match cutDoubleColon cs with
  | (whole, none) => groupCount? true whole == some 8
  | (before, some after) =>
    match groupCount? false before, groupCount? true after with
    | some m, some n => m + n ≤ 7
    | _, _ => false

def hostForbidden : List Char :=
  ['\x00', ' ', '#', '/', ':', '<', '>', '?', '@', '[', '\\', ']', '^', '|']

def isHost (cs : List Char) : Bool :=
  match cs with
  | '[' :: rest => rest.getLast? == some ']' && isIpv6 rest.dropLast
  | _ => cs.all fun c => !hostForbidden.contains c

/-- A service number may have no digits at all; a backslash after them begins the path, and what
the path then begins with is answered. -/
def afterService? (cs : List Char) : Option (List Char) :=
  if Nat.pow 2 16 ≤ decimalValue (cs.takeWhile Char.isDigit) then none
  else
    match cs.dropWhile Char.isDigit with
    | [] => some []
    | '\\' :: rest => some ('/' :: '\\' :: rest)
    | _ => none

/-- What comes between the two slashes and the path, and what it gives the path to begin with. -/
structure Authority where
  user : List Char
  password : List Char
  host : List Char
  lead : List Char
  deriving DecidableEq, Repr

namespace Authority

/-- A host and the service number after it, if there is one, which an empty host cannot have; a
host in brackets may hold colons. -/
def ofHost? (cs : List Char) : Option Authority :=
  let bracketed := if cs.head? == some '[' then cs.takeWhile (· != ']') else []
  let (tail, service) := cut ':' (cs.drop bracketed.length)
  let host := bracketed ++ tail
  if !isHost host then none
  else
    match service with
    | none => some ⟨[], [], host, []⟩
    | some service =>
      if host.isEmpty then none
      else (afterService? service).map fun lead => ⟨[], [], host, lead⟩

/-- Credentials, up to the last at sign, and the host, which may be empty only where there are
none: a lone colon gives neither a name nor a password. -/
def ofChars? (cs : List Char) : Option Authority :=
  match cut '@' cs.reverse with
  | (_, none) => ofHost? cs
  | (afterReversed, some credentialsReversed) =>
    let credentials := credentialsReversed.reverse
    let (user, password) := cut ':' credentials
    match ofHost? afterReversed.reverse with
    | some a =>
      if a.host.isEmpty && credentials != [':'] then none
      else some { a with user, password := password.getD [] }
    | none => none

end Authority

def ofChars? (cs : List Char) : Option Address :=
  match cut ':' (clean cs) with
  | (_, none) => none
  | (scheme, some rest) =>
    if !isScheme scheme then none
    else
      let (body, query) := cut '?' (cut '#' rest).1
      let whole (a : Authority) (path : List Char) : Address :=
        ⟨scheme.map Char.toLower, a.user, a.password, a.host, a.lead ++ path, query.getD []⟩
      match body with
      | '/' :: '/' :: body =>
        (Authority.ofChars? (body.takeWhile (· != '/'))).map fun a =>
          whole a (body.dropWhile (· != '/'))
      | path => some (whole ⟨[], [], [], []⟩ path)

/-- The values of a name in the query, decoded, the last one first. -/
def queryValue? (a : Address) (name : String) : Option (List UInt8) :=
  let decode (cs : List Char) := percentDecode (cs.map fun c => if c == '+' then ' ' else c)
  (a.query.splitOn '&').reverse.findSome? fun pair =>
    let (key, value) := cut '=' pair
    if decode key == name.toUTF8.toList then some (decode (value.getD [])) else none

/-- A letter before a colon or a bar, as a whole segment or in front of a backslash. -/
def isDrive : List Char → Bool
  | [letter, mark] => letter.isAlpha && (mark == ':' || mark == '|')
  | letter :: mark :: '\\' :: _ => letter.isAlpha && (mark == ':' || mark == '|')
  | _ => false

/-- One level up, but never out of a drive. -/
def up (done : List (List Char)) : List (List Char) :=
  if done.getLast?.any isDrive then done else done.dropLast

/-- The path without the segments for "here" and "up". -/
def segments (a : Address) : List (List Char) :=
  let dotted (s : List Char) : String :=
    (String.ofList (s.map Char.toLower)).replace "%2e" "."
  (a.path.splitOn '/').foldl (fun done s =>
    if dotted s == "." then done else if dotted s == ".." then up done else done ++ [s]) []

/-- A database number is an integer of 64 bits, with or without a sign. -/
def isDatabase (cs : List Char) : Bool :=
  let digits := if cs.head? == some '-' then cs.tail else dropPlus cs
  let bound := if cs.head? == some '-' then Nat.pow 2 63 else Nat.pow 2 63 - 1
  !digits.isEmpty && digits.all Char.isDigit && decimalValue digits ≤ bound

def protocolKnown (a : Address) : Bool :=
  (a.queryValue? "protocol").all fun bytes =>
    ["2", "resp2", "3", "resp3"].any fun p => p.toUTF8.toList == bytes

def isText (cs : List Char) : Bool := (bytesText? (percentDecode cs)).isSome

/-- An address on the network: a host, readable credentials, and a database or none. -/
def isNetwork (a : Address) : Bool :=
  let database := ((a.segments.dropWhile List.isEmpty).reverse.dropWhile List.isEmpty).reverse
  !a.host.isEmpty && isText a.user && isText a.password &&
    match database with
    | [] => true
    | [number] => isDatabase number
    | _ => false

/-- A socket on this machine; the query may name the database. -/
def isSocket (a : Address) : Bool :=
  a.path.head? == some '/' && (a.host.isEmpty || a.host == "localhost".toList) &&
    (a.queryValue? "db").all fun bytes =>
      match bytesText? bytes with
      | some text => isDatabase text.toList
      | none => false

/-- Whether a broker can be reached at the address. Encrypted connections are not to be had. -/
def usable (a : Address) : Bool :=
  a.protocolKnown &&
    match String.ofList a.scheme with
    | "redis" => a.isNetwork
    | "redis+unix" | "unix" => a.isSocket
    | _ => false

def isUsable (text : String) : Bool := (ofChars? text.toList).any usable

/-- The address as it may be logged: with stars for letters and digits. -/
def masked (text : String) : String := text.map fun c => if c.isAlphanum then '*' else c

end Address

end RefCache
