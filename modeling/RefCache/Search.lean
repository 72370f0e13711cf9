import RefCache.Record
import RefCache.Text.Lowercase

/-! Free-text search among users. A token earns points from each field that it equals, starts or
occurs in; a user is found if every token earns at least one. The first users found, up to the
limit, are ranked by their points, and equal ones keep their order. -/

namespace RefCache

namespace Search

/-- Whether the token stands somewhere in the text. -/
def occursIn (token : List Char) : List Char → Bool
  | [] => token.isEmpty
  | c :: rest => token.isPrefixOf (c :: rest) || occursIn token rest

def equalPoints : Int := 5

def startPoints : Int := 3

def occurrencePoints : Int := 1

/-- Up to this many bytes more than the token has, a field that starts with it earns them too. -/
def bonusLimit : Int := 5

/-- The bytes that the field, as it is stored, has more than the token. -/
def surplus (token field : List Char) : Int := (byteLength field : Int) - byteLength token

def fieldPoints (token field : List Char) : Int :=
  let small := lower field
  (if small = token then equalPoints else 0)
  + (if token.isPrefixOf small then
      startPoints + (if surplus token field ≤ bonusLimit then surplus token field else 0)
     else 0)
  + (if occursIn token small then occurrencePoints else 0)

def tokenPoints (token : List Char) (fields : List (List Char)) : Int :=
  (fields.map (fieldPoints token)).foldr (· + ·) 0

def fields (u : User) : List (List Char) :=
  [u.name.toList, u.lastName.toList, u.patronymic.toList, u.email.toList,
   decimalInt u.phone.toInt]

/-- The points of all tokens on top of `total`, or nothing if one of them earns none. -/
def scoreFrom (fields : List (List Char)) (total : Int) : List (List Char) → Option Int
  | [] => some total
  | token :: rest =>
    let points := tokenPoints token fields
    if 0 < points then scoreFrom fields (total + points) rest else none

def score (u : User) (tokens : List (List Char)) : Option Int := scoreFrom (fields u) 0 tokens

def queryTokens (query : String) : List (List Char) := words (lower query.toList)

/-- Goes through the users until `limit` of them are found. -/
def gather (tokens : List (List Char)) : Nat → List User → List (Int × User)
  | 0, _ => []
  | _ + 1, [] => []
  | limit + 1, u :: rest =>
    match score u tokens with
    | some points => (points, u) :: gather tokens limit rest
    | none => gather tokens (limit + 1) rest

def noLess (a b : Int × User) : Bool := decide (b.1 ≤ a.1)

def rank (users : List User) (query : String) (limit : Nat) : List User :=
  ((gather (queryTokens query) limit users).mergeSort noLess).map (·.2)

end Search

end RefCache
