import RefCache.Category

/-! What can fail, by cause, and the wording of each failure. -/

namespace RefCache

inductive DatabaseError where
  | rowNotFound
  | poolTimedOut
  | poolClosed
  | workerCrashed
  | columnNotFound (column : String)
  | columnUnreadable (column : String)
  | refused (message : String)
  | badAddress
  deriving DecidableEq, Repr

inductive Error where
  | database (cause : DatabaseError)
  | pubSub (message : String)
  | decode (category : Category) (message : String)
  | internal (message : String)
  deriving DecidableEq, Repr

def DatabaseError.message : DatabaseError → String
  | .rowNotFound => "no rows returned by a query that expected to return at least one row"
  | .poolTimedOut => "pool timed out while waiting for an open connection"
  | .poolClosed => "attempted to acquire a connection on a closed pool"
  | .workerCrashed => "attempted to communicate with a crashed background worker"
  | .columnNotFound column => "no column found for name: " ++ column
  | .columnUnreadable column => "error occurred while decoding column \"" ++ column ++ "\""
  | .refused message => "error returned from database: " ++ message
  | .badAddress => "error with configuration"

def Error.message : Error → String
  | .database cause => "Database error: " ++ cause.message
  | .pubSub message => "Pub/sub error: " ++ message
  | .decode category message => "Decode error in " ++ category.name ++ ": " ++ message
  | .internal message => "Internal error: " ++ message

end RefCache
