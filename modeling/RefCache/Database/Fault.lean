import RefCache.Error
import RefCache.Event

/-! What can go wrong between a pool and its server: an error, which is an answer like any other,
or a panic, which is none. -/

namespace RefCache

inductive DatabaseFault where
  | failed (cause : DatabaseError)
  | panicked (payload : Payload)
  deriving DecidableEq, Repr

end RefCache
