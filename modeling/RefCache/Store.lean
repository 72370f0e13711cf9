import RefCache.Cache

/-! What a cache reads from. A read may change the store, which counts it, and causes events; the
read of a category may have to wait. -/

namespace RefCache

/-- What came of a read: the store after it and the events it caused. -/
structure ReadTurn (σ : Type) (c : Category) where
  fetched : Fetched c
  store : σ
  events : List Event

class Store (σ : Type) where
  read : (c : Category) → Timestamp → σ → ReadTurn σ c
  waits : σ → Category → Bool

end RefCache
