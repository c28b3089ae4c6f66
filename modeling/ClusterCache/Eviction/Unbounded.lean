/-
# No key ever goes

The strategy of a cache without a bound: it remembers nothing and names no victim.
-/

import ClusterCache.Eviction.Strategy

namespace ClusterCache

/-- No key ever goes. -/
def Strategy.unbounded (K : Type) : Strategy K where
  State := Unit
  Shared := Unit
  initShared := ()
  tracksAccess := false
  init _ := ()
  push s _ := s
  access s _ := s
  remove s _ := s
  pop _ s := (none, (), s)
  clear s := s
  size _ := 0
  patience _ _ _ := 0

end ClusterCache
