/-
# The least recently used key goes first

One queue with the key used longest ago in front.  A key that comes in and a key that is accessed
both go to the back.
-/

import ClusterCache.Eviction.SequenceQueue
import ClusterCache.Eviction.Strategy

namespace ClusterCache

/-- Keys from the one used longest ago to the one used last. -/
structure Lru (K : Type) [DecidableEq K] [Hashable K] where
  queue : SequenceQueue K

namespace Lru

variable {K : Type} [DecidableEq K] [Hashable K]

/-- No keys yet. -/
def init : Lru K := ⟨.empty⟩

/-- Forgets all keys. -/
def clear (s : Lru K) : Lru K := ⟨s.queue.clear⟩

/-- The number of keys. -/
def size (s : Lru K) : Nat := s.queue.size

/-- A key comes in. -/
def push (s : Lru K) (k : K) : Lru K := ⟨s.queue.pushBack k⟩

/-- A key is used. -/
def access (s : Lru K) (k : K) : Lru K := ⟨(s.queue.touch k).2⟩

/-- A key is taken out. -/
def remove (s : Lru K) (k : K) : Lru K := ⟨(s.queue.remove k).2⟩

/-- The key used longest ago goes. -/
def pop (s : Lru K) : Option K × Lru K :=
  let (k, q) := s.queue.popFront
  (k, ⟨q⟩)

end Lru

/-- The least recently used key goes first. -/
def Strategy.lru (K : Type) [DecidableEq K] [Hashable K] : Strategy K where
  State := Lru K
  Shared := Unit
  initShared := ()
  tracksAccess := true
  init _ := .init
  push := .push
  access := .access
  remove := .remove
  pop _ s :=
    let (k, s) := s.pop
    (k, (), s)
  clear := .clear
  size := Lru.size
  patience _ _ s := s.size

end ClusterCache
