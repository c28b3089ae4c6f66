/-
# The key that came in first goes first

One queue with the oldest key in front.  Using a key, or giving it a new value, leaves it in its
place.
-/

import ClusterCache.Eviction.SequenceQueue
import ClusterCache.Eviction.Strategy

namespace ClusterCache

/-- Keys from the oldest to the newest. -/
structure Fifo (K : Type) [DecidableEq K] [Hashable K] where
  queue : SequenceQueue K

namespace Fifo

variable {K : Type} [DecidableEq K] [Hashable K]

/-- No keys yet. -/
def init : Fifo K := ⟨.empty⟩

/-- Forgets all keys. -/
def clear (s : Fifo K) : Fifo K := ⟨s.queue.clear⟩

/-- The number of keys. -/
def size (s : Fifo K) : Nat := s.queue.size

/-- A key is used, which makes no difference. -/
def access (s : Fifo K) (_ : K) : Fifo K := s

/-- A key comes in. -/
def push (s : Fifo K) (k : K) : Fifo K := ⟨s.queue.pushBack k⟩

/-- A key is taken out. -/
def remove (s : Fifo K) (k : K) : Fifo K := ⟨(s.queue.remove k).2⟩

/-- The oldest key goes. -/
def pop (s : Fifo K) : Option K × Fifo K :=
  let (k, q) := s.queue.popFront
  (k, ⟨q⟩)

end Fifo

/-- The key that came in first goes first. -/
def Strategy.fifo (K : Type) [DecidableEq K] [Hashable K] : Strategy K where
  State := Fifo K
  Shared := Unit
  initShared := ()
  tracksAccess := false
  init _ := .init
  push := .push
  access := .access
  remove := .remove
  pop _ s :=
    let (k, s) := s.pop
    (k, (), s)
  clear := .clear
  size := Fifo.size
  patience _ _ s := s.size

end ClusterCache
