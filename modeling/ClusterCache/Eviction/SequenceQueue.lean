/-
# Queues of distinct keys

A queue hands a fresh number to every key that is put at its back.  It keeps two maps, from numbers to
keys in the order of the numbers, and from keys to numbers, so that a key in the middle is found by
name and the front by rank.  Putting a key that is already queued moves it.  `toList` lists the keys
from front to back.
-/

import ClusterCache.KeyMap

namespace ClusterCache

/-- A queue of distinct keys. -/
structure SequenceQueue (K : Type) [DecidableEq K] [Hashable K] where
  /-- The keys by their numbers, least number first. -/
  order : Std.TreeMap Nat K
  /-- The number of each key. -/
  seqs : KeyMap K Nat
  /-- The next number to hand out. -/
  next : Nat

namespace SequenceQueue

/-- The entry with the least number: a walk through the entries stops at the first. -/
def least? {K : Type} (order : Std.TreeMap Nat K) : Option (Nat × K) :=
  Id.run (forIn order none fun e _ => .done (some e))

/-- The entry with the least number is the first in order. -/
theorem least?_eq_head? {K : Type} (order : Std.TreeMap Nat K) :
    least? order = order.toList.head? := by
  rw [least?, Std.TreeMap.forIn_eq_forIn_toList]
  cases order.toList <;> rfl

variable {K : Type} [DecidableEq K] [Hashable K]

/-- The queue without keys. -/
def empty : SequenceQueue K := ⟨∅, .empty, 0⟩

instance : Inhabited (SequenceQueue K) := ⟨empty⟩

/-- The keys from front to back. -/
def toList (q : SequenceQueue K) : List K := q.order.values

/-- The number of keys. -/
def size (q : SequenceQueue K) : Nat := q.order.size

/-- The key at the front. -/
def front? (q : SequenceQueue K) : Option K := (least? q.order).map Prod.snd

/-- Forgets all keys, but not which numbers were handed out. -/
def clear (q : SequenceQueue K) : SequenceQueue K := ⟨∅, .empty, q.next⟩

/-- Whether a key is queued. -/
def contains (q : SequenceQueue K) (k : K) : Bool := q.seqs.contains k

/-- Puts a key at the back; one that is already queued moves there. -/
def pushBack (q : SequenceQueue K) (k : K) : SequenceQueue K :=
  let (old?, seqs) := q.seqs.exchange k q.next
  let order := match old? with
    | some old => q.order.erase old
    | none => q.order
  { order := order.insert q.next k, seqs, next := q.next + 1 }

/-- Moves a queued key to the back; tells whether it was queued. -/
def touch (q : SequenceQueue K) (k : K) : Bool × SequenceQueue K :=
  if q.contains k then (true, q.pushBack k) else (false, q)

/-- Takes a key out wherever it stands; tells whether it was queued. -/
def remove (q : SequenceQueue K) (k : K) : Bool × SequenceQueue K :=
  match q.seqs.get? k with
  | some seq => (true, { q with order := q.order.erase seq, seqs := q.seqs.erase k })
  | none => (false, q)

/-- Takes out the key at the front. -/
def popFront (q : SequenceQueue K) : Option K × SequenceQueue K :=
  match least? q.order with
  | some (seq, k) => (some k, { q with order := q.order.erase seq, seqs := q.seqs.erase k })
  | none => (none, q)

end SequenceQueue
end ClusterCache
