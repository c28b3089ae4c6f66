/-
# Any key may go

The least bookkeeping that still bounds a shard: the keys stand in slots without a gap, and an index
says in which slot each of them stands.  The key of the last slot goes first.  A key that is taken out
elsewhere leaves its slot to that of the last one, and the index is told of it.
-/

import ClusterCache.KeyMap
import ClusterCache.Eviction.Strategy

namespace ClusterCache

/-- Keys in slots, and where they stand. -/
structure Unordered (K : Type) [DecidableEq K] [Hashable K] where
  slots : Array K
  /-- The slot of each key. -/
  index : KeyMap K Nat

namespace Unordered

variable {K : Type}

/-- Takes what stands in slot `i` out and puts what stands in the last slot in its place. -/
def swapRemove (slots : Array K) (i : Nat) : Array K :=
  match slots.back? with
  | none => slots
  | some last => (slots.setIfInBounds i last).pop

variable [DecidableEq K] [Hashable K]

/-- No keys yet. -/
def init : Unordered K := ⟨#[], .empty⟩

/-- Forgets all keys. -/
def clear (_ : Unordered K) : Unordered K := init

/-- The number of keys. -/
def size (s : Unordered K) : Nat := s.slots.size

/-- A key is used, which makes no difference. -/
def access (s : Unordered K) (_ : K) : Unordered K := s

/-- The key of the last slot goes. -/
def pop (s : Unordered K) : Option K × Unordered K :=
  match s.slots.back? with
  | none => (none, s)
  | some last => (some last, ⟨s.slots.pop, s.index.erase last⟩)

/-- A key comes in; one that is there already stays where it is. -/
def push (s : Unordered K) (k : K) : Unordered K :=
  if s.index.contains k then s else ⟨s.slots.push k, s.index.insert k s.slots.size⟩

/-- A key is taken out, and the index is told of the key that takes its slot. -/
def remove (s : Unordered K) (k : K) : Unordered K :=
  match s.index.get? k with
  | none => s
  | some i =>
    let slots := swapRemove s.slots i
    let index := s.index.erase k
    match slots[i]? with
    | none => ⟨slots, index⟩
    | some moved => ⟨slots, index.insert moved i⟩

end Unordered

/-- The key of the last slot goes first. -/
def Strategy.unordered (K : Type) [DecidableEq K] [Hashable K] : Strategy K where
  State := Unordered K
  Shared := Unit
  initShared := ()
  tracksAccess := false
  init _ := .init
  push := .push
  access := .access
  remove := .remove
  pop _ s :=
    let (k, s) := s.pop
    (k, (), s)
  clear := .clear
  size := Unordered.size
  patience _ _ s := s.size

end ClusterCache
