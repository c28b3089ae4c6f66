/-
# Keys that are used again soon stay

The strategy tells hot keys from cold ones by how soon they are used again.  A *stack* orders keys by
their last use and holds every hot key; a *cold queue* holds the cold keys, and its front goes first.
A cold key that is used while the stack still knows it becomes hot, and then the hot key at the
bottom of the stack becomes cold, so that there are never more hot keys than hot slots.  A cold key
that goes while the stack knows it is remembered as a *ghost*: if it comes back, it comes back hot.
A long run of keys that are used once passes through the cold queue and leaves the hot keys alone.
-/

import ClusterCache.Eviction.SequenceQueue
import ClusterCache.Eviction.Strategy

namespace ClusterCache

/-- What is known about a key. -/
inductive Lirs.Status where
  /-- Held and hot; always in the stack. -/
  | hot
  /-- Held and cold; always in the cold queue, and maybe in the stack. -/
  | cold
  /-- Given up, but still in the stack. -/
  | ghost
  deriving DecidableEq, Repr

/-- The hot keys, the cold keys and the ghosts of one shard. -/
structure Lirs (K : Type) [DecidableEq K] [Hashable K] where
  /-- Keys by their last use, the oldest at the bottom, which is the front of the queue. -/
  stack : SequenceQueue K
  /-- Cold keys, the next victim in front. -/
  cold : SequenceQueue K
  /-- Ghosts, the oldest in front. -/
  ghosts : SequenceQueue K
  /-- What is known about each key. -/
  status : KeyMap K Lirs.Status
  /-- The number of hot keys. -/
  hotCount : Nat
  /-- How many keys may be hot. -/
  hotSlots : Nat
  /-- How many ghosts are remembered. -/
  ghostSlots : Nat

namespace Lirs

variable {K : Type} [DecidableEq K] [Hashable K]

/-- How many of the keys of a shard may be hot: all but the share `ratio`, rounded down, that is
kept for cold keys, of which there is room for at least one. -/
def hotSlotsFor (capacity : Nat) (ratio : Float) : Nat :=
  capacity - max 1 (capacity.toUInt64.toFloat * ratio).toUInt64.toNat

/-- No keys yet, in a shard for `capacity` keys of which `hotSlots` may be hot. -/
def init (capacity hotSlots : Nat) : Lirs K where
  stack := .empty
  cold := .empty
  ghosts := .empty
  status := .empty
  hotCount := 0
  hotSlots := hotSlots
  ghostSlots := max capacity 1

/-- Forgets all keys, ghosts included. -/
def clear (s : Lirs K) : Lirs K :=
  { s with
    stack := s.stack.clear
    cold := s.cold.clear
    ghosts := s.ghosts.clear
    status := .empty
    hotCount := 0 }

/-- The number of keys that are held. -/
def size (s : Lirs K) : Nat := s.hotCount + s.cold.size

/-- Takes keys that are not hot off the bottom of the stack, at most `fuel` of them.  A ghost that
falls off is forgotten. -/
def pruneWithin : (fuel : Nat) → Lirs K → Lirs K
  | 0, s => s
  | fuel + 1, s =>
    match s.stack.front? with
    | none => s
    | some bottom =>
      match s.status.get? bottom with
      | some .hot => s
      | some .ghost => pruneWithin fuel { s with
          stack := s.stack.popFront.2
          ghosts := (s.ghosts.remove bottom).2
          status := s.status.erase bottom }
      | _ => pruneWithin fuel { s with stack := s.stack.popFront.2 }

/-- Takes keys off the bottom of the stack until a hot one is there. -/
def prune (s : Lirs K) : Lirs K := s.pruneWithin s.stack.size

/-- Turns the hot key at the bottom of the stack into a cold one; tells whether there was a key. -/
def demoteBottom (s : Lirs K) : Bool × Lirs K :=
  let s := s.prune
  match s.stack.popFront with
  | (none, stack) => (false, { s with stack })
  | (some k, stack) =>
    (true, prune { s with
      stack
      status := s.status.insert k .cold
      hotCount := s.hotCount - 1
      cold := s.cold.pushBack k })

/-- Turns hot keys into cold ones, at most `fuel` of them, until the hot slots are enough. -/
def demoteWithin : (fuel : Nat) → Lirs K → Lirs K
  | 0, s => s
  | fuel + 1, s =>
    if s.hotSlots < s.hotCount then
      match s.demoteBottom with
      | (true, s) => demoteWithin fuel s
      | (false, s) => s
    else s

/-- Turns a key in the stack into a hot one, at the cost of the oldest hot key if the slots are
full. -/
def promote (s : Lirs K) (k : K) : Lirs K :=
  let s := { s with status := s.status.insert k .hot, hotCount := s.hotCount + 1 }
  demoteWithin s.hotCount s

/-- Forgets the oldest ghosts, at most `fuel` of them, until the ghost slots are enough. -/
def forgetWithin : (fuel : Nat) → Lirs K → Lirs K
  | 0, s => s
  | fuel + 1, s =>
    if s.ghostSlots < s.ghosts.size then
      match s.ghosts.popFront with
      | (none, ghosts) => { s with ghosts }
      | (some k, ghosts) => forgetWithin fuel { s with
          ghosts
          stack := (s.stack.remove k).2
          status := s.status.erase k }
    else s

/-- Turns a cold key that goes into a ghost. -/
def bury (s : Lirs K) (k : K) : Lirs K :=
  let s := { s with status := s.status.insert k .ghost, ghosts := s.ghosts.pushBack k }
  forgetWithin s.ghosts.size s

/-- A key is used.  A hot key goes to the top of the stack; a cold key becomes hot if it is in the
stack, and is put there otherwise. -/
def access (s : Lirs K) (k : K) : Lirs K :=
  match s.status.get? k with
  | some .hot =>
    let wasBottom := s.stack.front? = some k
    let s := { s with stack := (s.stack.touch k).2 }
    if wasBottom then s.prune else s
  | some .cold =>
    if s.stack.contains k then
      promote { s with stack := (s.stack.touch k).2, cold := (s.cold.remove k).2 } k
    else { s with stack := s.stack.pushBack k, cold := (s.cold.touch k).2 }
  | some .ghost => s
  | none => s

/-- A key comes in.  A ghost comes back hot; a new key is hot as long as there are hot slots. -/
def push (s : Lirs K) (k : K) : Lirs K :=
  match s.status.get? k with
  | some .hot => s.access k
  | some .cold => s.access k
  | some .ghost =>
    promote { s with ghosts := (s.ghosts.remove k).2, stack := s.stack.pushBack k } k
  | none =>
    if s.hotCount < s.hotSlots then
      { s with
        status := s.status.insert k .hot
        hotCount := s.hotCount + 1
        stack := s.stack.pushBack k }
    else
      { s with
        status := s.status.insert k .cold
        stack := s.stack.pushBack k
        cold := s.cold.pushBack k }

/-- A key is taken out, and a ghost is forgotten. -/
def remove (s : Lirs K) (k : K) : Lirs K :=
  match s.status.get? k with
  | none => s
  | some known =>
    let s := { s with status := s.status.erase k, stack := (s.stack.remove k).2 }
    match known with
    | .hot => prune { s with hotCount := s.hotCount - 1 }
    | .cold => { s with cold := (s.cold.remove k).2 }
    | .ghost => { s with ghosts := (s.ghosts.remove k).2 }

/-- The front of the cold queue goes; if there is no cold key, the oldest hot one. -/
def pop (s : Lirs K) : Option K × Lirs K :=
  match s.cold.popFront with
  | (some k, cold) =>
    let s := { s with cold }
    (some k, if s.stack.contains k then s.bury k else { s with status := s.status.erase k })
  | (none, _) =>
    let s := s.prune
    match s.stack.popFront with
    | (none, stack) => (none, { s with stack })
    | (some k, stack) =>
      (some k, prune { s with
        stack
        status := s.status.erase k
        hotCount := s.hotCount - 1 })

end Lirs

/-- Keys that are used again soon stay. -/
def Strategy.lirs (K : Type) [DecidableEq K] [Hashable K] (ratio : Float) : Strategy K where
  State := Lirs K
  Shared := Unit
  initShared := ()
  tracksAccess := true
  init capacity := .init capacity (Lirs.hotSlotsFor capacity ratio)
  push := .push
  access := .access
  remove := .remove
  pop _ s :=
    let (k, s) := s.pop
    (k, (), s)
  clear := .clear
  size := Lirs.size
  patience _ _ s := s.size

end ClusterCache
