/-
# How a shard chooses its victims

A shard of a bounded cache tells its strategy which keys come in, which are looked at and which are
taken out, and asks it for the next key to give up.  A strategy may name a key that the shard does
not hold, and may name none although the shard holds some; the shard copes with both.  `Shared` is
for what the strategies of all shards of one cache have in common; most have nothing.
-/

namespace ClusterCache

/-- A way to choose victims among keys of type `K`. -/
structure Strategy (K : Type) where
  /-- What one shard remembers. -/
  State : Type
  /-- What all shards of a cache remember together. -/
  Shared : Type
  /-- What they remember at first. -/
  initShared : Shared
  /-- Whether looking a key up counts as an access. -/
  tracksAccess : Bool
  /-- What a shard for the number of keys given remembers at first. -/
  init : (capacity : Nat) → State
  /-- A key came in. -/
  push : State → K → State
  /-- A key was looked up or its value was replaced. -/
  access : State → K → State
  /-- A key was taken out. -/
  remove : State → K → State
  /-- The next victim, which is forgotten. -/
  pop : Shared → State → Option K × Shared × State
  /-- All keys were taken out. -/
  clear : State → State
  /-- The number of keys that are remembered as held. -/
  size : State → Nat
  /-- How many keys in a row may be named that are not held, given which keys are. -/
  patience : (K → Bool) → Shared → State → Nat

end ClusterCache
