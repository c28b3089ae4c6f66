/-
# Strategies that know the keys of their shard

A shard tells its strategy of every key that comes in or is taken out, so a strategy can know which
keys the shard holds.  A `Tracking` of a strategy says which of its states are sound and which keys a
state takes for held, its *residents*, and that each operation changes the residents as its name
says: `push` adds a key, `remove` takes one out, `access` leaves them alone, `clear` forgets them,
and `pop` names one of them and takes it out, unless there is none.

The two queues (`Lru.tracking`, `Fifo.tracking`) and the slots (`Unordered.tracking`) are tracked by
what they list.  The strategy with ghosts has a module of its own.
-/

import ClusterCache.Eviction.Fifo
import ClusterCache.Eviction.Lru
import ClusterCache.Proofs.Eviction.SequenceQueue
import ClusterCache.Proofs.Eviction.Unordered

namespace ClusterCache

variable {K : Type} [DecidableEq K] [Hashable K]

/-- How a strategy knows the keys of its shard. -/
structure Strategy.Tracking (S : Strategy K) where
  /-- The states that can come about. -/
  Sound : S.State → Prop
  /-- The keys that a state takes for held. -/
  Resident : S.State → K → Prop
  sound_init : ∀ n, Sound (S.init n)
  sound_push : ∀ {s} k, Sound s → Sound (S.push s k)
  sound_access : ∀ {s} k, Sound s → Sound (S.access s k)
  sound_remove : ∀ {s} k, Sound s → Sound (S.remove s k)
  sound_pop : ∀ {s} sh, Sound s → Sound (S.pop sh s).2.2
  sound_clear : ∀ s, Sound (S.clear s)
  not_resident_init : ∀ n a, ¬ Resident (S.init n) a
  resident_push : ∀ {s k a}, Sound s → (Resident (S.push s k) a ↔ a = k ∨ Resident s a)
  resident_access : ∀ {s k a}, Sound s → (Resident (S.access s k) a ↔ Resident s a)
  resident_remove : ∀ {s k a}, Sound s → (Resident (S.remove s k) a ↔ a ≠ k ∧ Resident s a)
  /-- The key that is named is the one that is forgotten. -/
  resident_pop : ∀ {s a} sh, Sound s →
    (Resident (S.pop sh s).2.2 a ↔ (S.pop sh s).1 ≠ some a ∧ Resident s a)
  not_resident_clear : ∀ s a, ¬ Resident (S.clear s) a
  /-- Only a resident is named. -/
  pop_resident : ∀ {s a} sh, Sound s → (S.pop sh s).1 = some a → Resident s a
  /-- None is named only if there is none. -/
  pop_none : ∀ {s} sh, Sound s → (S.pop sh s).1 = none → ∀ a, ¬ Resident s a

/-! ### Queues -/

namespace SequenceQueue

variable {q : SequenceQueue K} {a : K}

/-- The front leaves the queue, and nothing else does. -/
theorem Coherent.mem_popFront (hq : q.Coherent) :
    a ∈ q.popFront.2.toList ↔ q.popFront.1 ≠ some a ∧ a ∈ q.toList := by
  rw [hq.toList_popFront, hq.popFront_fst]
  have hnd := hq.nodup_toList
  cases h : q.toList with
  | nil => simp
  | cons k rest =>
    rw [h, List.nodup_cons] at hnd
    by_cases hk : k = a
    · subst hk
      simp [hnd.1]
    · simp [hk, Ne.symm hk]

/-- The front was in the queue. -/
theorem Coherent.popFront_mem (hq : q.Coherent) (h : q.popFront.1 = some a) : a ∈ q.toList := by
  rw [hq.popFront_fst] at h
  exact List.mem_of_head? h

/-- Only an empty queue has no front. -/
theorem Coherent.popFront_none (hq : q.Coherent) (h : q.popFront.1 = none) : a ∉ q.toList := by
  rw [hq.popFront_fst, List.head?_eq_none_iff] at h
  rw [h]
  exact List.not_mem_nil

end SequenceQueue

/-- The keys of the queue. -/
def Lru.tracking : (Strategy.lru K).Tracking where
  Sound s := s.queue.Coherent
  Resident s a := a ∈ s.queue.toList
  sound_init _ := SequenceQueue.coherent_empty
  sound_push k hs := hs.pushBack k
  sound_access k hs := hs.touch k
  sound_remove k hs := hs.remove k
  sound_pop _ hs := hs.popFront
  sound_clear _ := SequenceQueue.coherent_clear _
  not_resident_init _ _ := List.not_mem_nil
  resident_push hs := hs.mem_pushBack
  resident_access hs := hs.mem_touch
  resident_remove hs := hs.mem_remove
  resident_pop _ hs := hs.mem_popFront
  not_resident_clear _ _ := List.not_mem_nil
  pop_resident _ hs h := hs.popFront_mem h
  pop_none _ hs h _ := hs.popFront_none h

/-- The keys of the queue. -/
def Fifo.tracking : (Strategy.fifo K).Tracking where
  Sound s := s.queue.Coherent
  Resident s a := a ∈ s.queue.toList
  sound_init _ := SequenceQueue.coherent_empty
  sound_push k hs := hs.pushBack k
  sound_access _ hs := hs
  sound_remove k hs := hs.remove k
  sound_pop _ hs := hs.popFront
  sound_clear _ := SequenceQueue.coherent_clear _
  not_resident_init _ _ := List.not_mem_nil
  resident_push hs := hs.mem_pushBack
  resident_access _ := Iff.rfl
  resident_remove hs := hs.mem_remove
  resident_pop _ hs := hs.mem_popFront
  not_resident_clear _ _ := List.not_mem_nil
  pop_resident _ hs h := hs.popFront_mem h
  pop_none _ hs h _ := hs.popFront_none h

/-! ### Slots -/

/-- The keys in the slots. -/
def Unordered.tracking : (Strategy.unordered K).Tracking where
  Sound := Unordered.Sound
  Resident s a := a ∈ s.row
  sound_init _ := Unordered.sound_init
  sound_push k hs := hs.push k
  sound_access _ hs := hs
  sound_remove k hs := hs.remove k
  sound_pop _ hs := hs.pop
  sound_clear _ := Unordered.sound_init
  not_resident_init _ _ := List.not_mem_nil
  resident_push hs := hs.mem_push
  resident_access _ := Iff.rfl
  resident_remove hs := hs.mem_remove
  resident_pop _ hs := hs.mem_pop
  not_resident_clear _ _ := List.not_mem_nil
  pop_resident {s a} _ _ h := List.mem_of_head? ((Unordered.pop_fst s).symm.trans h)
  pop_none {s} _ _ h a := by
    have hnil : s.row = [] := List.head?_eq_none_iff.1 ((Unordered.pop_fst s).symm.trans h)
    show a ∉ s.row
    rw [hnil]
    exact List.not_mem_nil

end ClusterCache
