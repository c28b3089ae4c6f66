/-
# Strategies that keep their keys in one line

A `Strategy.Lining` says that a strategy orders the keys of its shard in one line, and what each
operation does to the line: a key that comes in goes to the end, a key that is taken out leaves its
place, and the head of the line is the next victim.  The strategies differ in one thing, whether a key
that is used goes to the end (`refreshes`).

The least recently used key is the head of a line that is refreshed (`Lru.lining`), the oldest key the
head of one that is not (`Fifo.lining`).
-/

import ClusterCache.Proofs.Eviction.Tracking

namespace ClusterCache

variable {K : Type} [DecidableEq K] [Hashable K]

/-- How a strategy keeps the keys of its shard in one line. -/
structure Strategy.Lining (S : Strategy K) extends S.Tracking where
  /-- The keys from the next victim to the last one. -/
  line : S.State → List K
  /-- Whether a key that is used goes to the end. -/
  refreshes : Bool
  tracksAccess_eq : S.tracksAccess = refreshes
  nodup_line : ∀ {s}, Sound s → (line s).Nodup
  resident_iff : ∀ {s a}, Resident s a ↔ a ∈ line s
  line_push : ∀ {s k}, Sound s → k ∉ line s → line (S.push s k) = line s ++ [k]
  line_access : ∀ {s k}, Sound s → k ∈ line s →
    line (S.access s k) = if refreshes then (line s).erase k ++ [k] else line s
  line_remove : ∀ {s k}, Sound s → line (S.remove s k) = (line s).erase k
  pop_fst : ∀ {s} sh, Sound s → (S.pop sh s).1 = (line s).head?
  line_pop : ∀ {s} sh, Sound s → line (S.pop sh s).2.2 = (line s).tail

/-- A key that is new to a queue goes behind all others. -/
theorem SequenceQueue.Coherent.toList_pushBack_of_not_mem {q : SequenceQueue K} {k : K}
    (hq : q.Coherent) (hk : k ∉ q.toList) : (q.pushBack k).toList = q.toList ++ [k] := by
  rw [hq.toList_pushBack, List.erase_of_not_mem hk]

/-- Keys from the one used longest ago to the one used last. -/
def Lru.lining : (Strategy.lru K).Lining where
  toTracking := Lru.tracking
  line s := s.queue.toList
  refreshes := true
  tracksAccess_eq := rfl
  nodup_line hs := hs.nodup_toList
  resident_iff := Iff.rfl
  line_push hs hk := hs.toList_pushBack_of_not_mem hk
  line_access hs hk := (hs.toList_touch _).trans (if_pos hk)
  line_remove hs := hs.toList_remove _
  pop_fst _ hs := hs.popFront_fst
  line_pop _ hs := hs.toList_popFront

/-- Keys from the oldest to the newest. -/
def Fifo.lining : (Strategy.fifo K).Lining where
  toTracking := Fifo.tracking
  line s := s.queue.toList
  refreshes := false
  tracksAccess_eq := rfl
  nodup_line hs := hs.nodup_toList
  resident_iff := Iff.rfl
  line_push hs hk := hs.toList_pushBack_of_not_mem hk
  line_access _ _ := rfl
  line_remove hs := hs.toList_remove _
  pop_fst _ hs := hs.popFront_fst
  line_pop _ hs := hs.toList_popFront

/-- The strategies that keep their keys in one line. -/
inductive Lined (K : Type) [DecidableEq K] [Hashable K] : Strategy K → Type
  | lru : Lined K (.lru K)
  | fifo : Lined K (.fifo K)

namespace Lined

/-- How each of them does. -/
def lining : {S : Strategy K} → Lined K S → S.Lining
  | _, lru => Lru.lining
  | _, fifo => Fifo.lining

/-- Whether a key that is used goes to the end. -/
def refreshes : {S : Strategy K} → Lined K S → Bool
  | _, lru => true
  | _, fifo => false

/-- Whether a lined strategy moves a key that is used is what its line says. -/
theorem refreshes_lining {S : Strategy K} (B : Lined K S) : B.lining.refreshes = B.refreshes := by
  cases B with
  | lru => rfl
  | fifo => rfl

end Lined
end ClusterCache
