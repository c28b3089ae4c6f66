/-
# Strategies that start over

What a strategy has come to after any requests can be told from what it began with, but once it is
cleared it cannot: the numbers that were handed out are forgotten in effect, if not in fact, and so are
the ghosts.  So each strategy that bounds a shard comes with a likeness under which a cleared state is
like the one that the strategy began with (`Bounding.like_clear`).
-/

import ClusterCache.Eviction.Unbounded
import ClusterCache.Proofs.Eviction.Lirs.Likeness

namespace ClusterCache

variable {K : Type} [DecidableEq K] {S : Strategy K}

/-- A likeness under which a state that was cleared is like one for a new shard, whatever the size of
the shard.  Nothing is remembered elsewhere. -/
structure Strategy.Restart (S : Strategy K) extends S.Likeness where
  like_clear : ∀ {capacity s}, S.Reaches (S.init capacity) s → Like (S.clear s) (S.init capacity)
  subsingleton : Subsingleton S.Shared

/-- A strategy that remembers nothing starts over at any time. -/
def Strategy.unboundedRestart (K : Type) [DecidableEq K] : (Strategy.unbounded K).Restart where
  toLikeness := .eq _
  like_clear _ := rfl
  subsingleton := inferInstanceAs (Subsingleton Unit)

variable [Hashable K]

/-- The slots of the strategy with ghosts stay as they were. -/
theorem Lirs.kept_of_reaches {ratio : Float} {capacity hotSlots : Nat}
    {s : (Strategy.lirs K ratio).State}
    (h : (Strategy.lirs K ratio).Reaches (init capacity hotSlots : Lirs K) s) :
    Kept capacity hotSlots s := by
  induction h with
  | start => exact kept_init ..
  | next q _ ih => exact Kept.serve ih ∅ q

namespace Bounding

/-- Which states of each of the strategies cannot be told apart. -/
def likeness : {S : Strategy K} → Bounding K S → S.Likeness
  | _, lru => Lru.likeness
  | _, lirs ratio => Lirs.likeness ratio
  | _, fifo => Fifo.likeness
  | _, unordered => Unordered.likeness

/-- The state that a shard begins with is one that a strategy may begin with. -/
theorem begins_init (B : Bounding K S) (capacity : Nat) : B.Begins (S.init capacity) := by
  cases B with
  | lru => exact .lru
  | lirs ratio => exact .lirs ratio ..
  | fifo => exact .fifo
  | unordered => exact .unordered

/-- **A state that was cleared is like the one that the strategy began with.** -/
theorem like_clear {B : Bounding K S} {s₀ s : S.State} (h₀ : B.Begins s₀) (h : S.Reaches s₀ s) :
    B.likeness.Like (S.clear s) s₀ := by
  cases h₀ with
  | lru | fifo => exact SequenceQueue.like_clear_empty _
  | lirs ratio capacity hotSlots =>
    have hkept := Lirs.kept_of_reaches h
    have hlike := Lirs.like_clear_init capacity hkept.houses.ghostSlots
    rwa [hkept.fits.hotSlots] at hlike
  | unordered => exact Unordered.like_init

/-- Every strategy that bounds a shard starts over when it is cleared. -/
def restart (B : Bounding K S) : S.Restart where
  toLikeness := B.likeness
  like_clear h := like_clear (B.begins_init _) h
  subsingleton := by cases B <;> exact inferInstanceAs (Subsingleton Unit)

/-- After clearing, further requests have the same replies as at the beginning. -/
theorem replies_clear {B : Bounding K S} {s₀ : S.State} (h₀ : B.Begins s₀)
    (past further : List S.Request) :
    S.size (S.clear (past.foldl S.next s₀)) = S.size s₀ ∧
      S.replies (S.clear (past.foldl S.next s₀)) further = S.replies s₀ further := by
  have hlike := like_clear h₀ (S.reaches_foldl s₀ past)
  exact ⟨(B.likeness.size hlike).symm, (B.likeness.replies_eq hlike further).symm⟩

end Bounding
end ClusterCache
