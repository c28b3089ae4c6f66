/-
# Like states of the strategy with ghosts

Two states are alike if their stacks, their cold queues and their ghosts list the same keys, the same is
known about every key, and the counts and the slots are the same (`Lirs.Like`).  Every operation goes
the same way through such states: it looks at the front of a queue, at what is known about a key, or at
a count, and changes both alike.

A state that was cleared is like one that was just made with as many slots: no queue lists a key,
nothing is known and nothing is counted, the ghosts included (`Lirs.like_clear_init`).
-/

import ClusterCache.Proofs.Eviction.Likeness

namespace ClusterCache
namespace Lirs

variable {K : Type} [DecidableEq K] [Hashable K] {s s' : Lirs K} {k : K}

/-- The queues list the same keys, the same is known, and the counts and slots are the same. -/
structure Like (s s' : Lirs K) : Prop where
  stack : s.stack.Like s'.stack
  cold : s.cold.Like s'.cold
  ghosts : s.ghosts.Like s'.ghosts
  status : ∀ k, s'.status.get? k = s.status.get? k
  hotCount : s'.hotCount = s.hotCount
  hotSlots : s'.hotSlots = s.hotSlots
  ghostSlots : s'.ghostSlots = s.ghostSlots

/-- What was cleared is as if it had just been made. -/
theorem like_clear_init (capacity : Nat) (hslots : s.ghostSlots = max capacity 1) :
    s.clear.Like (init capacity s.hotSlots) where
  stack := SequenceQueue.like_clear_empty _
  cold := SequenceQueue.like_clear_empty _
  ghosts := SequenceQueue.like_clear_empty _
  status _ := rfl
  hotCount := rfl
  hotSlots := rfl
  ghostSlots := hslots.symm

namespace Like

/-! ### Knowledge about one key -/

/-- Like states know the same after a status is written. -/
theorem get?_insert (h : s.Like s') (k : K) (st : Status) (a : K) :
    (s'.status.insert k st).get? a = (s.status.insert k st).get? a := by
  rw [KeyMap.get?_insert, KeyMap.get?_insert, h.status]

/-- Like states know the same after a key is forgotten. -/
theorem get?_erase (h : s.Like s') (k a : K) :
    (s'.status.erase k).get? a = (s.status.erase k).get? a := by
  rw [KeyMap.get?_erase, KeyMap.get?_erase, h.status]

/-- Like states hold equally many keys. -/
theorem size_eq (h : s.Like s') : s'.size = s.size := by
  rw [size, size, h.hotCount, h.cold.size_eq]

/-- Like states are alike when cleared. -/
theorem clear (h : s.Like s') : s.clear.Like s'.clear where
  stack := SequenceQueue.like_clear _ _
  cold := SequenceQueue.like_clear _ _
  ghosts := SequenceQueue.like_clear _ _
  status _ := rfl
  hotCount := rfl
  hotSlots := h.hotSlots
  ghostSlots := h.ghostSlots

/-! ### Bounded walks -/

/-- Like states are alike while keys are taken off the bottom of the stack. -/
theorem pruneWithin (h : s.Like s') (fuel : Nat) : (s.pruneWithin fuel).Like (s'.pruneWithin fuel) := by
  induction fuel generalizing s s' with
  | zero => exact h
  | succ fuel ih =>
    rw [Lirs.pruneWithin, Lirs.pruneWithin, h.stack.front?_eq]
    cases s.stack.front? with
    | none => exact h
    | some bottom =>
      have hoff := h.stack.popFront
      simp only [h.status]
      rcases s.status.get? bottom with _ | _ | _ | _
      · exact ih { h with stack := hoff }
      · exact h
      · exact ih { h with stack := hoff }
      · exact ih { h with
          stack := hoff
          ghosts := h.ghosts.remove bottom
          status := h.get?_erase bottom }

/-- Like states are alike when pruned. -/
theorem prune (h : s.Like s') : s.prune.Like s'.prune := by
  rw [Lirs.prune, Lirs.prune, h.stack.size_eq]
  exact h.pruneWithin _

/-- Like states demote together, and are alike afterwards. -/
theorem demoteBottom (h : s.Like s') :
    s'.demoteBottom.1 = s.demoteBottom.1 ∧ s.demoteBottom.2.Like s'.demoteBottom.2 := by
  have hp := h.prune
  unfold Lirs.demoteBottom
  generalize s.prune = p at hp
  generalize s'.prune = p' at hp
  obtain ⟨k?, r, r', hr, hr', hoff⟩ := hp.stack.exists_popFront
  simp only [hr, hr']
  cases k? with
  | none => exact ⟨rfl, { hp with stack := hoff }⟩
  | some k =>
    refine ⟨rfl, prune { hp with
      stack := hoff
      cold := hp.cold.pushBack k
      status := hp.get?_insert k .cold
      hotCount := ?_ }⟩
    simp only [hp.hotCount]

/-- Like states are alike while hot keys are turned into cold ones. -/
theorem demoteWithin (h : s.Like s') (fuel : Nat) :
    (s.demoteWithin fuel).Like (s'.demoteWithin fuel) := by
  induction fuel generalizing s s' with
  | zero => exact h
  | succ fuel ih =>
    obtain ⟨hfst, hnext⟩ := h.demoteBottom
    rw [Lirs.demoteWithin, Lirs.demoteWithin, h.hotSlots, h.hotCount]
    split
    · rcases hd : s.demoteBottom with ⟨b, d⟩
      rcases hd' : s'.demoteBottom with ⟨b', d'⟩
      rw [hd, hd'] at hfst hnext
      obtain rfl : b' = b := hfst
      cases b' with
      | true => exact ih hnext
      | false => exact hnext
    · exact h

/-- Like states are alike after the same key became hot. -/
theorem promote (h : s.Like s') (k : K) : (s.promote k).Like (s'.promote k) := by
  have hheated : (s.heated k).Like (s'.heated k) :=
    { h with
      status := h.get?_insert k .hot
      hotCount := congrArg (· + 1) h.hotCount }
  show ((s.heated k).demoteWithin (s.hotCount + 1)).Like ((s'.heated k).demoteWithin (s'.hotCount + 1))
  rw [h.hotCount]
  exact hheated.demoteWithin _

/-- Like states are alike while ghosts are forgotten. -/
theorem forgetWithin (h : s.Like s') (fuel : Nat) :
    (s.forgetWithin fuel).Like (s'.forgetWithin fuel) := by
  induction fuel generalizing s s' with
  | zero => exact h
  | succ fuel ih =>
    rw [Lirs.forgetWithin, Lirs.forgetWithin, h.ghostSlots, h.ghosts.size_eq]
    split
    · obtain ⟨k?, r, r', hr, hr', hoff⟩ := h.ghosts.exists_popFront
      rw [hr, hr']
      cases k? with
      | none => exact { h with ghosts := hoff, ghostSlots := rfl }
      | some k =>
        have hstack := h.stack.remove k
        exact ih { h with
          ghosts := hoff
          stack := hstack
          status := h.get?_erase k
          ghostSlots := rfl }
    · exact h

/-- Like states are alike after the same key became a ghost. -/
theorem bury (h : s.Like s') (k : K) : (s.bury k).Like (s'.bury k) := by
  unfold Lirs.bury
  simp only [(h.ghosts.pushBack k).size_eq]
  refine forgetWithin ?_ _
  exact { h with status := h.get?_insert k .ghost, ghosts := h.ghosts.pushBack k }

/-! ### The operations -/

/-- Like states are alike after the same key was used. -/
theorem access (h : s.Like s') (k : K) : (s.access k).Like (s'.access k) := by
  have htouch := h.stack.touch k
  unfold Lirs.access
  rw [h.status, h.stack.front?_eq, h.stack.contains_eq]
  rcases s.status.get? k with _ | _ | _ | _
  · exact h
  · simp only
    split
    · exact prune { h with stack := htouch }
    · exact { h with stack := htouch }
  · simp only
    split
    · have hplaced : Like { s with stack := (s.stack.touch k).2, cold := (s.cold.remove k).2 }
          { s' with stack := (s'.stack.touch k).2, cold := (s'.cold.remove k).2 } :=
        { h with stack := htouch, cold := h.cold.remove k }
      exact hplaced.promote k
    · exact { h with stack := h.stack.pushBack k, cold := h.cold.touch k }
  · exact h

/-- Like states are alike after the same key came in. -/
theorem push (h : s.Like s') (k : K) : (s.push k).Like (s'.push k) := by
  have hstack := h.stack.pushBack k
  unfold Lirs.push
  rw [h.status, h.hotCount, h.hotSlots]
  rcases s.status.get? k with _ | _ | _ | _
  · simp only
    split
    · exact { h with
        stack := hstack
        status := h.get?_insert k .hot
        hotCount := rfl
        hotSlots := rfl }
    · exact { h with
        stack := hstack
        cold := h.cold.pushBack k
        status := h.get?_insert k .cold
        hotCount := rfl
        hotSlots := rfl }
  · exact h.access k
  · exact h.access k
  · refine promote ?_ k
    exact { h with
      ghosts := h.ghosts.remove k
      stack := hstack
      hotCount := rfl
      hotSlots := rfl }

/-- Like states are alike after the same key was removed. -/
theorem remove (h : s.Like s') (k : K) : (s.remove k).Like (s'.remove k) := by
  have hstack := h.stack.remove k
  unfold Lirs.remove
  rw [h.status, h.hotCount]
  rcases s.status.get? k with _ | _ | _ | _
  · exact h
  · exact prune { h with stack := hstack, status := h.get?_erase k, hotCount := rfl }
  · exact { h with
      stack := hstack
      status := h.get?_erase k
      cold := h.cold.remove k
      hotCount := rfl }
  · exact { h with
      stack := hstack
      status := h.get?_erase k
      ghosts := h.ghosts.remove k
      hotCount := rfl }

/-- Like states name the same victim, and are alike afterwards. -/
theorem pop (h : s.Like s') : s'.pop.1 = s.pop.1 ∧ s.pop.2.Like s'.pop.2 := by
  obtain ⟨k?, r, r', hr, hr', hoff⟩ := h.cold.exists_popFront
  unfold Lirs.pop
  rw [hr, hr']
  cases k? with
  | some k =>
    simp only [h.stack.contains_eq]
    split
    · refine ⟨trivial, bury ?_ k⟩
      exact { h with cold := hoff }
    · exact ⟨trivial, { h with cold := hoff, status := h.get?_erase k }⟩
  | none =>
    have hp := h.prune
    simp only
    generalize s.prune = p at hp
    generalize s'.prune = p' at hp
    obtain ⟨k?, r, r', hr, hr', hoff⟩ := hp.stack.exists_popFront
    simp only [hr, hr']
    cases k? with
    | none => exact ⟨rfl, { hp with stack := hoff }⟩
    | some k =>
      refine ⟨rfl, prune { hp with stack := hoff, status := hp.get?_erase k, hotCount := ?_ }⟩
      simp only [hp.hotCount]

end Like

/-- The same queues, the same knowledge, and the same counts and slots. -/
def likeness (ratio : Float) : (Strategy.lirs K ratio).Likeness where
  Like := Like
  push k h := h.push k
  access k h := h.access k
  remove k h := h.remove k
  pop_fst _ h := h.pop.1
  pop_shared _ _ := rfl
  pop _ h := h.pop.2
  clear h := h.clear
  size h := h.size_eq
  patience _ _ h := h.size_eq

end Lirs
end ClusterCache
