/-
# Hot keys, cold keys and ghosts keep apart

What `Lirs` knows about a key decides which of its three queues hold the key (`Placed`): a hot key is
in the stack only, a cold key in the cold queue and maybe in the stack, a ghost in the stack and the
queue of ghosts, and a key of which nothing is known in none.  The number of hot keys is kept beside
(`Sound`).

What is known changes for one key at a time, so a change needs to be looked at for that key only
(`Sound.update`).  There are few kinds of change: a key becomes hot (`Sound.heat`), comes in cold
(`Sound.admit_cold`), cools down (`Sound.cool`), becomes a ghost (`Sound.haunt`), moves in the queues
(`Sound.restack`) or is forgotten (`Sound.forget`).
-/

import ClusterCache.Eviction.Lirs
import ClusterCache.Proofs.Eviction.Tracking
import ClusterCache.Proofs.KeyMap

namespace ClusterCache
namespace Lirs

variable {K : Type} [DecidableEq K] [Hashable K] {s s' : Lirs K} {k a : K}

/-! ### Counting hot keys -/

/-- The number of hot keys among those of which something is known. -/
def hots (m : KeyMap K Status) : Nat := m.toList.countP fun e => e.2 = .hot

/-- One if the key is hot. -/
def hotBit (o : Option Status) : Nat := if o = some .hot then 1 else 0

/-- A hot key counts. -/
@[simp] theorem hotBit_hot : hotBit (some .hot) = 1 := rfl

/-- No other key counts as hot. -/
theorem hotBit_of_ne {o : Option Status} (h : o ≠ some .hot) : hotBit o = 0 := if_neg h

/-- A key that is forgotten leaves the count of the hot ones if it was hot. -/
theorem hots_erase_add (m : KeyMap K Status) (k : K) :
    hots (m.erase k) + hotBit (m.get? k) = hots m := by
  unfold hots hotBit
  cases h : m.get? k with
  | none =>
    have hsame : (m.erase k).toList.Perm m.toList := KeyMap.toList_erase_perm_of_get?_eq_none h
    rw [hsame.countP_eq]
    simp
  | some st =>
    have hfront : m.toList.Perm ((k, st) :: (m.erase k).toList) := KeyMap.toList_perm_of_get? h
    rw [hfront.countP_eq, List.countP_cons]
    simp

/-- A key whose status changes leaves and joins the count of the hot ones as it did and does count.
-/
theorem hots_insert_add (m : KeyMap K Status) (k : K) (st : Status) :
    hots (m.insert k st) + hotBit (m.get? k) = hots m + hotBit (some st) := by
  have herase := hots_erase_add m k
  have hinsert : hots (m.insert k st) = hots (m.erase k) + hotBit (some st) := by
    unfold hots hotBit
    rw [(KeyMap.toList_insert_perm m k st).countP_eq, List.countP_cons]
    simp
  omega

/-! ### Sound states -/

/-- What is known about a key says which queues hold it. -/
def Placed (s : Lirs K) (a : K) : Prop :=
  match s.status.get? a with
  | some .hot => a ∈ s.stack.toList ∧ a ∉ s.cold.toList ∧ a ∉ s.ghosts.toList
  | some .cold => a ∈ s.cold.toList ∧ a ∉ s.ghosts.toList
  | some .ghost => a ∈ s.stack.toList ∧ a ∉ s.cold.toList ∧ a ∈ s.ghosts.toList
  | none => a ∉ s.stack.toList ∧ a ∉ s.cold.toList ∧ a ∉ s.ghosts.toList

/-- The queues, what is known about the keys, and the count of the hot ones fit together. -/
structure Sound (s : Lirs K) : Prop where
  stack : s.stack.Coherent
  cold : s.cold.Coherent
  ghosts : s.ghosts.Coherent
  placed : ∀ a, s.Placed a
  hotCount : s.hotCount = hots s.status

/-- A key is held: it is hot or cold. -/
def Resident (s : Lirs K) (a : K) : Prop :=
  s.status.get? a = some .hot ∨ s.status.get? a = some .cold

/-- Hot keys are in the stack. -/
theorem Sound.stack_of_hot (hs : s.Sound) (h : s.status.get? a = some .hot) :
    a ∈ s.stack.toList := by
  have := hs.placed a
  rw [Placed, h] at this
  exact this.1

/-- The cold queue holds the cold keys. -/
theorem Sound.mem_cold_iff (hs : s.Sound) :
    a ∈ s.cold.toList ↔ s.status.get? a = some .cold := by
  have := hs.placed a
  rw [Placed] at this
  split at this <;> rename_i h <;> simp [h, this]

/-- The queue of ghosts holds the ghosts. -/
theorem Sound.mem_ghosts_iff (hs : s.Sound) :
    a ∈ s.ghosts.toList ↔ s.status.get? a = some .ghost := by
  have := hs.placed a
  rw [Placed] at this
  split at this <;> rename_i h <;> simp [h, this]

/-- Something is known about every key in the stack. -/
theorem Sound.known_of_stack (hs : s.Sound) (h : a ∈ s.stack.toList) :
    s.status.get? a ≠ none := fun hn => by
  have := hs.placed a
  rw [Placed, hn] at this
  exact this.1 h

/-- A change that concerns one key needs to be looked at there only. -/
theorem Sound.update (hs : s.Sound) (k : K) (hstack : s'.stack.Coherent)
    (hcold : s'.cold.Coherent) (hghosts : s'.ghosts.Coherent)
    (hoff : ∀ a, a ≠ k → s'.status.get? a = s.status.get? a ∧
      (a ∈ s'.stack.toList ↔ a ∈ s.stack.toList) ∧ (a ∈ s'.cold.toList ↔ a ∈ s.cold.toList) ∧
      (a ∈ s'.ghosts.toList ↔ a ∈ s.ghosts.toList))
    (hat : s'.Placed k) (hcount : s'.hotCount = hots s'.status) : s'.Sound := by
  refine ⟨hstack, hcold, hghosts, fun a => ?_, hcount⟩
  by_cases hk : a = k
  · rw [hk]
    exact hat
  · obtain ⟨h1, h2, h3, h4⟩ := hoff a hk
    have := hs.placed a
    rw [Placed] at this ⊢
    rw [h1, h2, h3, h4]
    exact this

/-- Without keys everything fits together. -/
theorem sound_init (capacity hotSlots : Nat) : (init capacity hotSlots : Lirs K).Sound where
  stack := SequenceQueue.coherent_empty
  cold := SequenceQueue.coherent_empty
  ghosts := SequenceQueue.coherent_empty
  placed a := by simp [Placed, init]
  hotCount := rfl

/-- When all keys are forgotten everything fits together again. -/
theorem sound_clear (s : Lirs K) : s.clear.Sound where
  stack := SequenceQueue.coherent_clear _
  cold := SequenceQueue.coherent_clear _
  ghosts := SequenceQueue.coherent_clear _
  placed a := by simp [Placed, clear]
  hotCount := rfl

/-! ### Changes to one key -/

/-- A key becomes hot.  It is in the stack, and in no other queue. -/
theorem Sound.heat (hs : s.Sound) (hk : s.status.get? k ≠ some .hot) {stack cold ghosts}
    (hstack : stack.Coherent) (mem_stack : ∀ a, a ∈ stack.toList ↔ a = k ∨ a ∈ s.stack.toList)
    (hcold : cold.Coherent) (mem_cold : ∀ a, a ∈ cold.toList ↔ a ≠ k ∧ a ∈ s.cold.toList)
    (hghosts : ghosts.Coherent)
    (mem_ghosts : ∀ a, a ∈ ghosts.toList ↔ a ≠ k ∧ a ∈ s.ghosts.toList) :
    Sound { s with
      stack, cold, ghosts
      status := s.status.insert k .hot
      hotCount := s.hotCount + 1 } := by
  refine hs.update k hstack hcold hghosts (fun a ha => ?_) ?_ ?_
  · simp only [KeyMap.get?_insert, if_neg ha, mem_stack, mem_cold, mem_ghosts]
    simp [ha]
  · simp [Placed, KeyMap.get?_insert, mem_stack, mem_cold, mem_ghosts]
  · have hcount := hs.hotCount
    have hadd := hots_insert_add s.status k .hot
    rw [hotBit_of_ne hk, hotBit_hot] at hadd
    simp only
    omega

/-- A new key comes in cold. -/
theorem Sound.admit_cold (hs : s.Sound) (hk : s.status.get? k = none) :
    Sound { s with
      status := s.status.insert k .cold
      stack := s.stack.pushBack k
      cold := s.cold.pushBack k } := by
  refine hs.update k (hs.stack.pushBack k) (hs.cold.pushBack k) hs.ghosts (fun a ha => ?_) ?_ ?_
  · simp only [KeyMap.get?_insert, if_neg ha, hs.stack.mem_pushBack, hs.cold.mem_pushBack]
    simp [ha]
  · have : k ∉ s.ghosts.toList := fun h => by simp [hs.mem_ghosts_iff, hk] at h
    simp [Placed, KeyMap.get?_insert, hs.cold.mem_pushBack, this]
  · have hcount := hs.hotCount
    have hadd := hots_insert_add s.status k .cold
    rw [hk, hotBit_of_ne (by simp), hotBit_of_ne (by simp)] at hadd
    simp only
    omega

/-- A hot key becomes cold and leaves the stack. -/
theorem Sound.cool (hs : s.Sound) (hk : s.status.get? k = some .hot) :
    Sound { s with
      stack := (s.stack.remove k).2
      status := s.status.insert k .cold
      hotCount := s.hotCount - 1
      cold := s.cold.pushBack k } := by
  refine hs.update k (hs.stack.remove k) (hs.cold.pushBack k) hs.ghosts (fun a ha => ?_) ?_ ?_
  · simp only [KeyMap.get?_insert, if_neg ha, hs.stack.mem_remove, hs.cold.mem_pushBack]
    simp [ha]
  · have : k ∉ s.ghosts.toList := fun h => by simp [hs.mem_ghosts_iff, hk] at h
    simp [Placed, KeyMap.get?_insert, hs.cold.mem_pushBack, this]
  · have hcount := hs.hotCount
    have hadd := hots_insert_add s.status k .cold
    rw [hk, hotBit_hot, hotBit_of_ne (by simp)] at hadd
    simp only
    omega

/-- A cold key leaves the cold queue and stays in the stack as a ghost. -/
theorem Sound.haunt (hs : s.Sound) (hk : s.status.get? k = some .cold)
    (hstack : k ∈ s.stack.toList) :
    Sound { s with
      cold := (s.cold.remove k).2
      status := s.status.insert k .ghost
      ghosts := s.ghosts.pushBack k } := by
  refine hs.update k hs.stack (hs.cold.remove k) (hs.ghosts.pushBack k) (fun a ha => ?_) ?_ ?_
  · simp only [KeyMap.get?_insert, if_neg ha, hs.cold.mem_remove, hs.ghosts.mem_pushBack]
    simp [ha]
  · simp [Placed, KeyMap.get?_insert, hs.cold.mem_remove, hs.ghosts.mem_pushBack, hstack]
  · have hcount := hs.hotCount
    have hadd := hots_insert_add s.status k .ghost
    rw [hk, hotBit_of_ne (by simp), hotBit_of_ne (by simp)] at hadd
    simp only
    omega

/-- A cold key moves in the stack or leaves it; in the cold queue it may move. -/
theorem Sound.restack (hs : s.Sound) (hk : s.status.get? k = some .cold) {stack cold}
    (hstack : stack.Coherent) (mem_stack : ∀ a, a ≠ k → (a ∈ stack.toList ↔ a ∈ s.stack.toList))
    (hcold : cold.Coherent) (mem_cold : ∀ a, a ∈ cold.toList ↔ a ∈ s.cold.toList) :
    Sound { s with stack, cold } := by
  refine hs.update k hstack hcold hs.ghosts (fun a ha => ?_) ?_ hs.hotCount
  · exact ⟨rfl, mem_stack a ha, mem_cold a, Iff.rfl⟩
  · have := hs.placed k
    rw [Placed, hk] at this
    simpa [Placed, hk, mem_cold] using this

/-- A key is forgotten.  No queue holds it any longer. -/
theorem Sound.forget (hs : s.Sound) {stack cold ghosts}
    (hstack : stack.Coherent) (mem_stack : ∀ a, a ∈ stack.toList ↔ a ≠ k ∧ a ∈ s.stack.toList)
    (hcold : cold.Coherent) (mem_cold : ∀ a, a ∈ cold.toList ↔ a ≠ k ∧ a ∈ s.cold.toList)
    (hghosts : ghosts.Coherent)
    (mem_ghosts : ∀ a, a ∈ ghosts.toList ↔ a ≠ k ∧ a ∈ s.ghosts.toList) :
    Sound { s with
      stack, cold, ghosts
      status := s.status.erase k
      hotCount := s.hotCount - hotBit (s.status.get? k) } := by
  refine hs.update k hstack hcold hghosts (fun a ha => ?_) ?_ ?_
  · simp only [KeyMap.get?_erase, if_neg ha, mem_stack, mem_cold, mem_ghosts]
    simp [ha]
  · simp [Placed, KeyMap.get?_erase, mem_stack, mem_cold, mem_ghosts]
  · have hcount := hs.hotCount
    have hadd := hots_erase_add s.status k
    simp only
    omega

/-- A queue that does not hold a key is as it would be without it. -/
theorem mem_iff_of_not_mem {q : SequenceQueue K} (h : k ∉ q.toList) (a : K) :
    a ∈ q.toList ↔ a ≠ k ∧ a ∈ q.toList :=
  ⟨fun ha => ⟨fun he => h (he ▸ ha), ha⟩, And.right⟩

/-- A ghost is forgotten. -/
theorem Sound.forget_ghost (hs : s.Sound) (hk : s.status.get? k = some .ghost) :
    Sound { s with
      stack := (s.stack.remove k).2
      ghosts := (s.ghosts.remove k).2
      status := s.status.erase k } := by
  have hcold : k ∉ s.cold.toList := fun h => by simp [hs.mem_cold_iff, hk] at h
  have := hs.forget (hs.stack.remove k) (fun _ => hs.stack.mem_remove) hs.cold
    (mem_iff_of_not_mem hcold) (hs.ghosts.remove k) fun _ => hs.ghosts.mem_remove
  rw [hk] at this
  exact this

end Lirs
end ClusterCache
