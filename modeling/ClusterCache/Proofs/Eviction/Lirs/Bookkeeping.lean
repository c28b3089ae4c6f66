/-
# The books of the strategy agree

What is known about keys is written down in several places: in the stack, in the cold queue and the
queue of ghosts, in the status of each key, and in the count of the hot ones.  `Bookkeeping` says how
they agree, and `books_agree` that they do so after any requests.  The count never has to go below
zero: where it goes down, there is a hot key that goes, or there are more of them than slots.

What was missing for it is that ghosts do not pile up.  Only a cold key that goes becomes a ghost, and
then the oldest ghosts are forgotten until the rest fits its slots (`size_ghosts_forgetWithin`).  All
other operations let ghosts go, if anything (`Thins`).
-/

import ClusterCache.Proofs.Eviction.Residents
import ClusterCache.Proofs.Rows

namespace ClusterCache

/-- A removal makes no queue longer. -/
theorem SequenceQueue.size_remove_le {K : Type} [DecidableEq K] [Hashable K] (q : SequenceQueue K)
    (k : K) : (q.remove k).2.size ≤ q.size := by
  unfold remove
  split
  · exact Std.TreeMap.size_erase_le
  · exact Nat.le_refl _

/-- A strategy that is asked for a victim goes on from the state in which that leaves it. -/
theorem Strategy.serve_pop {K : Type} [DecidableEq K] (S : Strategy K) (s : S.State) (R : Finset K)
    (sh : S.Shared) : (S.serve (s, R) (.pop sh)).1 = (S.pop sh s).2.2 := by
  simp only [Strategy.serve]
  rcases S.pop sh s with ⟨_ | k, sh', s'⟩ <;> rfl

namespace Lirs

variable {K : Type} [DecidableEq K] [Hashable K] {s s' s'' : Lirs K} {slots : Nat}

/-! ### Ghosts do not pile up -/

/-- There are as many slots for ghosts as there were, and no more ghosts than there were. -/
structure Thins (s s' : Lirs K) : Prop where
  ghostSlots : s'.ghostSlots = s.ghostSlots
  ghosts : s'.ghosts.size ≤ s.ghosts.size

/-- Nothing is lost by doing nothing. -/
theorem Thins.refl (s : Lirs K) : s.Thins s := ⟨rfl, Nat.le_refl _⟩

/-- Ghosts do not pile up over two steps. -/
theorem Thins.trans (h : s.Thins s') (h' : s'.Thins s'') : s.Thins s'' :=
  ⟨h'.ghostSlots.trans h.ghostSlots, Nat.le_trans h'.ghosts h.ghosts⟩

/-- Ghosts that fall off the stack are gone from their queue, and none is made. -/
theorem thins_pruneWithin (s : Lirs K) (fuel : Nat) : s.Thins (s.pruneWithin fuel) := by
  induction fuel generalizing s with
  | zero => exact .refl s
  | succ fuel ih =>
    unfold pruneWithin
    split
    · exact .refl s
    · split
      · exact .refl s
      · rename_i bottom _ _ _
        have hghost : (s.ghosts.remove bottom).2.size ≤ s.ghosts.size :=
          s.ghosts.size_remove_le bottom
        refine Thins.trans ?_ (ih _)
        exact ⟨rfl, hghost⟩
      · refine Thins.trans ?_ (ih _)
        exact ⟨rfl, Nat.le_refl _⟩

/-- Taking keys off the bottom of the stack makes no ghost. -/
theorem thins_prune (s : Lirs K) : s.Thins s.prune := thins_pruneWithin s _

/-- Turning a hot key into a cold one makes no ghost. -/
theorem thins_demoteBottom (s : Lirs K) : s.Thins s.demoteBottom.2 := by
  have hprune := thins_prune s
  unfold demoteBottom
  simp only
  split
  · exact ⟨hprune.ghostSlots, hprune.ghosts⟩
  · refine Thins.trans ?_ (thins_prune _)
    exact ⟨hprune.ghostSlots, hprune.ghosts⟩

/-- Turning hot keys into cold ones makes no ghost. -/
theorem thins_demoteWithin (s : Lirs K) (fuel : Nat) : s.Thins (s.demoteWithin fuel) := by
  induction fuel generalizing s with
  | zero => exact .refl s
  | succ fuel ih =>
    have hbottom := thins_demoteBottom s
    unfold demoteWithin
    split
    · rcases hd : s.demoteBottom with ⟨_ | _, d⟩ <;> rw [hd] at hbottom
      · exact hbottom
      · exact hbottom.trans (ih d)
    · exact .refl s

/-- A key that becomes hot makes no ghost of another. -/
theorem thins_promote (s : Lirs K) (k : K) : s.Thins (s.promote k) := by
  refine Thins.trans ?_ (thins_demoteWithin (s.heated k) _)
  exact ⟨rfl, Nat.le_refl _⟩

/-- No key becomes a ghost by being used. -/
theorem thins_access (s : Lirs K) (k : K) : s.Thins (s.access k) := by
  unfold access
  split
  · simp only
    split
    · refine Thins.trans ?_ (thins_prune _)
      exact ⟨rfl, Nat.le_refl _⟩
    · exact ⟨rfl, Nat.le_refl _⟩
  · split
    · refine Thins.trans ?_ (thins_promote _ k)
      exact ⟨rfl, Nat.le_refl _⟩
    · exact ⟨rfl, Nat.le_refl _⟩
  · exact .refl s
  · exact .refl s

/-- No key becomes a ghost because another comes in. -/
theorem thins_push (s : Lirs K) (k : K) : s.Thins (s.push k) := by
  unfold push
  split
  · exact thins_access s k
  · exact thins_access s k
  · have hghost : (s.ghosts.remove k).2.size ≤ s.ghosts.size := s.ghosts.size_remove_le k
    refine Thins.trans ?_ (thins_promote _ k)
    exact ⟨rfl, hghost⟩
  · split <;> exact ⟨rfl, Nat.le_refl _⟩

/-- A key that is removed leaves no ghost. -/
theorem thins_remove (s : Lirs K) (k : K) : s.Thins (s.remove k) := by
  have hghost : (s.ghosts.remove k).2.size ≤ s.ghosts.size := s.ghosts.size_remove_le k
  unfold remove
  split
  · exact .refl s
  · simp only
    split
    · refine Thins.trans ?_ (thins_prune _)
      exact ⟨rfl, Nat.le_refl _⟩
    · exact ⟨rfl, Nat.le_refl _⟩
    · exact ⟨rfl, hghost⟩

/-- Ghosts are forgotten one by one until their slots are enough. -/
theorem size_ghosts_forgetWithin (fuel : Nat) (hs : s.ghosts.Coherent)
    (hfuel : s.ghosts.size ≤ s.ghostSlots + fuel) :
    (s.forgetWithin fuel).ghostSlots = s.ghostSlots ∧
      (s.forgetWithin fuel).ghosts.size ≤ s.ghostSlots := by
  induction fuel generalizing s with
  | zero => exact ⟨rfl, hfuel⟩
  | succ fuel ih =>
    have hlength := s.ghosts.size_eq_length
    rw [forgetWithin]
    split
    · cases hfront : s.ghosts.toList.head? with
      | none =>
        rw [List.head?_eq_none_iff.1 hfront, List.length_nil] at hlength
        omega
      | some g =>
        have htail : (s.ghosts.remove g).2.toList = s.ghosts.toList.tail := by
          rw [← hs.toList_popFront, hs.popFront_of_head? hfront]
        have hless : (s.ghosts.remove g).2.size = s.ghosts.size - 1 := by
          rw [SequenceQueue.size_eq_length, htail, List.length_tail, hlength]
        rw [hs.popFront_of_head? hfront]
        exact ih (hs.remove g) (by simp only; omega)
    · exact ⟨rfl, by omega⟩

/-- There are as many slots for ghosts as there were, and no more ghosts than that. -/
structure Houses (slots : Nat) (s : Lirs K) : Prop where
  ghostSlots : s.ghostSlots = slots
  ghosts : s.ghosts.size ≤ slots

/-- If ghosts do not pile up, the slots for them are still enough. -/
theorem Houses.of_thins (h : s.Houses slots) (ht : s.Thins s') : s'.Houses slots :=
  ⟨ht.ghostSlots.trans h.ghostSlots, Nat.le_trans ht.ghosts h.ghosts⟩

/-- **A cold key that goes leaves no more ghosts than there are slots.** -/
theorem Houses.pop (h : s.Houses slots) (hs : s.ghosts.Coherent) : s.pop.2.Houses slots := by
  have hslots := h.ghostSlots
  unfold Lirs.pop
  split
  · rename_i k cold _
    simp only
    split
    · obtain ⟨hsame, hle⟩ := size_ghosts_forgetWithin (s := { s with
        cold, status := s.status.insert k .ghost, ghosts := s.ghosts.pushBack k })
        (s.ghosts.pushBack k).size (hs.pushBack k) (Nat.le_add_left ..)
      exact ⟨hsame.trans hslots, hslots ▸ hle⟩
    · exact ⟨hslots, h.ghosts⟩
  · have hprune := h.of_thins (thins_prune s)
    simp only
    split
    · exact ⟨hprune.ghostSlots, hprune.ghosts⟩
    · refine Houses.of_thins ?_ (thins_prune _)
      exact ⟨hprune.ghostSlots, hprune.ghosts⟩

/-! ### The books -/

/-- What is written down about keys in different places agrees. -/
structure Bookkeeping (capacity hotSlots : Nat) (s : Lirs K) : Prop where
  /-- A hot key is in the stack and in no other queue. -/
  hot : ∀ a, s.status.get? a = some .hot →
    a ∈ s.stack.toList ∧ a ∉ s.cold.toList ∧ a ∉ s.ghosts.toList
  /-- A cold key is in the cold queue, and may be in the stack. -/
  cold : ∀ a, s.status.get? a = some .cold → a ∈ s.cold.toList ∧ a ∉ s.ghosts.toList
  /-- A ghost is in the stack and among the ghosts. -/
  ghost : ∀ a, s.status.get? a = some .ghost →
    a ∈ s.stack.toList ∧ a ∈ s.ghosts.toList ∧ a ∉ s.cold.toList
  mem_stack : ∀ a ∈ s.stack.toList, s.status.get? a ≠ none
  mem_cold : ∀ a ∈ s.cold.toList, s.status.get? a = some .cold
  mem_ghosts : ∀ a ∈ s.ghosts.toList, s.status.get? a = some .ghost
  /-- The hot keys are counted right. -/
  hotCount : {a | s.status.get? a = some .hot}.encard = s.hotCount
  hotCount_le : s.hotCount ≤ hotSlots
  /-- A hot key that is taken out was counted. -/
  count_remove : ∀ a, s.status.get? a = some .hot → (s.remove a).hotCount + 1 = s.hotCount
  /-- A key that goes although no key is cold was counted. -/
  count_pop : s.cold.toList = [] → ∀ a, s.pop.1 = some a → s.pop.2.hotCount + 1 = s.hotCount
  ghosts_le : {a | s.status.get? a = some .ghost}.encard ≤ max capacity 1
  /-- The keys of which something is known are those that are held, and few more. -/
  known_le : {a | s.status.get? a ≠ none}.encard ≤ s.size + max capacity 1

/-- The keys of which something is known are hot, cold or ghosts. -/
theorem Sound.nodup_known (hs : s.Sound) :
    (s.hotKeys ++ s.cold.toList ++ s.ghosts.toList).Nodup := by
  refine hs.nodup_held.append hs.ghosts.nodup_toList fun a ha ha' => ?_
  rw [hs.mem_held_iff, Resident] at ha
  rw [hs.mem_ghosts_iff] at ha'
  rw [ha'] at ha
  rcases ha with ha | ha <;> cases ha

/-- The keys that something is known about are the hot ones, the cold ones and the ghosts. -/
theorem Sound.mem_known_iff (hs : s.Sound) (a : K) :
    a ∈ s.hotKeys ++ s.cold.toList ++ s.ghosts.toList ↔ s.status.get? a ≠ none := by
  rw [List.mem_append, hs.mem_held_iff, hs.mem_ghosts_iff, Resident]
  cases hst : s.status.get? a with
  | none => simp
  | some st => cases st <;> simp

/-- If there is a hot key, the count of them is not zero. -/
theorem Sound.hotCount_pos (hs : s.Sound) {a : K} (ha : s.status.get? a = some .hot) :
    0 < s.hotCount := by
  rw [hs.hotCount]
  exact List.countP_pos_iff.2 ⟨(a, .hot), KeyMap.mem_toList_iff.2 ha, decide_eq_true rfl⟩

/-- There is a hot key to take off the count. -/
theorem Sound.hotCount_remove (hs : s.Sound) {a : K} (ha : s.status.get? a = some .hot) :
    (s.remove a).hotCount + 1 = s.hotCount := by
  have hcount : (s.remove a).hotCount = s.hotCount - 1 := by
    unfold Lirs.remove
    rw [ha]
    exact (level_prune _).hotCount
  have hpos := hs.hotCount_pos ha
  omega

/-- Without cold keys it is a hot one that goes, and there is one to take off the count. -/
theorem Sound.hotCount_pop (hs : s.Sound) (hcold : s.cold.toList = []) {a : K}
    (ha : s.pop.1 = some a) : s.pop.2.hotCount + 1 = s.hotCount := by
  have hpos : 0 < s.hotCount := by
    rcases hs.pop.2.2.1 a ha with hhot | hst
    · exact hs.hotCount_pos hhot
    · have hmem := hs.mem_cold_iff.2 hst
      rw [hcold] at hmem
      cases hmem
  have hprune := (level_prune s).hotCount
  unfold Lirs.pop at ha ⊢
  rw [hs.cold.popFront_of_nil hcold] at ha ⊢
  simp only at ha ⊢
  split at ha
  · cases ha
  · simp only [(level_prune _).hotCount]
    omega

/-- **States that are sound and keep to their slots have their books in order.** -/
theorem Sound.bookkeeping {capacity hotSlots : Nat} (hs : s.Sound) (hf : s.Fits hotSlots)
    (hh : s.Houses (max capacity 1)) : s.Bookkeeping capacity hotSlots where
  hot a ha := by
    have hplaced := hs.placed a
    rw [Placed, ha] at hplaced
    exact hplaced
  cold a ha := by
    have hplaced := hs.placed a
    rw [Placed, ha] at hplaced
    exact hplaced
  ghost a ha := by
    have hplaced := hs.placed a
    rw [Placed, ha] at hplaced
    exact ⟨hplaced.1, hplaced.2.2, hplaced.2.1⟩
  mem_stack a ha := hs.known_of_stack ha
  mem_cold a ha := hs.mem_cold_iff.1 ha
  mem_ghosts a ha := hs.mem_ghosts_iff.1 ha
  hotCount := by
    have hnd := (List.nodup_append.1 hs.nodup_held).1
    have hlength := hs.length_held
    rw [List.length_append] at hlength
    rw [encard_eq_length hnd fun a => mem_hotKeys_iff]
    exact congrArg _ (by omega)
  hotCount_le := hf.hotCount
  count_remove a ha := hs.hotCount_remove ha
  count_pop hcold a ha := hs.hotCount_pop hcold ha
  ghosts_le := by
    rw [encard_eq_length hs.ghosts.nodup_toList fun a => hs.mem_ghosts_iff,
      ← SequenceQueue.size_eq_length]
    exact_mod_cast hh.ghosts
  known_le := by
    have hghosts := hh.ghosts
    have hlength := hs.length_held
    rw [SequenceQueue.size_eq_length] at hghosts
    rw [encard_eq_length hs.nodup_known hs.mem_known_iff, List.length_append, size,
      SequenceQueue.size_eq_length]
    exact_mod_cast (by omega)

/-- A state that is sound and keeps to its slots. -/
structure Kept (capacity hotSlots : Nat) (s : Lirs K) : Prop where
  sound : s.Sound
  fits : s.Fits hotSlots
  houses : s.Houses (max capacity 1)

/-- The first state keeps to its slots. -/
theorem kept_init (capacity hotSlots : Nat) : (init capacity hotSlots : Lirs K).Kept capacity hotSlots :=
  ⟨sound_init .., fits_init .., rfl, Nat.zero_le _⟩

/-- **Every request keeps to the slots.** -/
theorem Kept.serve {capacity hotSlots : Nat} {ratio : Float} (h : s.Kept capacity hotSlots)
    (R : Finset K) (q : (Strategy.lirs K ratio).Request) :
    Kept capacity hotSlots ((Strategy.lirs K ratio).serve (s, R) q).1 := by
  cases q with
  | push k =>
    exact ⟨(h.sound.push k).1, h.fits.push h.sound k, h.houses.of_thins (thins_push s k)⟩
  | access k =>
    exact ⟨(h.sound.access k).1, h.fits.access h.sound k, h.houses.of_thins (thins_access s k)⟩
  | remove k =>
    exact ⟨(h.sound.remove k).1, h.fits.remove k, h.houses.of_thins (thins_remove s k)⟩
  | pop sh =>
    have hpop : Kept capacity hotSlots s.pop.2 :=
      ⟨h.sound.pop.1, h.fits.pop, h.houses.pop h.sound.ghosts⟩
    have hstate : ((Strategy.lirs K ratio).serve (s, R) (.pop sh)).1 = s.pop.2 :=
      Strategy.serve_pop (Strategy.lirs K ratio) s R sh
    exact hstate ▸ hpop
  | clear => exact ⟨sound_clear s, h.fits.clear, h.houses.ghostSlots, Nat.zero_le _⟩

/-- **The books are in order after any requests**, whatever there is room for and however many slots
are hot. -/
theorem books_agree (capacity hotSlots : Nat) (ratio : Float)
    (requests : List (Strategy.lirs K ratio).Request) :
    Bookkeeping capacity hotSlots
      (requests.foldl (Strategy.lirs K ratio).serve (init capacity hotSlots, ∅)).1 := by
  have hrun : ∀ (s : Lirs K) (R : Finset K), s.Kept capacity hotSlots →
      Kept capacity hotSlots (requests.foldl (Strategy.lirs K ratio).serve (s, R)).1 := by
    induction requests with
    | nil => exact fun s R h => h
    | cons q rest ih =>
      intro s R h
      exact ih _ _ (h.serve R q)
  obtain ⟨hs, hf, hh⟩ := hrun _ ∅ (kept_init capacity hotSlots)
  exact hs.bookkeeping hf hh

end Lirs
end ClusterCache
