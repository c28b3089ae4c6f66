/-
# What the operations do to the keys that are held

Taking keys off the stack bottom (`prune`) and forgetting the oldest ghosts (`forgetWithin`) leave
hot keys hot and cold keys cold (`Keeps`).  Turning hot keys into cold ones (`demoteWithin`) leaves
the keys that are held as they are.  After `prune` the bottom of the stack is hot, so a hot key is
never passed over: this is why `pop` names none only if no key is held.

`tracking` collects what each operation does to the keys that are held.
-/

import ClusterCache.Proofs.Eviction.Lirs

namespace ClusterCache
namespace Lirs

variable {K : Type} [DecidableEq K] [Hashable K] {s s' s'' : Lirs K} {k a : K}

/-! ### Ghosts come and go -/

/-- Hot keys stay hot and cold keys stay cold. -/
structure Keeps (s s' : Lirs K) : Prop where
  sound : s'.Sound
  hot_iff : ∀ a, s'.status.get? a = some .hot ↔ s.status.get? a = some .hot
  cold_iff : ∀ a, s'.status.get? a = some .cold ↔ s.status.get? a = some .cold

/-- Doing nothing keeps every key. -/
theorem Keeps.refl (hs : s.Sound) : s.Keeps s := ⟨hs, fun _ => Iff.rfl, fun _ => Iff.rfl⟩

/-- Two steps that keep every key keep them together. -/
theorem Keeps.trans (h : s.Keeps s') (h' : s'.Keeps s'') : s.Keeps s'' :=
  ⟨h'.sound, fun a => (h'.hot_iff a).trans (h.hot_iff a),
    fun a => (h'.cold_iff a).trans (h.cold_iff a)⟩

/-- The same keys are held. -/
theorem Keeps.resident_iff (h : s.Keeps s') : s'.Resident a ↔ s.Resident a := by
  rw [Resident, Resident, h.hot_iff, h.cold_iff]

/-- A ghost that is forgotten takes no key that is held with it. -/
theorem Sound.keeps_forget_ghost (hs : s.Sound) (hk : s.status.get? k = some .ghost) :
    s.Keeps { s with
      stack := (s.stack.remove k).2
      ghosts := (s.ghosts.remove k).2
      status := s.status.erase k } := by
  refine ⟨hs.forget_ghost hk, fun a => ?_, fun a => ?_⟩ <;>
    · simp only [KeyMap.get?_erase]
      by_cases ha : a = k <;> simp [ha, hk]

/-- A cold key that leaves the stack stays in the cold queue. -/
theorem Sound.keeps_unstack (hs : s.Sound) (hk : s.status.get? k = some .cold) :
    s.Keeps { s with stack := (s.stack.remove k).2 } := by
  refine ⟨?_, fun _ => Iff.rfl, fun _ => Iff.rfl⟩
  refine hs.restack hk (hs.stack.remove k) (fun a ha => ?_) hs.cold fun _ => Iff.rfl
  rw [hs.stack.mem_remove]
  exact and_iff_right ha

/-- Pruning takes off the bottom, or stops at a hot one. -/
theorem Sound.pruneWithin_succ (hs : s.Sound) (fuel : Nat) :
    (s.pruneWithin (fuel + 1) = s ∧
      ∀ k, s.stack.toList.head? = some k → s.status.get? k = some .hot) ∨
    ∃ s', s.Keeps s' ∧ s'.stack.toList = s.stack.toList.tail ∧ s.stack.toList ≠ [] ∧
      s.pruneWithin (fuel + 1) = s'.pruneWithin fuel := by
  rw [pruneWithin, SequenceQueue.front?_eq_head?]
  cases hfront : s.stack.toList.head? with
  | none => exact Or.inl ⟨rfl, fun k hk => by cases hk⟩
  | some bottom =>
    have hpop := hs.stack.popFront_of_head? hfront
    have htail : (s.stack.remove bottom).2.toList = s.stack.toList.tail := by
      rw [← hs.stack.toList_popFront, hpop]
    have hne : s.stack.toList ≠ [] := fun h => by rw [h] at hfront; cases hfront
    have hknown := hs.known_of_stack (List.mem_of_head? hfront)
    simp only [hpop]
    cases hst : s.status.get? bottom with
    | none => exact absurd hst hknown
    | some st =>
      cases st with
      | hot => exact Or.inl ⟨rfl, fun k hk => by cases hk; exact hst⟩
      | ghost => exact Or.inr ⟨_, hs.keeps_forget_ghost hst, htail, hne, rfl⟩
      | cold => exact Or.inr ⟨_, hs.keeps_unstack hst, htail, hne, rfl⟩

/-- Taking keys off the bottom of the stack keeps all that are held. -/
theorem Sound.pruneWithin (hs : s.Sound) (fuel : Nat) : s.Keeps (s.pruneWithin fuel) := by
  induction fuel generalizing s with
  | zero => exact .refl hs
  | succ fuel ih =>
    rcases hs.pruneWithin_succ fuel with ⟨h, -⟩ | ⟨s', hk, -, -, h⟩
    · rw [h]
      exact .refl hs
    · have hrest : s'.Keeps (s'.pruneWithin fuel) := ih hk.sound
      rw [h]
      exact hk.trans hrest

/-- After enough rounds the key at the bottom is hot. -/
theorem Sound.head?_pruneWithin (hs : s.Sound) (fuel : Nat)
    (hfuel : s.stack.toList.length ≤ fuel) (hk : (s.pruneWithin fuel).stack.toList.head? = some k) :
    (s.pruneWithin fuel).status.get? k = some .hot := by
  induction fuel generalizing s with
  | zero =>
    have hnil : s.stack.toList = [] := List.length_eq_zero_iff.1 (Nat.le_zero.1 hfuel)
    rw [Lirs.pruneWithin, hnil] at hk
    cases hk
  | succ fuel ih =>
    rcases hs.pruneWithin_succ fuel with ⟨h, hhot⟩ | ⟨s', hkeeps, htail, hne, h⟩
    · rw [h] at hk ⊢
      exact hhot k hk
    · have hless : s'.stack.toList.length ≤ fuel := by
        rw [htail, List.length_tail]
        omega
      rw [h] at hk ⊢
      exact ih hkeeps.sound hless hk

/-- Pruning keeps all keys that are held. -/
theorem Sound.prune (hs : s.Sound) : s.Keeps s.prune := hs.pruneWithin _

/-- **After pruning, the bottom of the stack is hot.** -/
theorem Sound.head?_prune (hs : s.Sound) (hk : s.prune.stack.toList.head? = some k) :
    s.prune.status.get? k = some .hot :=
  hs.head?_pruneWithin _ (Nat.le_of_eq s.stack.size_eq_length.symm) hk

/-- Forgetting ghosts keeps all keys that are held. -/
theorem Sound.forgetWithin (hs : s.Sound) (fuel : Nat) : s.Keeps (s.forgetWithin fuel) := by
  induction fuel generalizing s with
  | zero => exact .refl hs
  | succ fuel ih =>
    rw [Lirs.forgetWithin]
    split
    · cases hfront : s.ghosts.toList.head? with
      | none =>
        rw [hs.ghosts.popFront_of_nil (List.head?_eq_none_iff.1 hfront)]
        exact .refl hs
      | some g =>
        have hg := hs.mem_ghosts_iff.1 (List.mem_of_head? hfront)
        rw [hs.ghosts.popFront_of_head? hfront]
        have hkeeps := hs.keeps_forget_ghost hg
        exact hkeeps.trans (ih hkeeps.sound)
    · exact .refl hs

/-! ### Hot keys cool down -/

/-- A demotion gives up no key. -/
theorem Sound.demoteBottom (hs : s.Sound) :
    s.demoteBottom.2.Sound ∧ ∀ a, s.demoteBottom.2.Resident a ↔ s.Resident a := by
  have hp := hs.prune
  have hhot := fun k => hs.head?_prune (k := k)
  unfold Lirs.demoteBottom
  generalize s.prune = p at hp hhot
  cases hfront : p.stack.toList.head? with
  | none =>
    simp only [hp.sound.stack.popFront_of_nil (List.head?_eq_none_iff.1 hfront)]
    exact ⟨hp.sound, fun a => hp.resident_iff⟩
  | some k =>
    simp only [hp.sound.stack.popFront_of_head? hfront]
    have hk := hhot k hfront
    have hcool := (hp.sound.cool hk).prune
    refine ⟨hcool.sound, fun a => hcool.resident_iff.trans (Iff.trans ?_ hp.resident_iff)⟩
    simp only [Resident, KeyMap.get?_insert]
    by_cases ha : a = k <;> simp [ha, hk]

/-- Demotions give up no key. -/
theorem Sound.demoteWithin (hs : s.Sound) (fuel : Nat) :
    (s.demoteWithin fuel).Sound ∧ ∀ a, (s.demoteWithin fuel).Resident a ↔ s.Resident a := by
  induction fuel generalizing s with
  | zero => exact ⟨hs, fun _ => Iff.rfl⟩
  | succ fuel ih =>
    rw [Lirs.demoteWithin]
    split
    · have hd := hs.demoteBottom
      rcases h : s.demoteBottom with ⟨b, d⟩
      rw [h] at hd
      cases b with
      | true =>
        obtain ⟨hsound, hres⟩ := ih hd.1
        exact ⟨hsound, fun a => (hres a).trans (hd.2 a)⟩
      | false => exact hd
    · exact ⟨hs, fun _ => Iff.rfl⟩

/-- The state in which a key was made hot and none was turned cold for it yet. -/
def heated (s : Lirs K) (k : K) : Lirs K :=
  { s with status := s.status.insert k .hot, hotCount := s.hotCount + 1 }

/-- The key that is heated is hot. -/
theorem get?_heated_self : (s.heated k).status.get? k = some .hot := KeyMap.get?_insert_self ..

/-- Of every other key the same is known as before. -/
theorem get?_heated_of_ne (ha : a ≠ k) : (s.heated k).status.get? a = s.status.get? a :=
  KeyMap.get?_insert_of_ne ha

/-- A key that becomes hot joins the keys that are held. -/
theorem Sound.promote_of_heated (hs : (s.heated k).Sound) :
    (s.promote k).Sound ∧ ∀ a, (s.promote k).Resident a ↔ a = k ∨ s.Resident a := by
  obtain ⟨hsound, hres⟩ := hs.demoteWithin (s.hotCount + 1)
  refine ⟨hsound, fun a => (hres a).trans ?_⟩
  simp only [heated, Resident, KeyMap.get?_insert]
  by_cases ha : a = k <;> simp [ha]

/-! ### The operations -/

/-- A key that is not cold is not in the cold queue. -/
theorem Sound.not_mem_cold (hs : s.Sound) (hk : s.status.get? k ≠ some .cold) :
    k ∉ s.cold.toList := fun h => hk (hs.mem_cold_iff.1 h)

/-- A key that is no ghost is not in the queue of ghosts. -/
theorem Sound.not_mem_ghosts (hs : s.Sound) (hk : s.status.get? k ≠ some .ghost) :
    k ∉ s.ghosts.toList := fun h => hk (hs.mem_ghosts_iff.1 h)

/-- A hot key is forgotten. -/
theorem Sound.forget_hot (hs : s.Sound) (hk : s.status.get? k = some .hot) :
    Sound { s with
      stack := (s.stack.remove k).2
      status := s.status.erase k
      hotCount := s.hotCount - 1 } := by
  have hforget := hs.forget (hs.stack.remove k) (fun _ => hs.stack.mem_remove) hs.cold
    (mem_iff_of_not_mem (hs.not_mem_cold (by rw [hk]; simp))) hs.ghosts
    (mem_iff_of_not_mem (hs.not_mem_ghosts (by rw [hk]; simp)))
  rw [hk, hotBit_hot] at hforget
  exact hforget

/-- A cold key that the stack still knows becomes hot. -/
theorem Sound.heated_access (hs : s.Sound) (hk : s.status.get? k = some .cold)
    (hstack : s.stack.contains k = true) :
    Sound (heated { s with stack := (s.stack.touch k).2, cold := (s.cold.remove k).2 } k) := by
  have hmem := hs.stack.contains_iff.1 hstack
  exact hs.heat (by rw [hk]; simp) (hs.stack.touch k)
    (fun a => hs.stack.mem_touch.trans ⟨Or.inr, fun h => h.elim (fun he => he ▸ hmem) id⟩)
    (hs.cold.remove k) (fun _ => hs.cold.mem_remove) hs.ghosts
    (mem_iff_of_not_mem (hs.not_mem_ghosts (by rw [hk]; simp)))

/-- A ghost comes back hot. -/
theorem Sound.heated_push (hs : s.Sound) (hk : s.status.get? k = some .ghost) :
    Sound (heated { s with ghosts := (s.ghosts.remove k).2, stack := s.stack.pushBack k } k) :=
  hs.heat (by rw [hk]; simp) (hs.stack.pushBack k) (fun _ => hs.stack.mem_pushBack) hs.cold
    (mem_iff_of_not_mem (hs.not_mem_cold (by rw [hk]; simp))) (hs.ghosts.remove k)
    fun _ => hs.ghosts.mem_remove

/-- A hot key goes to the top of the stack. -/
theorem Sound.keeps_touch (hs : s.Sound) : s.Keeps { s with stack := (s.stack.touch k).2 } := by
  refine ⟨⟨hs.stack.touch k, hs.cold, hs.ghosts, fun a => ?_, hs.hotCount⟩,
    fun _ => Iff.rfl, fun _ => Iff.rfl⟩
  have := hs.placed a
  rw [Placed] at this ⊢
  simp only [hs.stack.mem_touch]
  exact this

/-- **A key that is used** brings in none and gives up none. -/
theorem Sound.access (hs : s.Sound) (k : K) :
    (s.access k).Sound ∧ ∀ a, (s.access k).Resident a ↔ s.Resident a := by
  unfold Lirs.access
  cases hk : s.status.get? k with
  | none => exact ⟨hs, fun _ => Iff.rfl⟩
  | some st =>
    cases st with
    | ghost => exact ⟨hs, fun _ => Iff.rfl⟩
    | hot =>
      have htouch : s.Keeps { s with stack := (s.stack.touch k).2 } := hs.keeps_touch
      simp only
      split
      · have hprune := htouch.trans htouch.sound.prune
        exact ⟨hprune.sound, fun a => hprune.resident_iff⟩
      · exact ⟨htouch.sound, fun a => htouch.resident_iff⟩
    | cold =>
      simp only
      split
      · rename_i hstack
        obtain ⟨hsound, hres⟩ := Sound.promote_of_heated (hs.heated_access hk hstack)
        refine ⟨hsound, fun a => (hres a).trans ⟨fun h => ?_, Or.inr⟩⟩
        exact h.elim (fun he => Or.inr (he ▸ hk)) id
      · refine ⟨?_, fun _ => Iff.rfl⟩
        exact hs.restack hk (hs.stack.pushBack k)
          (fun a ha => hs.stack.mem_pushBack.trans (or_iff_right ha)) (hs.cold.touch k)
          fun _ => hs.cold.mem_touch

/-- **A key that comes in** is held from then on, and no other is given up. -/
theorem Sound.push (hs : s.Sound) (k : K) :
    (s.push k).Sound ∧ ∀ a, (s.push k).Resident a ↔ a = k ∨ s.Resident a := by
  have hheld : s.Resident k → (s.access k).Sound ∧
      ∀ a, (s.access k).Resident a ↔ a = k ∨ s.Resident a := fun hr => by
    obtain ⟨hsound, hres⟩ := hs.access k
    refine ⟨hsound, fun a => (hres a).trans ⟨Or.inr, fun h => ?_⟩⟩
    exact h.elim (fun he => he ▸ hr) id
  unfold Lirs.push
  cases hk : s.status.get? k with
  | none =>
    have hcold := hs.not_mem_cold (k := k) (by rw [hk]; simp)
    have hghosts := hs.not_mem_ghosts (k := k) (by rw [hk]; simp)
    simp only
    split
    · refine ⟨hs.heat (by rw [hk]; simp) (hs.stack.pushBack k) (fun _ => hs.stack.mem_pushBack)
        hs.cold (mem_iff_of_not_mem hcold) hs.ghosts (mem_iff_of_not_mem hghosts), fun a => ?_⟩
      simp only [Resident, KeyMap.get?_insert]
      by_cases ha : a = k <;> simp [ha]
    · refine ⟨hs.admit_cold hk, fun a => ?_⟩
      simp only [Resident, KeyMap.get?_insert]
      by_cases ha : a = k <;> simp [ha]
  | some st =>
    cases st with
    | hot => exact hheld (Or.inl hk)
    | cold => exact hheld (Or.inr hk)
    | ghost => exact Sound.promote_of_heated (hs.heated_push hk)

/-- Forgetting a key leaves the other ones held. -/
theorem resident_erase {m : KeyMap K Status} (hm : s'.status = m.erase k) (hs : s.status = m) :
    s'.Resident a ↔ a ≠ k ∧ s.Resident a := by
  rw [Resident, Resident, hm, hs, KeyMap.get?_erase]
  by_cases ha : a = k <;> simp [ha]

/-- **A key that is removed** is no longer held, and all others are. -/
theorem Sound.remove (hs : s.Sound) (k : K) :
    (s.remove k).Sound ∧ ∀ a, (s.remove k).Resident a ↔ a ≠ k ∧ s.Resident a := by
  unfold Lirs.remove
  cases hk : s.status.get? k with
  | none =>
    refine ⟨hs, fun a => ⟨fun h => ⟨fun he => ?_, h⟩, And.right⟩⟩
    rw [he, Resident, hk] at h
    simp at h
  | some st =>
    have hstack := fun a => hs.stack.mem_remove (k := k) (a := a)
    cases st with
    | hot =>
      have hprune := (hs.forget_hot hk).prune
      exact ⟨hprune.sound, fun a => hprune.resident_iff.trans (resident_erase rfl rfl)⟩
    | cold =>
      have hforget := hs.forget (hs.stack.remove k) hstack (hs.cold.remove k)
        (fun _ => hs.cold.mem_remove) hs.ghosts
        (mem_iff_of_not_mem (hs.not_mem_ghosts (by rw [hk]; simp)))
      rw [hk] at hforget
      exact ⟨hforget, fun a => resident_erase rfl rfl⟩
    | ghost => exact ⟨hs.forget_ghost hk, fun a => resident_erase rfl rfl⟩

/-- A cold key goes, maybe to stay as a ghost. -/
theorem Sound.pop_cold (hs : s.Sound) (hk : s.cold.toList.head? = some k) :
    s.pop.1 = some k ∧ s.pop.2.Sound ∧ ∀ a, s.pop.2.Resident a ↔ a ≠ k ∧ s.Resident a := by
  have hst := hs.mem_cold_iff.1 (List.mem_of_head? hk)
  unfold Lirs.pop
  rw [hs.cold.popFront_of_head? hk]
  refine ⟨rfl, ?_⟩
  simp only
  split
  · rename_i hstack
    have hbury := (hs.haunt hst (hs.stack.contains_iff.1 hstack)).forgetWithin
      (s.ghosts.pushBack k).size
    refine ⟨hbury.sound, fun a => hbury.resident_iff.trans ?_⟩
    simp only [Resident, KeyMap.get?_insert]
    by_cases ha : a = k <;> simp [ha]
  · rename_i hstack
    have hforget := hs.forget hs.stack
      (mem_iff_of_not_mem fun h => hstack (hs.stack.contains_iff.2 h)) (hs.cold.remove k)
      (fun _ => hs.cold.mem_remove) hs.ghosts
      (mem_iff_of_not_mem (hs.not_mem_ghosts (by rw [hst]; simp)))
    rw [hst] at hforget
    exact ⟨hforget, fun a => resident_erase rfl rfl⟩

/-- Without cold keys, the hot key at the bottom of the stack goes, and none only if there is
none. -/
theorem Sound.pop_hot (hs : s.Sound) (hcold : s.cold.toList = []) :
    s.pop.2.Sound ∧ (∀ a, s.pop.2.Resident a ↔ s.pop.1 ≠ some a ∧ s.Resident a) ∧
      (∀ a, s.pop.1 = some a → s.Resident a) ∧ (s.pop.1 = none → ∀ a, ¬ s.Resident a) := by
  have hp := hs.prune
  have hhot := fun k => hs.head?_prune (k := k)
  unfold Lirs.pop
  rw [hs.cold.popFront_of_nil hcold]
  simp only
  generalize s.prune = p at hp hhot
  cases hfront : p.stack.toList.head? with
  | none =>
    have hnil := List.head?_eq_none_iff.1 hfront
    simp only [hp.sound.stack.popFront_of_nil hnil]
    refine ⟨hp.sound, fun a => ?_, (fun a h => by cases h), fun _ a h => ?_⟩
    · rw [hp.resident_iff]
      simp
    · rcases h with h | h
      · have := hp.sound.stack_of_hot ((hp.hot_iff a).2 h)
        rw [hnil] at this
        cases this
      · have := hs.mem_cold_iff.2 h
        rw [hcold] at this
        cases this
  | some k =>
    have hk := hhot k hfront
    have hprune := (hp.sound.forget_hot hk).prune
    simp only [hp.sound.stack.popFront_of_head? hfront]
    refine ⟨hprune.sound, fun a => ?_, fun a h => ?_, fun h => by cases h⟩
    · rw [hprune.resident_iff, resident_erase rfl rfl, hp.resident_iff]
      simp [eq_comm]
    · cases h
      exact Or.inl ((hp.hot_iff k).1 hk)

/-- **A victim** was held and is not any more; all others are, and there is none only if no key is
held. -/
theorem Sound.pop (hs : s.Sound) :
    s.pop.2.Sound ∧ (∀ a, s.pop.2.Resident a ↔ s.pop.1 ≠ some a ∧ s.Resident a) ∧
      (∀ a, s.pop.1 = some a → s.Resident a) ∧ (s.pop.1 = none → ∀ a, ¬ s.Resident a) := by
  cases hfront : s.cold.toList.head? with
  | none => exact hs.pop_hot (List.head?_eq_none_iff.1 hfront)
  | some k =>
    obtain ⟨hk, hsound, hres⟩ := hs.pop_cold hfront
    have hcold : s.status.get? k = some .cold := hs.mem_cold_iff.1 (List.mem_of_head? hfront)
    refine ⟨hsound, fun a => ?_, fun a h => ?_, fun h => ?_⟩
    · rw [hres, hk]
      simp [eq_comm]
    · rw [hk] at h
      cases h
      exact Or.inr hcold
    · rw [hk] at h
      cases h

/-- The hot keys and the cold ones. -/
def tracking (ratio : Float) : (Strategy.lirs K ratio).Tracking where
  Sound := Sound
  Resident := Resident
  sound_init _ := sound_init _ _
  sound_push k hs := (hs.push k).1
  sound_access k hs := (hs.access k).1
  sound_remove k hs := (hs.remove k).1
  sound_pop _ hs := hs.pop.1
  sound_clear := sound_clear
  not_resident_init _ _ := by simp [Resident, Strategy.lirs, init]
  resident_push hs := (hs.push _).2 _
  resident_access hs := (hs.access _).2 _
  resident_remove hs := (hs.remove _).2 _
  resident_pop _ hs := hs.pop.2.1 _
  not_resident_clear _ _ := by simp [Resident, Strategy.lirs, clear]
  pop_resident _ hs h := hs.pop.2.2.1 _ h
  pop_none _ hs h := hs.pop.2.2.2 h

end Lirs
end ClusterCache
