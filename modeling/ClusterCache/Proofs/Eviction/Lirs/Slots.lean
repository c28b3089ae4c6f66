/-
# There are never more hot keys than hot slots

A key that becomes hot while the slots are full turns one other key cold, or itself, and so every
operation keeps to the slots (`Fits`).  A shard has fewer slots than room (`hotSlotsFor_lt`), and its
keys are the hot ones and those in the cold queue (`Sound.length_eq`).  So once it holds more keys than
it has room for, two of them at least are cold: one can be given up that is not the one that came in
last, which is hot or stands at the end of the cold queue (`Sound.recent_push`).

A key of which nothing is known leaves the hot keys alone when it comes in
(`hot_push_of_unknown`), and so does a cold key when it goes (`Sound.hot_pop`).
-/

import ClusterCache.Proofs.Eviction.Lirs.Tracking

namespace ClusterCache
namespace Lirs

variable {K : Type} [DecidableEq K] [Hashable K] {s s' s'' : Lirs K} {k a : K} {slots : Nat}

/-- There are as many slots as there were, and no more hot keys than that. -/
structure Fits (slots : Nat) (s : Lirs K) : Prop where
  hotSlots : s.hotSlots = slots
  hotCount : s.hotCount ≤ slots

/-- Without keys no slot is taken. -/
theorem fits_init (capacity hotSlots : Nat) : (init capacity hotSlots : Lirs K).Fits hotSlots :=
  ⟨rfl, Nat.zero_le _⟩

/-- When all keys are forgotten no slot is taken. -/
theorem Fits.clear (h : s.Fits slots) : s.clear.Fits slots := ⟨h.hotSlots, Nat.zero_le _⟩

/-- A shard with room for any keys has room for one that is not hot. -/
theorem hotSlotsFor_lt {capacity : Nat} (h : 0 < capacity) (ratio : Float) :
    hotSlotsFor capacity ratio < capacity :=
  Nat.sub_lt h (Nat.lt_of_lt_of_le Nat.one_pos (Nat.le_max_left ..))

/-! ### Ghosts take no slots -/

/-- The cold queue, the slots and the number of hot keys are as they were. -/
structure Level (s s' : Lirs K) : Prop where
  cold : s'.cold = s.cold
  hotSlots : s'.hotSlots = s.hotSlots
  hotCount : s'.hotCount = s.hotCount

/-- A state is level with itself. -/
theorem Level.refl (s : Lirs K) : s.Level s := ⟨rfl, rfl, rfl⟩

/-- What is level with a level state is level. -/
theorem Level.trans (h : s.Level s') (h' : s'.Level s'') : s.Level s'' :=
  ⟨h'.cold.trans h.cold, h'.hotSlots.trans h.hotSlots, h'.hotCount.trans h.hotCount⟩

/-- The slots are enough for a level state. -/
theorem Fits.of_level (h : s.Fits slots) (hl : s.Level s') : s'.Fits slots :=
  ⟨hl.hotSlots.trans h.hotSlots, hl.hotCount.symm ▸ h.hotCount⟩

/-- Taking keys off the bottom of the stack makes none hot. -/
theorem level_pruneWithin (s : Lirs K) (fuel : Nat) : s.Level (s.pruneWithin fuel) := by
  induction fuel generalizing s with
  | zero => exact .refl s
  | succ fuel ih =>
    unfold pruneWithin
    split
    · exact .refl s
    · split
      · exact .refl s
      · refine Level.trans ?_ (ih _)
        exact ⟨rfl, rfl, rfl⟩
      · refine Level.trans ?_ (ih _)
        exact ⟨rfl, rfl, rfl⟩

/-- Pruning makes no key hot. -/
theorem level_prune (s : Lirs K) : s.Level s.prune := level_pruneWithin s _

/-- Forgetting ghosts makes no key hot. -/
theorem level_forgetWithin (s : Lirs K) (fuel : Nat) : s.Level (s.forgetWithin fuel) := by
  induction fuel generalizing s with
  | zero => exact .refl s
  | succ fuel ih =>
    unfold forgetWithin
    split
    · split
      · exact ⟨rfl, rfl, rfl⟩
      · refine Level.trans ?_ (ih _)
        exact ⟨rfl, rfl, rfl⟩
    · exact .refl s

/-! ### A hot key too many -/

/-- If hot keys are counted, there is one. -/
theorem exists_hot_of_hots_pos {m : KeyMap K Status} (h : 0 < hots m) :
    ∃ a, m.get? a = some .hot := by
  obtain ⟨⟨a, st⟩, he, hst⟩ := List.countP_pos_iff.1 h
  obtain rfl := of_decide_eq_true hst
  exact ⟨a, KeyMap.mem_toList_iff.1 he⟩

/-- One hot key goes to the end of the cold queue, and the other ones stay hot. -/
theorem Sound.demoteBottom_cases (hs : s.Sound) (hpos : 0 < s.hotCount) :
    ∃ k d, s.demoteBottom = (true, d) ∧ d.hotSlots = s.hotSlots ∧ d.hotCount + 1 = s.hotCount ∧
      d.cold = s.cold.pushBack k ∧
      ∀ a, a ≠ k → s.status.get? a = some .hot → d.status.get? a = some .hot := by
  have hp := hs.prune
  have hl := level_prune s
  have hhot := fun k => hs.head?_prune (k := k)
  have hcount := hs.hotCount
  unfold Lirs.demoteBottom
  generalize s.prune = p at hp hl hhot
  cases hfront : p.stack.toList.head? with
  | none =>
    obtain ⟨a, ha⟩ := exists_hot_of_hots_pos (hcount ▸ hpos)
    have hmem := hp.sound.stack_of_hot ((hp.hot_iff a).2 ha)
    rw [List.head?_eq_none_iff.1 hfront] at hmem
    cases hmem
  | some k =>
    have hk := hhot k hfront
    have hcool := (hp.sound.cool hk).prune
    have hlevel := level_prune { p with
      stack := (p.stack.remove k).2
      status := p.status.insert k .cold
      hotCount := p.hotCount - 1
      cold := p.cold.pushBack k }
    simp only [hp.sound.stack.popFront_of_head? hfront]
    refine ⟨k, _, rfl, hlevel.hotSlots.trans hl.hotSlots, ?_, ?_, fun a ha hst => ?_⟩
    · rw [hlevel.hotCount, hl.hotCount]
      exact Nat.sub_add_cancel hpos
    · rw [hlevel.cold, hl.cold]
    · refine (hcool.hot_iff a).2 ?_
      rw [KeyMap.get?_insert, if_neg ha]
      exact (hp.hot_iff a).2 hst

/-- Where there is one hot key too many, one turns cold and that is enough. -/
theorem Sound.demoteWithin_of_le (hs : s.Sound) (hle : s.hotCount ≤ s.hotSlots + 1) (fuel : Nat) :
    s.demoteWithin (fuel + 1) = if s.hotSlots < s.hotCount then s.demoteBottom.2 else s := by
  rw [Lirs.demoteWithin]
  split
  · rename_i hlt
    obtain ⟨k, d, hd, hslots, hcount, -, -⟩ := hs.demoteBottom_cases (Nat.zero_lt_of_lt hlt)
    have hroom : ¬ d.hotSlots < d.hotCount := by omega
    simp only [hd]
    cases fuel with
    | zero => rfl
    | succ fuel => rw [Lirs.demoteWithin, if_neg hroom]
  · rfl

/-- Making a key hot turns no key cold, or one: the key itself, or another one. -/
theorem Fits.promote_cases (h : s.Fits slots) (hs : (s.heated k).Sound) :
    (s.promote k = s.heated k ∧ s.hotCount + 1 ≤ slots) ∨
    ∃ b, (s.promote k).hotSlots = slots ∧ (s.promote k).hotCount = s.hotCount ∧
      (s.promote k).cold = s.cold.pushBack b ∧
      ∀ a, a ≠ b → (s.heated k).status.get? a = some .hot →
        (s.promote k).status.get? a = some .hot := by
  have hslots := h.hotSlots
  have hcount := h.hotCount
  have hslots' : (s.heated k).hotSlots = s.hotSlots := rfl
  have hcount' : (s.heated k).hotCount = s.hotCount + 1 := rfl
  have hdemote := hs.demoteWithin_of_le (by omega) s.hotCount
  have hpromote : s.promote k = (s.heated k).demoteWithin (s.hotCount + 1) := rfl
  rw [hpromote, hdemote]
  split
  · obtain ⟨b, d, hd, hslots_d, hcount_d, hcold, hhot⟩ := hs.demoteBottom_cases (by omega)
    rw [hd]
    refine Or.inr ⟨b, ?_, ?_, hcold, hhot⟩
    · show d.hotSlots = slots
      omega
    · show d.hotCount = s.hotCount
      omega
  · exact Or.inl ⟨rfl, by omega⟩

/-- After a promotion the slots are enough, as the oldest hot key makes room. -/
theorem Fits.promote (h : s.Fits slots) (hs : (s.heated k).Sound) : (s.promote k).Fits slots := by
  rcases h.promote_cases hs with ⟨heq, hle⟩ | ⟨b, hslots, hcount, -, -⟩
  · rw [heq]
    exact ⟨h.hotSlots, hle⟩
  · exact ⟨hslots, hcount ▸ h.hotCount⟩

/-! ### The operations keep to the slots -/

/-- The slots are enough after a key was used. -/
theorem Fits.access (h : s.Fits slots) (hs : s.Sound) (k : K) : (s.access k).Fits slots := by
  unfold Lirs.access
  cases hk : s.status.get? k with
  | none => exact h
  | some st =>
    cases st with
    | ghost => exact h
    | hot =>
      have htouch : Fits slots { s with stack := (s.stack.touch k).2 } := ⟨h.hotSlots, h.hotCount⟩
      simp only
      split
      · exact htouch.of_level (level_prune _)
      · exact htouch
    | cold =>
      simp only
      split
      · rename_i hstack
        have hheated := hs.heated_access hk hstack
        exact Fits.promote ⟨h.hotSlots, h.hotCount⟩ hheated
      · exact ⟨h.hotSlots, h.hotCount⟩

/-- The slots are enough after a key came in. -/
theorem Fits.push (h : s.Fits slots) (hs : s.Sound) (k : K) : (s.push k).Fits slots := by
  unfold Lirs.push
  cases hk : s.status.get? k with
  | none =>
    have hslots := h.hotSlots
    simp only
    split
    · exact ⟨hslots, by simp only; omega⟩
    · exact ⟨hslots, h.hotCount⟩
  | some st =>
    cases st with
    | hot => exact h.access hs k
    | cold => exact h.access hs k
    | ghost =>
      have hheated := hs.heated_push hk
      exact Fits.promote ⟨h.hotSlots, h.hotCount⟩ hheated

/-- The slots are enough after a key was removed. -/
theorem Fits.remove (h : s.Fits slots) (k : K) : (s.remove k).Fits slots := by
  unfold Lirs.remove
  cases s.status.get? k with
  | none => exact h
  | some st =>
    cases st with
    | hot =>
      have hless : s.hotCount - 1 ≤ slots := Nat.le_trans (Nat.sub_le ..) h.hotCount
      refine Fits.of_level ?_ (level_prune _)
      exact ⟨h.hotSlots, hless⟩
    | cold => exact ⟨h.hotSlots, h.hotCount⟩
    | ghost => exact ⟨h.hotSlots, h.hotCount⟩

/-- The slots are enough after a victim went. -/
theorem Fits.pop (h : s.Fits slots) : s.pop.2.Fits slots := by
  unfold Lirs.pop
  split
  · simp only
    split
    · refine Fits.of_level ?_ (level_forgetWithin _ _)
      exact ⟨h.hotSlots, h.hotCount⟩
    · exact ⟨h.hotSlots, h.hotCount⟩
  · have hprune := h.of_level (level_prune s)
    simp only
    split
    · exact ⟨hprune.hotSlots, hprune.hotCount⟩
    · have hless : s.prune.hotCount - 1 ≤ slots := Nat.le_trans (Nat.sub_le ..) hprune.hotCount
      refine Fits.of_level ?_ (level_prune _)
      exact ⟨hprune.hotSlots, hless⟩

/-! ### Cold keys are left -/

/-- The hot keys. -/
def hotKeys (s : Lirs K) : List K := (s.status.toList.filter fun e => e.2 = .hot).map Prod.fst

/-- The hot keys listed are those that are known as hot. -/
theorem mem_hotKeys_iff : a ∈ s.hotKeys ↔ s.status.get? a = some .hot := by
  simp [hotKeys, KeyMap.mem_toList_iff]

/-- A key that is held is hot or in the cold queue, and never both. -/
theorem Sound.nodup_held (hs : s.Sound) : (s.hotKeys ++ s.cold.toList).Nodup := by
  have hnd : s.hotKeys.Nodup := s.status.nodup_keys.sublist (List.filter_sublist.map Prod.fst)
  refine hnd.append hs.cold.nodup_toList fun a ha ha' => ?_
  rw [mem_hotKeys_iff] at ha
  rw [hs.mem_cold_iff, ha] at ha'
  cases ha'

/-- The hot and the cold keys are those that are held. -/
theorem Sound.mem_held_iff (hs : s.Sound) : a ∈ s.hotKeys ++ s.cold.toList ↔ s.Resident a := by
  rw [List.mem_append, mem_hotKeys_iff, hs.mem_cold_iff]
  exact Iff.rfl

/-- There are as many keys held as are counted hot and queue up cold. -/
theorem Sound.length_held (hs : s.Sound) :
    (s.hotKeys ++ s.cold.toList).length = s.hotCount + s.cold.toList.length := by
  rw [List.length_append, hotKeys, List.length_map, ← List.countP_eq_length_filter, hs.hotCount, hots]

/-- **The keys that are held are the hot ones and those in the cold queue.** -/
theorem Sound.held_perm (hs : s.Sound) {keys : List K} (hnodup : keys.Nodup)
    (hkeys : ∀ a, s.Resident a ↔ a ∈ keys) : keys.Perm (s.hotKeys ++ s.cold.toList) := by
  refine (List.perm_ext_iff_of_nodup hnodup hs.nodup_held).2 fun a => ?_
  rw [hs.mem_held_iff]
  exact (hkeys a).symm

/-- There are as many keys as hot ones and keys in the cold queue. -/
theorem Sound.length_eq (hs : s.Sound) {keys : List K} (hnodup : keys.Nodup)
    (hkeys : ∀ a, s.Resident a ↔ a ∈ keys) :
    keys.length = s.hotCount + s.cold.toList.length := by
  rw [← hs.length_held, (hs.held_perm hnodup hkeys).length_eq]

/-! ### Who came in last -/

/-- The key is hot or at the end of the cold queue. -/
def Recent (s : Lirs K) (k : K) : Prop :=
  s.status.get? k = some .hot ∨ s.cold.toList.getLast? = some k

/-- A key that is pushed stands last. -/
theorem getLast?_pushBack {q : SequenceQueue K} (hq : q.Coherent) (k : K) :
    (q.pushBack k).toList.getLast? = some k := by
  rw [hq.toList_pushBack, List.getLast?_concat]

/-- A key that becomes hot stays hot, or is the last that became cold. -/
theorem Fits.recent_promote (h : s.Fits slots) (hs : (s.heated k).Sound) (hcold : s.cold.Coherent) :
    (s.promote k).Recent k := by
  have hhot : (s.heated k).status.get? k = some .hot := get?_heated_self
  rcases h.promote_cases hs with ⟨heq, -⟩ | ⟨b, -, -, hpush, hstay⟩
  · exact Or.inl (heq ▸ hhot)
  · by_cases hb : k = b
    · subst hb
      exact Or.inr (hpush ▸ getLast?_pushBack hcold k)
    · exact Or.inl (hstay k hb hhot)

/-- **A key that comes in is hot or goes to the end of the cold queue.** -/
theorem Sound.recent_push (hs : s.Sound) (hf : s.Fits slots) (hk : ¬ s.Resident k) :
    (s.push k).Recent k := by
  unfold Lirs.push
  cases hst : s.status.get? k with
  | none =>
    simp only
    split
    · have hhot : (s.status.insert k .hot).get? k = some .hot := KeyMap.get?_insert_self ..
      exact Or.inl hhot
    · have hlast : (s.cold.pushBack k).toList.getLast? = some k := getLast?_pushBack hs.cold k
      exact Or.inr hlast
  | some st =>
    cases st with
    | hot => exact absurd (Or.inl hst) hk
    | cold => exact absurd (Or.inr hst) hk
    | ghost =>
      have hheated := hs.heated_push hst
      exact Fits.recent_promote ⟨hf.hotSlots, hf.hotCount⟩ hheated hs.cold

/-- Of two cold keys the first is not the one that came in last. -/
theorem Sound.ne_of_recent (hs : s.Sound) (hlength : 2 ≤ s.cold.toList.length)
    (hrecent : s.Recent k) (ha : s.cold.toList.head? = some a) : a ≠ k := by
  rintro rfl
  rcases hrecent with hhot | hlast
  · have hcold := hs.mem_cold_iff.1 (List.mem_of_head? ha)
    rw [hhot] at hcold
    cases hcold
  · have hnd := hs.cold.nodup_toList
    obtain ⟨rest, hrest⟩ := List.head?_eq_some_iff.1 ha
    rw [hrest] at hlast hnd hlength
    cases rest with
    | nil => exact absurd hlength (by simp)
    | cons b rest =>
      rw [List.getLast?_cons_cons] at hlast
      exact (List.nodup_cons.1 hnd).1 (List.mem_of_getLast? hlast)

/-! ### Hot keys stay -/

/-- **A key of which nothing is known leaves the hot keys hot.** -/
theorem hot_push_of_unknown (hk : s.status.get? k = none)
    (ha : s.status.get? a = some .hot) : (s.push k).status.get? a = some .hot := by
  have hne : a ≠ k := by
    rintro rfl
    rw [ha] at hk
    cases hk
  have hkept : ∀ st, (s.status.insert k st).get? a = some .hot := fun st =>
    (KeyMap.get?_insert_of_ne hne).trans ha
  unfold Lirs.push
  rw [hk]
  simp only
  split
  · exact hkept .hot
  · exact hkept .cold

/-- **A cold key that goes leaves the hot keys hot.** -/
theorem Sound.hot_pop (hs : s.Sound) (hk : s.cold.toList.head? = some k)
    (ha : s.status.get? a = some .hot) : s.pop.2.status.get? a = some .hot := by
  have hst := hs.mem_cold_iff.1 (List.mem_of_head? hk)
  have hne : a ≠ k := by
    rintro rfl
    rw [ha] at hst
    cases hst
  unfold Lirs.pop
  rw [hs.cold.popFront_of_head? hk]
  simp only
  split
  · rename_i hstack
    have hbury := (hs.haunt hst (hs.stack.contains_iff.1 hstack)).forgetWithin
      (s.ghosts.pushBack k).size
    refine (hbury.hot_iff a).2 ?_
    rw [KeyMap.get?_insert, if_neg hne, ha]
  · rw [KeyMap.get?_erase, if_neg hne, ha]

end Lirs
end ClusterCache
