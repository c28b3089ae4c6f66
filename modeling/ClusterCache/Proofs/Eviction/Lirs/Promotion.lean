/-
# What a key that is used again in time does to the others

A key that the stack still remembers becomes hot when it is used: a ghost when it is pushed, a cold key
when it is pushed or accessed (`Recalls`).  Either way it goes to the top of the stack and leaves the
queue it was in, and then one and the same thing is done about it (`Sound.recalled`).  If there is a
slot for it, that is all.  If all slots are taken, one hot key turns cold (`Cools`): the head of the row
of hot keys, which is the one used longest ago.  Ghosts and cold keys that stand below the hot ones
leave the stack on the way, and this changes nothing for the keys that are held (`promotion_after`).
-/

import ClusterCache.Proofs.Eviction.Lirs.Recency

namespace ClusterCache
namespace Lirs

variable {K : Type} [DecidableEq K] [Hashable K] {s s' p : Lirs K} {k a b : K}

/-! ### A hot key turns cold -/

/-- Of a key that is held the same is known as before. -/
theorem Keeps.get?_eq (h : s.Keeps s') (ha : s.Resident a) : s'.status.get? a = s.status.get? a := by
  rcases ha with hhot | hcold
  · rw [hhot, (h.hot_iff a).2 hhot]
  · rw [hcold, (h.cold_iff a).2 hcold]

/-- A hot key turns cold, and nothing else changes for the keys that are held. -/
structure Cools (s : Lirs K) (b : K) (s' : Lirs K) : Prop where
  sound : s'.Sound
  cooled : s'.status.get? b = some .cold
  cold : s'.cold.toList = s.cold.toList ++ [b]
  not_mem_stack : b ∉ s'.stack.toList
  /-- Only the lower part of the stack has gone. -/
  stack : s'.stack.toList <:+ s.stack.toList
  /-- The bottom of the stack is hot. -/
  bottom : ∀ a, s'.stack.toList.head? = some a → s'.status.get? a = some .hot
  others : ∀ a, a ≠ b → s.Resident a → s'.status.get? a = s.status.get? a

/-- The head of the row turns cold. -/
theorem Sound.cools_demoteBottom (hs : s.Sound) (hb : s.hotRow.head? = some b) :
    s.Cools b s.demoteBottom.2 := by
  have hp := hs.prune
  have hhot := hs.hot_prune hb
  have hcooled := hp.sound.cooled hhot
  have hkeeps := hcooled.prune
  have hself : (s.prune.cooled b).status.get? b = some .cold := KeyMap.get?_insert_self ..
  have hoff : ∀ a, a ≠ b → s.Resident a →
      (s.prune.cooled b).status.get? a = s.status.get? a := by
    intro a ha hres
    exact (KeyMap.get?_insert_of_ne ha).trans (hp.get?_eq hres)
  rw [hs.demoteBottom_of_head? hb]
  refine ⟨hkeeps.sound, (hkeeps.cold_iff b).2 hself, ?_, fun hmem => ?_, ?_,
    fun _ => hcooled.head?_prune, fun a ha hres => ?_⟩
  · have hnew := hp.sound.not_mem_cold (k := b) (by rw [hhot]; simp)
    rw [(level_prune _).cold, Lirs.cooled, hp.sound.cold.toList_pushBack, List.erase_of_not_mem hnew,
      (level_prune s).cold]
  · exact (hp.sound.stack.mem_remove.1 (hcooled.suffix_prune.subset hmem)).1 rfl
  · have hgone : (s.prune.cooled b).stack.toList = s.prune.stack.toList.tail := by
      have hbottom := hs.head?_stack_prune.trans hb
      rw [← hp.sound.stack.toList_popFront, hp.sound.stack.popFront_of_head? hbottom]
      rfl
    exact hcooled.suffix_prune.trans ((hgone ▸ List.tail_suffix _).trans hs.suffix_prune)
  · refine (hkeeps.get?_eq ?_).trans (hoff a ha hres)
    rw [Resident, hoff a ha hres]
    exact hres

/-! ### A key comes back -/

/-- Of the other keys the same is known as before. -/
theorem Recalled.get?_heated (hp : s.Recalled k p) (ha : a ≠ k) :
    (p.heated k).status.get? a = s.status.get? a := by
  rw [get?_heated_of_ne ha, hp.status]

/-- The key stands at the top of the stack. -/
theorem Recalled.getLast?_heated (hp : s.Recalled k p) :
    (p.heated k).stack.toList.getLast? = some k :=
  (congrArg List.getLast? hp.stack).trans List.getLast?_concat

section Requests

open Strategy (lastUse)

variable {ratio : Float} {requests : List (Strategy.lirs K ratio).Request}
  {q : (Strategy.lirs K ratio).Request} {capacity hotSlots : Nat}

/-- A request uses a key that is not hot and that the stack remembers. -/
inductive Recalls (s : Lirs K) (k : K) : (Strategy.lirs K ratio).Request → Prop
  | ghost : s.status.get? k = some .ghost → Recalls s k (.push k)
  | accessed : s.status.get? k = some .cold → k ∈ s.stack.toList → Recalls s k (.access k)
  | pushed : s.status.get? k = some .cold → k ∈ s.stack.toList → Recalls s k (.push k)

/-- A request that recalls a key puts it in its place and makes it hot, in whichever of the ways it
does. -/
theorem Sound.recalled (hs : s.Sound) (hq : s.Recalls k q) :
    ∃ p, s.Recalled k p ∧ ((Strategy.lirs K ratio).serve (s, ∅) q).1 = p.promote k := by
  cases hq with
  | ghost hk => exact hs.recalled_push hk
  | accessed hk hstack => exact hs.recalled_access hk hstack
  | pushed hk hstack =>
    obtain ⟨p, hp, haccess⟩ := hs.recalled_access hk hstack
    -- pushing a resident key is a use of it
    have hpush : s.push k = s.access k := by rw [Lirs.push, hk]
    exact ⟨p, hp, hpush.trans haccess⟩

/-- A key that is recalled is a ghost or cold. -/
theorem Recalls.known (hq : s.Recalls k q) :
    s.status.get? k = some .ghost ∨ s.status.get? k = some .cold := by
  cases hq with
  | ghost hk => exact Or.inl hk
  | accessed hk _ => exact Or.inr hk
  | pushed hk _ => exact Or.inr hk

/-- A key that is recalled is not hot. -/
theorem Recalls.not_hot (hq : s.Recalls k q) : s.status.get? k ≠ some .hot := by
  rcases hq.known with hk | hk <;> rw [hk] <;> simp

/-- What becomes of the keys when one that the stack remembered is used. -/
structure Promotion (hotSlots : Nat) (requests : List (Strategy.lirs K ratio).Request) (k : K)
    (s s' : Lirs K) : Prop where
  hot : s'.status.get? k = some .hot
  top : s'.stack.toList.getLast? = some k
  not_cold : k ∉ s'.cold.toList
  not_ghost : k ∉ s'.ghosts.toList
  /-- If there is a slot left, the other keys stay what they are. -/
  room : {a | s.status.get? a = some .hot}.encard < hotSlots →
    ∀ a, a ≠ k → s.Resident a → s'.status.get? a = s.status.get? a
  /-- If there is none, one hot key turns cold.  It is the one that was used longest ago. -/
  full : {a | s.status.get? a = some .hot}.encard = hotSlots →
    ∃ b, b ≠ k ∧ s.status.get? b = some .hot ∧
      (∀ a, a ≠ b → s.status.get? a = some .hot → lastUse requests b < lastUse requests a) ∧
      s'.status.get? b = some .cold ∧ s'.cold.toList = s.cold.toList.erase k ++ [b] ∧
      b ∉ s'.stack.toList ∧
      ∀ a, a ≠ k → a ≠ b → s.Resident a → s'.status.get? a = s.status.get? a
  /-- A ghost joins the keys that are held, and a cold key was one of them before. -/
  residents : {a | s'.Resident a}.encard =
    {a | s.Resident a}.encard + if s.status.get? k = some .ghost then 1 else 0

/-- The head of the row was used before all other hot keys. -/
theorem Recorded.lastUse_lt (h : s.Recorded capacity hotSlots requests)
    (hb : s.hotRow.head? = some b) (ha : s.status.get? a = some .hot) (hne : a ≠ b) :
    lastUse requests b < lastUse requests a := by
  obtain ⟨rest, hrow⟩ := List.head?_eq_some_iff.1 hb
  have hordered := h.ordered
  rw [hrow, List.pairwise_cons] at hordered
  have hmem := h.kept.sound.mem_hotRow_iff.2 ha
  rw [hrow, List.mem_cons] at hmem
  exact hordered.1 a (hmem.resolve_left hne)

/-- There are as many hot keys as are counted. -/
theorem Kept.encard_hot (h : s.Kept capacity hotSlots) :
    {a | s.status.get? a = some .hot}.encard = s.hotCount :=
  (h.sound.bookkeeping h.fits h.houses).hotCount

/-- A key that becomes hot either finds a slot, or takes the one of the head of the row. -/
theorem Recalled.promote_cases (hp : s.Recalled k p) (h : s.Kept capacity hotSlots)
    (hk : s.status.get? k ≠ some .hot) (hpos : 0 < hotSlots) :
    (s.hotCount < hotSlots ∧ p.promote k = p.heated k) ∨
    ∃ b, s.hotCount = hotSlots ∧ s.hotRow.head? = some b ∧ (p.heated k).Cools b (p.promote k) := by
  have hslots : (p.heated k).hotSlots = hotSlots := hp.hotSlots.trans h.fits.hotSlots
  have hcount : (p.heated k).hotCount = s.hotCount + 1 := congrArg (· + 1) hp.hotCount
  have hle := h.fits.hotCount
  have hdemote := hp.heated.demoteWithin_of_le (by omega) p.hotCount
  have hpromote : p.promote k = (p.heated k).demoteWithin (p.hotCount + 1) := rfl
  rw [hslots, hcount] at hdemote
  rw [hpromote, hdemote]
  split
  · refine Or.inr ?_
    have hrow := hp.hotRow_heated h.sound hk
    cases hhead : s.hotRow with
    | nil =>
      obtain ⟨a, ha⟩ := exists_hot_of_hots_pos (m := s.status) (h.sound.hotCount ▸ by omega)
      have hmem := h.sound.mem_hotRow_iff.2 ha
      rw [hhead] at hmem
      cases hmem
    | cons b rest =>
      refine ⟨b, by omega, List.head?_cons, hp.heated.cools_demoteBottom ?_⟩
      rw [hrow, hhead, List.cons_append, List.head?_cons]
  · exact Or.inl ⟨by omega, rfl⟩

/-- A ghost joins the keys that are held, and a cold key was one of them before. -/
theorem Recalled.encard_resident (hp : s.Recalled k p)
    (hk : s.status.get? k = some .ghost ∨ s.status.get? k = some .cold) :
    {a | (p.promote k).Resident a}.encard =
      {a | s.Resident a}.encard + if s.status.get? k = some .ghost then 1 else 0 := by
  have hset : {a | (p.promote k).Resident a} = insert k {a | s.Resident a} := by
    ext a
    refine ((Sound.promote_of_heated hp.heated).2 a).trans (or_congr_right ?_)
    rw [Resident, hp.status]
    exact Iff.rfl
  rw [hset]
  rcases hk with hghost | hcold
  · have hnew : k ∉ {a | s.Resident a} := by
      show ¬ s.Resident k
      rw [Resident, hghost]
      simp
    rw [if_pos hghost, Set.encard_insert_of_notMem hnew]
  · have hold : k ∈ {a | s.Resident a} := Or.inr hcold
    rw [if_neg (by rw [hcold]; simp), Set.insert_eq_of_mem hold, add_zero]

/-- With a slot left, the other keys stay what they are. -/
theorem Recalled.promotion_of_room (hp : s.Recalled k p) (h : s.Kept capacity hotSlots)
    (hk : s.status.get? k = some .ghost ∨ s.status.get? k = some .cold)
    (hroom : s.hotCount < hotSlots) (heq : p.promote k = p.heated k) :
    Promotion hotSlots requests k s (p.promote k) := by
  have hsound := (Sound.promote_of_heated hp.heated).1
  have hhot : (p.promote k).status.get? k = some .hot := heq ▸ get?_heated_self
  refine ⟨hhot, heq ▸ hp.getLast?_heated, hsound.not_mem_cold (by rw [hhot]; simp),
    hsound.not_mem_ghosts (by rw [hhot]; simp), fun _ a ha _ => ?_, fun hfull => ?_,
    hp.encard_resident hk⟩
  · rw [heq, hp.get?_heated ha]
  · rw [h.encard_hot, Nat.cast_inj] at hfull
    omega

/-- Without one, the head of the row turns cold. -/
theorem Recalled.promotion_of_full (hp : s.Recalled k p) (h : s.Recorded capacity hotSlots requests)
    (hk : s.status.get? k = some .ghost ∨ s.status.get? k = some .cold)
    (hfull : s.hotCount = hotSlots) (hb : s.hotRow.head? = some b)
    (hcools : (p.heated k).Cools b (p.promote k)) :
    Promotion hotSlots requests k s (p.promote k) := by
  have hsound := hcools.sound
  have hbhot := h.kept.sound.mem_hotRow_iff.1 (List.mem_of_head? hb)
  have hbk : b ≠ k := by
    rintro rfl
    rw [hbhot] at hk
    rcases hk with hk | hk <;> cases hk
  have hhot : (p.promote k).status.get? k = some .hot :=
    (hcools.others k hbk.symm (Or.inl get?_heated_self)).trans get?_heated_self
  have hothers : ∀ a, a ≠ k → a ≠ b → s.Resident a →
      (p.promote k).status.get? a = s.status.get? a := by
    intro a ha hab hres
    have hoff := hp.get?_heated ha
    rw [← hoff]
    refine hcools.others a hab ?_
    rw [Resident, hoff]
    exact hres
  refine ⟨hhot, ?_, hsound.not_mem_cold (by rw [hhot]; simp),
    hsound.not_mem_ghosts (by rw [hhot]; simp), fun hroom => ?_, fun _ => ⟨b, hbk, hbhot,
      fun a ha hst => h.lastUse_lt hb hst ha, hcools.cooled, ?_, hcools.not_mem_stack, hothers⟩,
    hp.encard_resident hk⟩
  · -- the key is in what is left of the stack, so what is left goes up to the top
    obtain ⟨gone, hgone⟩ := hcools.stack
    have hne := List.ne_nil_of_mem (hsound.stack_of_hot hhot)
    rw [← List.getLast?_append_of_ne_nil gone hne, hgone, hp.getLast?_heated]
  · rw [h.kept.encard_hot, Nat.cast_lt] at hroom
    omega
  · rw [hcools.cold]
    exact congrArg (· ++ [b]) hp.cold

/-- **A key that is used again in time becomes hot**, at the cost of the hot key that was used longest ago
if all slots are taken, and at no other key's cost. -/
theorem promotion_after (hpos : 0 < hotSlots)
    (hq : (after capacity hotSlots requests).Recalls k q) :
    Promotion hotSlots requests k (after capacity hotSlots requests)
      (after capacity hotSlots (requests ++ [q])) := by
  have h := recorded_after capacity hotSlots requests
  obtain ⟨p, hp, hserve⟩ := h.kept.sound.recalled hq
  rw [after_concat, hserve]
  rcases hp.promote_cases h.kept hq.not_hot hpos with ⟨hroom, heq⟩ | ⟨b, hfull, hb, hcools⟩
  · exact hp.promotion_of_room h.kept hq.known hroom heq
  · exact hp.promotion_of_full h hq.known hfull hb hcools

/-- Keys 1 and 2 have the two slots, and 1 was used last; so 2 turns cold when 3 is used.  When 3 has gone
and 1 was removed, 3 finds a slot. -/
theorem promotion_after_three :
    let full : List (Strategy.lirs Nat 0.5).Request := [.push 1, .push 2, .push 3, .access 1]
    let room : List (Strategy.lirs Nat 0.5).Request :=
      [.push 1, .push 2, .push 3, .pop (), .remove 1]
    ((after 3 2 (full ++ [.access 3])).cold.toList = [2] ∧
      (after 3 2 (room ++ [.push 3])).cold.toList = []) ∧
    Promotion 2 full 3 (after 3 2 full) (after 3 2 (full ++ [.access 3])) ∧
    Promotion 2 room 3 (after 3 2 room) (after 3 2 (room ++ [.push 3])) := by
  refine ⟨by decide +kernel, promotion_after (by decide) (.accessed ?_ ?_),
    promotion_after (by decide) (.ghost ?_)⟩ <;> decide +kernel

end Requests

end Lirs
end ClusterCache
