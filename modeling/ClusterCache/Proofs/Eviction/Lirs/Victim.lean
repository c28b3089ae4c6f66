/-
# Whether the key that came in last goes first

The front of the cold queue goes first, and without cold keys the hot key that was used longest ago,
which is the first hot one in the stack (`Sound.pop_fst`).  That is also the key that turns cold where
there is one hot key too many (`Sound.cold_demoteBottom`).

A key that comes in goes to the top of the stack, and to the end of the cold queue if it comes in
cold.  So it is the next victim only if no cold key is before it, and, should it be hot, no hot key
either (`Sound.pop_push_iff`).
-/

import ClusterCache.Proofs.Eviction.Lirs.Slots

namespace ClusterCache
namespace Lirs

variable {K : Type} [DecidableEq K] [Hashable K] {s s' : Lirs K} {k a : K} {slots : Nat}

/-! ### The hot key used longest ago -/

/-- The first hot key in the stack. -/
def firstHot? (s : Lirs K) : Option K := s.stack.toList.find? fun a => s.status.get? a = some .hot

/-- Pruning takes nothing off the stack but what stands before the first hot key. -/
theorem Sound.head?_pruneWithin_eq (hs : s.Sound) (fuel : Nat)
    (hfuel : s.stack.toList.length ≤ fuel) :
    (s.pruneWithin fuel).stack.toList.head? = s.firstHot? := by
  induction fuel generalizing s with
  | zero =>
    have hnil : s.stack.toList = [] := List.length_eq_zero_iff.1 (Nat.le_zero.1 hfuel)
    rw [Lirs.pruneWithin, firstHot?, hnil]
    rfl
  | succ fuel ih =>
    rcases hs.pruneWithin_succ fuel with ⟨h, hhot⟩ | ⟨s', hkeeps, htail, hne, h⟩
    · rw [h, firstHot?]
      cases hstack : s.stack.toList with
      | nil => rfl
      | cons bottom rest =>
        have hbottom := hhot bottom (by rw [hstack]; rfl)
        rw [List.find?_cons, decide_eq_true hbottom]
        rfl
    · have hlength : s'.stack.toList.length ≤ fuel := by
        rw [htail, List.length_tail]
        omega
      rw [h, ih hkeeps.sound hlength, firstHot?, firstHot?, htail]
      simp only [hkeeps.hot_iff]
      obtain ⟨bottom, rest, hstack⟩ := List.exists_cons_of_ne_nil hne
      -- a hot key stays in the stack, and the bottom has gone
      have hbottom : s.status.get? bottom ≠ some .hot := fun hhot => by
        have hmem := hkeeps.sound.stack_of_hot ((hkeeps.hot_iff bottom).2 hhot)
        have hnd := hs.stack.nodup_toList
        rw [htail, hstack] at hmem
        rw [hstack] at hnd
        exact (List.nodup_cons.1 hnd).1 hmem
      rw [hstack, List.find?_cons_of_neg (by simpa using hbottom), List.tail_cons]

/-- After pruning the bottom of the stack is its first hot key. -/
theorem Sound.head?_prune_eq (hs : s.Sound) : s.prune.stack.toList.head? = s.firstHot? :=
  hs.head?_pruneWithin_eq _ (Nat.le_of_eq s.stack.size_eq_length.symm)

/-- **The front of the cold queue goes**, and if there is none, the first hot key in the stack. -/
theorem Sound.pop_fst (hs : s.Sound) : s.pop.1 = s.cold.toList.head?.or s.firstHot? := by
  cases hfront : s.cold.toList.head? with
  | some k => exact (hs.pop_cold hfront).1
  | none =>
    have hp := hs.prune
    have hcold : s.cold.toList = [] := List.head?_eq_none_iff.1 hfront
    rw [Option.none_or, ← hs.head?_prune_eq, Lirs.pop, hs.cold.popFront_of_nil hcold]
    simp only
    generalize s.prune = p at hp
    cases hbottom : p.stack.toList.head? with
    | none =>
      have hstack : p.stack.toList = [] := List.head?_eq_none_iff.1 hbottom
      rw [hp.sound.stack.popFront_of_nil hstack]
    | some k => rw [hp.sound.stack.popFront_of_head? hbottom]

/-- Where a hot key turns cold, it is the first one in the stack. -/
theorem Sound.cold_demoteBottom (hs : s.Sound) (hk : s.firstHot? = some k) :
    s.demoteBottom.2.cold = s.cold.pushBack k := by
  have hp := hs.prune
  have hl := level_prune s
  have hbottom := hs.head?_prune_eq.trans hk
  unfold Lirs.demoteBottom
  generalize s.prune = p at hp hl hbottom
  simp only [hp.sound.stack.popFront_of_head? hbottom]
  exact (level_prune _).cold.trans (congrArg (·.pushBack k) hl.cold)

/-! ### The last hot key -/

/-- Without a key no hot one is counted exactly if no other key is hot. -/
theorem hots_erase_eq_zero_iff {m : KeyMap K Status} :
    hots (m.erase k) = 0 ↔ ∀ a, a ≠ k → m.get? a ≠ some .hot := by
  constructor
  · intro h a ha hhot
    have hadd := hots_erase_add (m.erase k) a
    rw [KeyMap.get?_erase, if_neg ha, hhot, hotBit_hot] at hadd
    omega
  · intro h
    refine Nat.eq_zero_of_not_pos fun hpos => ?_
    obtain ⟨a, ha⟩ := exists_hot_of_hots_pos hpos
    rw [KeyMap.get?_erase] at ha
    split at ha
    · cases ha
    · rename_i hne
      exact h a hne ha

/-- A hot key at the top of the stack is the first hot one only if there is no other. -/
theorem Sound.firstHot?_eq_iff (hs : s.Sound) {l : List K} (hstack : s.stack.toList = l ++ [k])
    (hk : s.status.get? k = some .hot) : s.firstHot? = some k ↔ s.hotCount = 1 := by
  have hnd := hs.stack.nodup_toList
  have hkl : k ∉ l := fun h => by
    rw [hstack] at hnd
    exact (List.nodup_append.1 hnd).2.2 k h k (List.mem_singleton_self k) rfl
  have hcount : s.hotCount = 1 ↔ ∀ a, a ≠ k → s.status.get? a ≠ some .hot := by
    have hadd := hots_erase_add s.status k
    rw [hk, hotBit_hot, ← hs.hotCount] at hadd
    rw [← hots_erase_eq_zero_iff]
    omega
  rw [hcount, firstHot?, hstack, List.find?_append]
  constructor
  · intro h a ha hhot
    have hmem := hs.stack_of_hot hhot
    rw [hstack] at hmem
    have hal : a ∈ l := (List.mem_append.1 hmem).resolve_right fun h => ha (List.mem_singleton.1 h)
    cases hfind : l.find? fun a => s.status.get? a = some .hot with
    | none => exact absurd hhot (by simpa using List.find?_eq_none.1 hfind a hal)
    | some b =>
      rw [hfind, Option.some_or] at h
      obtain rfl := Option.some.inj h
      exact hkl (List.mem_of_find?_eq_some hfind)
  · intro h
    have hnone : (l.find? fun a => s.status.get? a = some .hot) = none :=
      List.find?_eq_none.2 fun a ha => by simpa using h a fun he => hkl (he ▸ ha)
    rw [hnone, Option.none_or, List.find?_cons, decide_eq_true hk]

/-! ### The key that came in last -/

/-- A key that is pushed stands behind some others. -/
theorem toList_pushBack_eq {q : SequenceQueue K} (hq : q.Coherent) (k : K) :
    ∃ l, (q.pushBack k).toList = l ++ [k] := ⟨_, hq.toList_pushBack k⟩

/-- A key that came in hot, at the top of the stack, goes first only if it is alone. -/
theorem Sound.pop_eq_of_hot (hs : s.Sound) {l : List K} (hstack : s.stack.toList = l ++ [k])
    (hk : s.status.get? k = some .hot) :
    s.pop.1 = some k ↔ s.cold.toList = [] ∧ s.hotCount = 1 := by
  rw [hs.pop_fst, ← hs.firstHot?_eq_iff hstack hk]
  cases hcold : s.cold.toList with
  | nil => simp
  | cons b rest =>
    have hb : b ≠ k := fun he => by
      have hmem := hs.mem_cold_iff.1 (hcold ▸ List.mem_cons_self ..)
      rw [he, hk] at hmem
      cases hmem
    simp [hb]

/-- A key that turned cold last goes first only if no other one is cold. -/
theorem Sound.pop_eq_of_pushBack (hs : s.Sound) {cold : SequenceQueue K} (hcoherent : cold.Coherent)
    {b : K} (hb : b ∉ cold.toList) (hk : k ∉ cold.toList) (hcold : s.cold = cold.pushBack b) :
    s.pop.1 = some k ↔ cold.toList = [] ∧ b = k := by
  rw [hs.pop_fst, hcold, hcoherent.toList_pushBack, List.erase_of_not_mem hb]
  cases hlist : cold.toList with
  | nil => simp
  | cons a rest =>
    have ha : a ≠ k := fun he => hk (he ▸ hlist ▸ List.mem_cons_self ..)
    simp [ha]

/-- A key that is made hot while it is at the top of the stack goes first only if it is alone. -/
theorem Fits.pop_promote_iff (hf : s.Fits slots) (hs : (s.heated k).Sound) {l : List K}
    (hstack : s.stack.toList = l ++ [k]) :
    (s.promote k).pop.1 = some k ↔ s.cold.toList = [] ∧ s.hotCount = 0 := by
  have hhot : (s.heated k).status.get? k = some .hot := get?_heated_self
  have hslots : (s.heated k).hotSlots = s.hotSlots := rfl
  have hcount : (s.heated k).hotCount = s.hotCount + 1 := rfl
  have hle := hf.hotCount
  have hfits := hf.hotSlots
  have hone : (s.heated k).hotCount = 1 ↔ s.hotCount = 0 := by omega
  have hfirst := hs.firstHot?_eq_iff hstack hhot
  have hsound := (Sound.promote_of_heated hs).1
  have hpromote : s.promote k = (s.heated k).demoteWithin (s.hotCount + 1) := rfl
  rw [hpromote, hs.demoteWithin_of_le (by omega)] at hsound ⊢
  split at hsound
  · rename_i hover
    rw [if_pos hover]
    obtain ⟨b, hb⟩ : ∃ b, (s.heated k).firstHot? = some b :=
      Option.isSome_iff_exists.1 (List.find?_isSome.2
        ⟨k, hs.stack_of_hot hhot, decide_eq_true hhot⟩)
    have hbhot : (s.heated k).status.get? b = some .hot := by
      simpa using List.find?_some hb
    have hcold : ∀ a, (s.heated k).status.get? a = some .hot → a ∉ s.cold.toList :=
      fun a ha => hs.not_mem_cold (k := a) (by rw [ha]; simp)
    rw [hsound.pop_eq_of_pushBack hs.cold (hcold b hbhot) (hcold k hhot) (hs.cold_demoteBottom hb),
      ← hone, ← hfirst, hb, Option.some_inj]
    exact Iff.rfl
  · rename_i hroom
    rw [if_neg hroom, hs.pop_eq_of_hot hstack hhot, hone]
    exact Iff.rfl

/-- **The key that came in last goes first** exactly if there is no cold key before it, and no hot key
either or no way for it to be hot: all slots are taken and nothing was known of it. -/
theorem Sound.pop_push_iff (hs : s.Sound) (hf : s.Fits slots) (hk : ¬ s.Resident k) :
    (s.push k).pop.1 = some k ↔ s.cold.toList = [] ∧
      (s.hotCount = 0 ∨ s.status.get? k = none ∧ s.hotSlots ≤ s.hotCount) := by
  have hsound := (hs.push k).1
  obtain ⟨l, hstack⟩ := toList_pushBack_eq hs.stack k
  unfold Lirs.push at hsound ⊢
  cases hst : s.status.get? k with
  | none =>
    have hcold := hs.not_mem_cold (k := k) (by rw [hst]; simp)
    simp only [hst] at hsound ⊢
    split at hsound
    · rename_i hroom
      rw [if_pos hroom, hsound.pop_eq_of_hot hstack (by rw [KeyMap.get?_insert, if_pos rfl])]
      simp only
      refine and_congr_right fun _ => ?_
      omega
    · rename_i hroom
      rw [if_neg hroom, hsound.pop_eq_of_pushBack hs.cold hcold hcold rfl]
      refine and_congr_right fun _ => ?_
      simp only [true_and, true_iff]
      omega
  | some st =>
    cases st with
    | hot => exact absurd (Or.inl hst) hk
    | cold => exact absurd (Or.inr hst) hk
    | ghost =>
      have hfits : Fits slots { s with
          ghosts := (s.ghosts.remove k).2, stack := s.stack.pushBack k } :=
        ⟨hf.hotSlots, hf.hotCount⟩
      simp only
      rw [hfits.pop_promote_iff (hs.heated_push hst) hstack]
      simp

end Lirs
end ClusterCache
