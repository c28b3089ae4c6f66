/-
# Hot keys stand in the order of their last use

A request uses a key if it pushes or accesses it; `Strategy.lastUse` says how long ago that was.  The
stack holds cold keys and ghosts besides the hot keys, and they come and go, but the hot keys among
them are a row of their own (`hotRow`).  Whatever takes only other keys off the stack leaves the row as
it is (`Keeps.hotRow_eq`), as pruning does and forgetting ghosts.  The key that turns cold, or that
goes when no key is cold, is the head of the row (`Sound.demoteBottom_of_head?`, `Popped`).

A key that is used goes to the end of the row if it is hot then, and no other key moves
(`Sound.hotRow_access`, `Sound.hotRow_push`).  There are two ways in which it becomes hot, and they meet
in one state (`Recalled`).  So after any requests the hot keys stand in the order of their last use
(`recorded_after`).
-/

import ClusterCache.Proofs.Eviction.Lirs.Bookkeeping
import ClusterCache.Proofs.Eviction.Lirs.Victim

namespace ClusterCache

/-! ### When a key was used -/

namespace Strategy

variable {K : Type} [DecidableEq K] {S : Strategy K}

/-- The key that a request pushes or accesses. -/
def Request.used? : S.Request → Option K
  | .push k => some k
  | .access k => some k
  | .remove _ => none
  | .pop _ => none
  | .clear => none

/-- How many requests there were up to the latest one that pushed or accessed a key; zero if there was
no such request. -/
def lastUse (requests : List S.Request) (a : K) : Nat :=
  requests.length - requests.reverse.findIdx fun q => q.used? = some a

/-- The last use of a key is one of the requests. -/
theorem lastUse_le (requests : List S.Request) (a : K) : lastUse requests a ≤ requests.length :=
  Nat.sub_le ..

/-- The last request is the last use of the key that it uses, and of no other. -/
theorem lastUse_concat (requests : List S.Request) (q : S.Request) (a : K) :
    lastUse (requests ++ [q]) a =
      if q.used? = some a then requests.length + 1 else lastUse requests a := by
  rw [lastUse, List.reverse_concat, List.findIdx_cons, List.length_append, List.length_singleton]
  split
  · rename_i h
    rw [decide_eq_true h]
    rfl
  · rename_i h
    rw [decide_eq_false h, lastUse]
    exact Nat.add_sub_add_right ..

/-- What a request does to a state has nothing to do with the set beside it. -/
theorem serve_fst (s : S.State) (R R' : Finset K) (q : S.Request) :
    (S.serve (s, R) q).1 = (S.serve (s, R') q).1 := by
  cases q with
  | pop sh => rw [serve_pop, serve_pop]
  | push k | access k | remove k | clear => rfl

end Strategy

namespace Lirs

variable {K : Type} [DecidableEq K] [Hashable K] {s s' p : Lirs K} {k a b : K}

/-! ### The row of hot keys -/

/-- The hot keys in the order of the stack, from the bottom to the top. -/
def hotRow (s : Lirs K) : List K := s.stack.toList.filter fun a => s.status.get? a = some .hot

/-- The first hot key of the stack heads the row. -/
theorem firstHot?_eq_head? (s : Lirs K) : s.firstHot? = s.hotRow.head? := by
  rw [firstHot?, hotRow, List.head?_filter]

/-- The row holds the hot keys. -/
theorem Sound.mem_hotRow_iff (hs : s.Sound) : a ∈ s.hotRow ↔ s.status.get? a = some .hot := by
  rw [hotRow, List.mem_filter, decide_eq_true_iff]
  exact and_iff_right_of_imp hs.stack_of_hot

/-- No key is twice in the row. -/
theorem Sound.nodup_hotRow (hs : s.Sound) : s.hotRow.Nodup := hs.stack.nodup_toList.filter _

/-- A key that is not hot is not missed in the row. -/
theorem Sound.erase_hotRow (hs : s.Sound) (hk : s.status.get? k ≠ some .hot) :
    s.hotRow.erase k = s.hotRow := List.erase_of_not_mem (mt hs.mem_hotRow_iff.1 hk)

/-- As long as hot keys stay hot, the row stays as it is when other keys leave the stack. -/
theorem Keeps.hotRow_eq (h : s.Keeps s') (hs : s.Sound)
    (hstack : s'.stack.toList.Sublist s.stack.toList) : s'.hotRow = s.hotRow := by
  have hfilter : s'.hotRow = s'.stack.toList.filter fun a => s.status.get? a = some .hot := by
    simp only [hotRow, h.hot_iff]
  have hrow : s'.hotRow.Sublist s.hotRow := hfilter ▸ hstack.filter _
  refine hrow.eq_of_length_le (hs.nodup_hotRow.subperm fun a ha => ?_).length_le
  rw [h.sound.mem_hotRow_iff, h.hot_iff]
  exact hs.mem_hotRow_iff.1 ha

/-- Pruning takes keys off the bottom only. -/
theorem Sound.suffix_pruneWithin (hs : s.Sound) (fuel : Nat) :
    (s.pruneWithin fuel).stack.toList <:+ s.stack.toList := by
  induction fuel generalizing s with
  | zero => exact List.suffix_rfl
  | succ fuel ih =>
    rcases hs.pruneWithin_succ fuel with ⟨h, -⟩ | ⟨s', hkeeps, htail, -, h⟩
    · rw [h]
    · rw [h]
      have hrest : (s'.pruneWithin fuel).stack.toList <:+ s'.stack.toList := ih hkeeps.sound
      rw [htail] at hrest
      exact hrest.trans (List.tail_suffix _)

/-- Pruning takes keys off the bottom, and leaves the rest of the stack. -/
theorem Sound.suffix_prune (hs : s.Sound) : s.prune.stack.toList <:+ s.stack.toList :=
  hs.suffix_pruneWithin _

/-- Pruning leaves the hot keys in their order. -/
theorem Sound.hotRow_prune (hs : s.Sound) : s.prune.hotRow = s.hotRow :=
  hs.prune.hotRow_eq hs hs.suffix_prune.sublist

/-- Forgetting ghosts leaves the rest of the stack in its order. -/
theorem Sound.sublist_forgetWithin (hs : s.Sound) (fuel : Nat) :
    (s.forgetWithin fuel).stack.toList.Sublist s.stack.toList := by
  induction fuel generalizing s with
  | zero => exact List.Sublist.refl _
  | succ fuel ih =>
    rw [Lirs.forgetWithin]
    split
    · cases hfront : s.ghosts.toList.head? with
      | none =>
        rw [hs.ghosts.popFront_of_nil (List.head?_eq_none_iff.1 hfront)]
      | some g =>
        have hg : s.status.get? g = some .ghost := hs.mem_ghosts_iff.1 (List.mem_of_head? hfront)
        have hrest := ih (hs.keeps_forget_ghost hg).sound
        rw [hs.ghosts.popFront_of_head? hfront]
        refine hrest.trans ?_
        rw [hs.stack.toList_remove]
        exact List.erase_sublist
    · exact List.Sublist.refl _

/-- Forgetting ghosts leaves the hot keys in their order. -/
theorem Sound.hotRow_forgetWithin (hs : s.Sound) (fuel : Nat) :
    (s.forgetWithin fuel).hotRow = s.hotRow :=
  (hs.forgetWithin fuel).hotRow_eq hs (hs.sublist_forgetWithin fuel)

/-! ### One key moves -/

/-- Among the other keys of the stack, the hot ones are those of the row. -/
theorem Sound.filter_erase_stack (hs : s.Sound) (k : K)
    (hoff : ∀ a, a ≠ k → p.status.get? a = s.status.get? a) :
    ((s.stack.toList.erase k).filter fun a => p.status.get? a = some .hot) = s.hotRow.erase k := by
  have hnd := hs.stack.nodup_toList
  rw [hs.nodup_hotRow.erase_eq_filter, hotRow, List.filter_comm, ← hnd.erase_eq_filter]
  refine List.filter_congr fun a ha => ?_
  rw [hoff a (hnd.mem_erase_iff.1 ha).1]

/-- A key leaves the stack. -/
theorem Sound.hotRow_of_erase (hs : s.Sound) (hstack : p.stack.toList = s.stack.toList.erase k)
    (hoff : ∀ a, a ≠ k → p.status.get? a = s.status.get? a) : p.hotRow = s.hotRow.erase k := by
  rw [hotRow, hstack, hs.filter_erase_stack k hoff]

/-- A key goes to the top of the stack. -/
theorem Sound.hotRow_of_top (hs : s.Sound)
    (hstack : p.stack.toList = s.stack.toList.erase k ++ [k])
    (hoff : ∀ a, a ≠ k → p.status.get? a = s.status.get? a) :
    p.hotRow = s.hotRow.erase k ++ if p.status.get? k = some .hot then [k] else [] := by
  rw [hotRow, hstack, List.filter_append, hs.filter_erase_stack k hoff, List.filter_singleton,
    Bool.cond_decide]

/-- If one key moves to the top of the stack and nothing new is known about the others, the hot ones
among them keep their order. -/
theorem Sound.sublist_of_top (hs : s.Sound)
    (hstack : p.stack.toList = s.stack.toList.erase k ++ [k])
    (hoff : ∀ a, a ≠ k → p.status.get? a = s.status.get? a) :
    p.hotRow.Sublist (s.hotRow.erase k ++ [k]) := by
  rw [hs.hotRow_of_top hstack hoff]
  split
  · exact List.Sublist.refl _
  · rw [List.append_nil]
    exact List.sublist_append_left ..

/-- A key of the stack that is touched moves to the top. -/
theorem Sound.toList_touch_of_mem (hs : s.Sound) (hk : k ∈ s.stack.toList) :
    (s.stack.touch k).2.toList = s.stack.toList.erase k ++ [k] := by
  rw [hs.stack.toList_touch, if_pos hk]

/-! ### Hot keys turn cold -/

/-- After pruning the bottom of the stack is the first of the hot keys. -/
theorem Sound.head?_stack_prune (hs : s.Sound) : s.prune.stack.toList.head? = s.hotRow.head? :=
  hs.head?_prune_eq.trans (firstHot?_eq_head? s)

/-- The state in which a hot key was taken off the stack and put at the end of the cold queue. -/
def cooled (s : Lirs K) (b : K) : Lirs K :=
  { s with
    stack := (s.stack.remove b).2
    status := s.status.insert b .cold
    hotCount := s.hotCount - 1
    cold := s.cold.pushBack b }

/-- With a hot key turned cold everything still fits together. -/
theorem Sound.cooled (hs : s.Sound) (hb : s.status.get? b = some .hot) : (s.cooled b).Sound :=
  hs.cool hb

/-- The key that was turned cold is out of the row. -/
theorem Sound.hotRow_cooled (hs : s.Sound) : (s.cooled b).hotRow = s.hotRow.erase b :=
  hs.hotRow_of_erase (hs.stack.toList_remove b) fun _ ha => KeyMap.get?_insert_of_ne ha

/-- The key that turns cold is the head of the row. -/
theorem Sound.demoteBottom_of_head? (hs : s.Sound) (hb : s.hotRow.head? = some b) :
    s.demoteBottom = (true, (s.prune.cooled b).prune) := by
  unfold Lirs.demoteBottom
  simp only [hs.prune.sound.stack.popFront_of_head? (hs.head?_stack_prune.trans hb)]
  rfl

/-- Without a hot key there is none to demote. -/
theorem Sound.demoteBottom_of_nil (hs : s.Sound) (hrow : s.hotRow = []) :
    s.demoteBottom = (false, s.prune) := by
  have hnil : s.prune.stack.toList = [] := by
    rw [← List.head?_eq_none_iff, hs.head?_stack_prune, hrow, List.head?_nil]
  unfold Lirs.demoteBottom
  simp only [hs.prune.sound.stack.popFront_of_nil hnil]

/-- The head of the row is hot after pruning, too. -/
theorem Sound.hot_prune (hs : s.Sound) (hb : s.hotRow.head? = some b) :
    s.prune.status.get? b = some .hot :=
  (hs.prune.hot_iff b).2 (hs.mem_hotRow_iff.1 (List.mem_of_head? hb))

/-- The first of the row is demoted. -/
theorem Sound.hotRow_demoteBottom (hs : s.Sound) : s.demoteBottom.2.hotRow = s.hotRow.tail := by
  have hp := hs.prune.sound
  cases hrow : s.hotRow with
  | nil => rw [hs.demoteBottom_of_nil hrow, hs.hotRow_prune, hrow, List.tail_nil]
  | cons b rest =>
    have hb : s.hotRow.head? = some b := by rw [hrow, List.head?_cons]
    rw [hs.demoteBottom_of_head? hb, (hp.cooled (hs.hot_prune hb)).hotRow_prune, hp.hotRow_cooled,
      hs.hotRow_prune, hrow, List.erase_cons_head, List.tail_cons]

/-- Demotions leave the other hot keys in their order. -/
theorem Sound.sublist_demoteWithin (hs : s.Sound) (fuel : Nat) :
    (s.demoteWithin fuel).hotRow.Sublist s.hotRow := by
  induction fuel generalizing s with
  | zero => exact List.Sublist.refl _
  | succ fuel ih =>
    have hsound := hs.demoteBottom.1
    have hrow := hs.hotRow_demoteBottom
    rw [Lirs.demoteWithin]
    split
    · rcases hd : s.demoteBottom with ⟨_ | _, d⟩ <;> rw [hd] at hsound hrow
      · exact hrow ▸ List.tail_sublist _
      · exact (ih hsound).trans (hrow ▸ List.tail_sublist _)
    · exact List.Sublist.refl _

/-! ### A key that the stack remembers -/

/-- A key is in its place at the top of the stack, about to become hot, and no other key has moved. -/
structure Recalled (s : Lirs K) (k : K) (p : Lirs K) : Prop where
  heated : (p.heated k).Sound
  stack : p.stack.toList = s.stack.toList.erase k ++ [k]
  cold : p.cold.toList = s.cold.toList.erase k
  status : p.status = s.status
  hotCount : p.hotCount = s.hotCount
  hotSlots : p.hotSlots = s.hotSlots

/-- A cold key that the stack remembers is put in its place and becomes hot. -/
theorem Sound.recalled_access (hs : s.Sound) (hk : s.status.get? k = some .cold)
    (hstack : k ∈ s.stack.toList) : ∃ p, s.Recalled k p ∧ s.access k = p.promote k := by
  have hcontains := hs.stack.contains_iff.2 hstack
  refine ⟨_, ⟨hs.heated_access hk hcontains, hs.toList_touch_of_mem hstack,
    hs.cold.toList_remove k, rfl, rfl, rfl⟩, ?_⟩
  rw [Lirs.access, hk]
  exact if_pos hcontains

/-- So is a ghost that comes back. -/
theorem Sound.recalled_push (hs : s.Sound) (hk : s.status.get? k = some .ghost) :
    ∃ p, s.Recalled k p ∧ s.push k = p.promote k := by
  have hcold := hs.not_mem_cold (k := k) (by rw [hk]; simp)
  refine ⟨_, ⟨hs.heated_push hk, hs.stack.toList_pushBack k, (List.erase_of_not_mem hcold).symm,
    rfl, rfl, rfl⟩, ?_⟩
  rw [Lirs.push, hk]

/-- A key that becomes hot goes to the end of the row. -/
theorem Recalled.hotRow_heated (hp : s.Recalled k p) (hs : s.Sound)
    (hk : s.status.get? k ≠ some .hot) : (p.heated k).hotRow = s.hotRow ++ [k] := by
  rw [hs.hotRow_of_top (p := p.heated k) hp.stack fun a ha => by
    rw [get?_heated_of_ne ha, hp.status], if_pos get?_heated_self, hs.erase_hotRow hk]

/-- A key that becomes hot comes last in the row, and the others keep their order. -/
theorem Recalled.sublist_promote (hp : s.Recalled k p) (hs : s.Sound)
    (hk : s.status.get? k ≠ some .hot) : (p.promote k).hotRow.Sublist (s.hotRow.erase k ++ [k]) := by
  rw [hs.erase_hotRow hk, ← hp.hotRow_heated hs hk]
  exact hp.heated.sublist_demoteWithin _

/-! ### The operations -/

/-- **A key that is used goes to the end of the row, if anywhere.** -/
theorem Sound.hotRow_access (hs : s.Sound) (k : K) :
    (s.access k).hotRow.Sublist (s.hotRow.erase k ++ [k]) := by
  have hidle : s.status.get? k ≠ some .hot → s.hotRow.Sublist (s.hotRow.erase k ++ [k]) := by
    intro hk
    rw [hs.erase_hotRow hk]
    exact List.sublist_append_left ..
  cases hk : s.status.get? k with
  | none =>
    rw [Lirs.access, hk]
    exact hidle (by rw [hk]; simp)
  | some st =>
    cases st with
    | ghost =>
      rw [Lirs.access, hk]
      exact hidle (by rw [hk]; simp)
    | hot =>
      have htouch := hs.sublist_of_top (p := { s with stack := (s.stack.touch k).2 })
        (hs.toList_touch_of_mem (hs.stack_of_hot hk)) fun _ _ => rfl
      rw [Lirs.access, hk]
      simp only
      split
      · rw [hs.keeps_touch.sound.hotRow_prune]
        exact htouch
      · exact htouch
    | cold =>
      by_cases hstack : k ∈ s.stack.toList
      · obtain ⟨p, hp, haccess⟩ := hs.recalled_access hk hstack
        rw [haccess]
        exact hp.sublist_promote hs (by rw [hk]; simp)
      · rw [Lirs.access, hk]
        simp only
        rw [if_neg (mt hs.stack.contains_iff.1 hstack)]
        exact hs.sublist_of_top (hs.stack.toList_pushBack k) fun _ _ => rfl

/-- A key that comes in is the last of the row if it is hot, and the others keep their order. -/
theorem Sound.hotRow_push (hs : s.Sound) (k : K) :
    (s.push k).hotRow.Sublist (s.hotRow.erase k ++ [k]) := by
  cases hk : s.status.get? k with
  | none =>
    have hpush : (s.stack.pushBack k).toList = s.stack.toList.erase k ++ [k] :=
      hs.stack.toList_pushBack k
    have hoff : ∀ st a, a ≠ k → (s.status.insert k st).get? a = s.status.get? a :=
      fun _ _ ha => KeyMap.get?_insert_of_ne ha
    rw [Lirs.push, hk]
    simp only
    split
    · exact hs.sublist_of_top hpush (hoff .hot)
    · exact hs.sublist_of_top hpush (hoff .cold)
  | some st =>
    cases st with
    | hot =>
      rw [Lirs.push, hk]
      exact hs.hotRow_access k
    | cold =>
      rw [Lirs.push, hk]
      exact hs.hotRow_access k
    | ghost =>
      have hhot : s.status.get? k ≠ some .hot := by rw [hk]; simp
      obtain ⟨p, hp, hpush⟩ := hs.recalled_push hk
      rw [hpush]
      exact hp.sublist_promote hs hhot

/-- A removal takes the key out of the row, if it is there. -/
theorem Sound.hotRow_remove (hs : s.Sound) (k : K) : (s.remove k).hotRow = s.hotRow.erase k := by
  have hstack := hs.stack.toList_remove k
  have hoff : ∀ a, a ≠ k → (s.status.erase k).get? a = s.status.get? a :=
    fun _ ha => KeyMap.get?_erase_of_ne ha
  unfold Lirs.remove
  cases hk : s.status.get? k with
  | none => exact (hs.erase_hotRow (by rw [hk]; simp)).symm
  | some st =>
    cases st with
    | hot => exact (hs.forget_hot hk).hotRow_prune.trans (hs.hotRow_of_erase hstack hoff)
    | cold => exact hs.hotRow_of_erase hstack hoff
    | ghost => exact hs.hotRow_of_erase hstack hoff

/-! ### Keys go -/

/-- The state in which a hot key was forgotten. -/
def dropped (s : Lirs K) (b : K) : Lirs K :=
  { s with
    stack := (s.stack.remove b).2
    status := s.status.erase b
    hotCount := s.hotCount - 1 }

/-- With a hot key forgotten everything still fits together. -/
theorem Sound.dropped (hs : s.Sound) (hb : s.status.get? b = some .hot) : (s.dropped b).Sound :=
  hs.forget_hot hb

/-- The key that was forgotten is out of the row. -/
theorem Sound.hotRow_dropped (hs : s.Sound) : (s.dropped b).hotRow = s.hotRow.erase b :=
  hs.hotRow_of_erase (hs.stack.toList_remove b) fun _ ha => KeyMap.get?_erase_of_ne ha

/-- What happens when a key goes. -/
inductive Popped (s : Lirs K) : Option K → Lirs K → Prop
  /-- The front of the cold queue stays behind as a ghost. -/
  | buried {k : K} : s.cold.toList.head? = some k → k ∈ s.stack.toList →
      Popped s (some k) (bury { s with cold := (s.cold.remove k).2 } k)
  /-- It is forgotten. -/
  | forgotten {k : K} : s.cold.toList.head? = some k → k ∉ s.stack.toList →
      Popped s (some k) { s with cold := (s.cold.remove k).2, status := s.status.erase k }
  /-- There is none, and the head of the row goes. -/
  | hot {b : K} : s.cold.toList = [] → s.hotRow.head? = some b →
      Popped s (some b) (s.prune.dropped b).prune
  /-- No key is held. -/
  | none : s.cold.toList = [] → s.hotRow = [] → Popped s none s.prune

/-- A victim is the front of the cold queue, or the first hot key if there is none, and either way
it goes as described. -/
theorem Sound.popped (hs : s.Sound) : s.Popped s.pop.1 s.pop.2 := by
  cases hfront : s.cold.toList.head? with
  | some k =>
    rw [Lirs.pop, hs.cold.popFront_of_head? hfront]
    simp only
    split
    · rename_i hstack
      exact .buried hfront (hs.stack.contains_iff.1 hstack)
    · rename_i hstack
      exact .forgotten hfront (mt hs.stack.contains_iff.2 hstack)
  | none =>
    have hcold := List.head?_eq_none_iff.1 hfront
    have hhead := hs.head?_stack_prune
    rw [Lirs.pop, hs.cold.popFront_of_nil hcold]
    simp only
    cases hb : s.hotRow.head? with
    | none =>
      rw [hb] at hhead
      rw [hs.prune.sound.stack.popFront_of_nil (List.head?_eq_none_iff.1 hhead)]
      exact .none hcold (List.head?_eq_none_iff.1 hb)
    | some b =>
      rw [hb] at hhead
      rw [hs.prune.sound.stack.popFront_of_head? hhead]
      exact .hot hcold hb

/-- **A cold key that goes leaves the row as it is**, whatever ghosts are forgotten for it. -/
theorem Sound.hotRow_pop_cold (hs : s.Sound) (hcold : s.cold.toList ≠ []) :
    s.pop.2.hotRow = s.hotRow := by
  -- among the keys of the stack, only one that was not hot and is not now has changed
  have hrow : ∀ {k : K} {m : KeyMap K Status}, s.cold.toList.head? = some k →
      m.get? k ≠ some .hot → (∀ a, a ≠ k → m.get? a = s.status.get? a) →
      (s.stack.toList.filter fun a => m.get? a = some .hot) = s.hotRow := by
    intro k m hk hm hoff
    have hst := hs.mem_cold_iff.1 (List.mem_of_head? hk)
    refine List.filter_congr fun a _ => ?_
    by_cases ha : a = k
    · rw [ha, decide_eq_false hm, hst]
      rfl
    · rw [hoff a ha]
  have hpopped := hs.popped
  generalize s.pop.1 = k?, s.pop.2 = s' at hpopped ⊢
  cases hpopped with
  | buried hk hstack =>
    have hhaunt := hs.haunt (hs.mem_cold_iff.1 (List.mem_of_head? hk)) hstack
    refine (hhaunt.hotRow_forgetWithin _).trans (hrow hk ?_ fun _ ha => KeyMap.get?_insert_of_ne ha)
    rw [KeyMap.get?_insert_self]
    simp
  | forgotten hk _ =>
    refine hrow hk ?_ fun _ ha => KeyMap.get?_erase_of_ne ha
    rw [KeyMap.get?_erase, if_pos rfl]
    simp
  | hot hnil _ => exact absurd hnil hcold
  | none hnil _ => exact absurd hnil hcold

/-- **Without cold keys the head of the row goes.** -/
theorem Sound.hotRow_pop_hot (hs : s.Sound) (hcold : s.cold.toList = []) :
    s.pop.2.hotRow = s.hotRow.tail := by
  have hp := hs.prune.sound
  have hpopped := hs.popped
  generalize s.pop.1 = k?, s.pop.2 = s' at hpopped ⊢
  cases hpopped with
  | buried hk _ | forgotten hk _ =>
    rw [hcold] at hk
    cases hk
  | hot _ hb =>
    obtain ⟨rest, hrest⟩ := List.head?_eq_some_iff.1 hb
    rw [(hp.dropped (hs.hot_prune hb)).hotRow_prune, hp.hotRow_dropped, hs.hotRow_prune, hrest,
      List.erase_cons_head, List.tail_cons]
  | none _ hrow => rw [hs.hotRow_prune, hrow, List.tail_nil]

/-- The loss of a victim leaves the other hot keys in their order. -/
theorem Sound.hotRow_pop (hs : s.Sound) : s.pop.2.hotRow.Sublist s.hotRow := by
  by_cases hcold : s.cold.toList = []
  · rw [hs.hotRow_pop_hot hcold]
    exact List.tail_sublist _
  · rw [hs.hotRow_pop_cold hcold]

/-! ### Requests -/

section Requests

open Strategy (lastUse lastUse_le lastUse_concat)

variable {ratio : Float} {requests : List (Strategy.lirs K ratio).Request}
  {q : (Strategy.lirs K ratio).Request} {capacity hotSlots : Nat}

/-- The state in which requests leave a shard that began without keys. -/
def after (capacity hotSlots : Nat) (requests : List (Strategy.lirs K ratio).Request) : Lirs K :=
  (requests.foldl (Strategy.lirs K ratio).serve (init capacity hotSlots, ∅)).1

/-- One request more is served by what the others left behind. -/
theorem after_concat : after capacity hotSlots (requests ++ [q]) =
    ((Strategy.lirs K ratio).serve (after capacity hotSlots requests, ∅) q).1 := by
  rw [after, List.foldl_concat]
  exact Strategy.serve_fst ..

/-- Asking for a victim leaves the state that `pop` leaves. -/
theorem serve_pop_fst (s : Lirs K) (R : Finset K) (sh : (Strategy.lirs K ratio).Shared) :
    ((Strategy.lirs K ratio).serve (s, R) (.pop sh)).1 = s.pop.2 :=
  Strategy.serve_pop (Strategy.lirs K ratio) s R sh

/-- What requests leave behind: a state that keeps to its slots, with the hot keys in the order of their
last use. -/
structure Recorded (capacity hotSlots : Nat) (requests : List (Strategy.lirs K ratio).Request)
    (s : Lirs K) : Prop where
  kept : s.Kept capacity hotSlots
  ordered : s.hotRow.Pairwise fun a b => lastUse requests a < lastUse requests b

/-- If a key is used and goes to the end of the row, the row is still in the order of the last uses.
-/
theorem pairwise_of_used (hs : s.Sound)
    (h : s.hotRow.Pairwise fun a b => lastUse requests a < lastUse requests b)
    (hq : q.used? = some k) (hsub : s'.hotRow.Sublist (s.hotRow.erase k ++ [k])) :
    s'.hotRow.Pairwise fun a b => lastUse (requests ++ [q]) a < lastUse (requests ++ [q]) b := by
  have hself : lastUse (requests ++ [q]) k = requests.length + 1 := by
    rw [lastUse_concat, if_pos hq]
  have hold : ∀ a ∈ s.hotRow.erase k, lastUse (requests ++ [q]) a = lastUse requests a := by
    intro a ha
    rw [lastUse_concat, hq, if_neg fun he => (hs.nodup_hotRow.mem_erase_iff.1 ha).1
      (Option.some.inj he).symm]
  refine (List.pairwise_append.2 ⟨?_, List.pairwise_singleton .., ?_⟩).sublist hsub
  · refine (h.sublist List.erase_sublist).imp_of_mem fun ha hb hlt => ?_
    rwa [hold _ ha, hold _ hb]
  · intro a ha b hb
    obtain rfl := List.mem_singleton.1 hb
    rw [hself, hold a ha]
    exact Nat.lt_succ_of_le (lastUse_le ..)

/-- If no key is used, what is left of the row is still in the order of the last uses. -/
theorem pairwise_of_unused
    (h : s.hotRow.Pairwise fun a b => lastUse requests a < lastUse requests b)
    (hq : q.used? = none) (hsub : s'.hotRow.Sublist s.hotRow) :
    s'.hotRow.Pairwise fun a b => lastUse (requests ++ [q]) a < lastUse (requests ++ [q]) b := by
  refine (h.sublist hsub).imp fun hlt => ?_
  rwa [lastUse_concat, lastUse_concat, hq, if_neg nofun, if_neg nofun]

/-- **Every request keeps the hot keys in the order of their last use.** -/
theorem Recorded.serve (h : s.Recorded capacity hotSlots requests)
    (q : (Strategy.lirs K ratio).Request) :
    Recorded capacity hotSlots (requests ++ [q]) ((Strategy.lirs K ratio).serve (s, ∅) q).1 := by
  have hs := h.kept.sound
  refine ⟨h.kept.serve ∅ q, ?_⟩
  cases q with
  | push k => exact pairwise_of_used hs h.ordered rfl (hs.hotRow_push k)
  | access k => exact pairwise_of_used hs h.ordered rfl (hs.hotRow_access k)
  | remove k =>
    exact pairwise_of_unused h.ordered rfl ((hs.hotRow_remove k).symm ▸ List.erase_sublist)
  | pop sh => exact serve_pop_fst s ∅ sh ▸ pairwise_of_unused h.ordered rfl hs.hotRow_pop
  | clear => exact List.Pairwise.nil

/-- **After any requests the hot keys stand in the order of their last use.** -/
theorem recorded_after (capacity hotSlots : Nat) (requests : List (Strategy.lirs K ratio).Request) :
    Recorded capacity hotSlots requests (after capacity hotSlots requests) := by
  induction requests using List.reverseRecOn with
  | nil => exact ⟨kept_init capacity hotSlots, List.Pairwise.nil⟩
  | append_singleton requests q ih =>
    rw [after_concat]
    exact ih.serve q

end Requests

end Lirs
end ClusterCache
