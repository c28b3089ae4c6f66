/-
# When the bottom of the stack is hot

The stack is pruned so that a hot key is at its bottom (`Grounded`).  Keys that go to the top leave the
bottom alone, and keys that leave the stack from the middle do so too (`Grounded.of_top`,
`Grounded.of_sublist`); only where the bottom itself goes does the stack have to be pruned, and there it
is.  One thing is missed.  If there is no hot key, the stack is empty, and a cold key that is used then
is put on it and stays cold (`Strands`), so that it is at the bottom at once.  The bottom is hot all
along exactly if no request does that (`bottom_hot_iff`).  A cold key at the bottom leaves a ghost when it
goes, and comes back hot at the cost of a key that has not been there longer (`bottom_cold`).
-/

import ClusterCache.Proofs.Eviction.Lirs.Promotion

namespace ClusterCache
namespace Lirs

variable {K : Type} [DecidableEq K] [Hashable K] {s s' p : Lirs K} {k a b : K}

/-- The stack is empty, or the key at its bottom is hot. -/
def Grounded (s : Lirs K) : Prop :=
  ∀ a, s.stack.toList.head? = some a → s.status.get? a = some .hot

/-- An empty stack is grounded. -/
theorem grounded_of_nil (h : s.stack.toList = []) : s.Grounded := by
  intro a ha
  rw [h] at ha
  cases ha

/-- A stack with a cold key at its bottom is not. -/
theorem not_grounded_of_cold (h : s.stack.toList.head? = some a)
    (ha : s.status.get? a = some .cold) : ¬ s.Grounded := by
  intro hg
  have hhot := hg a h
  rw [ha] at hhot
  cases hhot

/-- A stack that was just pruned is grounded. -/
theorem Sound.grounded_prune (hs : s.Sound) : s.prune.Grounded := fun _ => hs.head?_prune

/-- With a hot key the stack is not empty. -/
theorem Sound.stack_ne_nil (hs : s.Sound) (h : s.status.get? a = some .hot) :
    s.stack.toList ≠ [] := List.ne_nil_of_mem (hs.stack_of_hot h)

/-! ### What leaves the bottom alone -/

omit [DecidableEq K] [Hashable K] in
/-- The first of several is the first as long as it is there. -/
theorem head?_of_sublist {l l' : List K} (hnd : l.Nodup) (hsub : l'.Sublist l) (hb : b ∈ l')
    (h : l.head? = some b) : l'.head? = some b := by
  cases hsub with
  | slnil => exact h
  | cons _ hrest =>
    obtain rfl := Option.some.inj h
    exact absurd (hrest.subset hb) (List.nodup_cons.1 hnd).1
  | cons_cons _ _ => exact h

/-- Keys leave the stack, and the hot ones stay. -/
theorem Grounded.of_sublist (hg : s.Grounded) (hs : s.Sound) (hs' : s'.Sound)
    (hsub : s'.stack.toList.Sublist s.stack.toList)
    (hhot : ∀ a, s.status.get? a = some .hot → s'.status.get? a = some .hot) : s'.Grounded := by
  cases hfront : s.stack.toList.head? with
  | none =>
    rw [List.head?_eq_none_iff.1 hfront] at hsub
    exact grounded_of_nil (List.sublist_nil.1 hsub)
  | some bottom =>
    have hbottom := hhot bottom (hg bottom hfront)
    intro a ha
    rw [head?_of_sublist hs.stack.nodup_toList hsub (hs'.stack_of_hot hbottom) hfront] at ha
    exact Option.some.inj ha ▸ hbottom

/-- A key that is not at the bottom goes to the top.  If it is alone there, it has to be hot. -/
theorem Grounded.of_top (hg : s.Grounded) (hk : s.stack.toList.head? ≠ some k)
    (hstack : p.stack.toList = s.stack.toList.erase k ++ [k])
    (hoff : ∀ a, a ≠ k → p.status.get? a = s.status.get? a)
    (halone : s.stack.toList = [] → p.status.get? k = some .hot) : p.Grounded := by
  intro a ha
  rw [hstack] at ha
  cases hlist : s.stack.toList with
  | nil =>
    rw [hlist] at ha
    exact Option.some.inj ha ▸ halone hlist
  | cons bottom rest =>
    have hbottom : s.stack.toList.head? = some bottom := by rw [hlist, List.head?_cons]
    have hne : bottom ≠ k := fun he => hk (he ▸ hbottom)
    rw [hlist, List.erase_cons_tail (by simpa using hne), List.cons_append, List.head?_cons] at ha
    obtain rfl := Option.some.inj ha
    rw [hoff _ hne, hg _ hbottom]

/-! ### The operations -/

section Requests

variable {ratio : Float} {requests : List (Strategy.lirs K ratio).Request}
  {q : (Strategy.lirs K ratio).Request} {capacity hotSlots : Nat}

/-- A key that becomes hot leaves the stack grounded: either the bottom stays, or the demotion of
the oldest hot key prunes. -/
theorem Recalled.grounded (hp : s.Recalled k p) (hg : s.Grounded) (h : s.Kept capacity hotSlots)
    (hpos : 0 < hotSlots) (hk : s.status.get? k ≠ some .hot) : (p.promote k).Grounded := by
  rcases hp.promote_cases h hk hpos with ⟨-, heq⟩ | ⟨b, -, -, hcools⟩
  · rw [heq]
    exact hg.of_top (mt (hg k) hk) hp.stack (fun _ ha => hp.get?_heated ha) fun _ => get?_heated_self
  · exact hcools.bottom

/-- A use leaves a hot key at the bottom, unless a cold key is used while none is hot. -/
theorem Grounded.access (hg : s.Grounded) (h : s.Kept capacity hotSlots) (hpos : 0 < hotSlots)
    (hk : s.status.get? k = some .cold → ∃ b, s.status.get? b = some .hot) :
    (s.access k).Grounded := by
  have hs := h.sound
  cases hst : s.status.get? k with
  | none => rwa [Lirs.access, hst]
  | some st =>
    cases st with
    | ghost => rwa [Lirs.access, hst]
    | hot =>
      rw [Lirs.access, hst, SequenceQueue.front?_eq_head?]
      simp only
      split
      · exact hs.keeps_touch.sound.grounded_prune
      · rename_i hbottom
        have hne : s.stack.toList.head? ≠ some k := of_decide_eq_false (by simpa using hbottom)
        have htouch : (s.stack.touch k).2.toList = s.stack.toList.erase k ++ [k] :=
          hs.toList_touch_of_mem (hs.stack_of_hot hst)
        exact hg.of_top hne htouch (fun _ _ => rfl) fun _ => hst
    | cold =>
      by_cases hstack : k ∈ s.stack.toList
      · obtain ⟨p, hp, haccess⟩ := hs.recalled_access hst hstack
        rw [haccess]
        exact hp.grounded hg h hpos (by rw [hst]; simp)
      · obtain ⟨b, hb⟩ := hk hst
        rw [Lirs.access, hst]
        simp only
        have hout : ¬ s.stack.contains k = true := mt hs.stack.contains_iff.1 hstack
        have hne : s.stack.toList.head? ≠ some k := fun he => hstack (List.mem_of_head? he)
        rw [if_neg hout]
        exact hg.of_top hne (hs.stack.toList_pushBack k) (fun _ _ => rfl)
          fun hnil => absurd hnil (hs.stack_ne_nil hb)

/-- A key that comes in keeps the stack grounded, unless it is cold already and there is no hot key.
-/
theorem Grounded.push (hg : s.Grounded) (h : s.Kept capacity hotSlots) (hpos : 0 < hotSlots)
    (hk : s.status.get? k = some .cold → ∃ b, s.status.get? b = some .hot) :
    (s.push k).Grounded := by
  have hs := h.sound
  have hbottom : s.status.get? k ≠ some .hot → s.stack.toList.head? ≠ some k := mt (hg k)
  cases hst : s.status.get? k with
  | none =>
    have hnew := hbottom (by rw [hst]; simp)
    rw [Lirs.push, hst]
    simp only
    split
    · exact hg.of_top hnew (hs.stack.toList_pushBack k) (fun _ ha => KeyMap.get?_insert_of_ne ha)
        fun _ => KeyMap.get?_insert_self ..
    · rename_i hfull
      have hslots := h.fits.hotSlots
      obtain ⟨b, hb⟩ := exists_hot_of_hots_pos (m := s.status) (hs.hotCount ▸ by omega)
      exact hg.of_top hnew (hs.stack.toList_pushBack k) (fun _ ha => KeyMap.get?_insert_of_ne ha)
        fun hnil => absurd hnil (hs.stack_ne_nil hb)
  | some st =>
    cases st with
    | hot =>
      rw [Lirs.push, hst]
      exact hg.access h hpos hk
    | cold =>
      rw [Lirs.push, hst]
      exact hg.access h hpos hk
    | ghost =>
      obtain ⟨p, hp, hpush⟩ := hs.recalled_push hst
      rw [hpush]
      exact hp.grounded hg h hpos (by rw [hst]; simp)

/-- A removal keeps the stack grounded: if the bottom goes, what is left is pruned. -/
theorem Grounded.remove (hg : s.Grounded) (hs : s.Sound) (k : K) : (s.remove k).Grounded := by
  have hsound := (hs.remove k).1
  have herase : (s.stack.remove k).2.toList.Sublist s.stack.toList := by
    rw [hs.stack.toList_remove]
    exact List.erase_sublist
  have hhot : s.status.get? k ≠ some .hot → ∀ a, s.status.get? a = some .hot →
      (s.status.erase k).get? a = some .hot := by
    intro hk a ha
    have hne : a ≠ k := fun he => hk (he ▸ ha)
    rwa [KeyMap.get?_erase_of_ne hne]
  unfold Lirs.remove at hsound ⊢
  cases hk : s.status.get? k with
  | none => exact hg
  | some st =>
    rw [hk] at hsound
    cases st with
    | hot => exact (hs.forget_hot hk).grounded_prune
    | cold => exact hg.of_sublist hs hsound herase (hhot (by rw [hk]; simp))
    | ghost => exact hg.of_sublist hs hsound herase (hhot (by rw [hk]; simp))

/-- The loss of a victim keeps the stack grounded. -/
theorem Grounded.pop (hg : s.Grounded) (hs : s.Sound) : s.pop.2.Grounded := by
  have hsound := hs.pop.1
  have hhot := fun k hk a => hs.hot_pop (k := k) (a := a) hk
  have hpopped := hs.popped
  generalize s.pop.1 = k?, s.pop.2 = s' at hpopped hsound hhot ⊢
  cases hpopped with
  | buried hk hstack =>
    have hhaunt := hs.haunt (hs.mem_cold_iff.1 (List.mem_of_head? hk)) hstack
    exact hg.of_sublist hs hsound (hhaunt.sublist_forgetWithin _) (hhot _ hk)
  | forgotten hk _ => exact hg.of_sublist hs hsound (List.Sublist.refl _) (hhot _ hk)
  | hot _ hb => exact (hs.prune.sound.dropped (hs.hot_prune hb)).grounded_prune
  | none _ _ => exact hs.grounded_prune

/-! ### The one way to a cold bottom -/

/-- A request uses a cold key while no key is hot. -/
def Strands (s : Lirs K) (q : (Strategy.lirs K ratio).Request) : Prop :=
  ∃ a, q.used? = some a ∧ s.status.get? a = some .cold ∧ ∀ b, s.status.get? b ≠ some .hot

/-- **If there is no hot key, using a cold one leaves the stack not grounded**: the key is alone in
it. -/
theorem Grounded.not_grounded_access (hg : s.Grounded) (hs : s.Sound)
    (hk : s.status.get? k = some .cold) (hnone : ∀ b, s.status.get? b ≠ some .hot) :
    ¬ (s.access k).Grounded := by
  have hnil : s.stack.toList = [] := by
    cases hbottom : s.stack.toList.head? with
    | none => exact List.head?_eq_none_iff.1 hbottom
    | some b => exact absurd (hg b hbottom) (hnone b)
  have hstack : ¬ s.stack.contains k = true := fun hc => by
    have hmem := hs.stack.contains_iff.1 hc
    rw [hnil] at hmem
    cases hmem
  rw [Lirs.access, hk]
  simp only
  rw [if_neg hstack]
  refine not_grounded_of_cold ?_ hk
  rw [hs.stack.toList_pushBack, hnil]
  rfl

/-- **A request leaves the bottom hot exactly if it does not use a cold key while none is hot.** -/
theorem Grounded.serve_iff (hg : s.Grounded) (h : s.Kept capacity hotSlots) (hpos : 0 < hotSlots)
    (q : (Strategy.lirs K ratio).Request) :
    Grounded ((Strategy.lirs K ratio).serve (s, ∅) q).1 ↔ ¬ s.Strands q := by
  have hs := h.sound
  constructor
  · rintro hgrounded ⟨k, hused, hk, hnone⟩
    have hbad := hg.not_grounded_access hs hk hnone
    cases q with
    | push k' =>
      obtain rfl := Option.some.inj hused
      have hpush : s.push k' = s.access k' := by rw [Lirs.push, hk]
      exact hbad (hpush ▸ hgrounded)
    | access k' =>
      obtain rfl := Option.some.inj hused
      exact hbad hgrounded
    | remove k' => cases hused
    | pop sh => cases hused
    | clear => cases hused
  · intro hq
    have hwarm : ∀ k, q.used? = some k → s.status.get? k = some .cold →
        ∃ b, s.status.get? b = some .hot := by
      intro k hused hk
      by_contra hnone
      exact hq ⟨k, hused, hk, not_exists.1 hnone⟩
    cases q with
    | push k => exact hg.push h hpos (hwarm k rfl)
    | access k => exact hg.access h hpos (hwarm k rfl)
    | remove k => exact hg.remove hs k
    | pop sh => exact serve_pop_fst s ∅ sh ▸ hg.pop hs
    | clear => exact grounded_of_nil rfl

/-- **The bottom of the stack is hot all along exactly if no cold key is ever used while none is hot.** -/
theorem bottom_hot_iff (capacity : Nat) (hpos : 0 < hotSlots)
    (requests : List (Strategy.lirs K ratio).Request) :
    (∀ past, past <+: requests → (after capacity hotSlots past).Grounded) ↔
      ∀ past q, past ++ [q] <+: requests → ¬ (after capacity hotSlots past).Strands q := by
  have hstep : ∀ past (q : (Strategy.lirs K ratio).Request),
      (after capacity hotSlots past).Grounded →
        ((after capacity hotSlots (past ++ [q])).Grounded ↔
          ¬ (after capacity hotSlots past).Strands q) := by
    intro past q hg
    rw [after_concat]
    exact hg.serve_iff (recorded_after capacity hotSlots past).kept hpos q
  constructor
  · intro hgrounded past q hq
    have hpast : past <+: requests := (List.prefix_append past [q]).trans hq
    exact (hstep past q (hgrounded past hpast)).1 (hgrounded _ hq)
  · intro hnever past
    induction past using List.reverseRecOn with
    | nil => exact fun _ => grounded_of_nil rfl
    | append_singleton past q ih =>
      intro hq
      have hpast : past <+: requests := (List.prefix_append past [q]).trans hq
      exact (hstep past q (ih hpast)).2 (hnever past q hq)

/-- Of the keys 1 and 2 the hot one is removed, and the cold one is used. -/
theorem bottom_hot_iff_two :
    let requests : List (Strategy.lirs Nat 0.01).Request := [.push 1, .push 2, .remove 1, .access 2]
    ((∀ past, past <+: requests → (after 2 1 past).Grounded) ↔
      ∀ past q, past ++ [q] <+: requests → ¬ (after 2 1 past).Strands q) ∧
    ∃ past q, past ++ [q] <+: requests ∧ (after 2 1 past).Strands q := by
  intro requests
  have hiff := bottom_hot_iff 2 (by decide : 0 < 1) requests
  refine ⟨hiff, ?_⟩
  by_contra hnever
  refine not_grounded_of_cold (s := after 2 1 requests) (a := 2) ?_ ?_
    (hiff.2 (fun past q hpast hq => hnever ⟨past, q, hpast, hq⟩) requests List.prefix_rfl) <;>
    decide +kernel

/-- **The bottom of the stack may be cold**, and the strategy remembers the key that is there when it goes.
The key comes back hot then, and 3, which came in hot before it did, is the next to go. -/
theorem bottom_cold :
    let requests : List (Strategy.lirs Nat 0.01).Request := [.push 1, .push 2, .remove 1, .access 2]
    ¬ (after 2 1 requests : Lirs Nat).Grounded ∧
    (after 2 1 (requests ++ [.pop (), .push 3, .push 2])).pop.1 = some 3 := by
  refine ⟨not_grounded_of_cold (a := 2) ?_ ?_, ?_⟩ <;> decide +kernel

end Requests

end Lirs
end ClusterCache
