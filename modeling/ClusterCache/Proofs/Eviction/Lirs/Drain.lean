/-
# In which order the keys go

Asked again and again, the strategy names the keys of the cold queue from front to back, and then the
hot keys in the order of their last use.  A cold key that goes may stay behind as a ghost, and then
older ghosts may have to leave the stack, from anywhere in it, since the stack orders hot keys, cold
keys and ghosts all alike.  None of this touches the row of hot keys, so the keys that are to go form
one list (`victims`), and each time the head of it goes and the tail is left (`Sound.pop_fst_eq_head?`,
`Sound.victims_pop`).  Draining is an induction on that list.
-/

import ClusterCache.Proofs.Eviction.Lirs.Recency

namespace ClusterCache

/-- Draining yields one list of keys. -/
theorem Strategy.Drains.unique {K : Type} {S : Strategy K} {sh : S.Shared} {s : S.State}
    {ks ks' : List K} (h : S.Drains sh s ks) (h' : S.Drains sh s ks') : ks = ks' := by
  induction h generalizing ks' with
  | done hp =>
    cases h' with
    | done _ => rfl
    | next hp' _ =>
      rw [hp] at hp'
      cases hp'
  | next hp _ ih =>
    cases h' with
    | done hp' =>
      rw [hp] at hp'
      cases hp'
    | next hp' hrest =>
      rw [hp] at hp'
      cases hp'
      rw [ih hrest]

namespace Lirs

variable {K : Type} [DecidableEq K] [Hashable K] {s : Lirs K}

/-! ### The head goes -/

/-- The keys that are held, in the order in which they go. -/
def victims (s : Lirs K) : List K := s.cold.toList ++ s.hotRow

/-- No key is due twice. -/
theorem Sound.nodup_victims (hs : s.Sound) : s.victims.Nodup := by
  refine hs.cold.nodup_toList.append hs.nodup_hotRow fun a hcold hhot => ?_
  rw [hs.mem_cold_iff] at hcold
  rw [hs.mem_hotRow_iff, hcold] at hhot
  cases hhot

/-- The victim is the first of the keys that are due. -/
theorem Sound.pop_fst_eq_head? (hs : s.Sound) : s.pop.1 = s.victims.head? := by
  rw [hs.pop_fst, firstHot?_eq_head?, victims, List.head?_append]

/-- If no key is cold, none turns cold when a hot one goes. -/
theorem Sound.toList_cold_pop (hs : s.Sound) : s.pop.2.cold.toList = s.cold.toList.tail := by
  have hremove : ∀ {k : K}, s.cold.toList.head? = some k →
      (s.cold.remove k).2.toList = s.cold.toList.tail := by
    intro k hk
    rw [← hs.cold.toList_popFront, hs.cold.popFront_of_head? hk]
  have hpopped := hs.popped
  generalize s.pop.1 = k?, s.pop.2 = s' at hpopped ⊢
  cases hpopped with
  | buried hk _ =>
    rw [bury, (level_forgetWithin _ _).cold]
    exact hremove hk
  | forgotten hk _ => exact hremove hk
  | hot hnil _ => rw [(level_prune _).cold, Lirs.dropped, (level_prune s).cold, hnil, List.tail_nil]
  | none hnil _ => rw [(level_prune s).cold, hnil, List.tail_nil]

/-- **Each time a key goes, the others are left in the order in which they were.** -/
theorem Sound.victims_pop (hs : s.Sound) : s.pop.2.victims = s.victims.tail := by
  rw [victims, hs.toList_cold_pop, victims]
  cases hcold : s.cold.toList with
  | nil => rw [hs.hotRow_pop_hot hcold, List.tail_nil, List.nil_append, List.nil_append]
  | cons k rest =>
    have hne : s.cold.toList ≠ [] := by rw [hcold]; simp
    rw [hs.hotRow_pop_cold hne, List.tail_cons, List.cons_append, List.tail_cons]

/-- Asked until it names none, the strategy names the keys in the order in which they are due. -/
theorem Sound.drains_victims (hs : s.Sound) (ratio : Float)
    (sh : (Strategy.lirs K ratio).Shared) : (Strategy.lirs K ratio).Drains sh s s.victims := by
  have hpop : ∀ {s : Lirs K} {k? : Option K}, s.pop.1 = k? →
      (Strategy.lirs K ratio).pop sh s = (k?, sh, s.pop.2) := by
    rintro s _ rfl
    rfl
  induction hlist : s.victims generalizing s with
  | nil =>
    refine .done (hpop ?_)
    rw [hs.pop_fst_eq_head?, hlist, List.head?_nil]
  | cons k rest ih =>
    have htail : s.pop.2.victims = rest := by rw [hs.victims_pop, hlist, List.tail_cons]
    refine .next (hpop ?_) (ih hs.pop.1 htail)
    rw [hs.pop_fst_eq_head?, hlist, List.head?_cons]

/-! ### After any requests -/

section Requests

open Strategy (lastUse)

variable {ratio : Float} {requests : List (Strategy.lirs K ratio).Request} {capacity hotSlots : Nat}

/-- How a state goes empty. -/
structure Draining (requests : List (Strategy.lirs K ratio).Request) (s : Lirs K) : Prop where
  /-- Draining comes to an end.  First come the keys of the cold queue, and then those of the row. -/
  drains_iff : ∀ sh ks, (Strategy.lirs K ratio).Drains sh s ks ↔ ks = s.cold.toList ++ s.hotRow
  mem_hotRow_iff : ∀ a, a ∈ s.hotRow ↔ s.status.get? a = some .hot
  ordered : s.hotRow.Pairwise fun a b => lastUse requests a < lastUse requests b
  nodup : (s.cold.toList ++ s.hotRow).Nodup

/-- What requests leave behind is drained in the order of the last uses. -/
theorem Recorded.draining (h : s.Recorded capacity hotSlots requests) : Draining requests s where
  drains_iff sh ks := by
    have hdrains := h.kept.sound.drains_victims ratio sh
    exact ⟨fun hks => hks.unique hdrains, fun hks => hks ▸ hdrains⟩
  mem_hotRow_iff a := h.kept.sound.mem_hotRow_iff
  ordered := h.ordered
  nodup := h.kept.sound.nodup_victims

/-- A victim asked for at the end is popped from what the others left behind. -/
theorem after_concat_pop (sh : (Strategy.lirs K ratio).Shared) :
    after capacity hotSlots (requests ++ [.pop sh]) = (after capacity hotSlots requests).pop.2 :=
  after_concat.trans (serve_pop_fst ..)

/-- Cold keys go one by one and leave the row as it is. -/
theorem after_pops (sh : (Strategy.lirs K ratio).Shared) (n : Nat)
    (hn : n ≤ (after capacity hotSlots requests).cold.toList.length) :
    (after capacity hotSlots (requests ++ List.replicate n (.pop sh))).cold.toList =
        (after capacity hotSlots requests).cold.toList.drop n ∧
      (after capacity hotSlots (requests ++ List.replicate n (.pop sh))).hotRow =
        (after capacity hotSlots requests).hotRow := by
  induction n with
  | zero =>
    rw [List.replicate_zero, List.append_nil]
    exact ⟨rfl, rfl⟩
  | succ n ih =>
    obtain ⟨hcold, hrow⟩ := ih (Nat.le_of_succ_le hn)
    have hs := (recorded_after capacity hotSlots
      (requests ++ List.replicate n (Strategy.Request.pop sh))).kept.sound
    rw [List.replicate_succ', ← List.append_assoc, after_concat_pop, hs.toList_cold_pop, hcold,
      List.tail_drop]
    have hne : (after capacity hotSlots requests).cold.toList.drop n ≠ [] :=
      mt List.drop_eq_nil_iff.1 (Nat.not_le.2 hn)
    exact ⟨rfl, (hs.hotRow_pop_cold (hcold ▸ hne)).trans hrow⟩

/-- **Cold keys go before hot ones, and hot ones in the order of their last use.**  Draining yields the
keys of the cold queue from front to back, and then the hot keys from the one used longest ago to the
one used last, each key once.  As long as there are cold keys to go, the hot ones that are to follow
stay the same and in the same order, whatever ghosts come and go. -/
theorem drains_in_order (capacity hotSlots : Nat)
    (requests : List (Strategy.lirs K ratio).Request) :
    Draining requests (after capacity hotSlots requests) ∧
    ∀ sh, ∀ n ≤ (after capacity hotSlots requests).cold.toList.length,
      (after capacity hotSlots (requests ++ List.replicate n (.pop sh))).cold.toList =
          (after capacity hotSlots requests).cold.toList.drop n ∧
        (after capacity hotSlots (requests ++ List.replicate n (.pop sh))).hotRow =
          (after capacity hotSlots requests).hotRow ∧
        Draining (requests ++ List.replicate n (.pop sh))
          (after capacity hotSlots (requests ++ List.replicate n (.pop sh))) := by
  refine ⟨(recorded_after capacity hotSlots requests).draining, fun sh n hn => ?_⟩
  obtain ⟨hcold, hrow⟩ := after_pops sh n hn
  exact ⟨hcold, hrow, (recorded_after ..).draining⟩

/-- Keys 1 and 2 are hot, and 1 was used longest ago.  The four cold keys become ghosts one by one, and
when the last of them does, the first is forgotten. -/
theorem drains_in_order_ghosts :
    let requests : List (Strategy.lirs Nat 0.5).Request := [
      .push 1, .push 2, .access 1, .push 3, .push 4, .push 5, .push 6, .access 2]
    let s : Lirs Nat := after 3 2 requests
    let s' : Lirs Nat := after 3 2 (requests ++ List.replicate 4 (.pop ()))
    (s.cold.toList = [3, 4, 5, 6] ∧ s.hotRow = [1, 2] ∧ s'.ghosts.toList = [4, 5, 6]) ∧
    Draining requests s ∧ s'.cold.toList = s.cold.toList.drop 4 ∧ s'.hotRow = s.hotRow ∧
    Draining (requests ++ List.replicate 4 (.pop ())) s' := by
  intro requests s s'
  have hfacts : s.cold.toList = [3, 4, 5, 6] ∧ s.hotRow = [1, 2] ∧ s'.ghosts.toList = [4, 5, 6] := by
    decide +kernel
  obtain ⟨hdraining, hpops⟩ := drains_in_order 3 2 requests
  exact ⟨hfacts, hdraining, hpops () 4 (Nat.le_of_eq (congrArg List.length hfacts.1).symm)⟩

end Requests

end Lirs
end ClusterCache
