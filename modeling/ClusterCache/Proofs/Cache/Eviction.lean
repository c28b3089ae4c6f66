/-
# How far an eviction goes

A round asks every shard (`mem_round`), so a round without a record has found every shard empty, if
the shards agree with their strategies (`stored_of_takeFirst_eq_none`).  Whoever claims a record of a
cache that counts right therefore finds one (`takeFirst_of_claim`), and an eviction gives up exactly
the records above the bound, or as many as it may (`length_evictOverflow`).
-/

import ClusterCache.Proofs.Cache.Step

namespace ClusterCache
namespace Cache

variable {K V : Type} [DecidableEq K] {S : Strategy K} {c c' : Cache S V}
  {r : Record K V} {T : S.Tracking}

/-! ### One round -/

/-- A round asks every shard. -/
theorem mem_round {c : Cache S V} {i : Nat} (start : Nat) (hi : i < c.shards.size) :
    i ∈ c.round start := by
  have hstart := Nat.mod_lt start (Nat.zero_lt_of_lt hi)
  refine List.mem_map.2 ⟨(i + (c.shards.size - start % c.shards.size)) % c.shards.size,
    List.mem_range.2 (Nat.mod_lt _ (Nat.zero_lt_of_lt hi)), ?_⟩
  have hsum : start % c.shards.size + (i + (c.shards.size - start % c.shards.size)) =
      i + c.shards.size := by omega
  rw [Nat.add_mod_mod, Nat.add_mod, Nat.add_mod_mod, ← Nat.add_mod_mod, Nat.add_mod_mod, hsum,
    Nat.add_mod_right, Nat.mod_eq_of_lt hi]

/-- What every question to a shard keeps, a round keeps. -/
theorem takeFirst_keeps {Q : Cache S V → Prop} (h : ∀ c i, Q c → Q (c.takeFrom i).2) {c : Cache S V}
    (hc : Q c) (is : List Nat) : Q (c.takeFirst is).2 := by
  induction is generalizing c with
  | nil => exact hc
  | cons i rest ih =>
    have hi := h c i hc
    unfold takeFirst
    rcases ht : c.takeFrom i with ⟨_ | r, c'⟩ <;> rw [ht] at hi
    · exact ih hi
    · exact hi

/-- A round through the shards changes nothing but records. -/
theorem sameSetup_takeFirst (c : Cache S V) (is : List Nat) : SameSetup c (c.takeFirst is).2 :=
  takeFirst_keeps (fun c' i h => h.trans (sameSetup_takeFrom c' i)) (.refl c) is

/-- A round through the shards leaves the count to the claim that was made before. -/
theorem len_takeFirst (c : Cache S V) (is : List Nat) : (c.takeFirst is).2.len = c.len :=
  takeFirst_keeps (Q := fun c' => c'.len = c.len) (fun c' i h => (len_takeFrom c' i).trans h) rfl is

/-- What a shard keeps when it gives up a record, all shards keep in a round. -/
theorem Each.takeFirst {P : Nat → Shard S V → Prop}
    (hP : ∀ {i s} (sh : S.Shared), P i s → P i (s.evict c.hash sh).2.2) (h : c.Each P)
    (is : List Nat) : (c.takeFirst is).2.Each P := by
  refine (takeFirst_keeps (Q := fun c' => c'.hash = c.hash ∧ c'.Each P) (fun c' i hc' => ?_)
    ⟨rfl, h⟩ is).2
  obtain ⟨hhash, heach⟩ := hc'
  have hsame : (c'.takeFrom i).2.hash = c'.hash := (sameSetup_takeFrom c' i).hash
  exact ⟨hsame.trans hhash, heach.takeFrom (fun sh hs => hhash ▸ hP sh hs) i⟩

/-- What a round takes out and what it leaves are together what there was. -/
theorem takeFirst_perm (c : Cache S V) (is : List Nat) :
    ((c.takeFirst is).1.toList ++ (c.takeFirst is).2.records).Perm c.records := by
  induction is generalizing c with
  | nil => exact List.Perm.refl _
  | cons i rest ih =>
    have hi := c.takeFrom_perm i
    unfold takeFirst
    rcases ht : c.takeFrom i with ⟨_ | r, c'⟩ <;> rw [ht] at hi
    · exact (ih c').trans hi
    · exact hi

/-- A shard that gave up none is empty, and stays so for the rest of the round. -/
theorem size_eq_zero_of_takeFirst (hc : c.Each fun _ s => s.Agrees c.hash T) {is : List Nat}
    (h : (c.takeFirst is).1 = none) :
    ∀ i ∈ is, (c.takeFirst is).2.Each fun j s => j = i → s.size = 0 := by
  induction is generalizing c with
  | nil => exact fun i hi => absurd hi List.not_mem_nil
  | cons i rest ih =>
    have hagree := hc.takeFrom (fun sh h => h.evict sh) i
    have hempty := hc.size_eq_zero_of_takeFrom (i := i)
    have hhash := (sameSetup_takeFrom c i).hash
    unfold takeFirst at h ⊢
    rcases ht : c.takeFrom i with ⟨_ | r, c'⟩ <;> rw [ht] at hagree hempty hhash h
    · intro j hj
      rcases List.mem_cons.1 hj with rfl | hj
      · refine (hempty rfl).takeFirst (fun {i s} sh hs hi => ?_) rest
        have hle := s.size_evict_le c'.hash sh
        rw [hs hi] at hle
        exact Nat.eq_zero_of_le_zero hle
      · exact ih (hhash ▸ hagree) h j hj
    · cases h

/-- **A round without a record finds the cache empty.** -/
theorem stored_of_takeFirst_eq_none (hc : c.Each fun _ s => s.Agrees c.hash T) {start : Nat}
    (h : (c.takeFirst (c.round start)).1 = none) : c.stored = 0 := by
  have hperm := c.takeFirst_perm (c.round start)
  rw [h] at hperm
  have hstored : (c.takeFirst (c.round start)).2.stored = c.stored := by
    have := stored_of_perm [] [] hperm
    simpa using this
  rw [← hstored]
  refine stored_eq_zero fun i s hs => ?_
  have hi : i < c.shards.size := by
    rw [← (sameSetup_takeFirst c (c.round start)).size]
    exact (Array.getElem?_eq_some_iff.1 hs).1
  exact size_eq_zero_of_takeFirst hc h i (mem_round start hi) i s hs rfl

/-! ### An eviction -/

/-- **A claim finds a record**, if the count was right; and it is right again when the record is
gone. -/
theorem takeFirst_of_claim (hc : c.Each fun _ s => s.Agrees c.hash T) (hlen : c.len = c.stored)
    {c₁ : Cache S V} (hclaim : c.claim = some c₁) (start : Nat) :
    ∃ r c₂, c₁.takeFirst (c₁.round start) = (some r, c₂) ∧
      (c₂.Each fun _ s => s.Agrees c₂.hash T) ∧
      c₂.len = c₂.stored ∧ c₂.stored + 1 = c.stored ∧ SameSetup c c₂ := by
  obtain ⟨max, -, hlt, hc₁⟩ := claim_eq_some_iff.1 hclaim
  have hlen₁ : c₁.len = c.len - 1 := by rw [hc₁]
  have hstored₁ : c₁.stored = c.stored := by rw [hc₁]; rfl
  have hagree₁ : c₁.Each fun _ s => s.Agrees c₁.hash T := by rw [hc₁]; exact hc
  have hnone : (c₁.takeFirst (c₁.round start)).1 = none → c₁.stored = 0 :=
    stored_of_takeFirst_eq_none hagree₁
  have hperm := c₁.takeFirst_perm (c₁.round start)
  have hagree := hagree₁.takeFirst (fun sh h => h.evict sh) (c₁.round start)
  rw [← (c₁.sameSetup_takeFirst (c₁.round start)).hash] at hagree
  have hcount := c₁.len_takeFirst (c₁.round start)
  have hsetup := (sameSetup_claim hclaim).trans (c₁.sameSetup_takeFirst (c₁.round start))
  rcases ht : c₁.takeFirst (c₁.round start) with ⟨_ | r, c₂⟩ <;>
    rw [ht] at hnone hperm hagree hcount hsetup
  · have hzero := hnone rfl
    omega
  · have hone : 1 + c₂.stored = c₁.stored := by
      simpa using stored_of_perm [r] [] hperm
    have hlen₂ : c₂.len = c₁.len := hcount
    exact ⟨r, c₂, rfl, hagree, by omega, by omega, hsetup⟩

/-- **An eviction gives up what is above the bound, or as much of it as it may.**  The count is right
before and afterwards. -/
theorem length_evictOverflow {max : Nat} (hc : c.Each fun _ s => s.Agrees c.hash T)
    (hlen : c.len = c.stored) (hmax : c.maxEntries = some max) (start limit : Nat) :
    (c.evictOverflow start limit).1.length = min limit (c.stored - max) ∧
      (c.evictOverflow start limit).2.stored = c.stored - min limit (c.stored - max) ∧
      (c.evictOverflow start limit).2.len = (c.evictOverflow start limit).2.stored := by
  induction limit generalizing c with
  | zero => exact ⟨by simp [evictOverflow], by simp [evictOverflow], hlen⟩
  | succ limit ih =>
    unfold evictOverflow
    cases hclaim : c.claim with
    | none =>
      have hle := claim_eq_none_iff.1 hclaim max hmax
      have hover : c.stored - max = 0 := by omega
      rw [hover]
      exact ⟨rfl, rfl, hlen⟩
    | some c₁ =>
      obtain ⟨max', hmax', hlt, -⟩ := claim_eq_some_iff.1 hclaim
      obtain rfl : max = max' := Option.some.inj (hmax.symm.trans hmax')
      obtain ⟨r, c₂, ht, hagree, hlen₂, hone, hsetup⟩ := takeFirst_of_claim hc hlen hclaim start
      obtain ⟨h₁, h₂, h₃⟩ := ih hagree hlen₂ (hsetup.shape.maxEntries.trans hmax)
      simp only [ht]
      refine ⟨?_, ?_, h₃⟩
      · show (c₂.evictOverflow start limit).1.length + 1 = _
        omega
      · show (c₂.evictOverflow start limit).2.stored = _
        omega

/-- A sweep leaves as many records as the bound allows. -/
theorem stored_sweep {max : Nat} (hc : c.Each fun _ s => s.Agrees c.hash T) (hlen : c.len = c.stored)
    (hmax : c.maxEntries = some max) (hrun : c.isRunning = true) :
    c.sweep.2.2.stored = min c.stored max ∧ c.sweep.2.2.len = c.sweep.2.2.stored := by
  have hover : c.advance.2.overflow = c.stored - max := by
    have hmax' : c.advance.2.maxEntries = some max := hmax
    have hlen' : c.advance.2.len = c.len := rfl
    rw [overflow, hmax']
    simp only
    omega
  obtain ⟨-, hstored, hcount⟩ := length_evictOverflow (c := c.advance.2) (T := T) hc hlen hmax
    c.advance.1 c.advance.2.overflow
  have hsweep : c.sweep.2.2 = (c.advance.2.evictOverflow c.advance.1 c.advance.2.overflow).2.count
      fun m => { m with sweep := m.sweep + 1, evict := m.evict +
        (c.advance.2.evictOverflow c.advance.1 c.advance.2.overflow).1.length } := by
    unfold sweep
    rw [if_pos hrun]
  rw [hsweep]
  refine ⟨?_, hcount⟩
  show (c.advance.2.evictOverflow c.advance.1 c.advance.2.overflow).2.stored = _
  rw [hstored, hover]
  have : c.advance.2.stored = c.stored := rfl
  omega

end Cache
end ClusterCache
