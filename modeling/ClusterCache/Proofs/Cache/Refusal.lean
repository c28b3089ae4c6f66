/-
# A cache whose strategy may refuse

A strategy may name none although there are records, and name keys that are not held, or not any more.
What a cache does with such a strategy is described here for all of them; only where an eviction ends
too early, it is asked of the strategy that it comes to the point (`Strategy.Patient`).

Then a shard asks its strategy until it names a key that is held, or none (`Shard.Evicts`), and no
number that the strategy declares cuts that short (`Shard.evict_eq_iff`).  An eviction gives up no
more records than there are above the bound, none of them twice, and leaves the others where they are;
`len` goes down by their number.  If it gives up fewer than it may, every shard has refused in its
turn, and the claim that was made for the next record is given back (`Cache.Evicted`).

Together with the account of calls this makes `len` the number of records at every point of a session
(`Course.counts_exactly`).
-/

import ClusterCache.Proofs.Cache.Course
import ClusterCache.Proofs.Eviction.Patience

namespace ClusterCache

variable {K V : Type} [DecidableEq K] {S : Strategy K}

/-! ### One shard -/

namespace Shard

/-- A shard asks its strategy until it names a key that is held, or none; it looks for each key that is
named by the hash of the key. -/
inductive Evicts (hash : K → UInt64) :
    S.Shared → Shard S V → Option (Record K V) → S.Shared → Shard S V → Prop
  | refuse {sh sh' : S.Shared} {s : Shard S V} {memory : S.State} :
      S.pop sh s.memory = (none, sh', memory) → Evicts hash sh s none sh' { s with memory }
  | take {sh sh' : S.Shared} {s : Shard S V} {memory : S.State} {k : K} {r : Record K V} :
      S.pop sh s.memory = (some k, sh', memory) → s.find? (hash k) k = some r →
      Evicts hash sh s (some r) sh' ⟨s.table.erase (hash k) k, memory⟩
  | pass {sh sh' sh'' : S.Shared} {s s' : Shard S V} {memory : S.State} {k : K}
      {out : Option (Record K V)} :
      S.pop sh s.memory = (some k, sh', memory) → s.find? (hash k) k = none →
      Evicts hash sh' { s with memory } out sh'' s' → Evicts hash sh s out sh'' s'

variable {s s' : Shard S V} {sh sh' : S.Shared} {out : Option (Record K V)} {hash : K → UInt64}

/-- Asking again and again has one end at most. -/
theorem Evicts.unique (h : Evicts hash sh s out sh' s') {out₁ : Option (Record K V)}
    {sh₁ : S.Shared} {s₁ : Shard S V} (h₁ : Evicts hash sh s out₁ sh₁ s₁) :
    (out, sh', s') = (out₁, sh₁, s₁) := by
  induction h with
  | refuse hp =>
    cases h₁ with
    | refuse hp₁ =>
      cases hp.symm.trans hp₁
      rfl
    | take hp₁ _ => cases hp.symm.trans hp₁
    | pass hp₁ _ _ => cases hp.symm.trans hp₁
  | take hp hr =>
    cases h₁ with
    | refuse hp₁ => cases hp.symm.trans hp₁
    | take hp₁ hr₁ =>
      cases hp.symm.trans hp₁
      cases hr.symm.trans hr₁
      rfl
    | pass hp₁ hr₁ _ =>
      cases hp.symm.trans hp₁
      cases hr.symm.trans hr₁
  | pass hp hr _ ih =>
    cases h₁ with
    | refuse hp₁ => cases hp.symm.trans hp₁
    | take hp₁ hr₁ =>
      cases hp.symm.trans hp₁
      cases hr.symm.trans hr₁
    | pass hp₁ _ h₁ =>
      cases hp.symm.trans hp₁
      exact ih h₁

/-- Whoever is as patient as the strategy needs asks until it comes to the point. -/
theorem evicts_evictWithin {n : Nat} (h : S.SettlesWithin (s.holds hash) n sh s.memory) :
    Evicts hash sh s (s.evictWithin hash n sh).1 (s.evictWithin hash n sh).2.1
      (s.evictWithin hash n sh).2.2 := by
  fun_induction evictWithin hash n sh s with
  | case1 n sh s sh' memory hp => exact .refuse hp
  | case2 n sh s k sh' memory hp r hr => exact .take hp hr
  | case3 sh s k sh' memory hp hk =>
    cases h with
    | refuse hp₁ => cases hp.symm.trans hp₁
    | name hp₁ hheld =>
      cases hp.symm.trans hp₁
      rw [not_holds_of_find? hk] at hheld
      cases hheld
  | case4 sh s k sh' memory hp hk n ih =>
    refine .pass hp hk (ih ?_)
    cases h with
    | refuse hp₁ => cases hp.symm.trans hp₁
    | name hp₁ hheld =>
      cases hp.symm.trans hp₁
      rw [not_holds_of_find? hk] at hheld
      cases hheld
    | pass hp₁ h₁ =>
      cases hp.symm.trans hp₁
      exact h₁

/-- The shard holds what its strategy was told of. -/
def Served (hash : K → UInt64) (s : Shard S V) : Prop := S.Serves (s.holds hash) s.memory

/-- **The strategy is asked until it comes to the point**, if it is as patient as it declares. -/
theorem evict_eq_iff (hS : S.Patient) (hs : s.Served hash) :
    s.evict hash sh = (out, sh', s') ↔ Evicts hash sh s out sh' s' := by
  have hevicts := evicts_evictWithin (hS (s.holds hash) sh s.memory hs)
  constructor
  · intro h
    rw [evict] at h
    rwa [h] at hevicts
  · exact fun h => hevicts.unique h

/-- A shard that lost the key that was named, if any, holds what its strategy was told of. -/
theorem served_of_pop {k? : Option K} {memory : S.State} {table : RecordTable K V}
    (hs : s.Served hash) (hp : S.pop sh s.memory = (k?, sh', memory))
    (heq : ∀ a, (⟨table, memory⟩ : Shard S V).holds hash a = true ↔
      k? ≠ some a ∧ s.holds hash a = true) :
    Served hash (⟨table, memory⟩ : Shard S V) := by
  have hnext : S.Serves ((⟨table, memory⟩ : Shard S V).holds hash) (S.pop sh s.memory).2.2 :=
    hs.pop sh (by rwa [hp])
  rwa [hp] at hnext

/-- A key that is named and not held makes no difference to those that are. -/
theorem served_of_miss {k : K} {memory : S.State} (hs : s.Served hash)
    (hp : S.pop sh s.memory = (some k, sh', memory)) (hk : s.find? (hash k) k = none) :
    Served hash { s with memory } := by
  refine served_of_pop hs hp fun a => ?_
  constructor
  · intro ha
    have ha : s.holds hash a = true := ha
    refine ⟨?_, ha⟩
    rintro ⟨⟩
    rw [not_holds_of_find? hk] at ha
    cases ha
  · exact And.right

/-- After it was asked for a record, a shard holds what its strategy was told of. -/
theorem served_evictWithin (n : Nat) (sh : S.Shared) (hs : s.Served hash) :
    (s.evictWithin hash n sh).2.2.Served hash := by
  fun_induction evictWithin hash n sh s with
  | case1 n sh s sh' memory hp =>
    -- nobody goes, and the shard holds what it held
    have hstays : ∀ a, (none : Option K) ≠ some a := fun a => (Option.some_ne_none a).symm
    exact served_of_pop hs hp fun a => (and_iff_right (hstays a)).symm
  | case2 n sh s k sh' memory hp r hr =>
    have hnamed : ∀ a, a ≠ k ↔ some k ≠ some a := fun a =>
      not_congr ⟨fun he => congrArg some he.symm, fun he => (Option.some.inj he).symm⟩
    exact served_of_pop hs hp fun a =>
      holds_iff_of_erase.trans (and_congr_left fun _ => hnamed a)
  | case3 sh s k sh' memory hp hk => exact served_of_miss hs hp hk
  | case4 sh s k sh' memory hp hk n ih => exact ih (served_of_miss hs hp hk)

/-- After it gave up a record, a shard holds what its strategy was told of. -/
theorem served_evict (sh : S.Shared) (hs : s.Served hash) : (s.evict hash sh).2.2.Served hash :=
  served_evictWithin _ sh hs

/-- **Whatever is done with a shard, its strategy is told of it.** -/
theorem kept_served (hash : K → UInt64) (home : UInt64 → Nat) :
    Kept hash home fun _ (s : Shard S V) => s.Served hash where
  place {s r} hr hs := by
    have hheld := fun a => holds_place_iff (s := s) (k := a) hr
    have hmemory := s.place_memory r
    unfold Served
    rw [hmemory]
    cases hfound : s.find? r.hash r.key with
    | none =>
      rw [hr] at hfound
      exact .push hs (not_holds_of_find? hfound) hheld
    | some old =>
      rw [hr] at hfound
      have hbefore : s.holds hash r.key = true := holds_of_find? hfound
      refine (hs.access hbefore).congr fun a => (hheld a).trans ?_
      exact ⟨fun ha => ha.elim (fun he => he ▸ hbefore) id, Or.inr⟩
  lookup {i s} k hs := by
    unfold Shard.lookup
    split
    · rename_i r hr
      split
      · have hkey : r.key = k := (RecordTable.of_find? hr).2
        exact hs.access (hkey ▸ holds_of_find? hr)
      · exact hs
    · exact hs
  detach {i s} k hs := by
    cases hfound : s.find? (hash k) k with
    | none =>
      rw [detach_of_none hfound]
      exact hs
    | some r =>
      rw [detach_of_some hfound]
      exact .remove hs (holds_of_find? hfound) fun a => holds_iff_of_erase
  evict sh hs := served_evict sh hs
  clear hs := .congr (.clear hs) fun a => Iff.rfl

end Shard

/-! ### A round -/

namespace Cache

variable {c c' : Cache S V}

/-- All shards of a list refuse, one after the other. -/
inductive Refused : Cache S V → List Nat → Cache S V → Prop
  | nil {c : Cache S V} : Refused c [] c
  | cons {c c' : Cache S V} {i : Nat} {rest : List Nat} {s s' : Shard S V} {sh' : S.Shared} :
      c.shards[i]? = some s → Shard.Evicts c.hash c.shared s none sh' s' →
      Refused { c with shared := sh', shards := c.shards.setIfInBounds i s' } rest c' →
      Refused c (i :: rest) c'

/-- All shards hold what their strategies were told of. -/
abbrev Served (c : Cache S V) : Prop := c.Each fun _ s => s.Served c.hash

/-- A round without a record has been refused by every shard. -/
theorem refused_of_takeFirst (hS : S.Patient) (hc : c.Served) {is : List Nat}
    (his : ∀ i ∈ is, i < c.shards.size) (h : c.takeFirst is = (none, c')) : c.Refused is c' := by
  induction is generalizing c with
  | nil =>
    obtain rfl : c = c' := (Prod.mk.inj h).2
    exact .nil
  | cons i rest ih =>
    obtain ⟨s, hs⟩ : ∃ s, c.shards[i]? = some s :=
      ⟨_, Array.getElem?_eq_getElem (his i (List.mem_cons_self ..))⟩
    rcases he : s.evict c.hash c.shared with ⟨_ | r, sh', s'⟩
    · have htake : c.takeFrom i =
          (none, { c with shared := sh', shards := c.shards.setIfInBounds i s' }) := by
        simp only [takeFrom, hs, he]
      have hserved := hc.takeFrom (fun sh h => Shard.served_evict sh h) i
      rw [takeFirst, htake] at h
      rw [htake] at hserved
      have hevicts := (Shard.evict_eq_iff hS (hc i s hs)).1 he
      refine .cons hs hevicts (ih hserved (fun j hj => ?_) h)
      rw [Array.size_setIfInBounds]
      exact his j (List.mem_cons_of_mem i hj)
    · have htake : c.takeFrom i =
          (some r, { c with shared := sh', shards := c.shards.setIfInBounds i s' }) := by
        simp only [takeFrom, hs, he]
      rw [takeFirst, htake] at h
      cases h

/-- A round visits only shards that there are. -/
theorem lt_of_mem_round (hc : 0 < c.shards.size) {start i : Nat} (hi : i ∈ c.round start) :
    i < c.shards.size := by
  obtain ⟨j, -, rfl⟩ := List.mem_map.1 hi
  exact Nat.mod_lt _ hc

/-! ### An eviction -/

/-- What claims, questions to shards and giving claims back keep, an eviction keeps. -/
theorem evictOverflow_keeps {Q : Cache S V → Prop} (hclaim : ∀ c c', c.claim = some c' → Q c → Q c')
    (htake : ∀ c i, Q c → Q (c.takeFrom i).2) (hback : ∀ c, Q c → Q c.giveBack) (hc : Q c)
    (start limit : Nat) : Q (c.evictOverflow start limit).2 := by
  induction limit generalizing c with
  | zero => exact hc
  | succ limit ih =>
    unfold evictOverflow
    cases h : c.claim with
    | none => exact hc
    | some c₁ =>
      have hround := takeFirst_keeps htake (hclaim c c₁ h hc) (c₁.round start)
      simp only
      rcases ht : c₁.takeFirst (c₁.round start) with ⟨_ | r, c₂⟩ <;> rw [ht] at hround
      · exact hback c₂ hround
      · exact ih hround

/-- An eviction changes nothing but records and counters. -/
theorem sameSetup_evictOverflow (c : Cache S V) (start limit : Nat) :
    SameSetup c (c.evictOverflow start limit).2 :=
  evictOverflow_keeps (fun _ _ h hc => hc.trans (sameSetup_claim h))
    (fun c' i hc => hc.trans (sameSetup_takeFrom c' i)) (fun _ hc => hc.trans ⟨rfl, rfl, rfl⟩)
    (.refl c) start limit

/-- What a shard keeps when it gives up a record, all shards keep in an eviction. -/
theorem Each.evictOverflow {P : Nat → Shard S V → Prop}
    (hP : ∀ {i s} (sh : S.Shared), P i s → P i (s.evict c.hash sh).2.2) (h : c.Each P)
    (start limit : Nat) : (c.evictOverflow start limit).2.Each P := by
  refine (evictOverflow_keeps (Q := fun c' => c'.hash = c.hash ∧ c'.Each P)
    (fun c₁ c₂ hclaim hc => ?_) (fun c₁ i hc => ?_) (fun _ hc => hc) ⟨rfl, h⟩ start limit).2
  · obtain ⟨max, -, -, rfl⟩ := claim_eq_some_iff.1 hclaim
    exact hc
  · obtain ⟨hhash, heach⟩ := hc
    have hsame : (c₁.takeFrom i).2.hash = c₁.hash := (sameSetup_takeFrom c₁ i).hash
    exact ⟨hsame.trans hhash, heach.takeFrom (fun sh hs => hhash ▸ hP sh hs) i⟩

/-- Records move from the cache to those given up, and `len` goes down by their number. -/
theorem evictOverflow_perm (c : Cache S V) (start limit : Nat) :
    ((c.evictOverflow start limit).1 ++ (c.evictOverflow start limit).2.records).Perm c.records ∧
      (c.evictOverflow start limit).2.len = c.len - (c.evictOverflow start limit).1.length := by
  induction limit generalizing c with
  | zero => exact ⟨List.Perm.refl _, (Int.sub_zero _).symm⟩
  | succ limit ih =>
    unfold evictOverflow
    cases hclaim : c.claim with
    | none => exact ⟨List.Perm.refl _, (Int.sub_zero _).symm⟩
    | some c₁ =>
      obtain ⟨max, -, -, rfl⟩ := claim_eq_some_iff.1 hclaim
      have hperm := takeFirst_perm { c with len := c.len - 1 } (round { c with len := c.len - 1 } start)
      have hlen := len_takeFirst { c with len := c.len - 1 } (round { c with len := c.len - 1 } start)
      simp only
      rcases ht : takeFirst { c with len := c.len - 1 } (round { c with len := c.len - 1 } start)
        with ⟨_ | r, c₂⟩ <;> rw [ht] at hperm hlen
      · refine ⟨hperm, ?_⟩
        show c₂.len + 1 = c.len - 0
        have hlen : c₂.len = c.len - 1 := hlen
        omega
      · obtain ⟨hrest, hcount⟩ := ih c₂
        refine ⟨(hrest.cons r).trans hperm, ?_⟩
        show (c₂.evictOverflow start limit).2.len =
          c.len - ((c₂.evictOverflow start limit).1.length + 1 : Nat)
        have hlen : c₂.len = c.len - 1 := hlen
        omega

/-- If there is nothing to claim, nothing is above the bound. -/
theorem overflow_of_claim_eq_none (h : c.claim = none) : c.overflow = 0 := by
  have hle := claim_eq_none_iff.1 h
  unfold overflow
  split
  · rfl
  · rename_i max hmax
    have := hle max hmax
    omega

/-- A claim is for one of the records above the bound. -/
theorem overflow_of_claim_eq_some (h : c.claim = some c') : c'.overflow + 1 = c.overflow := by
  obtain ⟨max, hmax, hlt, rfl⟩ := claim_eq_some_iff.1 h
  have hmax' : maxEntries { c with len := c.len - 1 } = some max := hmax
  rw [overflow, overflow, hmax, hmax']
  simp only
  omega

/-- A round leaves the count above the bound to the claim that was made before. -/
theorem overflow_takeFirst (c : Cache S V) (is : List Nat) :
    (c.takeFirst is).2.overflow = c.overflow := by
  rw [overflow, overflow, (c.sameSetup_takeFirst is).shape.maxEntries, c.len_takeFirst is]

/-- **An eviction gives up no more than it may, and no more than is above the bound.** -/
theorem length_evictOverflow_le (c : Cache S V) (start limit : Nat) :
    (c.evictOverflow start limit).1.length ≤ min limit c.overflow := by
  induction limit generalizing c with
  | zero => exact Nat.zero_le _
  | succ limit ih =>
    unfold evictOverflow
    cases hclaim : c.claim with
    | none => exact Nat.zero_le _
    | some c₁ =>
      have hover := overflow_of_claim_eq_some hclaim
      have hround := c₁.overflow_takeFirst (c₁.round start)
      simp only
      rcases ht : c₁.takeFirst (c₁.round start) with ⟨_ | r, c₂⟩ <;> rw [ht] at hround
      · exact Nat.zero_le _
      · have hrest := ih c₂
        have hround : c₂.overflow = c₁.overflow := hround
        show (c₂.evictOverflow start limit).1.length + 1 ≤ min (limit + 1) c.overflow
        omega

/-- **An eviction that falls short has asked every shard**, after the last record that it gave up, and
gives back the claim for which it did. -/
theorem refused_of_evictOverflow (hS : S.Patient) (hpos : 0 < c.shards.size) (hc : c.Served)
    {start limit : Nat} {out : List (Record K V)} (heq : c.evictOverflow start limit = (out, c'))
    (hshort : out.length < min limit c.overflow) :
    ∃ c₁ c₂ c₃, c.evictOverflow start out.length = (out, c₁) ∧ c₁.claim = some c₂ ∧
      c₂.Refused (c₂.round start) c₃ ∧ c' = c₃.giveBack := by
  induction limit generalizing c out with
  | zero => omega
  | succ limit ih =>
    rw [evictOverflow] at heq
    cases hclaim : c.claim with
    | none =>
      have := overflow_of_claim_eq_none hclaim
      omega
    | some c₁ =>
      have hover := overflow_of_claim_eq_some hclaim
      have hover₂ := c₁.overflow_takeFirst (c₁.round start)
      have hsetup := (sameSetup_claim hclaim).trans (c₁.sameSetup_takeFirst (c₁.round start))
      have hserved : c₁.Served := by
        obtain ⟨max, -, -, rfl⟩ := claim_eq_some_iff.1 hclaim
        exact hc
      have hserved₂ := hserved.takeFirst (fun sh h => Shard.served_evict sh h) (c₁.round start)
      rw [← (c₁.sameSetup_takeFirst (c₁.round start)).hash] at hserved₂
      have hpos₁ : 0 < c₁.shards.size := (sameSetup_claim hclaim).size.symm ▸ hpos
      simp only [hclaim] at heq
      rcases ht : c₁.takeFirst (c₁.round start) with ⟨_ | r, c₂⟩ <;>
        rw [ht] at heq hover₂ hsetup hserved₂
      · obtain ⟨rfl, rfl⟩ := Prod.mk.inj heq
        exact ⟨c, c₁, c₂, rfl, hclaim,
          refused_of_takeFirst hS hserved (fun i => lt_of_mem_round hpos₁) ht, rfl⟩
      · rcases hrest : c₂.evictOverflow start limit with ⟨rest, c₃⟩
        simp only [hrest] at heq
        obtain ⟨rfl, rfl⟩ := Prod.mk.inj heq
        have hover₂ : c₂.overflow = c₁.overflow := hover₂
        have hpos₂ : 0 < c₂.shards.size := hsetup.size.symm ▸ hpos
        have hless : rest.length < min limit c₂.overflow := by
          rw [List.length_cons] at hshort
          omega
        obtain ⟨c₄, c₅, c₆, hlast, hclaim', hrefused, hback⟩ := ih hpos₂ hserved₂ hrest hless
        refine ⟨c₄, c₅, c₆, ?_, hclaim', hrefused, hback⟩
        rw [List.length_cons, evictOverflow, hclaim]
        simp only [ht, hlast]

/-! ### What is found under a key -/

section

variable {k : K} {r : Record K V}

/-- In a cache in order, what is found under a key is the record with that key. -/
theorem lookup_eq_some_iff (hc : c.Each fun i s => s.Filed c.hash c.shardOf i) :
    (c.lookup k).1 = some r ↔ r ∈ c.records ∧ r.key = k := by
  constructor
  · intro h
    unfold lookup at h
    cases hs : c.shards[c.shardOf (c.hash k)]? with
    | none =>
      simp only [hs] at h
      cases h
    | some s =>
      simp only [hs, Shard.lookup_fst] at h
      obtain ⟨hmem, hkey⟩ := (hc _ s hs).tidy.find?_eq_some_iff.1 h
      have hshard : s ∈ c.shards.toList :=
        List.mem_of_getElem? (by rwa [Array.getElem?_toList])
      exact ⟨List.mem_flatMap.2 ⟨s, hshard, hmem⟩, hkey⟩
  · rintro ⟨hr, rfl⟩
    obtain ⟨s, hs, hr⟩ := List.mem_flatMap.1 hr
    obtain ⟨i, hi⟩ := List.getElem?_of_mem hs
    rw [Array.getElem?_toList] at hi
    obtain ⟨hhash, hhome⟩ := hc i s hi r hr
    have hfound : s.find? (c.hash r.key) r.key = some r :=
      (hc i s hi).tidy.find?_eq_some_iff.2 ⟨hr, rfl⟩
    unfold lookup
    rw [← hhash] at hfound ⊢
    rw [hhome]
    simp only [hi, Shard.lookup_fst]
    exact hfound

/-- In a cache in order no two records have the same key. -/
theorem nodup_key_records (hc : c.Each fun i s => s.Filed c.hash c.shardOf i) :
    (c.records.map Record.key).Nodup := by
  have hfiled : ∀ i (s : Shard S V), c.shards.toList[i]? = some s →
      s.Filed c.hash c.shardOf i := fun i s hi => hc i s (by rwa [← Array.getElem?_toList])
  rw [records_eq, List.map_flatMap]
  refine nodup_flatMap_of_row (fun k => c.shardOf (c.hash k)) ?_ ?_
  · intro s hs
    obtain ⟨i, hi⟩ := List.getElem?_of_mem hs
    exact (hfiled i s hi).nodup_key
  · intro i s hi k hk
    obtain ⟨r, hr, rfl⟩ := List.mem_map.1 hk
    obtain ⟨hhash, hhome⟩ := hfiled i s hi r hr
    rw [← hhash, hhome]

end

/-- What an eviction that may give up `limit` records, in rounds from shard `start`, does to a
cache. -/
structure Evicted (c : Cache S V) (start limit : Nat) (out : List (Record K V)) (c' : Cache S V) :
    Prop where
  /-- It gives up no more than it may and no more than is above the bound. -/
  length_le : out.length ≤ min limit c.overflow
  len : c'.len = c.len - out.length
  /-- What it gives up was found under its key before. -/
  found : ∀ r ∈ out, (c.lookup r.key).1 = some r
  /-- Nothing is found under that key afterwards. -/
  gone : ∀ r ∈ out, (c'.lookup r.key).1 = none
  others : ∀ k, k ∉ out.map Record.key → (c'.lookup k).1 = (c.lookup k).1
  perm : (out ++ c'.records).Perm c.records
  /-- If it gives up fewer, then every shard, asked for one record more, has named keys that it does
  not hold, if any, and then none, and the claim for that record is given back. -/
  short : out.length < min limit c.overflow → ∃ c₁ c₂ c₃,
    c.evictOverflow start out.length = (out, c₁) ∧ c₁.claim = some c₂ ∧
    (∀ i, i < c.shards.size → i ∈ c₂.round start) ∧ c₂.Refused (c₂.round start) c₃ ∧ c' = c₃.giveBack

/-- **An eviction does just this**, wherever its rounds start and whatever it may give up. -/
theorem evicted_evictOverflow (hS : S.Patient) (hpos : 0 < c.shards.size)
    (hfiled : c.Each fun i s => s.Filed c.hash c.shardOf i) (hc : c.Served) (start limit : Nat) :
    c.Evicted start limit (c.evictOverflow start limit).1 (c.evictOverflow start limit).2 := by
  have hsetup := c.sameSetup_evictOverflow start limit
  have hfiled' := hfiled.evictOverflow
    (fun sh h => (Shard.kept_filed c.hash c.shardOf).evict sh h) start limit
  rw [← hsetup.hash, ← hsetup.shape.shardOf] at hfiled'
  have hle := c.length_evictOverflow_le start limit
  obtain ⟨hperm, hlen⟩ := c.evictOverflow_perm start limit
  rcases heq : c.evictOverflow start limit with ⟨out, c'⟩
  rw [heq] at hsetup hfiled' hle hperm hlen
  -- no key of a record given up is left, since no two records had the same
  have hnodup : ((out ++ c'.records).map Record.key).Nodup :=
    (hperm.map Record.key).nodup_iff.2 (nodup_key_records hfiled)
  rw [List.map_append, List.nodup_append] at hnodup
  have hgone : ∀ k ∈ out.map Record.key, (c'.lookup k).1 = none := by
    intro k hk
    cases hr : (c'.lookup k).1 with
    | none => rfl
    | some r =>
      obtain ⟨hmem, rfl⟩ := (lookup_eq_some_iff hfiled').1 hr
      exact absurd rfl (hnodup.2.2 _ hk _ (List.mem_map_of_mem hmem))
  refine ⟨hle, hlen, ?_, ?_, ?_, hperm, ?_⟩
  · intro r hr
    exact (lookup_eq_some_iff hfiled).2 ⟨hperm.subset (List.mem_append_left _ hr), rfl⟩
  · intro r hr
    exact hgone _ (List.mem_map_of_mem hr)
  · intro k hk
    refine Option.ext fun r => ?_
    rw [lookup_eq_some_iff hfiled', lookup_eq_some_iff hfiled, ← hperm.mem_iff, List.mem_append]
    refine and_congr_left fun hkey => ⟨Or.inr, fun hr => hr.resolve_left fun hout => hk ?_⟩
    exact hkey ▸ List.mem_map_of_mem hout
  · intro hshort
    obtain ⟨c₁, c₂, c₃, hrun, hclaim, hrefused, hback⟩ :=
      refused_of_evictOverflow hS hpos hc heq hshort
    have hsetup₁ := c.sameSetup_evictOverflow start out.length
    rw [hrun] at hsetup₁
    have hsize : c₂.shards.size = c.shards.size := (hsetup₁.trans (sameSetup_claim hclaim)).size
    exact ⟨c₁, c₂, c₃, hrun, hclaim, fun i hi => mem_round start (hsize.symm ▸ hi), hrefused, hback⟩

/-- The shards of a new cache hold what their strategies were told of: nothing. -/
theorem Fresh.each_served (h : c.Fresh) : c.Served := by
  intro i s hs
  obtain ⟨capacity, rfl⟩ := h.shard i s hs
  exact .congr (.init capacity) fun a => Iff.rfl

/-- A cache for one record, in two shards, that gives up the oldest one if the gate is open.  All keys
have the same hash. -/
def forOneGated : Cache (.gated Nat) Nat where
  shards := .replicate 2 (.init (.gated Nat) Nat 1)
  shared := {}
  controller := forOne.controller
  len := 0
  cursor := 0
  metrics := {}
  created := 0
  hash _ := 7

/-- This cache is made as caches are. -/
theorem create_forOneGated :
    create (.gated Nat) Nat 2 forOne.controller (fun _ => 7) = .ok forOneGated := rfl

end Cache

/-! ### Sessions -/

namespace Course

variable {P : Call S V → Prop} {c₀ : Cache S V} {p : Point S V}

/-- A call on which nothing is told is over at once. -/
theorem silent {c : Cache S V} {past : List (Call S V × Cache S V)} {log : List (Departure K V)}
    (x : Call S V) (hx : P x) (hout : (c.perform x).2.1 = []) (h : Course P c₀ ⟨c, past, log, []⟩) :
    Course P c₀ ⟨(c.perform x).2.2, (x, c) :: past, log, []⟩ := by
  have hnext := perform (ask hx h)
  rwa [hout] at hnext

/-- **The count is exact, whatever the strategy.**  Whenever a departure is told or a call is over,
`len` is the number of records, so it is never negative.  Every eviction then, and every one that is
made while a call is under way, gives up no more records than it may and than there are above the
bound; each of them was there before and is gone afterwards, the others are as they were, and `len`
goes down by their number.  If there are fewer than there might have been, every shard in its turn has
named none that it holds, and the claim for the next record is given back. -/
theorem counts_exactly (hS : S.Patient) {controller : Controller} {shards : Nat} {hash : K → UInt64}
    (hcreate : Cache.create S V shards controller hash = .ok c₀) (h : Course P c₀ p) :
    p.cache.len = p.cache.stored ∧ 0 ≤ p.cache.len ∧
    ∀ c, (c = p.cache ∨ ∃ t, p.Passes c t) → ∀ start limit,
      c.Evicted start limit (c.evictOverflow start limit).1 (c.evictOverflow start limit).2 := by
  have hfresh := (Cache.create_eq_ok hcreate).1
  have hlen := h.len_eq hfresh
  refine ⟨hlen, by omega, ?_⟩
  intro c hc start limit
  have heach : ∀ {Q : Nat → Shard S V → Prop}, c₀.Kept Q → c₀.Each Q →
      Cache.SameShape c₀ c ∧ c.Each Q := fun hkept hstart => by
    rcases hc with rfl | ⟨t, hp⟩
    · exact ⟨h.sameShape, h.each hkept hstart⟩
    · exact h.passes_each hkept hstart hp
  obtain ⟨hshape, hfiled⟩ := heach (Shard.kept_filed c₀.hash c₀.shardOf) hfresh.each_filed
  have hserved := (heach (Shard.kept_served c₀.hash c₀.shardOf) hfresh.each_served).2
  rw [← hshape.hash, ← hshape.shardOf] at hfiled
  rw [← hshape.hash] at hserved
  exact Cache.evicted_evictOverflow hS (hshape.size.symm ▸ hfresh.size) hfiled hserved start limit

/-- Behind a gate that is shut before the second record comes, two records stay in a cache for one,
and an eviction gives up neither. -/
theorem counts_exactly_shut :
    ∃ p, Course (fun _ => True) Cache.forOneGated p ∧ p.cache.overflow = 1 ∧ p.cache.len = 2 ∧
      (p.cache.evictOverflow 0 8).1 = [] ∧ p.cache.len = p.cache.stored ∧
      p.cache.Evicted 0 8 (p.cache.evictOverflow 0 8).1 (p.cache.evictOverflow 0 8).2 := by
  have h₁ := silent (.insert 1 10) trivial (by decide +kernel)
    (start : Course (fun _ => True) Cache.forOneGated _)
  have h₂ := silent (.adjust fun gate : Gate Nat => { gate with isOpen := false }) trivial rfl h₁
  have h₃ := silent (.insert 2 20) trivial (by decide +kernel) h₂
  obtain ⟨hlen, -, hevicted⟩ := h₃.counts_exactly Strategy.patient_gated Cache.create_forOneGated
  exact ⟨_, h₃, by decide +kernel, by decide +kernel, by decide +kernel, hlen,
    hevicted _ (.inl rfl) 0 8⟩

end Course
end ClusterCache
