/-
# Caches that go the same way

A cache reads little of its own state: under which keys there are records, what its strategies remember,
how many records it counts, and whether it runs.  Two caches that agree in that, up to likeness of what
the strategies remember and as far as a function `f` tells records apart, are alike (`Cache.Like`), no
matter what they came from.  A call shows the same on caches that are alike, and leaves them alike
(`Cache.Like.respond`).

What a cache only counts for others may differ: where its next sweep begins, the numbers of its records
and the counters.  They go on by the same in both; of two caches that are alike it is said since when.
Where a sweep begins shows only if there is something to give up.
-/

import ClusterCache.Proofs.Cache.Calm
import ClusterCache.Proofs.Cache.Steady
import ClusterCache.Proofs.Eviction.Likeness

namespace ClusterCache

variable {K V : Type} {f : Record K V → Record K V}

/-! ### Records -/

namespace Record

/-- The function leaves enough of a record to tell its key. -/
def Keyed (f : Record K V → Record K V) : Prop := ∀ r r', f r = f r' → r.key = r'.key

/-- Without its hash a record still tells its key. -/
theorem keyed_unhashed : Keyed (unhashed (K := K) (V := V)) := fun _ _ h => (Record.mk.inj h).1

/-- Without its number a record still tells its key. -/
theorem keyed_unnumbered : Keyed (unnumbered (K := K) (V := V)) := fun _ _ h => (Record.mk.inj h).1

end Record

open Record (cases_of_map_eq)

variable [DecidableEq K] {S : Strategy K} {L : S.Likeness}

/-! ### Shards -/

namespace Shard

variable {s s' : Shard S V} {r r' : Record K V} {k : K} {hash hash' : K → UInt64}

/-- Two shards are searched by a hash each.  Under the hashes of a key they find the same record as far
as `f` tells, they have no records that carry another hash, and what their strategies remember is
alike. -/
structure Like (L : S.Likeness) (f : Record K V → Record K V) (hash hash' : K → UInt64)
    (s s' : Shard S V) : Prop where
  tidy_left : s.table.Tidy hash
  tidy_right : s'.table.Tidy hash'
  found : ∀ k, (s.find? (hash k) k).map f = (s'.find? (hash' k) k).map f
  memory : L.Like s.memory s'.memory

namespace Like

/-- A key finds nothing in either, or a record in each. -/
theorem cases (h : s.Like L f hash hash' s') (k : K) :
    (s.find? (hash k) k = none ∧ s'.find? (hash' k) k = none) ∨
    ∃ r r', s.find? (hash k) k = some r ∧ s'.find? (hash' k) k = some r' ∧ f r = f r' :=
  cases_of_map_eq (h.found k)

/-- The same keys are held. -/
theorem holds (h : s.Like L f hash hash' s') : s'.holds hash' = s.holds hash := by
  funext k
  rcases h.cases k with ⟨hr, hr'⟩ | ⟨r, r', hr, hr', -⟩
  · rw [not_holds_of_find? hr, not_holds_of_find? hr']
  · rw [holds_of_find? hr, holds_of_find? hr']

/-- Dropping a key, each by its hash, leaves shards alike. -/
theorem erase (h : s.Like L f hash hash' s') (k : K) {m m' : S.State} (hm : L.Like m m') :
    Like L f hash hash' (⟨s.table.erase (hash k) k, m⟩ : Shard S V)
      ⟨s'.table.erase (hash' k) k, m'⟩ := by
  refine ⟨h.tidy_left.erase _ k, h.tidy_right.erase _ k, fun a => ?_, hm⟩
  rw [find?, find?, RecordTable.find?_erase_hash, RecordTable.find?_erase_hash]
  split
  · rfl
  · exact h.found a

/-- Records that are the same as far as `f` tells, each with its hash, take the places of such. -/
theorem place (hf : Record.Keyed f) (h : s.Like L f hash hash' s') (hr : f r = f r')
    (hhash : r.hash = hash r.key) (hhash' : r'.hash = hash' r'.key) :
    (s.place r).1.map f = (s'.place r').1.map f ∧
      (s.place r).2.Like L f hash hash' (s'.place r').2 := by
  have hkey : r.key = r'.key := hf r r' hr
  have hfound := h.found r.key
  rw [← hhash, hkey, ← hhash', ← hkey] at hfound
  refine ⟨?_, ?_, ?_, fun a => ?_, ?_⟩
  · rw [place_fst, place_fst, ← hkey]
    exact hfound
  · rw [place_table]
    exact h.tidy_left.insert hhash
  · rw [place_table]
    exact h.tidy_right.insert hhash'
  · rw [find?, find?, place_table, place_table, RecordTable.find?_insert_hash _ hhash,
      RecordTable.find?_insert_hash _ hhash', ← hkey]
    split
    · exact congrArg some hr
    · exact h.found a
  · rw [place_memory, place_memory, ← hkey]
    rcases cases_of_map_eq hfound with ⟨ho, ho'⟩ | ⟨old, old', ho, ho', -⟩
    · rw [ho, ho']
      exact L.push _ h.memory
    · rw [ho, ho']
      exact L.access _ h.memory

/-- Looking a key up answers the same and leaves shards alike. -/
theorem lookup (h : s.Like L f hash hash' s') (k : K) :
    (s.lookup (hash k) k).1.map f = (s'.lookup (hash' k) k).1.map f ∧
      (s.lookup (hash k) k).2.Like L f hash hash' (s'.lookup (hash' k) k).2 := by
  have hmemory : L.Like (s.lookup (hash k) k).2.memory (s'.lookup (hash' k) k).2.memory := by
    unfold Shard.lookup
    rcases h.cases k with ⟨ho, ho'⟩ | ⟨r, r', ho, ho', -⟩
    · rw [ho, ho']
      exact h.memory
    · have hkey : r.key = r'.key := (RecordTable.of_find? ho).2.trans (RecordTable.of_find? ho').2.symm
      rw [ho, ho']
      simp only [hkey]
      split
      · exact L.access _ h.memory
      · exact h.memory
  refine ⟨?_, ?_, ?_, fun a => ?_, hmemory⟩
  · rw [lookup_fst, lookup_fst]
    exact h.found k
  · rw [lookup_table]
    exact h.tidy_left
  · rw [lookup_table]
    exact h.tidy_right
  · rw [find?, find?, lookup_table, lookup_table]
    exact h.found a

/-- Taking a key out answers the same and leaves shards alike. -/
theorem detach (h : s.Like L f hash hash' s') (k : K) :
    (s.detach (hash k) k).1.map f = (s'.detach (hash' k) k).1.map f ∧
      (s.detach (hash k) k).2.Like L f hash hash' (s'.detach (hash' k) k).2 := by
  rcases h.cases k with ⟨ho, ho'⟩ | ⟨r, r', ho, ho', hr⟩
  · rw [detach_of_none ho, detach_of_none ho']
    exact ⟨rfl, h⟩
  · rw [detach_of_some ho, detach_of_some ho']
    exact ⟨congrArg some hr, h.erase k (L.remove _ h.memory)⟩

/-- What the strategies remember may change to something alike. -/
theorem remember (h : s.Like L f hash hash' s') {m m' : S.State} (hm : L.Like m m') :
    Like L f hash hash' { s with memory := m } { s' with memory := m' } :=
  { h with memory := hm }

/-- **The victims that are named, each found by its hash, are the same.** -/
theorem evictWithin (h : s.Like L f hash hash' s') (patience : Nat) (sh : S.Shared) :
    (s.evictWithin hash patience sh).1.map f = (s'.evictWithin hash' patience sh).1.map f ∧
      (s'.evictWithin hash' patience sh).2.1 = (s.evictWithin hash patience sh).2.1 ∧
      (s.evictWithin hash patience sh).2.2.Like L f hash hash'
        (s'.evictWithin hash' patience sh).2.2 := by
  induction patience using Nat.strongRecOn generalizing s s' sh with
  | ind patience ih =>
    obtain ⟨k?, sh₁, m, m', hp, hp', hpop⟩ := L.exists_pop h.memory sh
    have hasked := h.remember hpop
    unfold Shard.evictWithin
    rw [hp, hp']
    cases k? with
    | none => exact ⟨rfl, rfl, hasked⟩
    | some k =>
      -- the victim is found in both, each time by its own hash, or in neither
      rcases h.cases k with ⟨ho, ho'⟩ | ⟨r, r', ho, ho', hr⟩
      · simp only [ho, ho']
        cases patience with
        | zero => exact ⟨rfl, rfl, hasked⟩
        | succ patience => exact ih patience (Nat.lt_succ_self _) hasked _
      · simp only [ho, ho']
        exact ⟨congrArg some hr, trivial, h.erase k hpop⟩

/-- **Shards that are alike give up the same.** -/
theorem evict (h : s.Like L f hash hash' s') (sh : S.Shared) :
    (s.evict hash sh).1.map f = (s'.evict hash' sh).1.map f ∧
      (s'.evict hash' sh).2.1 = (s.evict hash sh).2.1 ∧
      (s.evict hash sh).2.2.Like L f hash hash' (s'.evict hash' sh).2.2 := by
  unfold Shard.evict
  rw [h.holds, L.patience _ _ h.memory]
  exact h.evictWithin _ sh

/-- Shards without records are alike. -/
theorem of_empty {m m' : S.State} (hm : L.Like m m') :
    Like L f hash hash' (⟨.empty, m⟩ : Shard S V) ⟨.empty, m'⟩ where
  tidy_left := RecordTable.tidy_empty hash
  tidy_right := RecordTable.tidy_empty hash'
  found _ := rfl
  memory := hm

/-- Clearing takes out the same records, in one order or another. -/
theorem clear (h : s.Like L f hash hash' s') :
    (s.clear.1.map f).Perm (s'.clear.1.map f) ∧ s.clear.2.Like L f hash hash' s'.clear.2 :=
  ⟨h.tidy_left.map_perm h.tidy_right h.found, of_empty (L.clear h.memory)⟩

end Like

/-- The shards of two caches are alike, place by place. -/
structure Likes (L : S.Likeness) (f : Record K V → Record K V) (hash hash' : K → UInt64)
    (a a' : Array (Shard S V)) : Prop where
  size : a'.size = a.size
  like : ∀ (i : Nat) s s', a[i]? = some s → a'[i]? = some s' → s.Like L f hash hash' s'

namespace Likes

variable {a a' : Array (Shard S V)} {i : Nat}

/-- Either there is no shard at a place, or there are two that are alike. -/
theorem cases (h : Likes L f hash hash' a a') (i : Nat) :
    (a[i]? = none ∧ a'[i]? = none) ∨
    ∃ s s', a[i]? = some s ∧ a'[i]? = some s' ∧ s.Like L f hash hash' s' := by
  by_cases hi : i < a.size
  · have hi' : i < a'.size := h.size.symm ▸ hi
    exact Or.inr ⟨_, _, Array.getElem?_eq_getElem hi, Array.getElem?_eq_getElem hi',
      h.like i _ _ (Array.getElem?_eq_getElem hi) (Array.getElem?_eq_getElem hi')⟩
  · have hi' : ¬ i < a'.size := h.size.symm ▸ hi
    exact Or.inl ⟨Array.getElem?_eq_none (Nat.le_of_not_lt hi),
      Array.getElem?_eq_none (Nat.le_of_not_lt hi')⟩

/-- Shards that are alike may be put at the same place. -/
theorem set (h : Likes L f hash hash' a a') (i : Nat) (hs : s.Like L f hash hash' s') :
    Likes L f hash hash' (a.setIfInBounds i s) (a'.setIfInBounds i s') := by
  have hsize : (a'.setIfInBounds i s').size = (a.setIfInBounds i s).size := by
    rw [Array.size_setIfInBounds, Array.size_setIfInBounds, h.size]
  refine ⟨hsize, fun j t t' ht ht' => ?_⟩
  rw [Array.getElem?_setIfInBounds] at ht ht'
  by_cases hij : i = j
  · rw [if_pos hij] at ht ht'
    split at ht
    · split at ht'
      · exact Option.some.inj ht ▸ Option.some.inj ht' ▸ hs
      · cases ht'
    · cases ht
  · rw [if_neg hij] at ht ht'
    exact h.like j t t' ht ht'

end Likes
end Shard

/-! ### Caches between calls -/

namespace Cache

variable {c₀ c₀' c c' : Cache S V}

/-- Between calls a cache keeps to its bound, or has none to keep to. -/
inductive Settled (c : Cache S V) : Prop
  | steady {T : S.Tracking} {max : Nat} : c.Steady T max → Settled c
  | calm : c.Calm → Settled c

namespace Settled

/-- A settled cache has a shard. -/
theorem size_pos (h : c.Settled) : 0 < c.shards.size := by
  cases h with
  | steady h => exact h.size_pos
  | calm h => exact h.size_pos

/-- A settled cache is settled after every call. -/
theorem perform (h : c.Settled) (x : Call S V) : (c.perform x).2.2.Settled := by
  cases h with
  | steady h => exact .steady (h.perform x)
  | calm h => exact .calm (h.perform x)

/-- In a settled cache that runs there is nothing above the bound. -/
theorem overflow (h : c.Settled) (hrun : c.isRunning = true) : c.overflow = 0 := by
  cases h with
  | steady h =>
    have hle := h.stored_le hrun
    have hlen := h.len_eq
    rw [Cache.overflow, h.maxEntries]
    show (c.len - _).toNat = 0
    omega
  | calm h => rw [Cache.overflow, h.idle hrun]

end Settled

/-! ### Like caches -/

/-- Two caches hold the same records as far as `f` tells, in like shards, and go on to make the same;
they count as many, and keep to the same bound.  What they only count for others has gone on by the
same since they were `c₀` and `c₀'`. -/
structure Like (L : S.Likeness) (f : Record K V → Record K V) (c₀ c₀' c c' : Cache S V) : Prop where
  shards : Shard.Likes L f c.hash c'.hash c.shards c'.shards
  home : ∀ k, c'.shardOf (c'.hash k) = c.shardOf (c.hash k)
  made : ∀ k v n, f ⟨k, v, c.hash k, c.created + n⟩ = f ⟨k, v, c'.hash k, c'.created + n⟩
  shared : c'.shared = c.shared
  config : c'.controller.config = c.controller.config
  isRunning : c'.isRunning = c.isRunning
  len : c'.len = c.len
  cursor : c'.cursor + c₀.cursor = c.cursor + c₀'.cursor
  metrics : Metrics.Advanced True c₀.metrics c₀'.metrics c.metrics c'.metrics

namespace Like

/-! ### Steps that change one shard -/

/-- Like caches have the same bound. -/
theorem maxEntries (h : Like L f c₀ c₀' c c') : c'.maxEntries = c.maxEntries := by
  rw [Cache.maxEntries, Cache.maxEntries, h.config]

/-- Like caches are equally far above their bound. -/
theorem overflow (h : Like L f c₀ c₀' c c') : c'.overflow = c.overflow := by
  rw [Cache.overflow, Cache.overflow, h.maxEntries, h.len]

/-- Like caches report equally many records. -/
theorem size (h : Like L f c₀ c₀' c c') : c'.size = c.size := by
  rw [Cache.size, Cache.size, h.len]

/-- Like caches make the same record, as far as can be told. -/
theorem newRecord (h : Like L f c₀ c₀' c c') (k : K) (v : V) :
    f (c.newRecord k v) = f (c'.newRecord k v) := h.made k v 0

/-- One shard of each is replaced by shards that are alike. -/
theorem set (h : Like L f c₀ c₀' c c') (i : Nat) {s s' : Shard S V}
    (hs : s.Like L f c.hash c'.hash s') :
    Like L f c₀ c₀' { c with shards := c.shards.setIfInBounds i s }
      { c' with shards := c'.shards.setIfInBounds i s' } := by
  refine { h with shards := h.shards.set i hs, home := fun k => ?_ }
  have hhome := h.home k
  rw [shardOf, shardOf] at hhome ⊢
  rw [Array.size_setIfInBounds, Array.size_setIfInBounds]
  exact hhome

/-- Like caches contain the same keys. -/
theorem contains (h : Like L f c₀ c₀' c c') (k : K) : c'.contains k = c.contains k := by
  rw [Cache.contains, Cache.contains, h.home k]
  rcases h.shards.cases (c.shardOf (c.hash k)) with ⟨hs, hs'⟩ | ⟨s, s', hs, hs', hlike⟩
  · rw [hs, hs']
  · rw [hs, hs']
    exact congrFun hlike.holds k

/-- The same record is made in both, as far as `f` tells. -/
theorem place (hf : Record.Keyed f) (h : Like L f c₀ c₀' c c') (hc : 0 < c.shards.size) (k : K)
    (v : V) : (c.place k v).2.1.map f = (c'.place k v).2.1.map f ∧
      Like L f c₀ c₀' (c.place k v).2.2 (c'.place k v).2.2 := by
  obtain ⟨s, hs⟩ := exists_shard hc (c.hash k)
  rcases h.shards.cases (c.shardOf (c.hash k)) with ⟨hnone, -⟩ | ⟨t, s', ht, hs', hlike⟩
  · rw [hs] at hnone
    cases hnone
  · obtain rfl : s = t := Option.some.inj (hs.symm.trans ht)
    obtain ⟨hold, hnext⟩ := hlike.place hf (h.newRecord k v) rfl rfl
    have hlen : (s'.place (c'.newRecord k v)).1.isNone = (s.place (c.newRecord k v)).1.isNone := by
      rw [← Option.isNone_map (f := f), ← hold, Option.isNone_map]
    rw [place_of_shard v hs, place_of_shard v (c := c') ((h.home k).symm ▸ hs'), h.home k, hlen, h.len]
    refine ⟨hold, { h.set _ hnext with made := fun k v n => ?_, len := rfl }⟩
    have hmade := h.made k v (1 + n)
    rwa [← Nat.add_assoc, ← Nat.add_assoc] at hmade

/-- Like caches find the same, and are alike afterwards. -/
theorem lookup (h : Like L f c₀ c₀' c c') (k : K) :
    (c.lookup k).1.map f = (c'.lookup k).1.map f ∧
      Like L f c₀ c₀' (c.lookup k).2 (c'.lookup k).2 := by
  unfold Cache.lookup
  rcases h.shards.cases (c.shardOf (c.hash k)) with ⟨hs, hs'⟩ | ⟨s, s', hs, hs', hlike⟩
  · simp only [h.home k, hs, hs']
    exact ⟨trivial, h⟩
  · obtain ⟨hr, hnext⟩ := hlike.lookup k
    simp only [h.home k, hs, hs']
    exact ⟨hr, h.set _ hnext⟩

/-- Like caches take out the same record, and are alike afterwards. -/
theorem detach (h : Like L f c₀ c₀' c c') (k : K) :
    (c.detach k).1.map f = (c'.detach k).1.map f ∧
      Like L f c₀ c₀' (c.detach k).2 (c'.detach k).2 := by
  unfold Cache.detach
  rcases h.shards.cases (c.shardOf (c.hash k)) with ⟨hs, hs'⟩ | ⟨s, s', hs, hs', hlike⟩
  · simp only [h.home k, hs, hs']
    exact ⟨trivial, h⟩
  · obtain ⟨hr, hnext⟩ := hlike.detach k
    have hlen : (s'.detach (c'.hash k) k).1.isSome = (s.detach (c.hash k) k).1.isSome := by
      rw [← Option.isSome_map (f := f), ← hr, Option.isSome_map]
    simp only [h.home k, hs, hs', hlen, h.len]
    exact ⟨hr, { h.set _ hnext with len := rfl }⟩

/-- Like caches evict the same record from the same shard, and are alike afterwards. -/
theorem takeFrom (h : Like L f c₀ c₀' c c') (i : Nat) :
    (c.takeFrom i).1.map f = (c'.takeFrom i).1.map f ∧
      Like L f c₀ c₀' (c.takeFrom i).2 (c'.takeFrom i).2 := by
  rw [Cache.takeFrom, Cache.takeFrom]
  rcases h.shards.cases i with ⟨hs, hs'⟩ | ⟨s, s', hs, hs', hlike⟩
  · rw [hs, hs']
    exact ⟨rfl, h⟩
  · obtain ⟨hr, hshared, hnext⟩ := hlike.evict c.shared
    rw [hs, hs', h.shared]
    simp only [hshared]
    exact ⟨hr, { h.set i hnext with shared := rfl }⟩

/-- Like caches lose the same records from a shard that is cleared, in whatever order, and are alike
afterwards. -/
theorem clearShard (h : Like L f c₀ c₀' c c') (i : Nat) :
    ((c.clearShard i).1.map f).Perm ((c'.clearShard i).1.map f) ∧
      Like L f c₀ c₀' (c.clearShard i).2 (c'.clearShard i).2 := by
  rw [Cache.clearShard, Cache.clearShard]
  rcases h.shards.cases i with ⟨hs, hs'⟩ | ⟨s, s', hs, hs', hlike⟩
  · rw [hs, hs']
    exact ⟨.refl _, h⟩
  · obtain ⟨hout, hnext⟩ := hlike.clear
    have hlength := hout.length_eq
    rw [List.length_map, List.length_map] at hlength
    rw [hs, hs']
    simp only [hlength, h.len]
    exact ⟨hout, { h.set i hnext with len := rfl }⟩

/-! ### Evictions and clearings -/

/-- Like caches go through their shards in the same order. -/
theorem round (h : Like L f c₀ c₀' c c') (start : Nat) : c'.round start = c.round start := by
  rw [Cache.round, Cache.round, h.shards.size]

/-- Like caches give up the same record in a round, and are alike afterwards. -/
theorem takeFirst (h : Like L f c₀ c₀' c c') (is : List Nat) :
    (c.takeFirst is).1.map f = (c'.takeFirst is).1.map f ∧
      Like L f c₀ c₀' (c.takeFirst is).2 (c'.takeFirst is).2 := by
  induction is generalizing c c' with
  | nil => exact ⟨rfl, h⟩
  | cons i rest ih =>
    obtain ⟨hr, hnext⟩ := h.takeFrom i
    unfold Cache.takeFirst
    rcases ht : c.takeFrom i with ⟨o, c₁⟩
    rcases ht' : c'.takeFrom i with ⟨o', c₁'⟩
    rw [ht, ht'] at hr hnext
    rcases cases_of_map_eq hr with ⟨rfl, rfl⟩ | ⟨r, r', rfl, rfl, -⟩
    · exact ih hnext
    · exact ⟨hr, hnext⟩

/-- Like caches claim a record above the bound together or not at all. -/
theorem claim (h : Like L f c₀ c₀' c c') :
    (c.claim = none ∧ c'.claim = none) ∨
    ∃ c₁ c₁', c.claim = some c₁ ∧ c'.claim = some c₁' ∧ Like L f c₀ c₀' c₁ c₁' := by
  unfold Cache.claim
  rw [h.maxEntries, h.len]
  split
  · exact Or.inl ⟨rfl, rfl⟩
  · split
    · exact Or.inr ⟨_, _, rfl, rfl, { h with len := rfl }⟩
    · exact Or.inl ⟨rfl, rfl⟩

/-- Like caches evict the same records in the same order, and are alike afterwards. -/
theorem evictOverflow (h : Like L f c₀ c₀' c c') (start limit : Nat) :
    (c.evictOverflow start limit).1.map f = (c'.evictOverflow start limit).1.map f ∧
      Like L f c₀ c₀' (c.evictOverflow start limit).2 (c'.evictOverflow start limit).2 := by
  induction limit generalizing c c' with
  | zero => exact ⟨rfl, h⟩
  | succ limit ih =>
    unfold Cache.evictOverflow
    rcases h.claim with ⟨hc, hc'⟩ | ⟨c₁, c₁', hc, hc', h₁⟩
    · rw [hc, hc']
      exact ⟨rfl, h⟩
    · obtain ⟨hr, hnext⟩ := h₁.takeFirst (c₁.round start)
      rw [hc, hc']
      simp only [h₁.round]
      rcases ht : c₁.takeFirst (c₁.round start) with ⟨o, c₂⟩
      rcases ht' : c₁'.takeFirst (c₁.round start) with ⟨o', c₂'⟩
      rw [ht, ht'] at hr hnext
      rcases cases_of_map_eq hr with ⟨rfl, rfl⟩ | ⟨r, r', rfl, rfl, heq⟩
      · have hback : c₂'.len + 1 = c₂.len + 1 := congrArg (· + 1) hnext.len
        exact ⟨rfl, { hnext with len := hback }⟩
      · obtain ⟨hrest, hlast⟩ := ih hnext
        refine ⟨?_, hlast⟩
        rw [List.map_cons, List.map_cons, hrest, heq]

/-- Like caches lose the same records, shard by shard, and are alike afterwards. -/
theorem clearShards (h : Like L f c₀ c₀' c c') {taken taken' : List (Record K V)}
    (ht : (taken.map f).Perm (taken'.map f)) (is : List Nat) :
    ((c.clearShards taken is).1.map f).Perm ((c'.clearShards taken' is).1.map f) ∧
      Like L f c₀ c₀' (c.clearShards taken is).2 (c'.clearShards taken' is).2 := by
  have hreverse : ∀ {l l' : List (Record K V)}, (l.map f).Perm (l'.map f) →
      (l.reverse.map f).Perm (l'.reverse.map f) := fun {l l'} hl => by
    rw [List.map_reverse, List.map_reverse]
    exact (List.reverse_perm _).trans (hl.trans (List.reverse_perm _).symm)
  induction is generalizing c c' taken taken' with
  | nil => exact ⟨hreverse ht, h⟩
  | cons i rest ih =>
    obtain ⟨hout, hnext⟩ := h.clearShard i
    refine ih hnext ?_
    rw [List.map_append, List.map_append]
    exact (hreverse hout).append ht

/-! ### Calls -/

open Metrics (Advanced)

/-- Like caches answer an insertion alike, and are alike afterwards. -/
theorem insert (hf : Record.Keyed f) (h : Like L f c₀ c₀' c c') (hc : 0 < c.shards.size) (k : K)
    (v : V) : f (c.insert k v).1 = f (c'.insert k v).1 ∧
      Departure.Alike f (c.insert k v).2.1 (c'.insert k v).2.1 ∧
      Like L f c₀ c₀' (c.insert k v).2.2 (c'.insert k v).2.2 := by
  obtain ⟨hold, hnext⟩ := h.place hf hc k v
  have hr := h.newRecord k v
  have hfst := c.place_fst k v
  have hfst' := c'.place_fst k v
  have hsetup := c.sameSetup_place k v
  have hsetup' := c'.sameSetup_place k v
  unfold Cache.insert
  rcases hp : c.place k v with ⟨r, o, c₁⟩
  rcases hp' : c'.place k v with ⟨r', o', c₁'⟩
  rw [hp] at hold hnext hfst hsetup
  rw [hp'] at hold hnext hfst' hsetup'
  obtain rfl : r = c.newRecord k v := hfst
  obtain rfl : r' = c'.newRecord k v := hfst'
  rcases cases_of_map_eq hold with ⟨rfl, rfl⟩ | ⟨old, old', rfl, rfl, heq⟩
  · obtain ⟨c₂, hc₂⟩ : ∃ c₂, c₂ = c₁.count fun m => { m with insert := m.insert + 1 } := ⟨_, rfl⟩
    obtain ⟨c₂', hc₂'⟩ : ∃ c₂, c₂ = c₁'.count fun m => { m with insert := m.insert + 1 } := ⟨_, rfl⟩
    have h₂ : Like L f c₀ c₀' c₂ c₂' := by
      rw [hc₂, hc₂']
      exact { hnext with metrics := { hnext.metrics with insert := Advanced.once hnext.metrics.insert } }
    -- both look for a victim in the shard of the key first
    have hstart : c₂'.shardOf (c'.newRecord k v).hash = c₂.shardOf (c.newRecord k v).hash := by
      have hsame : c₂.shardOf = c₁.shardOf := by rw [hc₂]; rfl
      have hsame' : c₂'.shardOf = c₁'.shardOf := by rw [hc₂']; rfl
      rw [hsame, hsame', hsetup.shape.shardOf, hsetup'.shape.shardOf]
      exact h.home k
    simp only [← hc₂, ← hc₂', h₂.isRunning, hstart]
    split
    · obtain ⟨hout, hlast⟩ := h₂.evictOverflow (c₂.shardOf (c.newRecord k v).hash) inlineBatch
      have hlength := congrArg List.length hout
      rw [List.length_map, List.length_map] at hlength
      exact ⟨hr, .departures .evict hout, { hlast with
        metrics := { hlast.metrics with evict := Advanced.many hlast.metrics.evict hlength } }⟩
    · exact ⟨hr, .of_map_eq rfl, h₂⟩
  · refine ⟨hr, .departures .replace ?_, { hnext with
      metrics := { hnext.metrics with replace := Advanced.once hnext.metrics.replace } }⟩
    exact congrArg (fun r => [r]) heq

/-- Like caches answer a lookup alike, and are alike afterwards. -/
theorem get (h : Like L f c₀ c₀' c c') (k : K) :
    (c.get k).1.map f = (c'.get k).1.map f ∧ Like L f c₀ c₀' (c.get k).2 (c'.get k).2 := by
  obtain ⟨hr, hnext⟩ := h.lookup k
  unfold Cache.get
  rcases hl : c.lookup k with ⟨o, c₁⟩
  rcases hl' : c'.lookup k with ⟨o', c₁'⟩
  rw [hl, hl'] at hr hnext
  rcases cases_of_map_eq hr with ⟨rfl, rfl⟩ | ⟨r, r', rfl, rfl, -⟩
  · have hcounted := Advanced.once hnext.metrics.miss
    exact ⟨hr, { hnext with metrics := { hnext.metrics with miss := hcounted } }⟩
  · have hcounted := Advanced.once hnext.metrics.hit
    exact ⟨hr, { hnext with metrics := { hnext.metrics with hit := hcounted } }⟩

/-- Like caches answer a removal alike, and are alike afterwards. -/
theorem remove (h : Like L f c₀ c₀' c c') (k : K) :
    (c.remove k).1.map f = (c'.remove k).1.map f ∧
      Departure.Alike f (c.remove k).2.1 (c'.remove k).2.1 ∧
      Like L f c₀ c₀' (c.remove k).2.2 (c'.remove k).2.2 := by
  obtain ⟨hr, hnext⟩ := h.detach k
  unfold Cache.remove
  rcases hl : c.detach k with ⟨o, c₁⟩
  rcases hl' : c'.detach k with ⟨o', c₁'⟩
  rw [hl, hl'] at hr hnext
  rcases cases_of_map_eq hr with ⟨rfl, rfl⟩ | ⟨r, r', rfl, rfl, heq⟩
  · exact ⟨hr, .of_map_eq rfl, hnext⟩
  · have htold : [r].map f = [r'].map f := congrArg (fun r => [r]) heq
    have hcounted := Advanced.once hnext.metrics.remove
    exact ⟨hr, .departures .remove htold,
      { hnext with metrics := { hnext.metrics with remove := hcounted } }⟩

/-- Like caches are alike when cleared, and lost the same records. -/
theorem clear (h : Like L f c₀ c₀' c c') :
    Departure.Alike f c.clear.1 c'.clear.1 ∧ Like L f c₀ c₀' c.clear.2 c'.clear.2 := by
  have hnil : (([] : List (Record K V)).map f).Perm ([].map f) := .refl _
  obtain ⟨hout, hnext⟩ := h.clearShards hnil (List.range c.shards.size)
  unfold Cache.clear
  rw [h.shards.size]
  exact ⟨.clearing hout, hnext⟩

/-- A sweep shows the same if it begins at the same place, or has nothing to give up. -/
theorem sweep (h : Like L f c₀ c₀' c c')
    (hstart : c.isRunning = true → c'.advance.1 = c.advance.1 ∨ c.overflow = 0) :
    c.sweep.1 = c'.sweep.1 ∧ Departure.Alike f c.sweep.2.1 c'.sweep.2.1 ∧
      Like L f c₀ c₀' c.sweep.2.2 c'.sweep.2.2 := by
  unfold Cache.sweep
  rw [h.isRunning]
  split
  · rename_i hrun
    have hcursor := h.cursor
    have hnext : Like L f c₀ c₀' c.advance.2 c'.advance.2 := by
      refine { h with cursor := ?_ }
      show c'.cursor + 1 + c₀.cursor = c.cursor + 1 + c₀'.cursor
      omega
    obtain ⟨hout, hlast⟩ : (c.advance.2.evictOverflow c.advance.1 c.advance.2.overflow).1.map f =
          (c'.advance.2.evictOverflow c'.advance.1 c'.advance.2.overflow).1.map f ∧
        Like L f c₀ c₀' (c.advance.2.evictOverflow c.advance.1 c.advance.2.overflow).2
          (c'.advance.2.evictOverflow c'.advance.1 c'.advance.2.overflow).2 := by
      rw [hnext.overflow]
      rcases hstart hrun with hsame | hnone
      · rw [hsame]
        exact hnext.evictOverflow _ _
      · rw [show c.advance.2.overflow = 0 from hnone]
        exact ⟨rfl, hnext⟩
    have hlength := congrArg List.length hout
    rw [List.length_map, List.length_map] at hlength
    exact ⟨hlength, .departures .evict hout, { hlast with
      metrics := { hlast.metrics with
        sweep := fun ht => Advanced.once (hlast.metrics.sweep ht)
        evict := Advanced.many hlast.metrics.evict hlength } }⟩
  · exact ⟨rfl, .of_map_eq rfl, h⟩

/-- **A call shows the same on caches that are alike, as far as `f` tells, and leaves them alike.** -/
theorem respond (hf : Record.Keyed f) (h : Like L f c₀ c₀' c c') (hc : 0 < c.shards.size)
    (x : Call S V)
    (hstart : x = .sweep → c.isRunning = true → c'.advance.1 = c.advance.1 ∨ c.overflow = 0) :
    (c.respond x).1.Alike f (Advanced True c₀.metrics c₀'.metrics) (c'.respond x).1 ∧
      Like L f c₀ c₀' (c.respond x).2 (c'.respond x).2 := by
  have hcall : (c.perform x).1.map f = (c'.perform x).1.map f ∧
      Departure.Alike f (c.perform x).2.1 (c'.perform x).2.1 ∧
      Like L f c₀ c₀' (c.perform x).2.2 (c'.perform x).2.2 := by
    cases x with
    | insert k v =>
      obtain ⟨hr, hrest⟩ := h.insert hf hc k v
      exact ⟨congrArg Answer.stored hr, hrest⟩
    | get k =>
      obtain ⟨hr, hnext⟩ := h.get k
      exact ⟨congrArg Answer.found hr, .of_map_eq rfl, hnext⟩
    | contains k => exact ⟨congrArg Answer.flag (h.contains k).symm, .of_map_eq rfl, h⟩
    | remove k =>
      obtain ⟨hr, hrest⟩ := h.remove k
      exact ⟨congrArg Answer.found hr, hrest⟩
    | clear => exact ⟨rfl, h.clear⟩
    | sweep =>
      obtain ⟨hn, hrest⟩ := h.sweep (hstart rfl)
      exact ⟨congrArg Answer.count hn, hrest⟩
    | stop => exact ⟨rfl, .of_map_eq rfl, { h with isRunning := rfl }⟩
    | adjust g => exact ⟨rfl, .of_map_eq rfl, { h with shared := congrArg g h.shared }⟩
  obtain ⟨hanswer, htold, hnext⟩ := hcall
  exact ⟨⟨hanswer, htold, hnext.size.symm, hnext.metrics⟩, hnext⟩

end Like

/-- **Caches that are alike show the same of all calls**, if their sweeps begin at the same places or
have nothing to give up. -/
theorem Like.showings (hf : Record.Keyed f) (h : Like L f c₀ c₀' c₀ c₀')
    (hpos : 0 < c₀.shards.size) (hsweep : c₀.cursor = c₀'.cursor ∨ c₀.Settled)
    (xs : List (Call S V)) :
    List.Forall₂ (Showing.Alike f (Metrics.Advanced True c₀.metrics c₀'.metrics))
      (ClusterCache.showings Cache.respond c₀ xs) (ClusterCache.showings Cache.respond c₀' xs) := by
  have hstep : ∀ (c c' : Cache S V) (x : Call S V),
      (Like L f c₀ c₀' c c' ∧ 0 < c.shards.size ∧ (c₀.cursor = c₀'.cursor ∨ c.Settled)) →
      (c.respond x).1.Alike f (Metrics.Advanced True c₀.metrics c₀'.metrics) (c'.respond (id x)).1 ∧
        Like L f c₀ c₀' (c.respond x).2 (c'.respond (id x)).2 ∧
        0 < (c.respond x).2.shards.size ∧ (c₀.cursor = c₀'.cursor ∨ (c.respond x).2.Settled) := by
    rintro c c' x ⟨hlike, hpos, hsweep⟩
    have hstart : x = .sweep → c.isRunning = true → c'.advance.1 = c.advance.1 ∨ c.overflow = 0 := by
      intro _ hrun
      refine hsweep.imp (fun hsame => ?_) fun hset => hset.overflow hrun
      have hcursor := hlike.cursor
      rw [advance, advance, hlike.shards.size, show c'.cursor = c.cursor by omega]
    obtain ⟨hshow, hnext⟩ := hlike.respond hf hpos x hstart
    exact ⟨hshow, hnext, (sameShape_perform c x).size.symm ▸ hpos,
      hsweep.imp id fun hset => hset.perform x⟩
  have hshow := forall₂_showings id hstep ⟨h, hpos, hsweep⟩ xs
  rwa [List.map_id] at hshow

end Cache
end ClusterCache
