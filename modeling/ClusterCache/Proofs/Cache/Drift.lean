/-
# How a cache comes back to its bound

Calls that overlap may leave a cache above its bound, and so may a time in which it did not run.  Such a
cache is as good as any other: its shards agree with their strategies and the count is right
(`Cache.Consistent`).  How the records are spread over the shards makes no difference, as a round asks
every shard, and how many there are makes none either.

A sweep gives up all that is above the bound (`Cache.Consistent.sweep`).  An insertion under a new key
gives up eight records at most (`Cache.Consistent.insert`), so a cache that grows comes seven records
closer to its bound each time (`Session.Grows.overflow_eq`).
-/

import ClusterCache.Proofs.Cache.Refusal
import ClusterCache.Proofs.Cache.Survival

namespace ClusterCache

variable {K V : Type} [DecidableEq K] {S : Strategy K}

namespace Cache

variable {c c' : Cache S V} {T : S.Tracking} {max : Nat} {k : K} {v : V}

/-- The cache runs, the strategies of its shards know which keys are stored, and the count is right.
There may be any number of records. -/
structure Consistent (T : S.Tracking) (max : Nat) (c : Cache S V) : Prop where
  size_pos : 0 < c.shards.size
  agrees : c.Each fun _ s => s.Agrees c.hash T
  len_eq : c.len = c.stored
  maxEntries : c.maxEntries = some max
  isRunning : c.isRunning = true

/-- A call sends `m` records away for the bound, and none for any other reason.  They are among those that
were stored before and the one that the call makes, if it makes one, and the others are stored now. -/
structure GivesUp (c : Cache S V) (x : Call S V) (m : Nat) (out : List (Departure K V))
    (c' : Cache S V) : Prop where
  told : ∃ rs, out = departures .evict rs ∧ rs.length = m ∧
    (rs ++ c'.records).Perm (c.made x ++ c.records)
  stored : c'.stored + m = c.stored + (c.made x).length

/-- So many records go for the bound, and together with those that stay they are all there were. -/
theorem givesUp_of_perm {x : Call S V} {m : Nat} {rs : List (Record K V)} (hlength : rs.length = m)
    (hperm : (rs ++ c'.records).Perm (c.made x ++ c.records)) :
    c.GivesUp x m (departures .evict rs) c' := by
  have hstored := stored_of_perm rs (c.made x) hperm
  exact ⟨⟨rs, rfl, hlength, hperm⟩, by omega⟩

namespace Consistent

/-- A cache with other counters is as consistent. -/
theorem of_still (h : c.Consistent T max) (hstill : c.Still c') : c'.Consistent T max := by
  have hsetup := hstill.sameSetup
  have hstored : c'.stored = c.stored := by rw [stored_eq_length, stored_eq_length, hstill.records]
  have hagrees := h.agrees.of_still hstill
  rw [← hstill.hash] at hagrees
  refine ⟨hsetup.size ▸ h.size_pos, hagrees, ?_, hsetup.shape.maxEntries.trans h.maxEntries,
    hsetup.isRunning.trans h.isRunning⟩
  rw [hstill.len, hstored, h.len_eq]

/-- The count tells how many records there are above the bound. -/
theorem overflow_eq (h : c.Consistent T max) : c.overflow = c.stored - max := by
  have hlen := h.len_eq
  rw [overflow, h.maxEntries]
  simp only
  omega

/-- **An eviction leaves a cache consistent**, wherever it begins and whatever it may give up. -/
theorem evictOverflow (h : c.Consistent T max) (start limit : Nat) :
    (c.evictOverflow start limit).2.Consistent T max := by
  have hsetup := c.sameSetup_evictOverflow start limit
  have hagrees := h.agrees.evictOverflow (fun sh hs => hs.evict sh) start limit
  rw [← hsetup.hash] at hagrees
  refine ⟨hsetup.size ▸ h.size_pos, hagrees, ?_, hsetup.shape.maxEntries.trans h.maxEntries,
    hsetup.isRunning.trans h.isRunning⟩
  exact (length_evictOverflow h.agrees h.len_eq h.maxEntries start limit).2.2

/-- **An eviction gives up what is above the bound, and no more than it may.** -/
theorem length_evictOverflow (h : c.Consistent T max) (start limit : Nat) :
    (c.evictOverflow start limit).1.length = min limit (c.stored - max) :=
  (Cache.length_evictOverflow h.agrees h.len_eq h.maxEntries start limit).1

/-- **A sweep gives up exactly what is above the bound**, and tells how much that was. -/
theorem sweep (h : c.Consistent T max) :
    c.sweep.1 = c.stored - max ∧ c.GivesUp .sweep (c.stored - max) c.sweep.2.1 c.sweep.2.2 ∧
      c.sweep.2.2.Consistent T max := by
  have hadvance : c.advance.2.Consistent T max := h.of_still ⟨rfl, rfl, rfl, rfl, rfl⟩
  have hover : c.advance.2.overflow = c.stored - max := hadvance.overflow_eq
  have hlength : (c.advance.2.evictOverflow c.advance.1 c.advance.2.overflow).1.length =
      c.stored - max := by
    rw [hadvance.length_evictOverflow, hover]
    exact Nat.min_self _
  have hperm := (c.advance.2.evictOverflow_perm c.advance.1 c.advance.2.overflow).1
  have hafter := hadvance.evictOverflow c.advance.1 c.advance.2.overflow
  unfold Cache.sweep
  rw [if_pos h.isRunning]
  exact ⟨hlength, givesUp_of_perm hlength hperm, hafter.of_still ⟨rfl, rfl, rfl, rfl, rfl⟩⟩

/-- A record is stored under a new key. -/
theorem place (h : c.Consistent T max) (hk : c.contains k = false) (v : V) :
    (c.place k v).2.1 = none ∧ (c.place k v).2.2.Consistent T max ∧
      (c.place k v).2.2.stored = c.stored + 1 := by
  have hnone : (c.place k v).2.1 = none := by
    rw [contains_eq_isSome_place h.size_pos k v] at hk
    exact Option.isNone_iff_eq_none.1 (Option.isSome_eq_false_iff.1 hk)
  have hsetup := c.sameSetup_place k v
  have hlen := len_place h.size_pos k v
  have hstored := stored_of_perm _ [_] (place_perm h.size_pos k v)
  have hcount := h.len_eq
  rw [hnone] at hlen hstored
  simp only [Option.toList_none, List.length_nil, List.length_singleton] at hlen hstored
  have hagrees : (c.place k v).2.2.Each fun _ s => s.Agrees (c.place k v).2.2.hash T := by
    obtain ⟨s, hs⟩ := exists_shard h.size_pos (c.hash k)
    rw [hsetup.hash, place_of_shard v hs]
    exact h.agrees.set ((h.agrees _ s hs).place rfl)
  refine ⟨hnone, ⟨hsetup.size ▸ h.size_pos, hagrees, by omega,
    hsetup.shape.maxEntries.trans h.maxEntries, hsetup.isRunning.trans h.isRunning⟩, by omega⟩

/-- **An insertion under a new key gives up eight records at most**, and fewer only if fewer are above the
bound then. -/
theorem insert (h : c.Consistent T max) (hk : c.contains k = false) (v : V) :
    c.GivesUp (.insert k v) (min 8 (c.stored + 1 - max)) (c.insert k v).2.1 (c.insert k v).2.2 ∧
      (c.insert k v).2.2.Consistent T max := by
  obtain ⟨hnone, hplace, hstored⟩ := h.place hk v
  obtain ⟨c₁, hstill, hrunning, -⟩ := insert_of_place_none hnone
  obtain ⟨hout, hrest⟩ := hrunning h.isRunning
  have h₁ := hplace.of_still hstill
  have hstored₁ : c₁.stored = c.stored + 1 := by
    rw [← hstored, stored_eq_length, stored_eq_length, hstill.records]
  have hlength := h₁.length_evictOverflow (c₁.shardOf (c.hash k)) inlineBatch
  have hperm := (c₁.evictOverflow_perm (c₁.shardOf (c.hash k)) inlineBatch).1
  have hadd := place_perm h.size_pos k v
  rw [hnone] at hadd
  rw [hstored₁] at hlength
  rw [hstill.records, ← hrest.records] at hperm
  rw [hout]
  exact ⟨givesUp_of_perm hlength (hperm.trans hadd), (h₁.evictOverflow ..).of_still hrest⟩

end Consistent

/-- A cache that was stopped is started again. -/
theorem Steady.consistent (h : c.Steady T max) {controller : Controller}
    (hconfig : controller.config = c.controller.config) (hrun : controller.running = true) :
    Consistent T max { c with controller } := by
  have hshape : SameShape c { c with controller } := ⟨rfl, rfl, hconfig⟩
  exact ⟨h.size_pos, fun i s hs => (h.each i s hs).2, h.len_eq,
    hshape.maxEntries.trans h.maxEntries, hrun⟩

/-- A cache after calls. -/
def performAll (c : Cache S V) (xs : List (Call S V)) : Cache S V :=
  xs.foldl (fun c x => (c.perform x).2.2) c

/-- A steady cache is steady after any calls, and has its shape. -/
theorem Steady.performAll (h : c.Steady T max) (xs : List (Call S V)) :
    (c.performAll xs).Steady T max ∧ SameShape c (c.performAll xs) := by
  induction xs generalizing c with
  | nil => exact ⟨h, .refl c⟩
  | cons x xs ih =>
    obtain ⟨hsteady, hshape⟩ := ih (h.perform x)
    exact ⟨hsteady, (sameShape_perform c x).trans hshape⟩

/-- A cache for one record that did not run while twelve were stored, in both shards, and runs again. -/
def drifted : Cache (.lru Nat) Nat :=
  { forOneSpread.performAll (.stop :: (List.range 12).map fun i => .insert (i * 4294967296) i) with
    controller := forOneSpread.controller }

/-- This cache is consistent, though it holds twelve records and has room for one. -/
theorem consistent_drifted : drifted.Consistent Lru.tracking 1 := by
  have hnew : forOneSpread.Steady Lru.tracking 1 :=
    steady_of_create Lru.tracking controller_forOne rfl create_forOneSpread
  obtain ⟨hsteady, hshape⟩ := hnew.performAll _
  exact hsteady.consistent hshape.config.symm rfl

end Cache

/-! ### Sessions -/

namespace Session

variable {L : Listener S V} {s s' : Session L} {T : S.Tracking} {max j : Nat}

/-- A session goes on with `j` calls, each of which stores a record under a key that has none. -/
inductive Grows : Session L → Nat → Session L → Prop
  | done {s : Session L} : Grows s 0 s
  | more {s s' : Session L} {j : Nat} {k : K} (v : V) : s.cache.contains k = false →
      Grows (s.call (.insert k v)).2 j s' → Grows s (j + 1) s'

/-- **What is above the bound goes down by seven with each record that is stored.** -/
theorem Grows.overflow_eq (hL : ∀ l d, (L.react l d).2 = []) (h : s.Grows j s')
    (hs : s.cache.Consistent T max) :
    s'.cache.stored - max = (s.cache.stored - max) - 7 * j ∧ s'.cache.Consistent T max := by
  induction h with
  | done => exact ⟨rfl, hs⟩
  | @more s s' j k v hk _ ih =>
    obtain ⟨hgives, hnext⟩ := hs.insert hk v
    obtain ⟨hcache, -⟩ := call_of_silent hL s (.insert k v)
    have hcache : (s.call (.insert k v)).2.cache = (s.cache.insert k v).2.2 := hcache
    have hone : (s.cache.made (.insert k v)).length = 1 := rfl
    have hstored := hgives.stored
    rw [hcache] at ih
    obtain ⟨hover, hafter⟩ := ih hnext
    exact ⟨by omega, hafter⟩

/-- **Drift is repaired exactly.**  In a session with a running cache whose listener makes no calls, let
the count be right and the strategies know which keys are stored, and let there be any number of records
in any shards.  A sweep gives up as many records as are above the bound, answers their number, and leaves
the others.  An insertion under a new key gives up as many as are above the bound then, but eight at most.
So what is above the bound goes down by seven with each such insertion, until it is nothing. -/
theorem drift_repaired [Hashable K] (B : Bounding K S) (hL : ∀ l d, (L.react l d).2 = [])
    (h : s.cache.Consistent B.tracking max) :
    ((s.call .sweep).1 = .count (s.cache.stored - max) ∧
      s.cache.GivesUp .sweep (s.cache.stored - max) ((s.call .sweep).2.since s.log.length)
        (s.call .sweep).2.cache ∧
      (s.call .sweep).2.cache.stored = min s.cache.stored max) ∧
    (∀ k v, s.cache.contains k = false →
      s.cache.GivesUp (.insert k v) (min 8 (s.cache.stored + 1 - max))
        ((s.call (.insert k v)).2.since s.log.length) (s.call (.insert k v)).2.cache) ∧
    ∀ j s', s.Grows j s' → s'.cache.stored - max = (s.cache.stored - max) - 7 * j ∧
      s'.cache.Consistent B.tracking max := by
  refine ⟨?_, fun k v hk => ?_, fun j s' hgrows => hgrows.overflow_eq hL h⟩
  · obtain ⟨hcount, hgives, -⟩ := h.sweep
    obtain ⟨hcache, hsince⟩ := call_of_silent hL s .sweep
    have hstored := hgives.stored
    have hnone : (s.cache.made .sweep).length = 0 := rfl
    have hleft : s.cache.sweep.2.2.stored = min s.cache.stored max := by omega
    rw [hcache, hsince]
    exact ⟨congrArg Answer.count hcount, hgives, hleft⟩
  · obtain ⟨hcache, hsince⟩ := call_of_silent hL s (.insert k v)
    rw [hcache, hsince]
    exact (h.insert hk v).1

/-- Twelve records in a cache for one: a sweep gives up eleven, and an insertion eight, which leaves four
above the bound. -/
theorem drift_repaired_twelve :
    let s : Session (.silent (.lru Nat) Nat) := ⟨.drifted, (), []⟩
    let s' := (s.call (.insert 1 1)).2
    s.cache.stored = 12 ∧ (s.call .sweep).1 = .count 11 ∧ (s.call .sweep).2.cache.stored = 1 ∧
    s.cache.GivesUp (.insert 1 1) 8 (s'.since s.log.length) s'.cache ∧ s'.cache.stored - 1 = 4 := by
  intro s s'
  have hstored : s.cache.stored = 12 := by decide +kernel
  have hnew : s.cache.contains 1 = false := by decide +kernel
  obtain ⟨⟨hcount, -, hleft⟩, hinsert, hgrows⟩ :=
    drift_repaired .lru (fun _ _ => rfl) (s := s) Cache.consistent_drifted
  have hover := (hgrows 1 s' (.more 1 hnew .done)).1
  have hbatch := hinsert 1 1 hnew
  rw [hstored] at hcount hleft hover hbatch
  exact ⟨hstored, hcount, hleft, hbatch, hover⟩

end Session
end ClusterCache
