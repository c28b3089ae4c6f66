/-
# Caches that start over

Clearing takes a cache back to where it began.  Every shard is empty then, and what its strategy
remembers is like what it remembered in the new cache (`Cache.Reached.like_clear`): so the cache is like
the new one, but for the numbers of its records, the counters and the place of the next sweep.  None of
these shows.  The place of a sweep would if there were something to give up, but between calls there is
not: the cache is steady, or calm (`Cache.Settled`).

So a cleared cache shows of all further calls what a newly built one shows that runs or not, as it does,
and the strategies alone start over as well (`Session.clear_starts_over`).
-/

import ClusterCache.Proofs.Cache.Likeness
import ClusterCache.Proofs.Cache.Stopped
import ClusterCache.Proofs.Eviction.Restart

namespace ClusterCache

variable {K V : Type} [DecidableEq K] {S : Strategy K}

/-! ### What the strategy of a shard has come to -/

namespace Shard

variable {s₀ : S.State}

/-- A shard that evicts leaves its strategy in a state that it can reach. -/
theorem reaches_evictWithin {s : Shard S V} (h : S.Reaches s₀ s.memory) (hash : K → UInt64)
    (patience : Nat) (sh : S.Shared) :
    S.Reaches s₀ (s.evictWithin hash patience sh).2.2.memory := by
  fun_induction evictWithin hash patience sh s with
  | case1 _ _ _ _ _ hp | case2 _ _ _ _ _ _ hp | case3 _ _ _ _ _ hp => exact h.pop hp
  | case4 _ _ _ _ _ hp _ _ ih => exact ih (h.pop hp)

/-- Whatever is asked of a shard, it makes requests to its strategy and nothing else. -/
theorem kept_reaches (hash : K → UInt64) (home : UInt64 → Nat) (s₀ : S.State) :
    Kept hash home (fun _ (s : Shard S V) => S.Reaches s₀ s.memory) where
  place {s r} _ h := by
    rw [place_memory]
    split
    · exact h.next (.access _)
    · exact h.next (.push _)
  lookup k h := by
    unfold lookup
    split
    · split
      · exact h.next (.access _)
      · exact h
    · exact h
  detach {i s} k h := by
    cases hr : s.find? (hash k) k with
    | none =>
      rw [detach_of_none hr]
      exact h
    | some r =>
      rw [detach_of_some hr]
      exact h.next (.remove _)
  evict sh h := reaches_evictWithin h hash _ sh
  clear h := h.next .clear

end Shard

namespace Cache

variable {c c₀ t : Cache S V}

/-! ### Cleared caches -/

section create

variable {shards : Nat} {controller : Controller} {hash : K → UInt64}

/-- Every shard of a cleared cache is empty, and its strategy has just been cleared. -/
theorem Reached.each_clear (hcreate : create S V shards controller hash = .ok c₀)
    (h : c₀.Reached c) : c.clear.2.Each fun _ s => ∃ m,
      S.Reaches (S.init (shardCapacity controller.config shards)) m ∧ s = ⟨.empty, S.clear m⟩ := by
  have hbegin : c₀.Each fun _ s =>
      S.Reaches (S.init (shardCapacity controller.config shards)) s.memory := by
    intro i s hs
    rw [shards_of_create hcreate, Array.getElem?_replicate] at hs
    split at hs
    · obtain rfl := Option.some.inj hs
      exact .start
    · cases hs
  have hreaches := h.each (Shard.kept_reaches ..) hbegin
  refine Each.clear (fun h => ⟨_, h, rfl⟩) ?_ hreaches
  rintro i s ⟨m, hm, rfl⟩
  exact hm.next .clear

/-- A cleared cache counts no records. -/
theorem Reached.len_clear (hc₀ : c₀.Fresh) (h : c₀.Reached c) :
    c.clear.2.len = 0 ∧ c.clear.2.stored = 0 := by
  have hstored : c.clear.2.stored = 0 := by rw [stored_eq_length, c.records_clear, List.length_nil]
  have hbalance : (c.clear.2.stored : Int) - c.clear.2.len = c.stored - c.len :=
    perform_balance (h.sameShape.size.symm ▸ hc₀.size) (.clear : Call S V)
  have hlen := h.len_eq hc₀
  exact ⟨by omega, hstored⟩

/-- **A cleared cache is like the new one that it began as**, if the two run or not alike. -/
theorem Reached.like_clear (R : S.Restart) (hcreate : create S V shards controller hash = .ok c₀)
    (h : c₀.Reached c) (ht : t = c₀ ∨ t = c₀.stop) (hrun : t.isRunning = c.isRunning) :
    Like R.toLikeness Record.unnumbered c.clear.2 t c.clear.2 t := by
  obtain ⟨hfresh, -, -⟩ := create_eq_ok hcreate
  have hclear : c.SameSetup c.clear.2 := sameSetup_perform (x := .clear) (by simp)
  have hshape := h.sameShape.trans hclear.shape
  have hnew : t.shards = c₀.shards ∧ t.hash = c₀.hash ∧ t.len = c₀.len ∧
      t.controller.config = c₀.controller.config := by
    rcases ht with rfl | rfl <;> exact ⟨rfl, rfl, rfl, rfl⟩
  obtain ⟨hshards, hhash, hlen, hconfig⟩ := hnew
  have hlikes : Shard.Likes R.toLikeness Record.unnumbered c.clear.2.hash t.hash
      c.clear.2.shards t.shards := by
    refine ⟨by rw [hshards, hshape.size], fun i s s' hs hs' => ?_⟩
    obtain ⟨m, hm, rfl⟩ := h.each_clear hcreate i s hs
    rw [hshards, shards_of_create hcreate, Array.getElem?_replicate] at hs'
    split at hs'
    · obtain rfl := Option.some.inj hs'
      exact .of_empty (R.like_clear hm)
    · cases hs'
  exact {
    shards := hlikes
    home := fun k => by rw [hhash, hshape.hash, shardOf, shardOf, hshards, hshape.size]
    made := fun k v n => by rw [hhash, hshape.hash]; rfl
    shared := R.subsingleton.elim ..
    config := by rw [hconfig, hshape.config]
    isRunning := by rw [hrun, hclear.isRunning]
    len := by rw [hlen, hfresh.len, (h.len_clear hfresh).1]
    cursor := Nat.add_comm ..
    metrics := .start .. }

/-- **A cleared cache has nothing to give up**, now or between two calls to come. -/
theorem Reached.settled_clear (hcreate : create S V shards controller hash = .ok c₀)
    (h : c₀.Reached c) (hkeeps : c₀.maxEntries = none ∨ Nonempty S.Tracking) : c.clear.2.Settled := by
  obtain ⟨hfresh, -, -⟩ := create_eq_ok hcreate
  cases hmax : c₀.maxEntries with
  | none =>
    have hcalm := h.calm hfresh fun _ => h.sameShape.maxEntries.trans hmax
    exact .calm (hcalm.perform .clear)
  | some max =>
    obtain ⟨T⟩ := hkeeps.resolve_left (by rw [hmax]; exact Option.some_ne_none max)
    have hshape := h.sameShape.trans (sameShape_perform c .clear)
    have hagrees := (h.each (Shard.kept_agrees c₀.hash c₀.shardOf T) (hfresh.each_agrees T)).perform
      (h.sameShape.kept.2 (Shard.kept_agrees c₀.hash c₀.shardOf T)) .clear
    obtain ⟨hlen, hstored⟩ := h.len_clear hfresh
    rw [← hshape.hash, ← hshape.shardOf] at hagrees
    have hsteady : c.clear.2.Steady T max := ⟨hshape.size.symm ▸ hfresh.size, hagrees, by omega,
      hshape.maxEntries.trans hmax, fun _ => by omega⟩
    exact .steady hsteady

end create
end Cache

/-! ### Sessions -/

variable [Hashable K]

/-- A cache that is built has no bound, or its strategy is one that bounds a shard. -/
theorem Config.strategy_cases (c : Config) :
    (c.order = .none ∧ c.strategy K = .unbounded K) ∨ Nonempty (Bounding K (c.strategy K)) := by
  unfold strategy
  cases c.order with
  | lru => exact .inr ⟨.lru⟩
  | lirs => exact .inr ⟨.lirs _⟩
  | fifo => exact .inr ⟨.fifo⟩
  | unordered => exact .inr ⟨.unordered⟩
  | none => exact .inl ⟨rfl, rfl⟩

/-- Every strategy that settings can choose starts over when it is cleared. -/
theorem Config.nonempty_restart (c : Config) : Nonempty (c.strategy K).Restart := by
  rcases c.strategy_cases (K := K) with ⟨-, h⟩ | ⟨⟨B⟩⟩
  · rw [h]
    exact ⟨Strategy.unboundedRestart K⟩
  · exact ⟨B.restart⟩

namespace Session

/-- **Clearing starts over.**  For each strategy that bounds a shard: whatever it was told and asked
since the beginning, once it is cleared it counts as many keys as at the beginning, and further requests
have the same replies.  And for each cache that is built: whatever it has come to, if nobody who listens
makes calls from now on, once it is cleared it shows of all further calls what a newly built one shows
that runs or not, as it does.  Only the numbers of the records differ, the order within a clearing, and
what the counters begin with. -/
theorem clear_starts_over :
    (∀ {S : Strategy K} {B : Bounding K S} {s₀ : S.State}, B.Begins s₀ →
      ∀ past further : List S.Request,
        S.size (S.clear (past.foldl S.next s₀)) = S.size s₀ ∧
        S.replies (S.clear (past.foldl S.next s₀)) further = S.replies s₀ further) ∧
    ∀ {b : Builder} {hash : K → UInt64} {c₀ : Cache (b.config.strategy K) V}
      {L M : Listener (b.config.strategy K) V} {s : Session L} {t : Session M},
      b.build K V hash = .ok c₀ → c₀.Reached s.cache → t.cache = c₀ ∨ t.cache = c₀.stop →
      t.cache.isRunning = s.cache.isRunning →
      (∀ l d, (L.react l d).2 = []) → (∀ l d, (M.react l d).2 = []) →
        (s.call .clear).2.cache.size = t.cache.size ∧
        ∀ xs, List.Forall₂
          (Showing.Alike Record.unnumbered
            (Metrics.Advanced True (s.call .clear).2.cache.metrics t.cache.metrics))
          (showings respond (s.call .clear).2 xs) (showings respond t xs) := by
  refine ⟨fun h₀ past further => Bounding.replies_clear h₀ past further, ?_⟩
  intro b hash c₀ L M s t hbuild hs ht hrun hL hM
  unfold Builder.build at hbuild
  split at hbuild
  · cases hbuild
  · rename_i controller hcontroller
    obtain ⟨R⟩ := b.config.nonempty_restart (K := K)
    have hkeeps : c₀.maxEntries = none ∨ Nonempty (b.config.strategy K).Tracking := by
      rcases b.config.strategy_cases (K := K) with ⟨hnone, -⟩ | ⟨⟨B⟩⟩
      · refine .inl (Cache.maxEntries_of_unbounded ?_)
        rw [(Cache.create_eq_ok hbuild).2.2, Controller.start_config,
          Controller.create_config hcontroller, hnone]
      · exact .inr ⟨B.tracking⟩
    have hlike := hs.like_clear R hbuild ht hrun
    have hcache : (s.call .clear).2.cache = s.cache.clear.2 := (call_of_silent hL s .clear).1
    refine ⟨?_, fun xs => ?_⟩
    · rw [hcache, hlike.size]
    · rw [(showings_of_silent hL _ xs).1, (showings_of_silent hM t xs).1, hcache]
      have hsettled := hs.settled_clear hbuild hkeeps
      exact hlike.showings Record.keyed_unnumbered hsettled.size_pos (.inr hsettled) xs

/-- A strategy with a hot key, two cold ones and a ghost is cleared; and so is a cache for one record
that was stopped and holds two. -/
theorem clear_starts_over_stopped :
    (let S := Strategy.lirs Nat 0.5
      let past : List S.Request := [.push 1, .push 2, .push 3, .push 4, .access 3, .pop ()]
      let further : List S.Request := [.push 2, .push 3, .access 2, .pop ()]
      (past.foldl S.next (Lirs.init 3 1)).size = 3 ∧
      S.size (S.clear (past.foldl S.next (Lirs.init 3 1))) = S.size (Lirs.init 3 1 : Lirs Nat) ∧
      S.replies (S.clear (past.foldl S.next (Lirs.init 3 1))) further =
        S.replies (Lirs.init 3 1 : Lirs Nat) further) ∧
    ∃ s t : Session (.silent (.lru Nat) Nat), Cache.forOne.Reached s.cache ∧ s.cache.size = 2 ∧
      t.cache = Cache.forOne.stop ∧ t.cache.isRunning = s.cache.isRunning ∧
      (s.call .clear).2.cache.size = t.cache.size ∧
      List.Forall₂
        (Showing.Alike Record.unnumbered
          (Metrics.Advanced True (s.call .clear).2.cache.metrics t.cache.metrics))
        (showings respond (s.call .clear).2 [.insert 3 30, .get 1, .get 3, .sweep, .clear])
        (showings respond t [.insert 3 30, .get 1, .get 3, .sweep, .clear]) := by
  obtain ⟨s, hs⟩ : ∃ s : Session (.silent (.lru Nat) Nat), s =
    after respond ⟨.forOne, (), []⟩ [.insert 1 10, .stop, .insert 2 20] := ⟨_, rfl⟩
  have hreached : Cache.forOne.Reached s.cache := hs ▸ Cache.reached_after _ _ _
  have hcache : s.cache =
      after Cache.respond .forOne [.insert 1 10, .stop, .insert 2 20] := by
    rw [hs, (showings_of_silent (fun _ _ => rfl) _ _).2]
  have hrun : Cache.forOne.stop.isRunning = s.cache.isRunning := by
    rw [hcache]
    decide +kernel
  have hsize : s.cache.size = 2 := by
    rw [hcache]
    decide +kernel
  obtain ⟨hstrategy, hbuilt⟩ := clear_starts_over (K := Nat) (V := Nat)
  have hbuild : Builder.build ⟨Cache.forOne.controller.config, 2⟩ Nat Nat (fun _ => 7) =
    .ok Cache.forOne := rfl
  obtain ⟨hempty, hshow⟩ := hbuilt (b := ⟨Cache.forOne.controller.config, 2⟩)
    (L := .silent (.lru Nat) Nat) (M := .silent (.lru Nat) Nat) (s := s)
    (t := ⟨Cache.forOne.stop, (), []⟩) hbuild hreached (.inr rfl) hrun (fun _ _ => rfl) fun _ _ => rfl
  exact ⟨⟨by decide +kernel, hstrategy (.lirs 0.5 3 1) _ _⟩,
    s, _, hreached, hsize, rfl, hrun, hempty, hshow _⟩

end Session
end ClusterCache
