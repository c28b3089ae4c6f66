/-
# A stopped cache is a cache without a bound

Whatever a cache has come to (`Cache.Reached`), with a listener who made calls or with calls that
overlapped, when it is at rest its records are where they belong and its count is right.  If it is
stopped then, it is calm.  So it shows of all further calls what a cache without a bound shows that
holds the same records, and what the two count advances alike (`Session.showings_of_stopped`).  There
always is such a cache (`Cache.Reached.exists_unbounded`).

In particular it never runs again, gives nobody up and finds nothing to sweep
(`Course.retired_of_stopped`), even if listeners make calls of their own.
-/

import ClusterCache.Proofs.Cache.Calm
import ClusterCache.Proofs.Cache.Traffic

namespace ClusterCache

variable {K V : Type} [DecidableEq K] {S : Strategy K}

/-! ### What a cache can come to -/

namespace Cache

/-- What a new cache can come to between two calls: at any point of a session, or when calls that
overlapped are over. -/
inductive Reached (c₀ : Cache S V) : Cache S V → Prop
  | session {p : Point S V} : Course (fun _ => True) c₀ p → Reached c₀ p.cache
  | traffic {w : Traffic S V} : Traffic.Reachable (fun _ => True) c₀ w → w.Quiet →
      Reached c₀ w.cache

namespace Reached

variable {c₀ c : Cache S V}

/-- Whatever was called, the cache has the shape that it was made with. -/
theorem sameShape (h : c₀.Reached c) : SameShape c₀ c := by
  cases h with
  | session h => exact h.sameShape
  | traffic h _ => exact h.sameShape

/-- What every operation on a shard keeps holds whatever was called, if it held in the beginning. -/
theorem each {Q : Nat → Shard S V → Prop} (hk : c₀.Kept Q) (h₀ : c₀.Each Q) (h : c₀.Reached c) :
    c.Each Q := by
  cases h with
  | session h => exact h.each hk h₀
  | traffic h _ => exact h.each hk h₀

/-- Whatever was called, the count is the number of records. -/
theorem len_eq (hc₀ : c₀.Fresh) (h : c₀.Reached c) : c.len = c.stored := by
  cases h with
  | session h => exact h.len_eq hc₀
  | traffic h hquiet =>
    have hstored := h.stored_eq hc₀
    rw [Traffic.claims_of_quiet hquiet] at hstored
    omega

/-- Whatever was called, no record is out of its shard. -/
theorem filed (hc₀ : c₀.Fresh) (h : c₀.Reached c) :
    c.Each fun i s => s.Filed c.hash c.shardOf i := by
  rw [h.sameShape.hash, h.sameShape.shardOf]
  exact h.each (Shard.kept_filed c₀.hash c₀.shardOf) hc₀.each_filed

/-- A cache that has no bound to keep to is calm. -/
theorem calm (hc₀ : c₀.Fresh) (h : c₀.Reached c)
    (hidle : c.isRunning = true → c.maxEntries = none) : c.Calm :=
  ⟨h.sameShape.size.symm ▸ hc₀.size, h.filed hc₀, h.len_eq hc₀, hidle⟩

end Reached

/-- What the cache of a session comes to is reached, whoever listens. -/
theorem reached_after {L : Listener S V} (c₀ : Cache S V) (l : L.State) (xs : List (Call S V)) :
    c₀.Reached (after Session.respond (⟨c₀, l, []⟩ : Session L) xs).cache := by
  have hcourse : ∀ (s : Session L) past, Course (fun _ => True) c₀ ⟨s.cache, past, s.log, []⟩ →
      ∃ past', Course (fun _ => True) c₀ ⟨(after Session.respond s xs).cache, past',
        (after Session.respond s xs).log, []⟩ := by
    induction xs with
    | nil => exact fun s past h => ⟨past, h⟩
    | cons x xs ih =>
      intro s past h
      obtain ⟨past', h'⟩ := Course.call (x := x) (fun _ _ _ _ => trivial) trivial h
      exact ih _ _ h'
  obtain ⟨past, h⟩ := hcourse ⟨c₀, l, []⟩ [] .start
  exact .session h

end Cache

/-! ### No bound any more -/

/-- **A stopped cache has retired.**  Whatever calls are made on it, by listeners too, it does not run
again, has given nobody up since for its bound, and a sweep would change nothing. -/
theorem Course.retired_of_stopped {P : Call S V → Prop} {c : Cache S V} {p : Point S V}
    (hc : 0 < c.shards.size) (hstop : c.isRunning = false) (h : Course P c p) :
    p.cache.isRunning = false ∧ (∀ d ∈ p.gone, d.reason ≠ .evict) ∧
      p.cache.sweep = (0, [], p.cache) := by
  suffices hinv : p.cache.isRunning = false ∧ ∀ d ∈ p.gone, d.reason ≠ .evict by
    obtain ⟨hrun, hgone⟩ := hinv
    refine ⟨hrun, hgone, ?_⟩
    rw [Cache.sweep, if_neg (by rw [hrun]; exact Bool.false_ne_true)]
  induction h with
  | start => exact ⟨hstop, fun d hd => absurd hd List.not_mem_nil⟩
  | ask _ _ ih => exact ih
  | @perform c₁ past log x rest h ih =>
    obtain ⟨hrun, hgone⟩ := ih
    have hrun : c₁.isRunning = false := hrun
    have hpos : 0 < c₁.shards.size := h.sameShape.size.symm ▸ hc
    refine ⟨?_, fun d hd => ?_⟩
    · cases hnext : (c₁.perform x).2.2.isRunning with
      | false => rfl
      | true => rw [Cache.isRunning_of_perform hnext] at hrun; cases hrun
    · simp only [Point.gone, Task.departures_append, Task.departures_map_tell, List.mem_append]
        at hd hgone
      rcases hd with hd | hd | hd
      · exact hgone d (.inl hd)
      · -- the causes for giving up a record ask for a cache that runs
        cases Cache.cause_of_mem_perform hpos hd with
        | crowded _ hran | swept hran =>
          rw [hrun] at hran
          cases hran
        | replaced | removed | cleared => exact fun h => by cases h
      · exact hgone d (.inr hd)
  | @tell calls c₁ past log d rest _ _ ih =>
    obtain ⟨hrun, hgone⟩ := ih
    refine ⟨hrun, fun d' hd => hgone d' ?_⟩
    simp only [Point.gone, Task.departures_append, Task.departures_map_call, List.nil_append] at hd
    exact List.perm_middle.symm.mem_iff.1 hd

/-! ### The same records without a bound -/

namespace Cache

/-- Records stored one by one under new keys are all there, with new numbers. -/
theorem records_after_insert {c : Cache S V} (hc : c.Calm) {rs : List (Record K V)}
    (hhash : ∀ r ∈ rs, r.hash = c.hash r.key) (hkeys : (rs.map Record.key).Nodup)
    (hfree : ∀ r ∈ rs, (c.lookup r.key).1 = none) :
    ((after respond c (rs.map fun r => .insert r.key r.value)).records.map Record.unnumbered).Perm
      (rs.map Record.unnumbered ++ c.records.map Record.unnumbered) := by
  induction rs generalizing c with
  | nil => exact .refl _
  | cons r rs ih =>
    rw [List.map_cons, List.nodup_cons] at hkeys
    have hnone := hfree r (List.mem_cons_self ..)
    obtain ⟨c', hc'⟩ : ∃ c', c' = (c.respond (.insert r.key r.value)).2 := ⟨_, rfl⟩
    have hcalm : c'.Calm := hc' ▸ hc.perform _
    have hsame : c'.hash = c.hash := hc' ▸ (sameShape_perform c _).hash
    have hplace : c'.records.Perm (c.newRecord r.key r.value :: c.records) := by
      have hperm := place_perm hc.size_pos r.key r.value
      rw [place_old hc.size_pos, hnone] at hperm
      rw [hc', respond, perform, hc.insert_of_none r.value hnone]
      exact hperm
    have hnew : (c.newRecord r.key r.value).unnumbered = r.unnumbered := by
      rw [newRecord, Record.unnumbered, Record.unnumbered, ← hhash r (List.mem_cons_self ..)]
    have hrest : ∀ r' ∈ rs, (c'.lookup r'.key).1 = none := fun r' hr' => by
      refine Option.eq_none_iff_forall_ne_some.2 fun r'' hr'' => ?_
      obtain ⟨hheld, hkey⟩ := (lookup_eq_some_iff hcalm.filed).1 hr''
      rcases List.mem_cons.1 (hplace.mem_iff.1 hheld) with rfl | hheld
      · exact hkeys.1 (List.mem_map.2 ⟨r', hr', hkey.symm⟩)
      · have hsome := (lookup_eq_some_iff hc.filed).2 ⟨hheld, hkey⟩
        rw [hfree r' (List.mem_cons_of_mem r hr')] at hsome
        cases hsome
    have hafter := ih hcalm (fun r' hr' => hsame ▸ hhash r' (List.mem_cons_of_mem r hr')) hkeys.2 hrest
    have hplace := hplace.map Record.unnumbered
    rw [List.map_cons, hnew] at hplace
    rw [hc'] at hafter hplace
    exact (hafter.trans (hplace.append_left _)).trans List.perm_middle

variable [Hashable K]

/-- **There is a cache without a bound that holds the same records**, whatever a cache has come to. -/
theorem Reached.exists_unbounded {c₀ c : Cache S V} (hc₀ : c₀.Fresh) (h : c₀.Reached c)
    {controller : Controller} (hnone : controller.config.order = .none) :
    ∃ u₀ u, create (.unbounded K) V 1 controller c.hash = .ok u₀ ∧ u₀.Reached u ∧
      (c.records.map Record.unnumbered).Perm (u.records.map Record.unnumbered) := by
  obtain ⟨u₀, hu₀⟩ : ∃ u₀, create (.unbounded K) V 1 controller c.hash = .ok u₀ := ⟨_, rfl⟩
  obtain ⟨hfresh, hhash, -⟩ := create_eq_ok hu₀
  have hfiled := h.filed hc₀
  have hcalm := (mirrors_of_create hu₀ hnone).calm
  obtain ⟨xs, hxs⟩ : ∃ xs : List (Call (.unbounded K) V),
    xs = c.records.map fun r => .insert r.key r.value := ⟨_, rfl⟩
  have hreached := reached_after (L := .silent (.unbounded K) V) u₀ () xs
  rw [(Session.showings_of_silent (fun _ _ => rfl) _ xs).2] at hreached
  refine ⟨u₀, _, hu₀, hreached, ?_⟩
  have hhashes : ∀ r ∈ c.records, r.hash = u₀.hash r.key := fun r hr => by
    obtain ⟨s, hs, hr⟩ := List.mem_flatMap.1 hr
    obtain ⟨i, hi⟩ := List.getElem?_of_mem hs
    rw [Array.getElem?_toList] at hi
    rw [hhash, (hfiled i s hi r hr).1]
  have hfree : ∀ r ∈ c.records, (u₀.lookup r.key).1 = none := fun r _ => by
    refine Option.eq_none_iff_forall_ne_some.2 fun r' hr' => ?_
    have hheld := ((lookup_eq_some_iff hcalm.filed).1 hr').1
    rw [hfresh.records] at hheld
    cases hheld
  have hperm := records_after_insert hcalm hhashes (nodup_key_records hfiled) hfree
  rw [hfresh.records, List.map_nil, List.append_nil] at hperm
  rw [hxs]
  exact hperm.symm

/-- Calm caches that hold the same records, but for their numbers, and hash alike. -/
theorem alongside_of_perm {S' : Strategy K} {c : Cache S V} {u : Cache S' V} (hc : c.Calm)
    (hu : u.Calm) (hhash : c.hash = u.hash)
    (hsame : (c.records.map Record.unnumbered).Perm (u.records.map Record.unnumbered)) :
    Alongside Record.unnumbered False c.metrics u.metrics c u := by
  obtain ⟨m, hm⟩ := hc.exists_mirrors
  obtain ⟨m', hm'⟩ := hu.exists_mirrors
  refine ⟨m, m', hm, hm', fun k => Option.ext fun r => ?_, fun k v n => ?_, False.elim, ?_⟩
  · -- a record is found under a key exactly if it is held and has the key
    have hfound : ∀ {S : Strategy K} {c : Cache S V} {m : PlainMap K V}, c.Mirrors m →
        ((m.records.get? k).map Record.unnumbered = some r ↔
          r ∈ c.records.map Record.unnumbered ∧ r.key = k) := by
      intro S c m hm
      simp only [Option.map_eq_some_iff, hm.found, lookup_eq_some_iff hm.calm.filed, List.mem_map]
      constructor
      · rintro ⟨r', ⟨hr', rfl⟩, rfl⟩
        exact ⟨⟨r', hr', rfl⟩, rfl⟩
      · rintro ⟨⟨r', hr', rfl⟩, rfl⟩
        exact ⟨r', ⟨hr', rfl⟩, rfl⟩
    rw [hfound hm, hfound hm', hsame.mem_iff]
  · rw [hm.hash, hm'.hash, hhash]
    rfl
  · rw [hm.metrics, hm'.metrics]
    exact .start ..

end Cache

/-! ### Sessions -/

variable [Hashable K]

namespace Session

variable {L : Listener S V} {M : Listener (.unbounded K) V}

/-- **A stopped cache shows what a cache without a bound shows.**  Two sessions whose listeners make no
calls have caches with the same hash and the same records, but for their numbers; the one is stopped,
whatever it came to before, and the other has no bound.  Then all further calls show the same, and
the counters advance by the same, but for those of sweeps.  From then on, whoever listens, the stopped
cache never runs, gives nobody up for its bound, and has nothing to sweep. -/
theorem showings_of_stopped (hL : ∀ l d, (L.react l d).2 = []) (hM : ∀ l d, (M.react l d).2 = [])
    {controller controller' : Controller} {shards shards' : Nat} {hash : K → UInt64}
    {c₀ : Cache S V} {u₀ : Cache (.unbounded K) V} {s : Session L} {t : Session M}
    (hcreate : Cache.create S V shards controller hash = .ok c₀) (hs : c₀.Reached s.cache)
    (hstop : s.cache.isRunning = false)
    (hcreate' : Cache.create (.unbounded K) V shards' controller' hash = .ok u₀)
    (ht : u₀.Reached t.cache) (hnone : controller'.config.order = .none)
    (hsame : (s.cache.records.map Record.unnumbered).Perm (t.cache.records.map Record.unnumbered)) :
    (∀ xs, List.Forall₂
      (Showing.Alike Record.unnumbered (Metrics.Advanced False s.cache.metrics t.cache.metrics))
      (showings respond s xs) (showings respond t (xs.map (Call.recast (.unbounded K))))) ∧
    ∀ (P : Call S V → Prop) (p : Point S V), Course P s.cache p →
      p.cache.isRunning = false ∧ (∀ d ∈ p.gone, d.reason ≠ .evict) ∧
        p.cache.sweep = (0, [], p.cache) := by
  obtain ⟨hfresh, hhash, -⟩ := Cache.create_eq_ok hcreate
  obtain ⟨hfresh', hhash', hcontroller'⟩ := Cache.create_eq_ok hcreate'
  have hcalm : s.cache.Calm := hs.calm hfresh fun hrun => by rw [hstop] at hrun; cases hrun
  have horder : t.cache.controller.config.order = .none := by
    rw [ht.sameShape.config, hcontroller', Controller.start_config, hnone]
  have hcalm' : t.cache.Calm := ht.calm hfresh' fun _ => Cache.maxEntries_of_unbounded horder
  have hhashes : s.cache.hash = t.cache.hash := by
    rw [hs.sameShape.hash, ht.sameShape.hash, hhash, hhash']
  have hboth := Cache.alongside_of_perm hcalm hcalm' hhashes hsame
  refine ⟨fun xs => ?_, fun P p h => h.retired_of_stopped hcalm.size_pos hstop⟩
  rw [(showings_of_silent hL s xs).1, (showings_of_silent hM t _).1]
  exact hboth.showings (Call.recast (.unbounded K)) (PlainMap.respond_recast (.unbounded K)) xs

/-- A cache for one record, stopped, with two records, and a cache without a bound that holds the same
two. -/
theorem showings_of_stopped_over_bound :
    ∃ (s : Session (.silent (.lru Nat) Nat)) (t : Session (.silent (.unbounded Nat) Nat)),
      Cache.forOne.Reached s.cache ∧ s.cache.isRunning = false ∧ s.cache.size = 2 ∧
      (s.cache.records.map Record.unnumbered).Perm (t.cache.records.map Record.unnumbered) ∧
      List.Forall₂
        (Showing.Alike Record.unnumbered (Metrics.Advanced False s.cache.metrics t.cache.metrics))
        (showings respond s [.insert 3 30, .get 1, .sweep, .clear])
        (showings respond t [.insert 3 30, .get 1, .sweep, .clear]) ∧
      s.cache.sweep = (0, [], s.cache) := by
  obtain ⟨s, hs⟩ : ∃ s : Session (.silent (.lru Nat) Nat), s =
    after respond ⟨.forOne, (), []⟩ [.insert 1 10, .stop, .insert 2 20] := ⟨_, rfl⟩
  have hreached : Cache.forOne.Reached s.cache := hs ▸ Cache.reached_after _ _ _
  have hcache : s.cache =
      after Cache.respond .forOne [.insert 1 10, .stop, .insert 2 20] := by
    rw [hs, (showings_of_silent (fun _ _ => rfl) _ _).2]
  have hstop : s.cache.isRunning = false := by
    rw [hcache]
    decide +kernel
  obtain ⟨u, hu, hsame⟩ : ∃ u, Cache.create (.unbounded Nat) Nat 1
      ⟨{ order := .none }, true, none, true⟩ (fun _ => 7) = .ok u ∧
      (s.cache.records.map Record.unnumbered).Perm
        ((after Cache.respond u [.insert 2 20, .insert 1 10]).records.map Record.unnumbered) :=
    ⟨_, rfl, by rw [hcache]; decide +kernel⟩
  obtain ⟨t, ht⟩ : ∃ t : Session (.silent (.unbounded Nat) Nat), t =
    after respond ⟨u, (), []⟩ [.insert 2 20, .insert 1 10] := ⟨_, rfl⟩
  have hreached' : u.Reached t.cache := ht ▸ Cache.reached_after _ _ _
  have hcache' : t.cache = after Cache.respond u [.insert 2 20, .insert 1 10] := by
    rw [ht, (showings_of_silent (fun _ _ => rfl) _ _).2]
  rw [← hcache'] at hsame
  obtain ⟨hshow, hretired⟩ := showings_of_stopped (fun _ _ => rfl) (fun _ _ => rfl)
    Cache.create_forOne hreached hstop hu hreached' rfl hsame
  refine ⟨s, t, hreached, hstop, ?_, hsame, hshow _, (hretired (fun _ => True) _ .start).2.2⟩
  rw [hcache]
  decide +kernel

end Session
end ClusterCache
