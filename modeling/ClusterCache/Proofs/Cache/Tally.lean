/-
# The counters add up

Every call counts what it does: a record stored under a new key or in the place of another one, a
lookup that finds a record or none, a sweep, and each record that it sends away for the bound, by its
key or for another one.  A clearing counts nothing.  So what a call adds to the counters can be read
off the call and its departures (`Metrics.Tallies.perform`), and at every point of a session the
counters tally with the calls so far and the departures that were told or are to be told
(`Course.tallies`).

The records that were made are accounted for, so the balance of the counters is the number of records
once the departures for a clearing, which no counter sees, are taken off as well
(`Course.metrics_reconcile`).  No counter ever passes the number of calls, so that fewer than `2 ^ 64`
calls fill no counter of 64 bits.
-/

import ClusterCache.Proofs.Cache.Departure

namespace ClusterCache

namespace Call

variable {K V : Type} {S : Strategy K}

/-- Whether a call stores a value. -/
def isInsert : Call S V → Bool
  | insert _ _ => true
  | _ => false

/-- Whether a call looks a key up. -/
def isGet : Call S V → Bool
  | get _ => true
  | _ => false

/-- Whether a call is a sweep. -/
def isSweep : Call S V → Bool
  | sweep => true
  | _ => false

end Call

namespace Departure

variable {K V : Type}

/-- How many departures there are for a reason. -/
def tally (reason : Reason) (ds : List (Departure K V)) : Nat := ds.countP (·.reason = reason)

/-- Of no departures none is for any reason. -/
@[simp] theorem tally_nil (reason : Reason) : tally (K := K) (V := V) reason [] = 0 := rfl

/-- Departures one after the other are counted one after the other. -/
@[simp] theorem tally_append (reason : Reason) (ds ds' : List (Departure K V)) :
    tally reason (ds ++ ds') = tally reason ds + tally reason ds' := List.countP_append

/-- Departures for a reason count for it, and for no other. -/
@[simp] theorem tally_departures (reason reason' : Reason) (rs : List (Record K V)) :
    tally reason (Cache.departures reason' rs) = if reason' = reason then rs.length else 0 := by
  rw [tally, Cache.departures, List.countP_map]
  split
  · rename_i h
    exact List.countP_eq_length.2 fun r _ => decide_eq_true h
  · rename_i h
    exact List.countP_eq_zero.2 fun r _ hr => h (of_decide_eq_true hr)

/-- The order of departures does not count. -/
theorem tally_perm {ds ds' : List (Departure K V)} (h : ds.Perm ds') (reason : Reason) :
    tally reason ds = tally reason ds' := h.countP_eq _

/-- Each departure has one reason. -/
theorem length_eq_tally (ds : List (Departure K V)) :
    ds.length = tally .evict ds + tally .replace ds + tally .remove ds + tally .clear ds := by
  induction ds with
  | nil => rfl
  | cons d ds ih =>
    obtain ⟨reason, r⟩ := d
    simp only [tally, List.countP_cons, List.length_cons] at ih ⊢
    cases reason <;> simp <;> omega

end Departure

section

variable {K V : Type} [DecidableEq K] {S : Strategy K} {P : Call S V → Prop}
  {c c₀ : Cache S V} {p : Point S V} {past : List (Call S V × Cache S V)}
  {ds ds' : List (Departure K V)}

/-! ### Which steps count -/

namespace Cache

/-- Putting a record in its place counts nothing yet. -/
@[simp] theorem metrics_place (c : Cache S V) (k : K) (v : V) :
    (c.place k v).2.2.metrics = c.metrics := by
  unfold place
  simp only
  split <;> rfl

/-- Finding a record counts nothing yet. -/
@[simp] theorem metrics_lookup (c : Cache S V) (k : K) : (c.lookup k).2.metrics = c.metrics := by
  unfold lookup
  simp only
  split <;> rfl

/-- Taking out a record counts nothing yet. -/
@[simp] theorem metrics_detach (c : Cache S V) (k : K) : (c.detach k).2.metrics = c.metrics := by
  unfold detach
  simp only
  split <;> rfl

/-- Taking a victim out of a shard counts nothing yet. -/
theorem metrics_takeFrom (c : Cache S V) (i : Nat) : (c.takeFrom i).2.metrics = c.metrics := by
  unfold takeFrom
  split <;> rfl

/-- A round through the shards counts nothing yet. -/
theorem metrics_takeFirst (c : Cache S V) (is : List Nat) :
    (c.takeFirst is).2.metrics = c.metrics :=
  takeFirst_keeps (Q := fun c' => c'.metrics = c.metrics)
    (fun c' i h => (metrics_takeFrom c' i).trans h) rfl is

/-- Giving up records counts nothing yet. -/
@[simp] theorem metrics_evictOverflow (c : Cache S V) (start limit : Nat) :
    (c.evictOverflow start limit).2.metrics = c.metrics := by
  induction limit generalizing c with
  | zero => rfl
  | succ limit ih =>
    unfold evictOverflow
    split
    · rfl
    · rename_i c₁ hclaim
      obtain ⟨max, -, -, rfl⟩ := claim_eq_some_iff.1 hclaim
      have hround := metrics_takeFirst { c with len := c.len - 1 }
        (round { c with len := c.len - 1 } start)
      split <;> rename_i ht <;> rw [ht] at hround
      · exact hround
      · exact (ih _).trans hround

/-- Clearing counts nothing yet. -/
@[simp] theorem metrics_clear (c : Cache S V) : c.clear.2.metrics = c.metrics := by
  have hstep : ∀ (c : Cache S V) i, (c.clearShard i).2.metrics = c.metrics := fun c i => by
    unfold clearShard
    split <;> rfl
  have hloop : ∀ (is : List Nat) (c : Cache S V) taken,
      (c.clearShards taken is).2.metrics = c.metrics := by
    intro is
    induction is with
    | nil => exact fun _ _ => rfl
    | cons i rest ih => exact fun c taken => (ih _ _).trans (hstep c i)
  exact hloop _ c []

/-- The counters of a new cache are at zero. -/
theorem metrics_of_create {shards : Nat} {controller : Controller} {hash : K → UInt64}
    (h : create S V shards controller hash = .ok c) : c.metrics = {} := by
  unfold create at h
  split at h
  · cases h
  · obtain rfl := Except.ok.inj h
    rfl

end Cache

/-! ### One call -/

/-- What a call `x` on `c` with departures `out` makes of the counters. -/
structure Cache.Counts (c : Cache S V) (x : Call S V) (out : List (Departure K V)) (m : Metrics) :
    Prop where
  evict : m.evict = c.metrics.evict + Departure.tally .evict out
  remove : m.remove = c.metrics.remove + Departure.tally .remove out
  replace : m.replace = c.metrics.replace + Departure.tally .replace out
  stores : m.insert + m.replace = c.metrics.insert + c.metrics.replace + x.isInsert.toNat
  lookups : m.hit + m.miss = c.metrics.hit + c.metrics.miss + x.isGet.toNat
  sweep : m.sweep = c.metrics.sweep + (x.isSweep && c.isRunning).toNat

namespace Cache

/-- A call that sends nobody away and is not counted. -/
theorem Counts.of_eq {x : Call S V} {m : Metrics} (hm : m = c.metrics) (hi : x.isInsert = false)
    (hg : x.isGet = false) (hs : (x.isSweep && c.isRunning) = false) : c.Counts x [] m := by
  subst hm
  constructor <;> simp [*]

/-- An insertion counts what it did. -/
theorem counts_insert (c : Cache S V) (k : K) (v : V) :
    c.Counts (.insert k v) (c.insert k v).2.1 (c.insert k v).2.2.metrics := by
  have hmetrics := c.metrics_place k v
  unfold insert
  rcases hp : c.place k v with ⟨r, _ | old, c₁⟩ <;> rw [hp] at hmetrics <;>
    simp only at hmetrics ⊢
  · split
    · constructor <;> simp [count, hmetrics, Call.isInsert, Call.isGet, Call.isSweep]
      omega
    · constructor <;> simp [count, hmetrics, Call.isInsert, Call.isGet, Call.isSweep]
      omega
  · constructor <;> simp [count, hmetrics, Call.isInsert, Call.isGet, Call.isSweep]
    omega

/-- A lookup counts whether it found a record. -/
theorem counts_get (c : Cache S V) (k : K) : c.Counts (.get k) [] (c.get k).2.metrics := by
  have hmetrics := c.metrics_lookup k
  unfold get
  rcases hp : c.lookup k with ⟨_ | r, c₁⟩ <;> rw [hp] at hmetrics <;> simp only at hmetrics ⊢ <;>
    constructor <;> simp [count, hmetrics, Call.isInsert, Call.isGet, Call.isSweep] <;> omega

/-- A removal counts what it took out. -/
theorem counts_remove (c : Cache S V) (k : K) :
    c.Counts (.remove k) (c.remove k).2.1 (c.remove k).2.2.metrics := by
  have hmetrics := c.metrics_detach k
  unfold remove
  rcases hp : c.detach k with ⟨_ | r, c₁⟩ <;> rw [hp] at hmetrics <;> simp only at hmetrics ⊢
  · exact .of_eq hmetrics rfl rfl rfl
  · constructor <;> simp [count, hmetrics, Call.isInsert, Call.isGet, Call.isSweep]

/-- Clearing counts what was there. -/
theorem counts_clear (c : Cache S V) : c.Counts .clear c.clear.1 c.clear.2.metrics := by
  have hreason : c.clear.1 = departures .clear (c.clearShards [] (List.range c.shards.size)).1 := rfl
  rw [hreason, metrics_clear]
  constructor <;> simp [Call.isInsert, Call.isGet, Call.isSweep]

/-- A sweep counts what it evicted. -/
theorem counts_sweep (c : Cache S V) :
    c.Counts .sweep c.sweep.2.1 c.sweep.2.2.metrics := by
  unfold sweep
  split
  · rename_i hrun
    constructor <;>
      simp [count, advance, hrun, Call.isInsert, Call.isGet, Call.isSweep]
  · rename_i hrun
    exact .of_eq rfl rfl rfl (by simp [hrun])

/-- **A call counts itself and its departures.** -/
theorem counts_perform (c : Cache S V) (x : Call S V) :
    c.Counts x (c.perform x).2.1 (c.perform x).2.2.metrics := by
  cases x with
  | insert k v => exact c.counts_insert k v
  | get k => exact c.counts_get k
  | remove k => exact c.counts_remove k
  | clear => exact c.counts_clear
  | sweep => exact c.counts_sweep
  | contains k | stop | adjust f => exact .of_eq rfl rfl rfl rfl

end Cache

/-! ### A session -/

/-- The counters `m` agree with the calls `past`, each with the cache that it was performed on, and
with the departures `ds`. -/
structure Metrics.Tallies (m : Metrics) (past : List (Call S V × Cache S V))
    (ds : List (Departure K V)) : Prop where
  evict : m.evict = Departure.tally .evict ds
  remove : m.remove = Departure.tally .remove ds
  replace : m.replace = Departure.tally .replace ds
  stores : m.insert + m.replace = past.countP fun e => e.1.isInsert
  lookups : m.hit + m.miss = past.countP fun e => e.1.isGet
  sweep : m.sweep = past.countP fun e => e.1.isSweep && e.2.isRunning

namespace Metrics.Tallies

/-- The counters do not depend on the order of the departures. -/
theorem perm {m : Metrics} (h : m.Tallies past ds) (hds : ds.Perm ds') : m.Tallies past ds' :=
  ⟨h.evict.trans (Departure.tally_perm hds _), h.remove.trans (Departure.tally_perm hds _),
    h.replace.trans (Departure.tally_perm hds _), h.stores, h.lookups, h.sweep⟩

/-- Counters that tally do so after one call more. -/
theorem step (h : c.metrics.Tallies past ds) {x : Call S V} {m : Metrics} (hm : c.Counts x ds' m) :
    m.Tallies ((x, c) :: past) (ds ++ ds') := by
  have htoNat : ∀ b : Bool, b.toNat = if b = true then 1 else 0 := by decide
  constructor
  · rw [hm.evict, h.evict, Departure.tally_append]
  · rw [hm.remove, h.remove, Departure.tally_append]
  · rw [hm.replace, h.replace, Departure.tally_append]
  · rw [hm.stores, h.stores, List.countP_cons, htoNat]
  · rw [hm.lookups, h.lookups, List.countP_cons, htoNat]
  · rw [hm.sweep, h.sweep, List.countP_cons, htoNat]

end Metrics.Tallies

namespace Course

/-- **The counters tally** with the calls so far and the departures told and to be told. -/
theorem tallies (hc₀ : c₀.metrics = {}) (h : Course P c₀ p) :
    p.cache.metrics.Tallies p.past p.gone := by
  induction h with
  | start =>
    rw [hc₀]
    exact ⟨rfl, rfl, rfl, rfl, rfl, rfl⟩
  | ask _ _ ih => exact ih
  | @perform c past log x rest _ ih =>
    have hstep := ih.step (c.counts_perform x)
    refine hstep.perm ?_
    simp only [Point.gone, Task.departures_append, Task.departures_map_tell]
    exact (List.append_assoc ..).symm ▸ (List.perm_append_comm.append_left log)
  | @tell calls c past log d rest _ _ ih =>
    refine ih.perm ?_
    simp only [Point.gone, Task.departures_append, Task.departures_map_call, List.nil_append]
    exact List.perm_middle

/-- As many records are made as values are stored. -/
theorem length_made (p : Point S V) : p.made.length = p.past.countP fun e => e.1.isInsert := by
  obtain ⟨c, past, log, agenda⟩ := p
  show (past.flatMap fun e => e.2.made e.1).length = _
  induction past with
  | nil => rfl
  | cons e past ih =>
    rw [List.flatMap_cons, List.length_append, ih, List.countP_cons]
    cases e.1 <;> simp [Cache.made, Call.isInsert]
    omega

/-- **The counters reconcile with the cache and with what was told.**  When a session is at rest, the
counters for records given up, taken out by key and replaced are the numbers of such departures told;
each storing, each lookup and each sweep of a running cache was counted once; and the records stored
under new keys, less those that left and were not replaced, are the records that the cache reports.
No counter has passed the number of calls. -/
theorem metrics_reconcile {controller : Controller} {shards : Nat} {hash : K → UInt64}
    (hcreate : Cache.create S V shards controller hash = .ok c₀) (h : Course P c₀ p)
    (hidle : p.agenda = []) :
    let m := p.cache.metrics
    m.evict = p.log.countP (·.reason = .evict) ∧
    m.remove = p.log.countP (·.reason = .remove) ∧
    m.replace = p.log.countP (·.reason = .replace) ∧
    m.insert + m.replace = p.past.countP (fun e => e.1.isInsert) ∧
    m.hit + m.miss = p.past.countP (fun e => e.1.isGet) ∧
    m.sweep = p.past.countP (fun e => e.1.isSweep && e.2.isRunning) ∧
    (m.insert : Int) - m.evict - m.remove - p.log.countP (·.reason = .clear) = p.cache.len ∧
    p.cache.len = p.cache.size ∧
    ∀ n ∈ [m.insert, m.replace, m.hit, m.miss, m.remove, m.evict, m.sweep], n ≤ p.past.length := by
  obtain ⟨hfresh, -, -⟩ := Cache.create_eq_ok hcreate
  have htally := h.tallies (Cache.metrics_of_create hcreate)
  have hlength := (h.accounted hfresh).length_eq
  have hlen := h.len_eq hfresh
  rw [gone_eq_log hidle] at htally hlength
  rw [List.length_append, List.length_map, ← Cache.stored_eq_length, length_made,
    Departure.length_eq_tally, ← htally.stores] at hlength
  obtain ⟨hevict, hremove, hreplace, hstores, hlookups, hsweep⟩ := htally
  have hle : ∀ f : Call S V × Cache S V → Bool, p.past.countP f ≤ p.past.length :=
    fun _ => List.countP_le_length
  have hinserts := hle fun e => e.1.isInsert
  have hgets := hle fun e => e.1.isGet
  have hsweeps := hle fun e => e.1.isSweep && e.2.isRunning
  have hclear : Departure.tally .clear p.log = p.log.countP (·.reason = .clear) := rfl
  refine ⟨hevict, hremove, hreplace, hstores, hlookups, hsweep, by omega, ?_, fun n hn => ?_⟩
  · rw [Cache.size]
    omega
  · simp only [List.mem_cons, List.not_mem_nil, or_false] at hn
    rcases hn with rfl | rfl | rfl | rfl | rfl | rfl | rfl <;> omega

/-- A session with a cache for one record: three records are stored, the last one by the listener, and
two are given up. -/
theorem metrics_reconcile_nested :
    ∃ p, Course (fun _ => True) .forOne p ∧ p.agenda = [] ∧
      p.log = [⟨.evict, ⟨2, 20, 7, 1⟩⟩, ⟨.evict, ⟨1, 10, 7, 0⟩⟩] ∧
      p.cache.metrics.evict = 2 ∧
      (p.cache.metrics.insert : Int) - p.cache.metrics.evict - p.cache.metrics.remove - 0 =
        p.cache.len := by
  obtain ⟨c, past, h⟩ := exists_nested (P := fun _ => True) fun _ _ => trivial
  have hidle := tell [] (fun x hx => absurd hx List.not_mem_nil) h
  obtain ⟨hevict, -, -, -, -, -, hlen, -⟩ := hidle.metrics_reconcile Cache.create_forOne rfl
  exact ⟨_, hidle, rfl, rfl, hevict, hlen⟩

end Course
end
end ClusterCache
