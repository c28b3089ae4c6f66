/-
# A plain map

A cache that gives nobody up for its bound is no more than a map from keys to records, with counters
(`PlainMap`).  What such a map finds under a key can be read off the calls made so far: it is the
record of the latest insertion under the key, unless that was taken out or cleared away since
(`PlainMap.remembers_after`).

Two maps that hold the same records, as far as a function `f` tells, and go on to make the same
records, show the same of every call (`PlainMap.Matches.respond`).  Their counters advance alike
(`Metrics.Advanced`).
-/

import ClusterCache.Proofs.Cache.Showing
import ClusterCache.Proofs.Cache.Tally

namespace ClusterCache

/-! ### Calls -/

namespace Call

variable {K V : Type} {S : Strategy K}

/-- The same call on a cache with another strategy.  What strategies share is left as it is there. -/
def recast (S' : Strategy K) : Call S V → Call S' V
  | insert k v => .insert k v
  | get k => .get k
  | contains k => .contains k
  | remove k => .remove k
  | clear => .clear
  | sweep => .sweep
  | stop => .stop
  | adjust _ => .adjust id

/-- The record of the latest insertion under a key, unless it was taken out or cleared away since.
The calls so far are given with the latest first. -/
def latest? [DecidableEq K] (hash : K → UInt64) (k : K) : List (Call S V) → Option (Record K V)
  | [] => none
  | insert k' v :: past =>
    if k' = k then some ⟨k, v, hash k, past.countP isInsert⟩ else latest? hash k past
  | remove k' :: past => if k' = k then none else latest? hash k past
  | clear :: _ => none
  | get _ :: past | contains _ :: past | sweep :: past | stop :: past | adjust _ :: past =>
    latest? hash k past

end Call

/-! ### Maps -/

/-- Records by their keys, with counters. -/
structure PlainMap (K V : Type) [DecidableEq K] [Hashable K] where
  records : KeyMap K (Record K V)
  /-- How many records have been made. -/
  created : Nat
  /-- The hash that records carry. -/
  hash : K → UInt64
  /-- Whether sweeps are counted. -/
  running : Bool
  metrics : Metrics

namespace PlainMap

variable {K V : Type} [DecidableEq K] [Hashable K] {S : Strategy K}

/-- A map without records. -/
def empty (V : Type) (hash : K → UInt64) (running : Bool) : PlainMap K V :=
  ⟨.empty, 0, hash, running, {}⟩

/-- Counts something. -/
def count (m : PlainMap K V) (g : Metrics → Metrics) : PlainMap K V :=
  { m with metrics := g m.metrics }

/-- The record that an insertion makes. -/
def newRecord (m : PlainMap K V) (k : K) (v : V) : Record K V := ⟨k, v, m.hash k, m.created⟩

/-- The map after a record was made and stored. -/
def place (m : PlainMap K V) (k : K) (v : V) : PlainMap K V :=
  { m with records := m.records.insert k (m.newRecord k v), created := m.created + 1 }

/-- The map without the record of a key. -/
def erase (m : PlainMap K V) (k : K) : PlainMap K V := { m with records := m.records.erase k }

/-- The map after a sweep, which does nothing but be counted. -/
def sweep (m : PlainMap K V) : PlainMap K V :=
  if m.running then m.count fun n => { n with sweep := n.sweep + 1 } else m

/-- What a call does to a map. -/
def perform (m : PlainMap K V) : Call S V → Answer K V × List (Departure K V) × PlainMap K V
  | .insert k v =>
    match m.records.get? k with
    | some old => (.stored (m.newRecord k v), Cache.departures .replace [old],
        (m.place k v).count fun n => { n with replace := n.replace + 1 })
    | none => (.stored (m.newRecord k v), [],
        (m.place k v).count fun n => { n with insert := n.insert + 1 })
  | .get k =>
    match m.records.get? k with
    | some r => (.found (some r), [], m.count fun n => { n with hit := n.hit + 1 })
    | none => (.found none, [], m.count fun n => { n with miss := n.miss + 1 })
  | .contains k => (.flag (m.records.contains k), [], m)
  | .remove k =>
    match m.records.get? k with
    | some r => (.found (some r), Cache.departures .remove [r],
        (m.erase k).count fun n => { n with remove := n.remove + 1 })
    | none => (.found none, [], m)
  | .clear => (.done, Cache.departures .clear m.records.values, { m with records := .empty })
  | .sweep => (.count 0, [], m.sweep)
  | .stop => (.done, [], { m with running := false })
  | .adjust _ => (.done, [], m)

/-- A call, with what is seen of it. -/
def respond (m : PlainMap K V) (x : Call S V) : Showing K V × PlainMap K V :=
  (⟨(m.perform x).1, (m.perform x).2.1, (m.perform x).2.2.records.size, (m.perform x).2.2.metrics⟩,
    (m.perform x).2.2)

variable {m m' : PlainMap K V}

/-- A map does not care which strategy a call is addressed to. -/
theorem respond_recast (S' : Strategy K) (m : PlainMap K V) (x : Call S V) :
    m.respond (x.recast S') = m.respond x := by
  cases x <;> rfl

/-! ### One call -/

/-- What a call makes of what is found under a key. -/
theorem get?_perform (m : PlainMap K V) (x : Call S V) (k : K) :
    (m.perform x).2.2.records.get? k = match x with
      | .insert k' v => if k = k' then some (m.newRecord k' v) else m.records.get? k
      | .remove k' => if k = k' then none else m.records.get? k
      | .clear => none
      | _ => m.records.get? k := by
  cases x with
  | insert k' v =>
    rw [perform]
    split <;> exact KeyMap.get?_insert ..
  | get k' =>
    rw [perform]
    split <;> rfl
  | remove k' =>
    rw [perform]
    split
    · exact KeyMap.get?_erase ..
    · rename_i hnone
      -- there was nothing to take out
      simp only
      split
      · rename_i hk
        rw [hk, hnone]
      · rfl
  | sweep =>
    rw [perform, sweep]
    split <;> rfl
  | contains | clear | stop | adjust => rfl

/-- Each record stands under its key. -/
def Keyed (m : PlainMap K V) : Prop := ∀ k r, m.records.get? k = some r → r.key = k

/-- After every call each record stands under its key. -/
theorem Keyed.perform (h : m.Keyed) (x : Call S V) : (m.perform x).2.2.Keyed := by
  intro k r hr
  rw [get?_perform] at hr
  cases x with
  | insert k' v =>
    simp only at hr
    split at hr
    · rename_i hk
      have hr := Option.some.inj hr
      rw [hk, ← hr]
      rfl
    · exact h k r hr
  | remove k' =>
    simp only at hr
    split at hr
    · cases hr
    · exact h k r hr
  | clear => cases hr
  | get | contains | sweep | stop | adjust => exact h k r hr

/-- The hash stays; an insertion makes a record; and only stopping changes what is counted. -/
theorem setup_perform (m : PlainMap K V) (x : Call S V) :
    (m.perform x).2.2.hash = m.hash ∧
      (m.perform x).2.2.created = m.created + x.isInsert.toNat ∧
      (x ≠ .stop → (m.perform x).2.2.running = m.running) := by
  cases x with
  | insert | get | remove =>
    rw [perform]
    split <;> exact ⟨rfl, rfl, fun _ => rfl⟩
  | sweep =>
    rw [perform, sweep]
    split <;> exact ⟨rfl, rfl, fun _ => rfl⟩
  | contains | clear | adjust => exact ⟨rfl, rfl, fun _ => rfl⟩
  | stop => exact ⟨rfl, rfl, fun h => absurd rfl h⟩

/-! ### What a map remembers -/

/-- The map holds what the calls so far have left of what they stored. -/
structure Remembers (g : K → UInt64) (m : PlainMap K V) (past : List (Call S V)) : Prop where
  hash : m.hash = g
  created : m.created = past.countP Call.isInsert
  found : ∀ k, m.records.get? k = Call.latest? g k past

variable {hash : K → UInt64} {past : List (Call S V)}

/-- A map without records holds what no calls have left. -/
theorem remembers_empty (hash : K → UInt64) (running : Bool) :
    Remembers (S := S) hash (.empty V hash running) [] := ⟨rfl, rfl, fun _ => rfl⟩

/-- A call is remembered. -/
theorem Remembers.respond (h : Remembers hash m past) (x : Call S V) :
    Remembers hash (m.respond x).2 (x :: past) := by
  obtain ⟨hhash, hcreated, -⟩ := m.setup_perform x
  have hcounted : (m.perform x).2.2.created = (x :: past).countP Call.isInsert := by
    rw [hcreated, h.created, List.countP_cons]
    cases x <;> rfl
  refine ⟨hhash.trans h.hash, hcounted, fun k => (m.get?_perform x k).trans ?_⟩
  cases x with
  | insert k' v =>
    simp only [Call.latest?, h.found]
    by_cases hk : k = k'
    · rw [if_pos hk, if_pos hk.symm, hk, newRecord, h.hash, h.created]
    · rw [if_neg hk, if_neg (Ne.symm hk)]
  | remove k' =>
    simp only [Call.latest?, h.found]
    by_cases hk : k = k'
    · rw [if_pos hk, if_pos hk.symm]
    · rw [if_neg hk, if_neg (Ne.symm hk)]
  | clear => rfl
  | get | contains | sweep | stop | adjust => exact h.found k

/-- **A map finds what was stored last** and neither taken out nor cleared away since. -/
theorem remembers_after (h : Remembers hash m past) (xs : List (Call S V)) :
    Remembers hash (after PlainMap.respond m xs) (xs.reverse ++ past) := by
  induction xs generalizing m past with
  | nil => exact h
  | cons x xs ih =>
    rw [List.reverse_cons, List.append_assoc]
    exact ih (h.respond x)

end PlainMap

/-! ### Maps side by side -/

/-- Counters that were at `a` and `a'` have advanced by the same to `m` and `m'`; those of sweeps, if
`sweeps` holds. -/
structure Metrics.Advanced (sweeps : Prop) (a a' m m' : Metrics) : Prop where
  insert : m.insert + a'.insert = m'.insert + a.insert
  replace : m.replace + a'.replace = m'.replace + a.replace
  hit : m.hit + a'.hit = m'.hit + a.hit
  miss : m.miss + a'.miss = m'.miss + a.miss
  remove : m.remove + a'.remove = m'.remove + a.remove
  evict : m.evict + a'.evict = m'.evict + a.evict
  sweep : sweeps → m.sweep + a'.sweep = m'.sweep + a.sweep

namespace Metrics.Advanced

variable {sweeps : Prop} {a a' m m' : Metrics}

/-- Where they start, counters have advanced by the same. -/
theorem start (sweeps : Prop) (a a' : Metrics) : Advanced sweeps a a' a a' := by
  constructor <;> intros <;> omega

/-- Counting once on both sides. -/
theorem once {x x' y y' : Nat} (h : x + y' = x' + y) : x + 1 + y' = x' + 1 + y := by omega

/-- Counting as many on both sides. -/
theorem many {x x' y y' n n' : Nat} (h : x + y' = x' + y) (hn : n = n') :
    x + n + y' = x' + n' + y := by omega

/-- Counters that start together and advance alike are equal. -/
theorem eq (h : Advanced True a a m m') : m = m' := by
  obtain ⟨hinsert, hreplace, hhit, hmiss, hremove, hevict, hsweep⟩ := h
  have hsweep := hsweep trivial
  cases m
  cases m'
  simp only [Nat.add_right_cancel_iff] at *
  simp only [*]

end Metrics.Advanced

open Metrics (Advanced)

namespace PlainMap

variable {K V : Type} [DecidableEq K] [Hashable K] {S : Strategy K} {m m' : PlainMap K V}
  {f : Record K V → Record K V} {sweeps : Prop} {a a' : Metrics}

/-- Two maps hold the same records, and will make the same, as far as `f` tells.  Their counters have
advanced by the same since they were at `a` and `a'`. -/
structure Matches (f : Record K V → Record K V) (sweeps : Prop) (a a' : Metrics)
    (m m' : PlainMap K V) : Prop where
  found : ∀ k, (m.records.get? k).map f = (m'.records.get? k).map f
  made : ∀ k v n, f ⟨k, v, m.hash k, m.created + n⟩ = f ⟨k, v, m'.hash k, m'.created + n⟩
  running : sweeps → m.running = m'.running
  counted : Advanced sweeps a a' m.metrics m'.metrics

namespace Matches

/-- Both find nothing, or a record each. -/
theorem cases (h : Matches f sweeps a a' m m') (k : K) :
    (m.records.get? k = none ∧ m'.records.get? k = none) ∨
    ∃ r r', m.records.get? k = some r ∧ m'.records.get? k = some r' ∧ f r = f r' :=
  Record.cases_of_map_eq (h.found k)

/-- Maps that match have equally many records. -/
theorem size (h : Matches f sweeps a a' m m') : m.records.size = m'.records.size := by
  have hlength := (KeyMap.values_map_perm h.found).length_eq
  rwa [List.length_map, List.length_map, KeyMap.length_values, KeyMap.length_values] at hlength

/-- Maps that match make the same record, as far as `f` tells. -/
theorem newRecord (h : Matches f sweeps a a' m m') (k : K) (v : V) :
    f (m.newRecord k v) = f (m'.newRecord k v) := h.made k v 0

/-- Maps that match do so after the same insertion. -/
theorem place (h : Matches f sweeps a a' m m') (k : K) (v : V) :
    Matches f sweeps a a' (m.place k v) (m'.place k v) := by
  refine ⟨fun k' => ?_, fun k' v' n => ?_, h.running, h.counted⟩
  · show ((m.records.insert k (m.newRecord k v)).get? k').map f =
      ((m'.records.insert k (m'.newRecord k v)).get? k').map f
    rw [KeyMap.get?_insert, KeyMap.get?_insert]
    split
    · exact congrArg some (h.newRecord k v)
    · exact h.found k'
  · show f ⟨k', v', m.hash k', m.created + 1 + n⟩ = f ⟨k', v', m'.hash k', m'.created + 1 + n⟩
    rw [Nat.add_assoc, Nat.add_assoc]
    exact h.made k' v' (1 + n)

/-- Maps that match do so after the same removal. -/
theorem erase (h : Matches f sweeps a a' m m') (k : K) :
    Matches f sweeps a a' (m.erase k) (m'.erase k) := by
  refine ⟨fun k' => ?_, h.made, h.running, h.counted⟩
  show ((m.records.erase k).get? k').map f = ((m'.records.erase k).get? k').map f
  rw [KeyMap.get?_erase, KeyMap.get?_erase]
  split
  · rfl
  · exact h.found k'

/-- Maps that match do so after they counted the same. -/
theorem count (h : Matches f sweeps a a' m m') {g : Metrics → Metrics}
    (hg : Advanced sweeps a a' (g m.metrics) (g m'.metrics)) :
    Matches f sweeps a a' (m.count g) (m'.count g) := ⟨h.found, h.made, h.running, hg⟩

/-- A sweep is counted on both sides, unless that does not matter. -/
theorem sweep (h : Matches f sweeps a a' m m') : Matches f sweeps a a' m.sweep m'.sweep := by
  unfold PlainMap.sweep
  have hsame : sweeps → (m.running = true ↔ m'.running = true) := fun hs => by rw [h.running hs]
  by_cases hm : m.running = true <;> by_cases hm' : m'.running = true
  · rw [if_pos hm, if_pos hm']
    exact h.count { h.counted with sweep := fun hs => Advanced.once (h.counted.sweep hs) }
  · rw [if_pos hm, if_neg hm']
    exact ⟨h.found, h.made, h.running,
      { h.counted with sweep := fun hs => absurd ((hsame hs).1 hm) hm' }⟩
  · rw [if_neg hm, if_pos hm']
    exact ⟨h.found, h.made, h.running,
      { h.counted with sweep := fun hs => absurd ((hsame hs).2 hm') hm }⟩
  · rw [if_neg hm, if_neg hm']
    exact h

/-- **A call shows the same on maps that match, and leaves them matching.** -/
theorem respond (h : Matches f sweeps a a' m m') (x : Call S V) :
    (m.respond x).1.Alike f (Advanced sweeps a a') (m'.respond x).1 ∧
      Matches f sweeps a a' (m.respond x).2 (m'.respond x).2 := by
  suffices hcall : (m.perform x).1.map f = (m'.perform x).1.map f ∧
      Departure.Alike f (m.perform x).2.1 (m'.perform x).2.1 ∧
      Matches f sweeps a a' (m.perform x).2.2 (m'.perform x).2.2 by
    obtain ⟨hanswer, htold, hnext⟩ := hcall
    exact ⟨⟨hanswer, htold, hnext.size, hnext.counted⟩, hnext⟩
  have hc := h.counted
  cases x with
  | insert k v =>
    have hmade := congrArg Answer.stored (h.newRecord k v)
    have hplace := h.place k v
    rcases h.cases k with ⟨hr, hr'⟩ | ⟨r, r', hr, hr', hf⟩ <;> simp only [perform, hr, hr']
    · exact ⟨hmade, .of_map_eq rfl, hplace.count { hc with insert := Advanced.once hc.insert }⟩
    · exact ⟨hmade, .departures .replace (congrArg (fun r => [r]) hf),
        hplace.count { hc with replace := Advanced.once hc.replace }⟩
  | get k =>
    rcases h.cases k with ⟨hr, hr'⟩ | ⟨r, r', hr, hr', hf⟩ <;> simp only [perform, hr, hr']
    · exact ⟨trivial, .of_map_eq rfl, h.count { hc with miss := Advanced.once hc.miss }⟩
    · exact ⟨congrArg (fun r => Answer.found (some r)) hf, .of_map_eq rfl,
        h.count { hc with hit := Advanced.once hc.hit }⟩
  | contains k =>
    refine ⟨?_, .of_map_eq rfl, h⟩
    rw [perform, perform, KeyMap.contains, KeyMap.contains]
    rcases h.cases k with ⟨hr, hr'⟩ | ⟨r, r', hr, hr', -⟩ <;> rw [hr, hr']
    rfl
  | remove k =>
    rcases h.cases k with ⟨hr, hr'⟩ | ⟨r, r', hr, hr', hf⟩ <;> simp only [perform, hr, hr']
    · exact ⟨trivial, .of_map_eq rfl, h⟩
    · exact ⟨congrArg (fun r => Answer.found (some r)) hf,
        .departures .remove (congrArg (fun r => [r]) hf),
        (h.erase k).count { hc with remove := Advanced.once hc.remove }⟩
  | clear =>
    exact ⟨rfl, .clearing (KeyMap.values_map_perm h.found), fun _ => rfl, h.made, h.running, hc⟩
  | sweep => exact ⟨rfl, .of_map_eq rfl, h.sweep⟩
  | stop => exact ⟨rfl, .of_map_eq rfl, h.found, h.made, fun _ => rfl, hc⟩
  | adjust g => exact ⟨rfl, .of_map_eq rfl, h⟩

end Matches
end PlainMap
end ClusterCache
