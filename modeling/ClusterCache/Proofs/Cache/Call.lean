/-
# What a call does as a whole

A call that is left alone is `perform`, so what every indivisible step keeps, `perform` keeps:
records are made, stay or leave, and that is all (`perform_perm`); the count stays as far from the
number of records as it was (`perform_balance`); and every shard keeps what the operations of shards
keep (`Each.perform`).

Two more facts are about `perform` alone.  Each departure has a cause in the call
(`cause_of_mem_perform`).  And a cache within its bound is within it after the call, as long as it
runs: an insertion adds one record and then gives up one, which is less than it may
(`stored_perform_le`).
-/

import ClusterCache.Proofs.Cache.Alone

namespace ClusterCache
namespace Cache

variable {K V : Type} [DecidableEq K] {S : Strategy K} {c c' : Cache S V}
  {x : Call S V} {d : Departure K V} {P : Nat → Shard S V → Prop}

/-! ### What is kept -/

/-- What the first step of a call brings about and every step keeps, a call brings about. -/
theorem perform_keeps {Q : Cache S V → Stage S V → Prop}
    (hstep : ∀ c t, Q c t → Q (t.step c).1 (t.step c).2)
    (hfirst : Q (Stage.step c (.asked x)).1 (Stage.step c (.asked x)).2) :
    Q (c.perform x).2.2 (.done (c.perform x).1 (c.perform x).2.1) := by
  rcases Relation.ReflTransGen.cases_head (Stage.alone_perform c x) with h | ⟨q, rfl, h⟩
  · cases (Prod.mk.inj h).2
  · exact Stage.Alone.keeps hstep h hfirst

/-- A call leaves everything as it was that is chosen when a cache is made. -/
theorem sameShape_perform (c : Cache S V) (x : Call S V) : SameShape c (c.perform x).2.2 :=
  perform_keeps (Q := fun c' _ => SameShape c c')
    (fun c' t h => h.trans (Stage.step_moves c' t).sameShape) (Stage.step_moves c _).sameShape

/-- Only stopping changes whether the cache runs. -/
theorem sameSetup_perform (hx : x ≠ .stop) : SameSetup c (c.perform x).2.2 := by
  have hfirst : SameSetup c (Stage.step c (.asked x)).1 := by
    rcases (Stage.step_moves c (.asked x)).sameSetup with h | ⟨h, -⟩
    · exact h
    · exact absurd (Stage.asked.inj h) hx
  have hstep : ∀ (c' : Cache S V) t, SameSetup c c' ∧ t ≠ .asked .stop →
      SameSetup c (Stage.step c' t).1 ∧ (Stage.step c' t).2 ≠ .asked .stop := by
    intro c' t h
    refine ⟨?_, Stage.step_ne_asked c' t _⟩
    rcases (Stage.step_moves c' t).sameSetup with h' | ⟨h', -⟩
    · exact h.1.trans h'
    · exact absurd h' h.2
  exact (perform_keeps (Q := fun c' t => SameSetup c c' ∧ t ≠ .asked .stop) hstep
    ⟨hfirst, Stage.step_ne_asked c _ _⟩).1

/-- What every operation of a shard keeps, every call keeps. -/
theorem Each.perform (hk : c.Kept P) (h : c.Each P) (x : Call S V) : (c.perform x).2.2.Each P := by
  refine (perform_keeps (Q := fun c' _ => SameShape c c' ∧ c'.Each P) ?_
    ⟨(Stage.step_moves c _).sameShape, (Stage.step_moves c _).each hk h⟩).2
  intro c' t h'
  have hmoves := Stage.step_moves c' t
  exact ⟨h'.1.trans hmoves.sameShape, hmoves.each (h'.1.kept.2 hk) h'.2⟩

/-- **Each record that was there or is made stays or leaves, once.** -/
theorem perform_perm (hc : 0 < c.shards.size) (x : Call S V) :
    ((c.perform x).2.1.map Departure.record ++ (c.perform x).2.2.records).Perm
      (c.made x ++ c.records) := by
  have hfirst := (Stage.step_moves c (.asked x)).perm hc
  have hsize := (Stage.step_moves c (.asked x)).sameShape.size
  have h := perform_keeps (Q := fun c' t => 0 < c'.shards.size ∧ (∀ c'', t.made c'' = []) ∧
    (t.taken ++ c'.records).Perm (c.made x ++ c.records)) ?_
    ⟨hsize ▸ hc, fun c'' => Stage.made_step c c'' _, hfirst⟩
  · exact ((List.reverse_perm _).symm.append_right _).trans h.2.2
  · rintro c' t ⟨hc', hmade, hperm⟩
    have hmoves := Stage.step_moves c' t
    have hnext := hmoves.perm hc'
    rw [hmade] at hnext
    exact ⟨hmoves.sameShape.size ▸ hc', fun c'' => Stage.made_step c' c'' t, hnext.trans hperm⟩

/-- **The count stays as right or wrong as it was.** -/
theorem perform_balance (hc : 0 < c.shards.size) (x : Call S V) :
    ((c.perform x).2.2.stored : Int) - (c.perform x).2.2.len = c.stored - c.len := by
  have hfirst := (Stage.step_moves c (.asked x)).balance hc
  have hsize := (Stage.step_moves c (.asked x)).sameShape.size
  have h := perform_keeps (Q := fun c' t => 0 < c'.shards.size ∧
    (c'.stored : Int) - c'.len - t.claims = c.stored - c.len) ?_
    ⟨hsize ▸ hc, by simpa [Stage.claims] using hfirst⟩
  · simpa [Stage.claims] using h.2
  · rintro c' t ⟨hc', h⟩
    have hmoves := Stage.step_moves c' t
    exact ⟨hmoves.sameShape.size ▸ hc', (hmoves.balance hc').trans h⟩

/-- A cache counts the records that a call makes. -/
theorem created_perform (c : Cache S V) (x : Call S V) :
    (c.perform x).2.2.created = c.created + (c.made x).length := by
  have h := perform_keeps (Q := fun c' t => (∀ c'', t.made c'' = []) ∧
    c'.created = c.created + (c.made x).length) ?_
    ⟨fun c'' => Stage.made_step c c'' _, (Stage.step_moves c (.asked x)).created⟩
  · exact h.2
  · rintro c' t ⟨hmade, h⟩
    have hnext := (Stage.step_moves c' t).created
    rw [hmade] at hnext
    exact ⟨fun c'' => Stage.made_step c' c'' t, hnext.trans h⟩

/-! ### Why records leave -/

/-- The ways in which a call sends records away. -/
inductive Cause (c : Cache S V) : Call S V → Departure K V → Prop
  /-- The key had a record. -/
  | replaced {k : K} {v : V} {r : Record K V} : c.contains k = true → r.key = k →
      Cause c (.insert k v) ⟨.replace, r⟩
  /-- The key had no record, and the cache looks after its bound. -/
  | crowded {k : K} {v : V} {r : Record K V} : c.contains k = false → c.isRunning = true →
      Cause c (.insert k v) ⟨.evict, r⟩
  | removed {k : K} {r : Record K V} : r.key = k → Cause c (.remove k) ⟨.remove, r⟩
  | cleared {r : Record K V} : Cause c .clear ⟨.clear, r⟩
  | swept {r : Record K V} : c.isRunning = true → Cause c .sweep ⟨.evict, r⟩

omit [DecidableEq K] in
/-- Departures for a reason are those of the records that go for it. -/
theorem mem_departures_iff {reason : Reason} {rs : List (Record K V)} :
    d ∈ departures reason rs ↔ d.reason = reason ∧ d.record ∈ rs := by
  obtain ⟨reason', r⟩ := d
  simp only [departures, List.mem_map, Departure.mk.injEq]
  constructor
  · rintro ⟨r', hr', rfl, rfl⟩
    exact ⟨rfl, hr'⟩
  · rintro ⟨rfl, hr⟩
    exact ⟨r, hr, rfl, rfl⟩

/-- Whether a key has a record is what storing under the key finds. -/
theorem contains_eq_isSome_place (hc : 0 < c.shards.size) (k : K) (v : V) :
    c.contains k = (c.place k v).2.1.isSome := by
  obtain ⟨s, hs⟩ := exists_shard hc (c.hash k)
  rw [place_of_shard v hs, contains, hs]
  show s.contains (c.hash k) k = (s.place (c.newRecord k v)).1.isSome
  rw [Shard.place_fst]
  rfl

/-- Whoever is replaced has the key that is stored. -/
theorem key_of_place {k : K} {v : V} {r : Record K V} (hc : 0 < c.shards.size)
    (h : (c.place k v).2.1 = some r) : r.key = k := by
  obtain ⟨s, hs⟩ := exists_shard hc (c.hash k)
  rw [place_of_shard v hs] at h
  have hfound : s.find? (c.hash k) k = some r := (s.place_fst (c.newRecord k v)).symm.trans h
  exact (RecordTable.of_find? hfound).2

/-- Whoever is taken out by a key has that key. -/
theorem key_of_detach {k : K} {r : Record K V} (h : (c.detach k).1 = some r) : r.key = k := by
  unfold detach at h
  simp only at h
  split at h
  · cases h
  · rename_i s hs
    have hfound : s.find? (c.hash k) k = some r := (s.detach_fst (c.hash k) k).symm.trans h
    exact (RecordTable.of_find? hfound).2

/-- **Each departure has a cause in the call.** -/
theorem cause_of_mem_perform (hc : 0 < c.shards.size) (hd : d ∈ (c.perform x).2.1) :
    Cause c x d := by
  obtain ⟨reason, r⟩ := d
  cases x with
  | insert k v =>
    have hcontains := contains_eq_isSome_place hc k v
    have hrun := (c.sameSetup_place k v).isRunning
    have hkey := fun r h => key_of_place (k := k) (v := v) (r := r) hc h
    simp only [perform, insert] at hd
    rcases hp : c.place k v with ⟨r', _ | old, c'⟩ <;> rw [hp] at hd hcontains hrun hkey
    · simp only at hd
      split at hd
      · rename_i hrunning
        obtain ⟨rfl, -⟩ := mem_departures_iff.1 hd
        exact .crowded hcontains (hrun ▸ hrunning)
      · cases hd
    · obtain ⟨rfl, hr⟩ := mem_departures_iff.1 hd
      obtain rfl := List.mem_singleton.1 hr
      exact .replaced hcontains (hkey r rfl)
  | get k | contains k | stop | adjust f => cases hd
  | remove k =>
    have hkey := fun r h => key_of_detach (c := c) (k := k) (r := r) h
    simp only [perform, remove] at hd
    rcases hp : c.detach k with ⟨_ | r', c'⟩ <;> rw [hp] at hd hkey
    · cases hd
    · obtain ⟨rfl, hr⟩ := mem_departures_iff.1 hd
      obtain rfl := List.mem_singleton.1 hr
      exact .removed (hkey r rfl)
  | clear =>
    obtain ⟨rfl, -⟩ := mem_departures_iff.1 hd
    exact .cleared
  | sweep =>
    simp only [perform, sweep] at hd
    split at hd
    · rename_i hrunning
      obtain ⟨rfl, -⟩ := mem_departures_iff.1 hd
      exact .swept hrunning
    · cases hd

/-! ### Clearing -/

/-- Shards that are still to be cleared need not have the property yet that clearing gives them. -/
theorem Each.clearShards {P Q : Nat → Shard S V → Prop} {taken : List (Record K V)} {is : List Nat}
    (hclear : ∀ {i s}, P i s → Q i s.clear.2) (hof : ∀ {i s}, Q i s → P i s)
    (h : c.Each fun i s => P i s ∧ (i ∉ is → Q i s)) : (c.clearShards taken is).2.Each Q := by
  induction is generalizing c taken with
  | nil => exact fun i s hs => (h i s hs).2 List.not_mem_nil
  | cons i rest ih =>
    refine ih (h.clearShard_of i (fun hs => ?_) fun hj hs => ?_)
    · exact ⟨hof (hclear hs.1), fun _ => hclear hs.1⟩
    · exact ⟨hs.1, fun hrest => hs.2 (List.not_mem_cons_of_ne_of_not_mem hj hrest)⟩

/-- If clearing a shard that has one property gives it another, which implies the first, all shards of a
cleared cache have the other. -/
theorem Each.clear {P Q : Nat → Shard S V → Prop} (hclear : ∀ {i s}, P i s → Q i s.clear.2)
    (hof : ∀ {i s}, Q i s → P i s) (h : c.Each P) : c.clear.2.Each Q := by
  refine Each.clearShards hclear hof fun i s hs => ⟨h i s hs, fun hi => ?_⟩
  exact absurd (List.mem_range.2 (Array.getElem?_eq_some_iff.1 hs).1) hi

/-- A cache that was cleared is empty, shard by shard. -/
theorem size_eq_zero_of_clear (c : Cache S V) : c.clear.2.Each fun _ s => s.size = 0 :=
  Each.clear (P := fun _ _ => True) (fun _ => rfl) (fun _ => trivial) fun _ _ _ => trivial

/-- **Clearing leaves no record behind.** -/
theorem records_clear (c : Cache S V) : c.clear.2.records = [] := by
  refine List.eq_nil_of_length_eq_zero ?_
  rw [← stored_eq_length]
  exact stored_eq_zero c.size_eq_zero_of_clear

/-! ### The bound -/

variable {T : S.Tracking}

/-- An insertion adds one record at most, and gives up what is then above the bound. -/
theorem stored_insert_le {max : Nat} (hc : 0 < c.shards.size)
    (hagree : c.Each fun i s => s.Filed c.hash c.shardOf i ∧ s.Agrees c.hash T)
    (hlen : c.len = c.stored) (hmax : c.maxEntries = some max) (hrun : c.isRunning = true)
    (hle : c.stored ≤ max) (k : K) (v : V) : (c.insert k v).2.2.stored ≤ max := by
  have hplace := stored_of_perm _ [_] (place_perm hc k v)
  have hcount := len_place hc k v
  have hsetup := c.sameSetup_place k v
  have hagree' := hagree.place (Shard.kept_agrees c.hash c.shardOf T) k v
  unfold insert
  rcases hp : c.place k v with ⟨r, _ | old, c₁⟩ <;> rw [hp] at hplace hcount hsetup hagree'
  · simp only [Option.toList_none, List.length_nil, List.length_singleton] at hplace hcount
    obtain ⟨c₂, hc₂⟩ : ∃ c₂, c₂ = c₁.count fun m => { m with insert := m.insert + 1 } := ⟨_, rfl⟩
    have hrun₂ : c₂.isRunning = true := by rw [hc₂]; exact hsetup.isRunning.trans hrun
    have hmax₂ : c₂.maxEntries = some max := by rw [hc₂]; exact hsetup.shape.maxEntries.trans hmax
    have hstored₂ : c₂.stored = c.stored + 1 := by rw [hc₂]; show c₁.stored = _; omega
    have hlen₂ : c₂.len = c₂.stored := by rw [hstored₂, hc₂]; show c₁.len = _; omega
    have hagree₂ : c₂.Each fun _ s => s.Agrees c₂.hash T := by
      have hhash : c₂.hash = c.hash := by rw [hc₂]; exact hsetup.hash
      rw [hhash, hc₂]
      exact fun i s hs => (hagree' i s hs).2
    -- the one record too many is less than an insertion may give up
    have hevict := (length_evictOverflow hagree₂ hlen₂ hmax₂ (c₂.shardOf r.hash) inlineBatch).2.1
    simp only [← hc₂]
    rw [if_pos hrun₂]
    show (c₂.evictOverflow (c₂.shardOf r.hash) inlineBatch).2.stored ≤ max
    rw [hevict, inlineBatch]
    omega
  · show c₁.stored ≤ max
    simp only [Option.toList_some, List.length_singleton] at hplace
    omega

/-- **A running cache within its bound stays within it.** -/
theorem stored_perform_le {max : Nat} (hc : 0 < c.shards.size)
    (hagree : c.Each fun i s => s.Filed c.hash c.shardOf i ∧ s.Agrees c.hash T)
    (hlen : c.len = c.stored) (hmax : c.maxEntries = some max) (hrun : c.isRunning = true)
    (hle : c.stored ≤ max) (x : Call S V) : (c.perform x).2.2.stored ≤ max := by
  have hstored := stored_of_perm _ _ (perform_perm hc x)
  cases x with
  | insert k v => exact stored_insert_le hc hagree hlen hmax hrun hle k v
  | get k | contains k | remove k | clear | sweep | stop | adjust f =>
    simp only [made, List.length_nil] at hstored
    omega

end Cache
end ClusterCache
