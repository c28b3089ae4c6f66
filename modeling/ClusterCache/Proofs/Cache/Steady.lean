/-
# A cache between two calls

Between calls a cache with a bound is *steady*: its shards agree with their strategy, the count is
right, and while the cache runs it is within its bound (`Cache.Steady`).  A new cache is
(`Cache.steady_of_create`), and every call leaves it so (`Cache.Steady.perform`).

On a steady cache little is left of an eviction.  A sweep has nothing to give up
(`Cache.Steady.sweep_eq`), and an insertion gives up one record at most, the first that a round from
the shard of the new record finds (`Cache.Steady.insert_cases`).
-/

import ClusterCache.Proofs.Cache.Builder
import ClusterCache.Proofs.Cache.Call

namespace ClusterCache
namespace Cache

variable {K V : Type} [DecidableEq K] {S : Strategy K} {c c₁ c₂ : Cache S V}
  {T : S.Tracking} {max : Nat} {k : K} {v : V} {r : Record K V}

/-! ### Evictions at the bound -/

/-- At the bound or below nothing is given up. -/
theorem evictOverflow_of_le (hmax : c.maxEntries = some max) (hle : c.len ≤ max)
    (start limit : Nat) : c.evictOverflow start limit = ([], c) := by
  cases limit with
  | zero => rfl
  | succ limit =>
    have hclaim : c.claim = none := claim_eq_none_iff.2 fun max' hmax' => by
      obtain rfl : max = max' := Option.some.inj (hmax.symm.trans hmax')
      exact hle
    rw [evictOverflow, hclaim]

/-- One record above the bound, the first that a round finds is given up and no other. -/
theorem evictOverflow_of_one (hmax : c.maxEntries = some max) (hlen : c.len = max + 1)
    {start : Nat} (htake : takeFirst { c with len := max } (c.round start) = (some r, c₂))
    (limit : Nat) : c.evictOverflow start (limit + 1) = ([r], c₂) := by
  have hclaim : c.claim = some { c with len := max } :=
    claim_eq_some_iff.2 ⟨max, hmax, by omega, by rw [hlen, Int.add_sub_cancel]⟩
  have hlen₂ := len_takeFirst { c with len := max } (c.round start)
  have hmax₂ := (sameSetup_takeFirst { c with len := (max : Int) } (c.round start)).shape.maxEntries
  rw [htake] at hlen₂ hmax₂
  have hrest := evictOverflow_of_le (hmax₂.trans hmax) (Int.le_of_eq hlen₂) start limit
  have htake' : takeFirst { c with len := max } (round { c with len := max } start) =
    (some r, c₂) := htake
  rw [evictOverflow, hclaim]
  simp only [htake', hrest]

/-- One record above the bound is given up, and none if there is none. -/
theorem evictOverflow_cases (hagree : c.Each fun _ s => s.Agrees c.hash T) (hlen : c.len = c.stored)
    (hmax : c.maxEntries = some max) (hle : c.stored ≤ max + 1) (start limit : Nat) :
    (c.stored ≤ max ∧ c.evictOverflow start (limit + 1) = ([], c)) ∨
    c.stored = max + 1 ∧ ∃ r c₂, takeFirst { c with len := max } (c.round start) = (some r, c₂) ∧
      c.evictOverflow start (limit + 1) = ([r], c₂) := by
  by_cases hover : max < c.stored
  · obtain ⟨r, c₂, htake, -⟩ := takeFirst_of_claim hagree hlen
      (claim_eq_some_iff.2 ⟨max, hmax, by omega, rfl⟩) start
    rw [show c.len - 1 = max by omega] at htake
    exact Or.inr ⟨by omega, r, c₂, htake, evictOverflow_of_one hmax (by omega) htake limit⟩
  · exact Or.inl ⟨by omega, evictOverflow_of_le hmax (by omega) start (limit + 1)⟩

/-! ### Insertions -/

/-- An insertion of a key that is stored sends the old record away, and nothing else. -/
theorem insert_of_place_some {old : Record K V} (h : (c.place k v).2.1 = some old) :
    (c.insert k v).2.1 = [⟨.replace, old⟩] ∧ (c.place k v).2.2.Still (c.insert k v).2.2 := by
  unfold insert
  rcases hp : c.place k v with ⟨r, _ | old', c₁⟩ <;> rw [hp] at h
  · cases h
  · obtain rfl := Option.some.inj h
    exact ⟨rfl, rfl, rfl, rfl, rfl, rfl⟩

/-- After a record was stored under a new key, a running cache gives up what is above the bound. -/
theorem insert_of_place_none (h : (c.place k v).2.1 = none) :
    ∃ c₁, (c.place k v).2.2.Still c₁ ∧
      (c.isRunning = true →
        (c.insert k v).2.1 =
          departures .evict (c₁.evictOverflow (c₁.shardOf (c.hash k)) inlineBatch).1 ∧
        (c₁.evictOverflow (c₁.shardOf (c.hash k)) inlineBatch).2.Still (c.insert k v).2.2) ∧
      (c.isRunning = false → (c.insert k v).2.1 = [] ∧ (c.insert k v).2.2 = c₁) := by
  have hsetup := c.sameSetup_place k v
  have hrecord : (c.place k v).1.hash = c.hash k := by rw [place_fst]; rfl
  unfold insert
  rcases hp : c.place k v with ⟨r, _ | old, c₁⟩ <;> rw [hp] at h hsetup hrecord
  · obtain ⟨c₂, hc₂⟩ : ∃ c₂, c₂ = c₁.count fun m => { m with insert := m.insert + 1 } := ⟨_, rfl⟩
    have hstill : c₁.Still c₂ := by rw [hc₂]; exact ⟨rfl, rfl, rfl, rfl, rfl⟩
    have hrun₂ : c₂.isRunning = c.isRunning := (hsetup.trans hstill.sameSetup).isRunning
    refine ⟨c₂, hstill, fun hrun => ?_, fun hrun => ?_⟩
    · simp only [← hc₂]
      rw [if_pos (hrun₂.trans hrun), ← hrecord]
      exact ⟨rfl, rfl, rfl, rfl, rfl, rfl⟩
    · simp only [← hc₂]
      rw [if_neg (by rw [hrun₂, hrun]; exact Bool.false_ne_true)]
      exact ⟨rfl, rfl⟩
  · cases h

/-! ### Steady caches -/

/-- Between calls the shards agree with their strategy, the count is right, and a cache that runs is
within its bound. -/
structure Steady (T : S.Tracking) (max : Nat) (c : Cache S V) : Prop where
  size_pos : 0 < c.shards.size
  each : c.Each fun i s => s.Filed c.hash c.shardOf i ∧ s.Agrees c.hash T
  len_eq : c.len = c.stored
  maxEntries : c.maxEntries = some max
  stored_le : c.isRunning = true → c.stored ≤ max

namespace Steady

/-- **Every call leaves a cache steady.** -/
theorem perform (h : c.Steady T max) (x : Call S V) : (c.perform x).2.2.Steady T max := by
  have hshape := sameShape_perform c x
  have hbalance := perform_balance h.size_pos x
  have hlen := h.len_eq
  have heach := h.each.perform (Shard.kept_agrees c.hash c.shardOf T) x
  refine ⟨?_, ?_, ?_, ?_, fun hrun => ?_⟩
  · rw [hshape.size]
    exact h.size_pos
  · rw [hshape.hash, hshape.shardOf]
    exact heach
  · omega
  · rw [hshape.maxEntries]
    exact h.maxEntries
  · by_cases hx : x = .stop
    · subst hx
      cases hrun
    · rw [(sameSetup_perform hx).isRunning] at hrun
      exact stored_perform_le h.size_pos h.each h.len_eq h.maxEntries hrun (h.stored_le hrun) x

/-- The cache reports how many records it holds. -/
theorem size_eq (h : c.Steady T max) : c.size = c.stored := by
  rw [size, h.len_eq]
  exact Int.toNat_natCast _

/-- A sweep gives up nothing. -/
theorem sweep_eq (h : c.Steady T max) :
    c.sweep.1 = 0 ∧ c.sweep.2.1 = [] ∧ c.Still c.sweep.2.2 := by
  unfold sweep
  split
  · rename_i hrun
    have hle := h.stored_le hrun
    have hlen : c.advance.2.len ≤ max := by
      show c.len ≤ max
      rw [h.len_eq]
      omega
    have hevict := evictOverflow_of_le (c := c.advance.2) h.maxEntries hlen c.advance.1
      c.advance.2.overflow
    simp only [hevict]
    exact ⟨rfl, rfl, rfl, rfl, rfl, rfl, rfl⟩
  · exact ⟨rfl, rfl, .refl c⟩

/-- What an insertion does on a steady cache: it replaces a record; or it adds one and is within the
bound, or need not be; or it adds one record too many, and gives up the first that a round from the
shard of the new record finds. -/
inductive Insertion (c : Cache S V) (max : Nat) (k : K) (v : V) :
    List (Departure K V) → Cache S V → Prop
  | replace {old : Record K V} {c' : Cache S V} : (c.place k v).2.1 = some old →
      (c.place k v).2.2.Still c' → Insertion c max k v [⟨.replace, old⟩] c'
  | grow {c' : Cache S V} : (c.place k v).2.1 = none →
      ¬ (c.isRunning = true ∧ max < (c.place k v).2.2.stored) → (c.place k v).2.2.Still c' →
      Insertion c max k v [] c'
  | evict {c₁ c₂ c' : Cache S V} {r : Record K V} : (c.place k v).2.1 = none →
      c.isRunning = true → (c.place k v).2.2.stored = max + 1 →
      c₁.shards = (c.place k v).2.2.shards → c₁.hash = c.hash → c₁.isRunning = c.isRunning →
      c₁.takeFirst (c₁.round (c₁.shardOf (c.hash k))) = (some r, c₂) → c₂.Still c' →
      Insertion c max k v [⟨.evict, r⟩] c'

/-- Every insertion is one of these. -/
theorem insert_cases (h : c.Steady T max) (k : K) (v : V) :
    Insertion c max k v (c.insert k v).2.1 (c.insert k v).2.2 := by
  have hplace := stored_of_perm _ [_] (place_perm h.size_pos k v)
  have hcount := len_place h.size_pos k v
  have hsetup := c.sameSetup_place k v
  have heach := h.each.place (Shard.kept_agrees c.hash c.shardOf T) k v
  have hlen := h.len_eq
  cases hp : (c.place k v).2.1 with
  | some old =>
    obtain ⟨hout, hstill⟩ := insert_of_place_some hp
    rw [hout]
    exact .replace hp hstill
  | none =>
    rw [hp] at hplace hcount
    simp only [Option.toList_none, List.length_nil, List.length_singleton] at hplace hcount
    obtain ⟨c₁, hstill, hrunning, hstopped⟩ := insert_of_place_none hp
    have hstored : c₁.stored = (c.place k v).2.2.stored := by
      rw [stored, stored, hstill.shards]
    cases hrun : c.isRunning with
    | false =>
      obtain ⟨hout, hc₁⟩ := hstopped hrun
      rw [hout, hc₁]
      exact .grow hp (fun hboth => by rw [hrun] at hboth; cases hboth.1) hstill
    | true =>
      -- a cache within its bound has one record above it now, at most
      obtain ⟨hout, hrest⟩ := hrunning hrun
      have hle := h.stored_le hrun
      have hmax₁ : c₁.maxEntries = some max :=
        (hsetup.trans hstill.sameSetup).shape.maxEntries.trans h.maxEntries
      have hlen₁ := hstill.len
      have hagree₁ : c₁.Each fun _ s => s.Agrees c₁.hash T := by
        rw [hstill.hash, hsetup.hash]
        exact fun i s hs => (heach.of_still hstill i s hs).2
      rcases evictOverflow_cases hagree₁ (by omega) hmax₁ (by omega) (c₁.shardOf (c.hash k)) 7 with
        ⟨hroom, hevict⟩ | ⟨hfull, r, c₂, htake, hevict⟩
      · rw [inlineBatch, hevict] at hout hrest
        rw [hout]
        exact .grow hp (fun hboth => by omega) (hstill.trans hrest)
      · rw [inlineBatch, hevict] at hout hrest
        rw [hout]
        have hround : takeFirst { c₁ with len := max } (round { c₁ with len := (max : Int) }
          (shardOf { c₁ with len := (max : Int) } (c.hash k))) = (some r, c₂) := htake
        refine .evict hp hrun (hstored.symm.trans hfull) ?_ ?_ ?_ hround hrest
        · exact hstill.shards
        · exact hstill.hash.trans hsetup.hash
        · exact (hsetup.trans hstill.sameSetup).isRunning

end Steady

/-- The shards of a new cache are alike. -/
theorem shards_of_create {shards : Nat} {controller : Controller} {hash : K → UInt64}
    (h : create S V shards controller hash = .ok c) :
    c.shards = Array.replicate shards (.init S V (shardCapacity controller.config shards)) := by
  unfold create at h
  split at h
  · cases h
  · obtain rfl := Except.ok.inj h
    rfl

/-- **A new cache is steady.** -/
theorem steady_of_create (T : S.Tracking) {config : Config} {controller : Controller} {shards : Nat}
    {hash : K → UInt64} (hcontroller : Controller.create config = .ok controller)
    (hbounded : config.order.isBounded = true)
    (hcreate : create S V shards controller hash = .ok c) :
    c.Steady T config.maxEntries.toNat := by
  have hfresh := (create_eq_ok hcreate).1
  refine ⟨hfresh.size, hfresh.each_agrees T, ?_, create_maxEntries hcontroller hbounded hcreate,
    fun _ => ?_⟩
  · rw [hfresh.len, hfresh.stored]
    rfl
  · rw [hfresh.stored]
    exact Nat.zero_le _

end Cache
end ClusterCache
