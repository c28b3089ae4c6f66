/-
# Calls that overlap

Any number of threads make calls on one cache.  A thread that has no call under way may begin any call
that is allowed; otherwise it does the next indivisible step of its call (`Stage.step`).  Whose turn
it is, is left open, so every interleaving is a course of the traffic (`Traffic.Reachable`).

Three things are true in all of them.  The number of records is `len` and the claims under way
together, since no step changes the difference (`Traffic.Reachable.stored_eq`).  If no call takes out
records but for the bound, a claim is only ever under way while `len` is at the bound or above
(`Traffic.Reachable.bound_le_len`), because a claim is made above the bound and no other step lowers
`len`; so the record that it is for is above the bound too.  And when all is quiet, no claim is under
way, `len` is right, and a sweep finds as many records as it claims.
-/

import ClusterCache.Proofs.Cache.Builder
import ClusterCache.Proofs.Cache.Call

namespace ClusterCache

/-- A cache, and how far each of its threads has come with its call. -/
structure Traffic {K : Type} [DecidableEq K] (S : Strategy K) (V : Type) where
  cache : Cache S V
  threads : List (Stage S V)

namespace Traffic

variable {K V : Type} [DecidableEq K] {S : Strategy K} {P : Call S V → Prop}
  {c₀ : Cache S V} {w w' : Traffic S V}

/-- The number of claims under way. -/
def claims (w : Traffic S V) : Nat := total Stage.claims w.threads

/-- No call is under way. -/
def Quiet (w : Traffic S V) : Prop := ∀ t ∈ w.threads, ∃ answer out, t = .done answer out

/-- One thread goes on; `P` tells which calls may be begun. -/
inductive Step (P : Call S V → Prop) : Traffic S V → Traffic S V → Prop
  /-- A thread without a call under way begins one. -/
  | ask (before : List (Stage S V)) {after : List (Stage S V)} {c : Cache S V} {answer : Answer K V}
      {out : List (Departure K V)} {x : Call S V} : P x →
      Step P ⟨c, before ++ .done answer out :: after⟩ ⟨c, before ++ .asked x :: after⟩
  /-- A thread does the next indivisible step of its call. -/
  | move (before : List (Stage S V)) {after : List (Stage S V)} {c : Cache S V} {t : Stage S V} :
      Step P ⟨c, before ++ t :: after⟩ ⟨(t.step c).1, before ++ (t.step c).2 :: after⟩

/-- What any number of threads can bring about. -/
inductive Reachable (P : Call S V → Prop) (c₀ : Cache S V) : Traffic S V → Prop
  | start (n : Nat) : Reachable P c₀ ⟨c₀, List.replicate n (.done .done [])⟩
  | next {w w' : Traffic S V} : Reachable P c₀ w → Step P w w' → Reachable P c₀ w'

/-- A summand in the middle can be taken out of a sum. -/
theorem total_middle {α : Type} (f : α → Nat) (before after : List α) (a : α) :
    total f (before ++ a :: after) = total f before + f a + total f after := by
  induction before with
  | nil => simp
  | cons b before ih => rw [List.cons_append, total_cons, total_cons, ih]; omega

/-- When no call is under way no claim is held. -/
theorem claims_of_quiet (h : w.Quiet) : w.claims = 0 := by
  obtain ⟨c, threads⟩ := w
  show total Stage.claims threads = 0
  induction threads with
  | nil => rfl
  | cons t rest ih =>
    obtain ⟨answer, out, rfl⟩ := h t (List.mem_cons_self ..)
    have hrest : total Stage.claims rest = 0 := ih fun t ht => h t (List.mem_cons_of_mem _ ht)
    rw [total_cons, hrest]
    rfl

/-- Before the first call no claim is held. -/
theorem claims_start (c₀ : Cache S V) (n : Nat) :
    claims ⟨c₀, List.replicate n (.done .done [])⟩ = 0 :=
  claims_of_quiet fun _ ht => ⟨_, _, List.eq_of_mem_replicate ht⟩

namespace Reachable

/-! ### What every step keeps -/

/-- Whatever the threads did, the cache has the shape that it was made with. -/
theorem sameShape (h : Reachable P c₀ w) : Cache.SameShape c₀ w.cache := by
  induction h with
  | start n => exact .refl c₀
  | next _ hstep ih =>
    cases hstep with
    | ask => exact ih
    | move => exact ih.trans (Stage.step_moves _ _).sameShape

/-- Whatever the threads did, the cache has a shard. -/
theorem size_pos (hc₀ : c₀.Fresh) (h : Reachable P c₀ w) : 0 < w.cache.shards.size :=
  h.sameShape.size.symm ▸ hc₀.size

/-- What every operation on a shard keeps holds whatever the threads did, if it held in the
beginning. -/
theorem each {Q : Nat → Shard S V → Prop} (hk : c₀.Kept Q) (h₀ : c₀.Each Q)
    (h : Reachable P c₀ w) : w.cache.Each Q := by
  induction h with
  | start n => exact h₀
  | next hw hstep ih =>
    cases hstep with
    | ask => exact ih
    | move => exact (Stage.step_moves _ _).each (hw.sameShape.kept.2 hk) ih

/-- **Records are counted, or there is a claim for them.** -/
theorem stored_eq (hc₀ : c₀.Fresh) (h : Reachable P c₀ w) :
    (w.cache.stored : Int) = w.cache.len + w.claims := by
  induction h with
  | start n =>
    rw [claims_start]
    show (c₀.stored : Int) = c₀.len + 0
    rw [hc₀.stored, hc₀.len]
    rfl
  | next hw hstep ih =>
    cases hstep with
    | ask =>
      simp only [claims, total_middle] at ih ⊢
      exact ih
    | @move before after c t =>
      have hsize : 0 < c.shards.size := hw.size_pos hc₀
      have hbalance := (Stage.step_moves c t).balance hsize
      simp only [claims, total_middle] at ih ⊢
      omega

/-! ### Only the bound takes records -/

/-- Nobody takes out records but for the bound. -/
theorem not_sheds (hP : ∀ x, P x → x ≠ .clear ∧ ∀ k, x ≠ .remove k) (h : Reachable P c₀ w) :
    ∀ t ∈ w.threads, ¬ t.Sheds := by
  induction h with
  | start n => exact fun t ht => List.eq_of_mem_replicate ht ▸ id
  | next hw hstep ih =>
    cases hstep with
    | @ask before after c answer out x hx =>
      intro t ht
      rcases List.mem_append.1 ht with ht | ht
      · exact ih t (List.mem_append_left _ ht)
      rcases List.mem_cons.1 ht with rfl | ht
      · cases x with
        | remove k => exact absurd rfl ((hP _ hx).2 k)
        | clear => exact absurd rfl (hP _ hx).1
        | insert | get | contains | sweep | stop | adjust => exact id
      · exact ih t (List.mem_append_right _ (List.mem_cons_of_mem _ ht))
    | @move before after c t =>
      intro t' ht
      rcases List.mem_append.1 ht with ht | ht
      · exact ih t' (List.mem_append_left _ ht)
      rcases List.mem_cons.1 ht with rfl | ht
      · have hbefore : ¬ t.Sheds := ih t (List.mem_append_right _ (List.mem_cons_self ..))
        exact mt Stage.Sheds.of_step hbefore
      · exact ih t' (List.mem_append_right _ (List.mem_cons_of_mem _ ht))

/-- **While a claim is under way, the count is at the bound or above.** -/
theorem bound_le_len {max : Nat} (hc₀ : c₀.Fresh) (hmax : c₀.maxEntries = some max)
    (hP : ∀ x, P x → x ≠ .clear ∧ ∀ k, x ≠ .remove k) (h : Reachable P c₀ w)
    (hclaims : 0 < w.claims) : (max : Int) ≤ w.cache.len := by
  induction h with
  | start n =>
    rw [claims_start] at hclaims
    cases hclaims
  | next hw hstep ih =>
    cases hstep with
    | ask =>
      refine ih ?_
      simp only [claims, total_middle] at hclaims ⊢
      exact hclaims
    | @move before after c t =>
      have hmax' : c.maxEntries = some max := hw.sameShape.maxEntries.trans hmax
      have hmoves := Stage.step_moves c t
      have hsheds := not_sheds hP hw t (List.mem_append_right _ (List.mem_cons_self ..))
      have hlen := hmoves.len_le (hw.size_pos hc₀) hmax' hsheds
      have hmine := hmoves.claims_of_claims hmax'
      simp only [claims, total_middle] at hclaims ih
      -- the claim is this thread's, from before or from now, or another's, from before
      by_cases hbefore : 0 < total Stage.claims before + t.claims + total Stage.claims after
      · have hle := ih hbefore
        show (max : Int) ≤ (t.step c).1.len
        rcases hlen with hlen | hlen
        · exact Int.le_trans hle hlen
        · exact hlen
      · rcases hmine (by omega) with h | h
        · omega
        · exact h

end Reachable

/-- **Overlapping calls keep the accounts.**  Whatever calls any number of threads make on a new cache
with a bound, and in whatever order they do their indivisible steps:

1. the records are those counted in `len` and one for each claim under way;
2. if nobody takes out records but for the bound, no step lowers the number of records below it;
3. when all is quiet, `len` is right, and a sweep leaves as many records as the bound allows, if the
cache still runs. -/
theorem reachable_accounts [Hashable K] (B : Bounding K S) {config : Config}
    {controller : Controller} {shards : Nat} {hash : K → UInt64}
    (hcontroller : Controller.create config = .ok controller)
    (hbounded : config.order.isBounded = true)
    (hcreate : Cache.create S V shards controller hash = .ok c₀) (h : Reachable P c₀ w) :
    (w.cache.stored : Int) = w.cache.len + w.claims ∧
    ((∀ x, P x → x ≠ .clear ∧ ∀ k, x ≠ .remove k) → ∀ w', Step P w w' →
      w'.cache.stored < w.cache.stored → config.maxEntries.toNat ≤ w'.cache.stored) ∧
    (w.Quiet → w.cache.len = w.cache.stored ∧ (w.cache.isRunning = true →
      Stage.Alone (w.cache, .asked .sweep)
        (w.cache.sweep.2.2, .done (.count w.cache.sweep.1) w.cache.sweep.2.1) ∧
      w.cache.sweep.2.2.stored = min w.cache.stored config.maxEntries.toNat)) := by
  have hfresh := (Cache.create_eq_ok hcreate).1
  have hmax := Cache.create_maxEntries hcontroller hbounded hcreate
  have hstored := h.stored_eq hfresh
  refine ⟨hstored, ?_, ?_⟩
  · intro hP w' hstep hlt
    cases hstep with
    | ask => exact absurd hlt (Nat.lt_irrefl _)
    | @move before after c t =>
      have hsize : 0 < c.shards.size := h.size_pos hfresh
      have hsheds := h.not_sheds hP t (List.mem_append_right _ (List.mem_cons_self ..))
      have hle := (Stage.step_moves c t).stored_le hsize hsheds
      have hclaims := h.bound_le_len hfresh hmax hP
      simp only [claims, total_middle] at hstored hclaims hlt ⊢
      have hbound := hclaims (by omega)
      omega
  · intro hquiet
    rw [claims_of_quiet hquiet] at hstored
    have hlen : w.cache.len = w.cache.stored := by omega
    refine ⟨hlen, fun hrun => ⟨Stage.alone_perform w.cache .sweep, ?_⟩⟩
    have hagree := h.each (Shard.kept_agrees c₀.hash c₀.shardOf B.tracking)
      (hfresh.each_agrees B.tracking)
    have hbound := h.sameShape.maxEntries.trans hmax
    rw [← h.sameShape.hash] at hagree
    exact (Cache.stored_sweep (fun i s hs => (hagree i s hs).2) hlen hbound hrun).1

/-- Two threads store a record each in a cache for one record, and the first of them has claimed one:
two records are stored and one is counted.  At the start all is quiet. -/
theorem reachable_accounts_two_insertions :
    ∃ w : Traffic (.lru Nat) Nat,
      Reachable (fun x => x ≠ .clear ∧ ∀ k, x ≠ .remove k) .forOne w ∧ w.claims = 1 ∧
      (w.cache.stored : Int) = w.cache.len + w.claims ∧
      (∀ w', Step (fun x => x ≠ .clear ∧ ∀ k, x ≠ .remove k) w w' →
        w'.cache.stored < w.cache.stored → 1 ≤ w'.cache.stored) ∧
      Cache.forOne.len = Cache.forOne.stored ∧
      Cache.forOne.sweep.2.2.stored = min Cache.forOne.stored 1 := by
  have hinsert : ∀ k v, (.insert k v : Call (.lru Nat) Nat) ≠ .clear ∧
      ∀ k', (.insert k v : Call (.lru Nat) Nat) ≠ .remove k' :=
    fun _ _ => ⟨fun h => (by cases h), fun _ h => (by cases h)⟩
  have hreach : Reachable (fun x => x ≠ .clear ∧ ∀ k, x ≠ .remove k) Cache.forOne _ :=
    .next (.next (.next (.next (.next (.next (.start 2) (.ask [] (hinsert 1 10)))
      (.ask [_] (hinsert 2 20))) (.move [])) (.move [_])) (.move [])) (.move [])
  have h := reachable_accounts .lru Cache.controller_forOne rfl Cache.create_forOne hreach
  have hstart := (reachable_accounts .lru Cache.controller_forOne rfl Cache.create_forOne
    (.start 0 : Reachable (fun _ => True) Cache.forOne _)).2.2 fun t ht => by cases ht
  exact ⟨_, hreach, by decide +kernel, h.1, h.2.1 fun _ => id, hstart.1, (hstart.2 rfl).2⟩

end Traffic
end ClusterCache
