/-
# A call left alone

Nothing happens in the indivisible steps of a call that does not happen in `Cache.perform`: a call
that is left alone comes to the end that `perform` describes (`Stage.alone_perform`), and to no other
(`Stage.alone_done_iff`).  A sweep without a limit gives up what `perform` does with the number of
records above the bound for its limit, because nobody else changes that number.
-/

import Mathlib.Logic.Relation
import ClusterCache.Proofs.Cache.Eviction
import ClusterCache.Proofs.Cache.Stage

namespace ClusterCache
namespace Stage

variable {K V : Type} [DecidableEq K] {S : Strategy K}

/-- What a call comes to when nobody else does anything. -/
def Alone : Cache S V × Stage S V → Cache S V × Stage S V → Prop :=
  Relation.ReflTransGen fun p q => q = step p.1 p.2

namespace Alone

variable {c c' : Cache S V} {t t' : Stage S V} {p q : Cache S V × Stage S V}

/-- A call that does no step stays where it is. -/
theorem refl (p : Cache S V × Stage S V) : Alone p p := Relation.ReflTransGen.refl

/-- A call may do a step first. -/
theorem head (h : Alone (step c t) q) : Alone (c, t) q := Relation.ReflTransGen.head rfl h

/-- A call may do one step. -/
theorem of_step (h : step c t = q) : Alone (c, t) q := Relation.ReflTransGen.single h.symm

/-- What every step keeps is kept. -/
theorem keeps {Q : Cache S V → Stage S V → Prop}
    (hstep : ∀ c t, Q c t → Q (step c t).1 (step c t).2) (h : Alone p q) (hp : Q p.1 p.2) :
    Q q.1 q.2 := by
  induction h with
  | refl => exact hp
  | tail _ hq ih => exact hq ▸ hstep _ _ ih

/-- Of two courses that a call takes one goes on where the other ends. -/
theorem total {r : Cache S V × Stage S V} (h : Alone p q) (h' : Alone p r) :
    Alone q r ∨ Alone r q :=
  Relation.ReflTransGen.total_of_right_unique (fun _ _ _ h h' => h.trans h'.symm) h h'

/-- A call that is over does nothing more. -/
theorem eq_of_done {answer : Answer K V} {out : List (Departure K V)}
    (h : Alone (c, .done answer out) q) : q = (c, .done answer out) :=
  h.keeps (Q := fun c' t' => (c', t') = (c, done answer out))
    (fun c' t' h => by obtain ⟨rfl, rfl⟩ := Prod.mk.inj h; rfl) rfl

/-- If no shard of a round has a victim, the eviction gives its claim back and is over. -/
theorem holding_of_none {why : Purpose K V} {start : Nat} {limit : Option Nat}
    {out : List (Record K V)} {is : List Nat} (h : c.takeFirst is = (none, c')) :
    Alone (c, holding why start limit out is) (why.finish c'.giveBack out) := by
  induction is generalizing c with
  | nil =>
    obtain rfl : c = c' := (Prod.mk.inj h).2
    exact of_step rfl
  | cons i rest ih =>
    unfold Cache.takeFirst at h
    rcases ht : c.takeFrom i with ⟨_ | r, c₁⟩ <;> rw [ht] at h
    · have hnone : (c.takeFrom i).1 = none := congrArg Prod.fst ht
      refine head ?_
      rw [step_holding_of_none hnone, ht]
      exact ih h
    · cases h

/-- If some shard of a round has a victim, the eviction takes it out and goes on with its next
claim. -/
theorem holding_of_some {why : Purpose K V} {start : Nat} {limit : Option Nat}
    {out : List (Record K V)} {is : List Nat} {r : Record K V} (h : c.takeFirst is = (some r, c')) :
    Alone (c, holding why start limit out is)
      (c', seeking why start (limit.map (· - 1)) (r :: out)) := by
  induction is generalizing c with
  | nil => cases h
  | cons i rest ih =>
    unfold Cache.takeFirst at h
    rcases ht : c.takeFrom i with ⟨_ | r', c₁⟩ <;> rw [ht] at h
    · have hnone : (c.takeFrom i).1 = none := congrArg Prod.fst ht
      refine head ?_
      rw [step_holding_of_none hnone, ht]
      exact ih h
    · obtain ⟨hr, rfl⟩ := Prod.mk.inj h
      obtain rfl := Option.some.inj hr
      have hsome : (c.takeFrom i).1 = some r' := congrArg Prod.fst ht
      refine of_step ?_
      rw [step_holding_of_some hsome, ht]

/-- A search ends as the eviction does that may give up as many records as the search: `n` of them,
or all that are above the bound. -/
theorem seeking_finish (why : Purpose K V) (start : Nat) (out : List (Record K V)) {n : Nat}
    {limit : Option Nat} (hn : limit = some n ∨ limit = none ∧ c.overflow = n) :
    Alone (c, seeking why start limit out) (why.finish (c.evictOverflow start n).2
      ((c.evictOverflow start n).1.reverse ++ out)) := by
  induction n generalizing c limit out with
  | zero =>
    refine of_step ?_
    rcases hn with rfl | ⟨rfl, hover⟩
    · rfl
    · have hclaim : c.claim = none := Cache.claim_eq_none_iff.2 fun max hmax => by
        simp only [Cache.overflow, hmax] at hover
        omega
      simp [step, hclaim, Cache.evictOverflow]
  | succ n ih =>
    have hlimit : limit ≠ some 0 := by
      rcases hn with rfl | ⟨rfl, -⟩
      · exact fun h => by cases h
      · exact fun h => by cases h
    unfold Cache.evictOverflow
    cases hclaim : c.claim with
    | none =>
      refine of_step ?_
      simp [step, hclaim, hlimit]
    | some c₁ =>
      refine head ?_
      simp only [step, hclaim, hlimit, if_false]
      have hcount := c₁.len_takeFirst (c₁.round start)
      have hsetup := (Cache.sameSetup_claim hclaim).trans (c₁.sameSetup_takeFirst (c₁.round start))
      rcases ht : c₁.takeFirst (c₁.round start) with ⟨_ | r, c₂⟩ <;> rw [ht] at hcount hsetup
      · exact holding_of_none ht
      · have hn' : limit.map (· - 1) = some n ∨ limit.map (· - 1) = none ∧ c₂.overflow = n := by
          rcases hn with rfl | ⟨rfl, hover⟩
          · exact Or.inl rfl
          · obtain ⟨max, hmax, hlt, rfl⟩ := Cache.claim_eq_some_iff.1 hclaim
            have hmax₂ : c₂.maxEntries = some max := hsetup.shape.maxEntries.trans hmax
            have hlen₂ : c₂.len = c.len - 1 := hcount
            simp only [Cache.overflow, hmax] at hover
            refine Or.inr ⟨rfl, ?_⟩
            simp only [Cache.overflow, hmax₂]
            omega
        have hrest := ih (r :: out) hn'
        simp only [List.reverse_cons, List.append_assoc, List.singleton_append]
        exact (holding_of_some ht).trans hrest

/-- Alone, a call that clears the cache goes through the shards and tells what it took out. -/
theorem clearing_done {out : List (Record K V)} {is : List Nat} :
    Alone (c, clearing out is) ((c.clearShards out is).2,
      .done .done (Cache.departures .clear (c.clearShards out is).1)) := by
  induction is generalizing c out with
  | nil => exact of_step rfl
  | cons i rest ih => exact head ih

end Alone

/-- **A call that is left alone comes to the end that `perform` describes.** -/
theorem alone_perform (c : Cache S V) (x : Call S V) :
    Alone (c, asked x) ((c.perform x).2.2, .done (c.perform x).1 (c.perform x).2.1) := by
  cases x with
  | insert k v =>
    refine .head ?_
    unfold Cache.perform Cache.insert
    rcases hp : c.place k v with ⟨r, _ | old, c₁⟩
    · simp only [step, hp]
      refine .head ?_
      simp only [step]
      split
      · have h := Alone.seeking_finish (c := c₁.count fun m => { m with insert := m.insert + 1 })
          (.insertion r) (c₁.shardOf r.hash) [] (Or.inl (Eq.refl (some Cache.inlineBatch)))
        simp only [Purpose.finish, List.append_nil, List.reverse_reverse, List.length_reverse] at h
        exact h
      · exact .refl _
    · simp only [step, hp]
      exact .refl _
  | get k | contains k | remove k | stop | adjust f => exact .of_step rfl
  | clear => exact .head Alone.clearing_done
  | sweep =>
    refine .head ?_
    unfold Cache.perform Cache.sweep
    simp only [step]
    split
    · refine .head ?_
      have h := Alone.seeking_finish (c := c.advance.2) .sweep c.advance.1 [] (Or.inr ⟨rfl, rfl⟩)
      simp only [Purpose.finish, List.append_nil, List.reverse_reverse, List.length_reverse] at h
      exact h
    · exact .refl _

/-- **And it comes to no other end.** -/
theorem alone_done_iff {c c' : Cache S V} {x : Call S V} {answer : Answer K V}
    {out : List (Departure K V)} :
    Alone (c, asked x) (c', .done answer out) ↔ c.perform x = (answer, out, c') := by
  constructor
  · intro h
    rcases h.total (alone_perform c x) with h | h
    · obtain ⟨rfl, hdone⟩ := Prod.mk.inj h.eq_of_done
      obtain ⟨rfl, rfl⟩ := Stage.done.inj hdone
      rfl
    · obtain ⟨rfl, hdone⟩ := Prod.mk.inj h.eq_of_done
      obtain ⟨rfl, rfl⟩ := Stage.done.inj hdone
      rfl
  · intro h
    have halone := alone_perform c x
    rwa [h] at halone

end Stage
end ClusterCache
