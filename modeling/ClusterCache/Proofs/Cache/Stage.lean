/-
# A call, one indivisible step at a time

`Cache.perform` makes a call as a whole.  Between two indivisible steps of a call, though, calls of
others may do theirs.  A `Stage` says how far a call has come, and `Stage.step` does its next
indivisible step: it changes one shard together with `len`, or `len` alone, or neither.  A sweep has
no limit here; it goes on as long as it can claim.

What a step can do is listed once (`Stage.Moves`).  From the list follows what every step keeps,
whoever does it: the records of the cache together with those that the call has taken
(`Stage.Moves.perm`), the properties that every operation of a shard keeps (`Stage.Moves.each`), and
the number of records less `len` and the claims under way (`Stage.Moves.balance`).
-/

import ClusterCache.Proofs.Cache.Step

namespace ClusterCache

/-- What victims are sought for. -/
inductive Purpose (K V : Type) where
  /-- A record was stored under a new key. -/
  | insertion (r : Record K V)
  | sweep

/-- How far a call has come. -/
inductive Stage {K : Type} (S : Strategy K) (V : Type) where
  /-- Nothing is done yet. -/
  | asked (x : Call S V)
  /-- A record was stored under a new key. -/
  | grown (r : Record K V)
  /-- A sweep has found the cache running. -/
  | sweeping
  /-- A claim is to be made, unless `limit` is used up; `out` were given up, the last one in
  front. -/
  | seeking (why : Purpose K V) (start : Nat) (limit : Option Nat) (out : List (Record K V))
  /-- A claim is made, and the shards `rest` are still to be asked for a record. -/
  | holding (why : Purpose K V) (start : Nat) (limit : Option Nat) (out : List (Record K V))
    (rest : List Nat)
  /-- The shards `rest` are still to be emptied; `out` were taken, the last one in front. -/
  | clearing (out : List (Record K V)) (rest : List Nat)
  /-- The cache will not be changed any more. -/
  | done (answer : Answer K V) (out : List (Departure K V))

namespace Purpose

variable {K V : Type} [DecidableEq K] {S : Strategy K}

/-- The end of a search for victims. -/
def finish (c : Cache S V) (out : List (Record K V)) : Purpose K V → Cache S V × Stage S V
  | insertion r => (c.count fun m => { m with evict := m.evict + out.length },
    .done (.stored r) (Cache.departures .evict out.reverse))
  | sweep => (c.count fun m => { m with sweep := m.sweep + 1, evict := m.evict + out.length },
    .done (.count out.length) (Cache.departures .evict out.reverse))

end Purpose

namespace Stage

variable {K V : Type} [DecidableEq K] {S : Strategy K}

/-- The next indivisible step of a call. -/
def step (c : Cache S V) : Stage S V → Cache S V × Stage S V
  | asked (.insert k v) =>
    match c.place k v with
    | (r, some old, c) => (c.count fun m => { m with replace := m.replace + 1 },
      done (.stored r) (Cache.departures .replace [old]))
    | (r, none, c) => (c, grown r)
  | asked .clear => (c, clearing [] (List.range c.shards.size))
  | asked .sweep => if c.isRunning then (c, sweeping) else (c, done (.count 0) [])
  | asked x => ((c.perform x).2.2, done (c.perform x).1 (c.perform x).2.1)
  | grown r =>
    let c := c.count fun m => { m with insert := m.insert + 1 }
    if c.isRunning then
      (c, seeking (.insertion r) (c.shardOf r.hash) (some Cache.inlineBatch) [])
    else (c, done (.stored r) [])
  | sweeping => (c.advance.2, seeking .sweep c.advance.1 none [])
  | seeking why start limit out =>
    if limit = some 0 then why.finish c out
    else match c.claim with
      | none => why.finish c out
      | some c => (c, holding why start limit out (c.round start))
  | holding why _ _ out [] => why.finish c.giveBack out
  | holding why start limit out (i :: rest) =>
    match c.takeFrom i with
    | (some r, c) => (c, seeking why start (limit.map (· - 1)) (r :: out))
    | (none, c) => (c, holding why start limit out rest)
  | clearing out [] => (c, done .done (Cache.departures .clear out.reverse))
  | clearing out (i :: rest) =>
    ((c.clearShard i).2, clearing ((c.clearShard i).1.reverse ++ out) rest)
  | done answer out => (c, done answer out)

/-! ### What a step can do -/

/-- How many claims a call has under way. -/
def claims : Stage S V → Nat
  | holding .. => 1
  | _ => 0

/-- The records that a call has taken out, the last one in front. -/
def taken : Stage S V → List (Record K V)
  | seeking _ _ _ out | holding _ _ _ out _ | clearing out _ => out
  | done _ out => (out.map Departure.record).reverse
  | _ => []

/-- The record that the next step makes. -/
def made (c : Cache S V) : Stage S V → List (Record K V)
  | asked x => c.made x
  | _ => []

/-- The effects that a step can have.  Where counters change along with the rest, the change is left
open. -/
inductive Moves (c : Cache S V) : Stage S V → Cache S V → Stage S V → Prop
  | still {t t' : Stage S V} {c' : Cache S V} : c.Still c' → t'.claims = t.claims →
      t'.taken = t.taken → t.made c = [] → Moves c t c' t'
  | place {k : K} {v : V} {c' : Cache S V} {t' : Stage S V} : (c.place k v).2.2.Still c' →
      t'.claims = 0 → t'.taken = (c.place k v).2.1.toList → Moves c (asked (.insert k v)) c' t'
  | lookup {k : K} {c' : Cache S V} {t' : Stage S V} : (c.lookup k).2.Still c' →
      t'.claims = 0 → t'.taken = [] → Moves c (asked (.get k)) c' t'
  | detach {k : K} {c' : Cache S V} {t' : Stage S V} : (c.detach k).2.Still c' →
      t'.claims = 0 → t'.taken = (c.detach k).1.toList → Moves c (asked (.remove k)) c' t'
  | empty {out : List (Record K V)} {i : Nat} {rest : List Nat} :
      Moves c (clearing out (i :: rest)) (c.clearShard i).2
        (clearing ((c.clearShard i).1.reverse ++ out) rest)
  | claim {why : Purpose K V} {start : Nat} {limit : Option Nat} {out : List (Record K V)}
      {c' : Cache S V} : c.claim = some c' →
      Moves c (seeking why start limit out) c' (holding why start limit out (c'.round start))
  | take {why : Purpose K V} {start : Nat} {limit : Option Nat} {out : List (Record K V)} {i : Nat}
      {rest : List Nat} {r : Record K V} : (c.takeFrom i).1 = some r →
      Moves c (holding why start limit out (i :: rest)) (c.takeFrom i).2
        (seeking why start (limit.map (· - 1)) (r :: out))
  | miss {why : Purpose K V} {start : Nat} {limit : Option Nat} {out : List (Record K V)} {i : Nat}
      {rest : List Nat} : (c.takeFrom i).1 = none →
      Moves c (holding why start limit out (i :: rest)) (c.takeFrom i).2
        (holding why start limit out rest)
  | giveBack {why : Purpose K V} {start : Nat} {limit : Option Nat} {out : List (Record K V)}
      {c' : Cache S V} {t' : Stage S V} : c.giveBack.Still c' → t'.claims = 0 → t'.taken = out →
      Moves c (holding why start limit out []) c' t'
  | stop : Moves c (asked .stop) c.stop (done .done [])

/-- The end of a search changes counters alone. -/
theorem finish_spec (why : Purpose K V) (c : Cache S V) (out : List (Record K V)) :
    c.Still (why.finish c out).1 ∧ (why.finish c out).2.claims = 0 ∧
      (why.finish c out).2.taken = out := by
  have htaken : ((Cache.departures .evict out.reverse).map Departure.record).reverse = out := by
    simp [Cache.departures, Function.comp_def]
  cases why with
  | insertion r => exact ⟨⟨rfl, rfl, rfl, rfl, rfl⟩, rfl, htaken⟩
  | sweep => exact ⟨⟨rfl, rfl, rfl, rfl, rfl⟩, rfl, htaken⟩

/-- A shard without a victim is left, and the round goes on. -/
theorem step_holding_of_none {c : Cache S V} {why : Purpose K V} {start : Nat} {limit : Option Nat}
    {out : List (Record K V)} {i : Nat} {rest : List Nat} (h : (c.takeFrom i).1 = none) :
    step c (holding why start limit out (i :: rest)) =
      ((c.takeFrom i).2, holding why start limit out rest) := by
  rcases ht : c.takeFrom i with ⟨_ | r, c'⟩ <;> rw [ht] at h
  · simp only [step, ht]
  · cases h

/-- A victim ends the round, and the eviction seeks its next claim. -/
theorem step_holding_of_some {c : Cache S V} {why : Purpose K V} {start : Nat} {limit : Option Nat}
    {out : List (Record K V)} {i : Nat} {rest : List Nat} {r : Record K V}
    (h : (c.takeFrom i).1 = some r) :
    step c (holding why start limit out (i :: rest)) =
      ((c.takeFrom i).2, seeking why start (limit.map (· - 1)) (r :: out)) := by
  rcases ht : c.takeFrom i with ⟨_ | r', c'⟩ <;> rw [ht] at h
  · cases h
  · obtain rfl := Option.some.inj h
    simp only [step, ht]

/-- **A step has one of the effects listed.** -/
theorem step_moves (c : Cache S V) (t : Stage S V) : Moves c t (step c t).1 (step c t).2 := by
  cases t with
  | asked x =>
    cases x with
    | insert k v =>
      rcases hp : c.place k v with ⟨r, _ | old, c'⟩ <;> simp only [step, hp]
      · exact .place (by rw [hp]; exact .refl c') rfl (by rw [hp]; rfl)
      · exact .place (by rw [hp]; exact ⟨rfl, rfl, rfl, rfl, rfl⟩) rfl (by rw [hp]; rfl)
    | get k =>
      refine .lookup ?_ rfl rfl
      show Cache.Still _ (c.get k).2
      unfold Cache.get
      rcases c.lookup k with ⟨_ | r, c'⟩ <;> exact ⟨rfl, rfl, rfl, rfl, rfl⟩
    | contains k => exact .still (.refl c) rfl rfl rfl
    | remove k =>
      refine .detach ?_ rfl ?_
      · show Cache.Still _ (c.remove k).2.2
        unfold Cache.remove
        rcases c.detach k with ⟨_ | r, c'⟩
        · exact .refl c'
        · exact ⟨rfl, rfl, rfl, rfl, rfl⟩
      · show ((c.remove k).2.1.map Departure.record).reverse = _
        unfold Cache.remove
        rcases c.detach k with ⟨_ | r, c'⟩ <;> rfl
    | clear => exact .still (.refl c) rfl rfl rfl
    | sweep =>
      simp only [step]
      split
      · exact .still (.refl c) rfl rfl rfl
      · exact .still (.refl c) rfl rfl rfl
    | stop => exact .stop
    | adjust f => exact .still ⟨rfl, rfl, rfl, rfl, rfl⟩ rfl rfl rfl
  | grown r =>
    simp only [step]
    split
    · exact .still ⟨rfl, rfl, rfl, rfl, rfl⟩ rfl rfl rfl
    · exact .still ⟨rfl, rfl, rfl, rfl, rfl⟩ rfl rfl rfl
  | sweeping => exact .still ⟨rfl, rfl, rfl, rfl, rfl⟩ rfl rfl rfl
  | seeking why start limit out =>
    obtain ⟨hstill, hclaims, htaken⟩ := finish_spec why c out
    simp only [step]
    split
    · exact .still hstill hclaims htaken rfl
    · cases hclaim : c.claim with
      | none => exact .still hstill hclaims htaken rfl
      | some c' => exact .claim hclaim
  | holding why start limit out rest =>
    cases rest with
    | nil =>
      obtain ⟨hstill, hclaims, htaken⟩ := finish_spec why c.giveBack out
      exact .giveBack hstill hclaims htaken
    | cons i rest =>
      cases ht : (c.takeFrom i).1 with
      | none =>
        rw [step_holding_of_none ht]
        exact .miss ht
      | some r =>
        rw [step_holding_of_some ht]
        exact .take ht
  | clearing out rest =>
    cases rest with
    | nil =>
      refine .still (.refl c) rfl ?_ rfl
      simp [step, taken, Cache.departures, Function.comp_def]
    | cons i rest => exact .empty
  | done answer out => exact .still (.refl c) rfl rfl rfl

/-- No call begins by ending another. -/
theorem finish_ne_asked (why : Purpose K V) (c : Cache S V) (out : List (Record K V))
    (x : Call S V) : (why.finish c out).2 ≠ asked x := by
  intro h
  cases why <;> cases h

/-- No step leads back to the beginning. -/
theorem step_ne_asked (c : Cache S V) (t : Stage S V) (x : Call S V) : (step c t).2 ≠ asked x := by
  intro h
  unfold step at h
  split at h
  · split at h <;> cases h
  · cases h
  · split at h <;> cases h
  · cases h
  · simp only at h
    split at h <;> cases h
  · cases h
  · split at h
    · exact finish_ne_asked _ _ _ x h
    · split at h
      · exact finish_ne_asked _ _ _ x h
      · cases h
  · exact finish_ne_asked _ _ _ x h
  · split at h <;> cases h
  · cases h
  · cases h
  · cases h

/-- Only the first step makes a record. -/
theorem made_step (c c' : Cache S V) (t : Stage S V) : (step c t).2.made c' = [] := by
  have hne := step_ne_asked c t
  rcases ht : (step c t).2 with x | _ | _ | _ | _ | _ | _
  · exact absurd ht (hne x)
  all_goals rfl

/-- The stages of calls that take out records although there may be none above the bound. -/
def Sheds : Stage S V → Prop
  | asked (.remove _) | asked .clear | clearing .. => True
  | _ => False

omit [DecidableEq K] in
/-- Who holds a claim does not take out records without one. -/
theorem not_sheds_of_claims {t : Stage S V} (h : 0 < t.claims) : ¬ t.Sheds := by
  cases t with
  | holding => exact id
  | asked | grown | sweeping | seeking | clearing | done => cases h

/-- Whoever comes to take out records that way set out to. -/
theorem Sheds.of_step {c : Cache S V} {t : Stage S V} (h : (step c t).2.Sheds) : t.Sheds := by
  have hfinish : ∀ why (c : Cache S V) (out : List (Record K V)),
      ¬ (Purpose.finish c out why).2.Sheds := fun why _ _ => by cases why <;> exact id
  unfold step at h
  split at h
  · split at h <;> exact h.elim
  · trivial
  · split at h <;> exact h.elim
  · exact h.elim
  · simp only at h
    split at h <;> exact h.elim
  · exact h.elim
  · split at h
    · exact absurd h (hfinish _ _ _)
    · split at h
      · exact absurd h (hfinish _ _ _)
      · exact h.elim
  · exact absurd h (hfinish _ _ _)
  · split at h <;> exact h.elim
  · exact h.elim
  · trivial
  · exact h.elim

namespace Moves

variable {c c' : Cache S V} {t t' : Stage S V}

/-- Records are made, move from the cache to the call, and that is all. -/
theorem perm (hc : 0 < c.shards.size) (h : Moves c t c' t') :
    (t'.taken ++ c'.records).Perm (t.made c ++ (t.taken ++ c.records)) := by
  cases h with
  | still hs _ htaken hmade =>
    rw [htaken, hmade, hs.records]
    exact List.Perm.refl _
  | place hs _ htaken =>
    rw [htaken, hs.records]
    exact Cache.place_perm hc _ _
  | lookup hs _ htaken =>
    rw [htaken, hs.records]
    exact c.lookup_perm _
  | detach hs _ htaken =>
    rw [htaken, hs.records]
    exact c.detach_perm _
  | @empty out i rest =>
    -- the records of the shard were put in front of those taken before, the last one first
    have hshard : ((c.clearShard i).1.reverse ++ (c.clearShard i).2.records).Perm c.records :=
      ((List.reverse_perm _).append_right _).trans (c.clearShard_perm i)
    show ((c.clearShard i).1.reverse ++ out ++ (c.clearShard i).2.records).Perm (out ++ c.records)
    rw [List.append_assoc]
    exact (List.perm_append_comm_assoc ..).trans (hshard.append_left out)
  | claim hclaim =>
    obtain ⟨max, -, -, rfl⟩ := Cache.claim_eq_some_iff.1 hclaim
    exact List.Perm.refl _
  | @take why start limit out i rest r htake =>
    have hperm := c.takeFrom_perm i
    rw [htake] at hperm
    exact List.perm_middle.symm.trans (hperm.append_left out)
  | @miss why start limit out i rest htake =>
    have hperm := c.takeFrom_perm i
    rw [htake] at hperm
    exact hperm.append_left out
  | giveBack hs _ htaken =>
    rw [htaken, hs.records]
    exact List.Perm.refl _
  | stop => exact List.Perm.refl _

/-- The count goes up with each record made and down with each record taken, but with the claim for
it rather than with the record where there is one. -/
theorem len (hc : 0 < c.shards.size) (h : Moves c t c' t') :
    c'.len + t'.claims + t'.taken.length = c.len + t.claims + t.taken.length + (t.made c).length := by
  cases h with
  | still hs hclaims htaken hmade =>
    rw [htaken, hmade, hclaims, hs.len, List.length_nil]
    omega
  | @place k v c' t' hs hclaims htaken =>
    have hlen := Cache.len_place hc k v
    rw [htaken, hclaims, hs.len, hlen]
    simp only [claims, taken, made, Cache.made, List.length_nil, List.length_singleton]
    omega
  | @lookup k c' t' hs hclaims htaken =>
    have hlen := c.len_lookup k
    rw [htaken, hclaims, hs.len, hlen]
    simp only [claims, taken, made, Cache.made, List.length_nil]
    omega
  | @detach k c' t' hs hclaims htaken =>
    have hlen := c.len_detach k
    rw [htaken, hclaims, hs.len, hlen]
    simp only [claims, taken, made, Cache.made, List.length_nil]
    omega
  | @empty out i rest =>
    have hlen := c.len_clearShard i
    simp only [claims, taken, made, List.length_append, List.length_reverse, List.length_nil]
    omega
  | claim hclaim =>
    obtain ⟨max, -, -, rfl⟩ := Cache.claim_eq_some_iff.1 hclaim
    simp only [claims, taken, made, List.length_nil]
    omega
  | @take why start limit out i rest r htake =>
    have hlen := c.len_takeFrom i
    simp only [claims, taken, made, List.length_cons, List.length_nil]
    omega
  | @miss why start limit out i rest htake =>
    have hlen := c.len_takeFrom i
    simp only [claims, taken, made, List.length_nil]
    omega
  | giveBack hs hclaims htaken =>
    rw [htaken, hclaims, hs.len]
    simp only [claims, taken, made, Cache.giveBack, List.length_nil]
    omega
  | stop => simp [claims, taken, made, Cache.made, Cache.stop]

/-- **No step changes the number of records less the count and the claims under way.** -/
theorem balance (hc : 0 < c.shards.size) (h : Moves c t c' t') :
    (c'.stored : Int) - c'.len - t'.claims = c.stored - c.len - t.claims := by
  have hperm := (h.perm hc).length_eq
  have hlen := h.len hc
  simp only [List.length_append, ← Cache.stored_eq_length] at hperm
  omega

/-- A cache counts the records that a step makes. -/
theorem created (h : Moves c t c' t') : c'.created = c.created + (t.made c).length := by
  cases h with
  | still hs _ _ hmade =>
    rw [hs.created, hmade]
    rfl
  | place hs =>
    rw [hs.created, Cache.created_place]
    rfl
  | lookup hs =>
    rw [hs.created, Cache.created_lookup]
    rfl
  | detach hs =>
    rw [hs.created, Cache.created_detach]
    rfl
  | empty => exact c.created_clearShard _
  | claim hclaim =>
    obtain ⟨max, -, -, rfl⟩ := Cache.claim_eq_some_iff.1 hclaim
    rfl
  | take | miss => exact c.created_takeFrom _
  | giveBack hs =>
    rw [hs.created]
    rfl
  | stop => rfl

/-- Only stopping changes the settings. -/
theorem sameSetup (h : Moves c t c' t') : Cache.SameSetup c c' ∨ t = asked .stop ∧ c' = c.stop := by
  cases h with
  | still hs => exact Or.inl hs.sameSetup
  | place hs => exact Or.inl ((c.sameSetup_place _ _).trans hs.sameSetup)
  | lookup hs => exact Or.inl ((c.sameSetup_lookup _).trans hs.sameSetup)
  | detach hs => exact Or.inl ((c.sameSetup_detach _).trans hs.sameSetup)
  | empty => exact Or.inl (c.sameSetup_clearShard _)
  | claim hclaim => exact Or.inl (Cache.sameSetup_claim hclaim)
  | take | miss => exact Or.inl (c.sameSetup_takeFrom _)
  | giveBack hs => exact Or.inl ⟨hs.hash, congrArg Array.size hs.shards, hs.controller⟩
  | stop => exact Or.inr ⟨rfl, rfl⟩

/-- A step leaves everything as it was that is chosen when a cache is made. -/
theorem sameShape (h : Moves c t c' t') : Cache.SameShape c c' := by
  rcases h.sameSetup with h | ⟨-, rfl⟩
  · exact h.shape
  · exact ⟨rfl, rfl, rfl⟩

/-- What every operation of a shard keeps, every step keeps. -/
theorem each {P : Nat → Shard S V → Prop} (hk : c.Kept P) (hc : c.Each P) (h : Moves c t c' t') :
    c'.Each P := by
  cases h with
  | still hs => exact hc.of_still hs
  | place hs => exact (hc.place hk _ _).of_still hs
  | lookup hs => exact (hc.lookup hk _).of_still hs
  | detach hs => exact (hc.detach hk _).of_still hs
  | empty => exact hc.clearShard hk.clear _
  | claim hclaim =>
    obtain ⟨max, -, -, rfl⟩ := Cache.claim_eq_some_iff.1 hclaim
    exact hc
  | take | miss => exact hc.takeFrom hk.evict _
  | giveBack hs => exact Cache.Each.of_still (c := c.giveBack) hc hs
  | stop => exact hc

/-! ### Claims and the bound -/

/-- A claim that is under way was so before, or leaves the count at the bound or above. -/
theorem claims_of_claims {max : Nat} (hmax : c.maxEntries = some max) (h : Moves c t c' t')
    (hclaims : 0 < t'.claims) : 0 < t.claims ∨ (max : Int) ≤ c'.len := by
  cases h with
  | still _ h => exact Or.inl (h ▸ hclaims)
  | place _ h | lookup _ h | detach _ h | giveBack _ h =>
    rw [h] at hclaims
    cases hclaims
  | empty | stop | take => cases hclaims
  | claim hclaim =>
    obtain ⟨max', hmax', hlt, rfl⟩ := Cache.claim_eq_some_iff.1 hclaim
    obtain rfl : max = max' := Option.some.inj (hmax.symm.trans hmax')
    -- the claim takes one off a count that was above the bound
    have hleft : (max : Int) ≤ c.len - 1 := by omega
    exact Or.inr hleft
  | miss => exact Or.inl Nat.one_pos

/-- No other step lowers the count, but for a claim, which leaves it at the bound or above. -/
theorem len_le {max : Nat} (hc : 0 < c.shards.size) (hmax : c.maxEntries = some max)
    (ht : ¬ t.Sheds) (h : Moves c t c' t') : c.len ≤ c'.len ∨ (max : Int) ≤ c'.len := by
  cases h with
  | still hs => exact Or.inl (Int.le_of_eq hs.len.symm)
  | @place k v c' t' hs =>
    have hlen := Cache.len_place hc k v
    have hone := Option.length_toList_le (o := (c.place k v).2.1)
    rw [hs.len]
    omega
  | @lookup k c' t' hs =>
    rw [hs.len, c.len_lookup k]
    exact Or.inl (Int.le_refl _)
  | detach | empty => exact absurd trivial ht
  | claim hclaim =>
    obtain ⟨max', hmax', hlt, rfl⟩ := Cache.claim_eq_some_iff.1 hclaim
    obtain rfl : max = max' := Option.some.inj (hmax.symm.trans hmax')
    exact Or.inr (show (max : Int) ≤ c.len - 1 by omega)
  | take | miss => exact Or.inl (Int.le_of_eq (c.len_takeFrom _).symm)
  | giveBack hs =>
    rw [hs.len]
    exact Or.inl (show c.len ≤ c.len + 1 by omega)
  | stop => exact Or.inl (Int.le_refl _)

/-- No other step takes out a record without a claim. -/
theorem stored_le (hc : 0 < c.shards.size) (ht : ¬ t.Sheds) (h : Moves c t c' t') :
    c.stored ≤ c'.stored + t.claims := by
  have hperm := (h.perm hc).length_eq
  simp only [List.length_append, ← Cache.stored_eq_length] at hperm
  cases h with
  | still _ _ htaken hmade =>
    rw [htaken, hmade, List.length_nil] at hperm
    omega
  | @place k v c' t' hs _ htaken =>
    have hone := Option.length_toList_le (o := (c.place k v).2.1)
    rw [htaken] at hperm
    simp only [made, Cache.made, taken, List.length_singleton, List.length_nil] at hperm
    omega
  | lookup _ _ htaken =>
    rw [htaken] at hperm
    simp only [made, Cache.made, taken, List.length_nil] at hperm
    omega
  | detach | empty => exact absurd trivial ht
  | claim | stop =>
    simp only [made, Cache.made, taken, List.map_nil, List.reverse_nil, List.length_nil] at hperm
    omega
  | take | miss =>
    simp only [made, taken, List.length_cons, List.length_nil] at hperm
    simp only [claims]
    omega
  | giveBack _ _ htaken =>
    rw [htaken] at hperm
    simp only [made, taken, List.length_nil] at hperm
    omega

end Moves

end Stage
end ClusterCache
