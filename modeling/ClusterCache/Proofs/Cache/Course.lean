/-
# The course of a session

A listener may answer each departure with calls of its own, chosen in the light of all that it has
seen.  What a session can come to is described here without the listener: wherever a departure is
told, any calls at all may follow, and theirs in turn (`Course`).  Every session follows such a course
(`Course.call`), so what is true at every point of every course is true whoever listens.

At each point the cache is as the calls so far have left it.  While the next call is performed, the
cache also passes through the stages of that call (`Point.Passes`).

Two results hold at all points and stages: the shards agree with their strategies
(`Course.agrees`), and, unless the cache is stopped, it is within its bound whenever a departure is
told or a call is over, and gives up records above the bound alone (`Course.bounded`).
-/

import ClusterCache.Proofs.Cache.Builder
import ClusterCache.Proofs.Cache.Call

namespace ClusterCache

/-- A cache in the middle of a session. -/
structure Point {K : Type} [DecidableEq K] (S : Strategy K) (V : Type) where
  cache : Cache S V
  /-- The calls performed so far, each with the cache that it was performed on, the latest first. -/
  past : List (Call S V × Cache S V)
  /-- The departures told so far, the latest first. -/
  log : List (Departure K V)
  /-- The work that remains. -/
  agenda : List (Task S V)

section

variable {K V : Type} [DecidableEq K] {S : Strategy K}

/-- What a session with a new cache can come to; `P` tells which calls may be made. -/
inductive Course (P : Call S V → Prop) (c₀ : Cache S V) : Point S V → Prop
  | start : Course P c₀ ⟨c₀, [], [], []⟩
  /-- When there is nothing left to do, somebody makes a call. -/
  | ask {c : Cache S V} {past : List (Call S V × Cache S V)} {log : List (Departure K V)}
      {x : Call S V} : P x → Course P c₀ ⟨c, past, log, []⟩ → Course P c₀ ⟨c, past, log, [.call x]⟩
  /-- A call is performed, and its departures are to be told next. -/
  | perform {c : Cache S V} {past : List (Call S V × Cache S V)} {log : List (Departure K V)}
      {x : Call S V} {rest : List (Task S V)} : Course P c₀ ⟨c, past, log, .call x :: rest⟩ →
      Course P c₀ ⟨(c.perform x).2.2, (x, c) :: past, log, (c.perform x).2.1.map .tell ++ rest⟩
  /-- A departure is told, and the listener makes calls in return. -/
  | tell (calls : List (Call S V)) {c : Cache S V} {past : List (Call S V × Cache S V)}
      {log : List (Departure K V)} {d : Departure K V} {rest : List (Task S V)} : (∀ x ∈ calls, P x) →
      Course P c₀ ⟨c, past, log, .tell d :: rest⟩ →
      Course P c₀ ⟨c, past, d :: log, calls.map .call ++ rest⟩

variable {P : Call S V → Prop} {c₀ : Cache S V} {p : Point S V} {L : Listener S V}

/-- The next call takes the cache through `c`, and is at stage `t` then. -/
def Point.Passes (p : Point S V) (c : Cache S V) (t : Stage S V) : Prop :=
  ∃ x rest, p.agenda = .call x :: rest ∧ Stage.Alone (p.cache, .asked x) (c, t)

namespace Course

/-- Working off an agenda is a course, if the listener makes calls that may be made. -/
theorem run (hL : ∀ l d, ∀ x ∈ (L.react l d).2, P x) (s : Session L) (agenda : List (Task S V)) :
    ∀ past, Course P c₀ ⟨s.cache, past, s.log, agenda⟩ →
      ∃ past', Course P c₀ ⟨(s.run agenda).cache, past', (s.run agenda).log, []⟩ := by
  induction s, agenda using Session.run.induct with
  | case1 s =>
    intro past h
    rw [Session.run]
    exact ⟨past, h⟩
  | case2 s x rest answer out cache hperform ih =>
    intro past h
    have hnext := perform h
    rw [hperform] at hnext
    rw [Session.run, hperform]
    exact ih _ hnext
  | case3 s d rest listener calls hreact ih =>
    intro past h
    have hcalls : ∀ x ∈ calls, P x := by
      have := hL s.listener d
      rwa [hreact] at this
    rw [Session.run]
    simp only [hreact]
    rw [List.map_attach_eq_pmap, List.pmap_eq_map] at ih
    exact ih past (tell calls hcalls h)

/-- **Every session follows a course.** -/
theorem call (hL : ∀ l d, ∀ x ∈ (L.react l d).2, P x) {s : Session L}
    {past : List (Call S V × Cache S V)} {x : Call S V} (hx : P x)
    (h : Course P c₀ ⟨s.cache, past, s.log, []⟩) :
    ∃ past', Course P c₀ ⟨(s.call x).2.cache, past', (s.call x).2.log, []⟩ := by
  have hperform := perform (ask hx h)
  rw [List.append_nil] at hperform
  exact run hL ⟨(s.cache.perform x).2.2, s.listener, s.log⟩ _ _ hperform

/-- In a session with a cache for one record, two records are stored.  The first is given up for the
second, and the listener, told of it, stores a third, for which the second is given up. -/
theorem exists_nested {P : Call (.lru Nat) Nat → Prop} (hP : ∀ k v, P (.insert k v)) :
    ∃ c past, Course P .forOne
      ⟨c, past, [⟨.evict, ⟨1, 10, 7, 0⟩⟩], [.tell ⟨.evict, ⟨2, 20, 7, 1⟩⟩]⟩ := by
  have h₁ := perform (ask (hP 1 10) (start : Course P .forOne _))
  rw [show (Cache.forOne.perform (.insert 1 10)).2.1 = [] by decide +kernel] at h₁
  have h₂ := perform (ask (hP 2 20) h₁)
  rw [show ((Cache.forOne.perform (.insert 1 10)).2.2.perform (.insert 2 20)).2.1 =
    [⟨.evict, ⟨1, 10, 7, 0⟩⟩] by decide +kernel] at h₂
  have h₃ := perform (tell [.insert 3 30] (fun x hx => List.mem_singleton.1 hx ▸ hP 3 30) h₂)
  rw [show (((Cache.forOne.perform (.insert 1 10)).2.2.perform (.insert 2 20)).2.2.perform
    (.insert 3 30)).2.1 = [⟨.evict, ⟨2, 20, 7, 1⟩⟩] by decide +kernel] at h₃
  exact ⟨_, _, h₃⟩

/-! ### What every call keeps -/

/-- Whatever happened, the cache has the shape that it was made with. -/
theorem sameShape (h : Course P c₀ p) : Cache.SameShape c₀ p.cache := by
  induction h with
  | start => exact .refl c₀
  | ask _ _ ih => exact ih
  | perform _ ih => exact ih.trans (Cache.sameShape_perform _ _)
  | tell _ _ _ ih => exact ih

/-- Whatever happened, the cache has a shard. -/
theorem size_pos (hc₀ : c₀.Fresh) (h : Course P c₀ p) : 0 < p.cache.shards.size :=
  h.sameShape.size.symm ▸ hc₀.size

/-- A cache that nobody stops runs as it did at first. -/
theorem sameSetup (hP : ∀ x, P x → x ≠ .stop) (h : Course P c₀ p) :
    Cache.SameSetup c₀ p.cache ∧ ∀ x, .call x ∈ p.agenda → x ≠ .stop := by
  induction h with
  | start => exact ⟨.refl c₀, fun x hx => absurd hx List.not_mem_nil⟩
  | ask hx _ ih =>
    refine ⟨ih.1, fun y hy => ?_⟩
    obtain rfl := Task.call.inj (List.mem_singleton.1 hy)
    exact hP _ hx
  | @perform c past log x rest _ ih =>
    have hx : x ≠ .stop := ih.2 x (List.mem_cons_self ..)
    have hsetup : Cache.SameSetup c (c.perform x).2.2 := Cache.sameSetup_perform hx
    refine ⟨ih.1.trans hsetup, fun y hy => ?_⟩
    rcases List.mem_append.1 hy with hy | hy
    · obtain ⟨d, -, hd⟩ := List.mem_map.1 hy
      cases hd
    · exact ih.2 y (List.mem_cons_of_mem _ hy)
  | tell calls hcalls _ ih =>
    refine ⟨ih.1, fun y hy => ?_⟩
    rcases List.mem_append.1 hy with hy | hy
    · obtain ⟨x, hx, hxy⟩ := List.mem_map.1 hy
      obtain rfl := Task.call.inj hxy
      exact hP _ (hcalls _ hx)
    · exact ih.2 y (List.mem_cons_of_mem _ hy)

/-- **What every operation on a shard keeps holds at every point**, if it held in the beginning. -/
theorem each {Q : Nat → Shard S V → Prop} (hk : c₀.Kept Q) (h₀ : c₀.Each Q) (h : Course P c₀ p) :
    p.cache.Each Q := by
  induction h with
  | start => exact h₀
  | ask _ _ ih => exact ih
  | perform h ih => exact ih.perform (h.sameShape.kept.2 hk) _
  | tell _ _ _ ih => exact ih

/-- Between calls the count is right. -/
theorem len_eq (hc₀ : c₀.Fresh) (h : Course P c₀ p) : p.cache.len = p.cache.stored := by
  induction h with
  | start => rw [hc₀.len, hc₀.stored]; rfl
  | ask _ _ ih => exact ih
  | @perform c past log x rest h ih =>
    have hbalance := Cache.perform_balance (c := c) (h.size_pos hc₀) x
    simp only at ih ⊢
    omega
  | tell _ _ _ ih => exact ih

/-! ### Shards and strategies -/

/-- What every operation on a shard keeps holds at every stage of a call, too. -/
theorem passes_each {Q : Nat → Shard S V → Prop} (hk : c₀.Kept Q) (h₀ : c₀.Each Q)
    (h : Course P c₀ p) {c : Cache S V} {t : Stage S V} (hp : p.Passes c t) :
    Cache.SameShape c₀ c ∧ c.Each Q := by
  obtain ⟨x, rest, -, halone⟩ := hp
  refine halone.keeps (Q := fun c _ => Cache.SameShape c₀ c ∧ c.Each Q) ?_
    ⟨h.sameShape, h.each hk h₀⟩
  intro c t hc
  have hmoves := Stage.step_moves c t
  exact ⟨hc.1.trans hmoves.sameShape, hmoves.each (hc.1.kept.2 hk) hc.2⟩

/-- **The shards agree with their strategies.**  At every point of a session and at every stage of a
call, in every shard: the keys of the records are distinct; each record carries the hash of its key
and is in the shard for that hash; the strategy takes those keys for held that are; whichever victim
it names is held; and it names none exactly if there are no records. -/
theorem agrees [Hashable K] (B : Bounding K S) {controller : Controller} {shards : Nat}
    {hash : K → UInt64} (hcreate : Cache.create S V shards controller hash = .ok c₀)
    (h : Course P c₀ p) {c : Cache S V} (hc : c = p.cache ∨ ∃ t, p.Passes c t) {i : Nat} {s : Shard S V}
    (hs : c.shards[i]? = some s) :
    (s.records.map Record.key).Nodup ∧
    (∀ r ∈ s.records, r.hash = hash r.key ∧ c.shardOf r.hash = i) ∧
    (∀ k, B.tracking.Resident s.memory k ↔ k ∈ s.records.map Record.key) ∧
    (∀ sh k, (S.pop sh s.memory).1 = some k → k ∈ s.records.map Record.key) ∧
    (∀ sh, (s.evict hash sh).1 = none ↔ s.records = []) := by
  obtain ⟨hfresh, hhash, -⟩ := Cache.create_eq_ok hcreate
  have hkept := Shard.kept_agrees c₀.hash c₀.shardOf B.tracking (V := V)
  have hboth : Cache.SameShape c₀ c ∧ c.Each fun i s =>
      s.Filed c₀.hash c₀.shardOf i ∧ s.Agrees c₀.hash B.tracking := by
    rcases hc with rfl | ⟨t, hp⟩
    · exact ⟨h.sameShape, h.each hkept (hfresh.each_agrees _)⟩
    · exact h.passes_each hkept (hfresh.each_agrees _) hp
  obtain ⟨hshape, heach⟩ := hboth
  obtain ⟨hfiled, hagrees⟩ := heach i s hs
  refine ⟨hfiled.nodup_key, fun r hr => ?_, fun k => ?_, fun sh k hk => ?_, fun sh => ?_⟩
  · rw [← hhash, hshape.shardOf]
    exact hfiled r hr
  · rw [hfiled.mem_key_iff]
    exact hagrees.resident_iff k
  · exact hfiled.mem_key_iff.2 (hagrees.pop_held hk)
  · rw [← hhash, hagrees.evict_eq_none_iff, s.size_eq_length, List.length_eq_zero_iff]

/-- In the middle of a session with a cache for one record, its shards agree with their strategy. -/
theorem agrees_nested :
    ∃ (c : Cache (.lru Nat) Nat) (p : Point (.lru Nat) Nat), Course (fun _ => True) .forOne p ∧
      p.log = [⟨.evict, ⟨1, 10, 7, 0⟩⟩] ∧ c = p.cache ∧
      ∀ (i : Nat) s, c.shards[i]? = some s → (s.records.map Record.key).Nodup ∧
        (∀ r ∈ s.records, r.hash = 7 ∧ c.shardOf r.hash = i) ∧
        (∀ k, Lru.tracking.Resident s.memory k ↔ k ∈ s.records.map Record.key) ∧
        (∀ sh k, ((Strategy.lru Nat).pop sh s.memory).1 = some k → k ∈ s.records.map Record.key) ∧
        ∀ sh, (s.evict (fun _ => 7) sh).1 = none ↔ s.records = [] := by
  obtain ⟨c, past, h⟩ := exists_nested (P := fun _ => True) fun _ _ => trivial
  exact ⟨c, _, h, rfl, rfl, fun i s hs => h.agrees .lru Cache.create_forOne (.inl rfl) hs⟩

/-! ### The bound -/

/-- While a call is under way nobody else touches the cache: the records are those counted and those
claimed by the call, and it has a claim only while the count is at the bound or above. -/
theorem passes_claims {max : Nat} (hc₀ : c₀.Fresh) (hmax : c₀.maxEntries = some max)
    (h : Course P c₀ p) {c : Cache S V} {t : Stage S V} (hp : p.Passes c t) :
    (c.stored : Int) = c.len + t.claims ∧ (0 < t.claims → (max : Int) ≤ c.len) := by
  obtain ⟨x, tasks, -, halone⟩ := hp
  have hlen := h.len_eq hc₀
  have hinv := halone.keeps (Q := fun c t => Cache.SameShape c₀ c ∧
    (c.stored : Int) - c.len - t.claims = 0 ∧ (0 < t.claims → (max : Int) ≤ c.len)) ?_
    ⟨h.sameShape, by simp only [Stage.claims]; omega, fun h => by cases h⟩
  · obtain ⟨-, hbalance, hclaims⟩ := hinv
    have hbalance : (c.stored : Int) - c.len - t.claims = 0 := hbalance
    exact ⟨by omega, hclaims⟩
  · rintro c t ⟨hshape, hbalance, hclaims⟩
    have hmoves := Stage.step_moves c t
    have hsize : 0 < c.shards.size := hshape.size.symm ▸ hc₀.size
    have hmax' := hshape.maxEntries.trans hmax
    refine ⟨hshape.trans hmoves.sameShape, (hmoves.balance hsize).trans hbalance, fun hpos => ?_⟩
    rcases hmoves.claims_of_claims hmax' hpos with hbefore | hle
    · have hle := hclaims hbefore
      rcases hmoves.len_le hsize hmax' (Stage.not_sheds_of_claims hbefore) with hle' | hle'
      · omega
      · exact hle'
    · exact hle

/-- **A cache that nobody stops keeps to its bound.**  Whenever a departure is told or a call is
over, there are no more records than allowed, and whenever one is given up on a claim, there are
more. -/
theorem bounded [Hashable K] (B : Bounding K S) {config : Config} {controller : Controller}
    {shards : Nat} {hash : K → UInt64} (hcontroller : Controller.create config = .ok controller)
    (hbounded : config.order.isBounded = true)
    (hcreate : Cache.create S V shards controller hash = .ok c₀)
    (h : Course (fun x => x ≠ .stop) c₀ p) :
    p.cache.stored ≤ config.maxEntries.toNat ∧
    ∀ c why start limit out i rest r c', p.Passes c (.holding why start limit out (i :: rest)) →
      c.takeFrom i = (some r, c') → config.maxEntries.toNat < c.stored := by
  have hfresh := (Cache.create_eq_ok hcreate).1
  have hmax := Cache.create_maxEntries hcontroller hbounded hcreate
  have hrun := Cache.create_isRunning hcontroller hcreate
  refine ⟨?_, ?_⟩
  · induction h with
    | start => rw [hfresh.stored]; exact Nat.zero_le _
    | ask _ _ ih => exact ih
    | perform h ih =>
      have hsetup := (h.sameSetup fun _ => id).1
      have hagrees := h.each (Shard.kept_agrees c₀.hash c₀.shardOf B.tracking)
        (hfresh.each_agrees B.tracking)
      rw [← hsetup.hash, ← hsetup.shape.shardOf] at hagrees
      exact Cache.stored_perform_le (h.size_pos hfresh) hagrees (h.len_eq hfresh)
        (hsetup.shape.maxEntries.trans hmax) (hsetup.isRunning.trans hrun) ih _
    | tell _ _ _ ih => exact ih
  · intro c why start limit out i rest r c' hp _
    obtain ⟨hstored, hclaims⟩ := h.passes_claims hfresh hmax hp
    have hle := hclaims Nat.one_pos
    simp only [Stage.claims] at hstored
    omega

/-- In the middle of a session with a cache for one record, it holds one at most. -/
theorem bounded_nested :
    ∃ p, Course (fun x => x ≠ .stop) .forOne p ∧ p.log = [⟨.evict, ⟨1, 10, 7, 0⟩⟩] ∧
      p.agenda = [.tell ⟨.evict, ⟨2, 20, 7, 1⟩⟩] ∧ p.cache.stored ≤ 1 ∧
      ∀ c why start limit out i rest r c', p.Passes c (.holding why start limit out (i :: rest)) →
        c.takeFrom i = (some r, c') → 1 < c.stored := by
  obtain ⟨c, past, h⟩ := exists_nested (P := fun x => x ≠ .stop) fun _ _ h => by cases h
  have hbounded := h.bounded .lru Cache.controller_forOne rfl Cache.create_forOne
  exact ⟨_, h, rfl, rfl, hbounded.1, hbounded.2⟩

end Course
end
end ClusterCache
