/-
# The stripes are not seen

Into how many stripes a lock table is divided, and how keys are spread over them, is chosen when it is
made.  Whoever uses it does not notice.  Two tables that wait equally long, and in which the same keys
have the same owners, are twins (`Twin`): every use shows the same on both, but for the order of the
keys that are given back all together, and leaves twins behind (`Twin.use`).

Tables without owners are twins, so any uses one after another show the same on them
(`striping_unseen`).
-/

import ClusterCache.Lock.Handler
import ClusterCache.Proofs.Lock.Holdings

namespace ClusterCache

/-- A use of a lock table that is done at once. -/
inductive LockUse (K : Type) where
  /-- A call for a transaction. -/
  | call (x : Transaction) (call : LockCall K)
  | owner (k : K)
  | isLocked (k : K)
  | lockedCount
  /-- The table is handed a request, with the context of the invocation. -/
  | visit (c : Context K) (r : LockRequest K)

/-- What is seen of a use. -/
inductive LockSight (K : Type) where
  | reply (r : LockReply K)
  | owner (y : Option Transaction)
  | isLocked (b : Bool)
  | lockedCount (n : Nat)
  /-- The answer to a request, and the context afterwards. -/
  | visited (answer : Except Fault Unit) (c : Context K)

/-- The same is seen, but the keys that are given back all together may come in another order. -/
inductive LockSight.Alike {K : Type} : LockSight K → LockSight K → Prop
  | same (s : LockSight K) : Alike s s
  | releasedAll {keys keys' : List K} : keys.Perm keys' →
      Alike (.reply (.releasedAll keys)) (.reply (.releasedAll keys'))

/-- What is the same is alike. -/
theorem LockSight.Alike.of_eq {K : Type} {s s' : LockSight K} (h : s' = s) : Alike s s' := h ▸ .same s'

namespace LockTable

variable {K : Type} [DecidableEq K] {t t' : LockTable K} {x : Transaction} {keys : List K}

/-- Uses a table; `key` outlines a key. -/
def use (key : K → Text.Outline) (t : LockTable K) : LockUse K → LockSight K × LockTable K
  | .call x call =>
    let (r, t) := t.perform x call
    (.reply r, t)
  | .owner k => (.owner (t.owner? k), t)
  | .isLocked k => (.isLocked (t.isLocked k), t)
  | .lockedCount => (.lockedCount t.lockedCount, t)
  | .visit c r =>
    let (answer, c, t) := r.accept (handler key) t c
    (.visited answer c, t)

/-- What is seen of some uses, one after another. -/
def sights (key : K → Text.Outline) : LockTable K → List (LockUse K) → List (LockSight K)
  | _, [] => []
  | t, u :: rest => (t.use key u).1 :: sights key (t.use key u).2 rest

/-! ### Twins -/

/-- The tables differ in nothing but their stripes. -/
structure Twin (t t' : LockTable K) : Prop where
  left : t.Sound
  right : t'.Sound
  timeout : t'.timeout = t.timeout
  owner?_eq : t'.owner? = t.owner?

namespace Twin

variable {x : Transaction} {u u' : LockTable K} {P : K → Prop}

/-- Tables without owners are twins. -/
theorem create (stripes stripes' : Nat) (timeout : Duration) (hash hash' : K → UInt64) :
    (create stripes timeout hash).Twin (LockTable.create stripes' timeout hash') where
  left := sound_create ..
  right := sound_create ..
  timeout := rfl
  owner?_eq := by
    funext k
    rw [owner?_create, owner?_create]

/-- Tables that differ in nothing but their stripes still do so after the same keys were taken. -/
theorem of_takes (h : t.Twin t') (hl : u.Sound) (hr : u'.Sound) (hs : t.SameShape u)
    (hs' : t'.SameShape u') (ht : Takes x P t u) (ht' : Takes x P t' u') : u.Twin u' where
  left := hl
  right := hr
  timeout := by rw [hs'.timeout, hs.timeout, h.timeout]
  owner?_eq := by
    funext k
    refine Option.ext fun y => ?_
    rw [ht.owner_iff, ht'.owner_iff, h.owner?_eq]

/-- Tables that differ in nothing but their stripes still do so after the same keys were freed. -/
theorem of_frees (h : t.Twin t') (hl : u.Sound) (hr : u'.Sound) (hs : t.SameShape u)
    (hs' : t'.SameShape u') (hf : Frees x P t u) (hf' : Frees x P t' u') : u.Twin u' where
  left := hl
  right := hr
  timeout := by rw [hs'.timeout, hs.timeout, h.timeout]
  owner?_eq := by
    funext k
    refine Option.ext fun y => ?_
    rw [hf, hf', h.owner?_eq]

/-- The same keys are in the way. -/
theorem isForeign_eq (h : t.Twin t') (x : Transaction) : t'.isForeign x = t.isForeign x := by
  funext k
  rw [isForeign, isForeign, h.owner?_eq]

/-- The same keys are free. -/
theorem free_eq (h : t.Twin t') (keys : List K) : t'.free keys = t.free keys := by
  rw [LockTable.free, LockTable.free, h.owner?_eq]

/-- **Twins grant the same keys**, and refuse them for the same reason. -/
theorem acquire (h : t.Twin t') (x : Transaction) (keys : List K) :
    (t'.acquire x keys).1 = (t.acquire x keys).1 ∧
      (t.acquire x keys).2.Twin (t'.acquire x keys).2 := by
  have hl := h.left.acquire x keys
  have hr := h.right.acquire x keys
  have hs := t.sameShape_acquire x keys
  have hs' := t'.sameShape_acquire x keys
  cases hfind : keys.find? (t.isForeign x) with
  | none =>
    have hfree : ∀ k ∈ keys, t.isForeign x k = false := by simpa using hfind
    obtain ⟨hanswer, htakes⟩ := acquire_of_free h.left.size hfree
    obtain ⟨hanswer', htakes'⟩ := acquire_of_free h.right.size (h.isForeign_eq x ▸ hfree)
    rw [h.free_eq] at hanswer' htakes'
    exact ⟨hanswer'.trans hanswer.symm, h.of_takes hl hr hs hs' htakes htakes'⟩
  | some k =>
    obtain ⟨y, hy, -⟩ := isForeign_eq_true_iff.1 (List.find?_some hfind)
    obtain ⟨herror, howner⟩ := acquire_of_foreign h.left.size hfind hy
    obtain ⟨herror', howner'⟩ := acquire_of_foreign h.right.size (h.isForeign_eq x ▸ hfind)
      (h.owner?_eq ▸ hy)
    have hrefusal : t'.refusal x y k = t.refusal x y k := by rw [refusal, refusal, h.timeout]
    refine ⟨herror'.trans (hrefusal ▸ herror.symm), hl, hr, ?_, ?_⟩
    · rw [hs'.timeout, hs.timeout, h.timeout]
    · funext a
      rw [howner, howner', h.owner?_eq]

/-- **Twins give back the same keys.** -/
theorem release (h : t.Twin t') (x : Transaction) (keys : List K) :
    (t'.release x keys).1 = (t.release x keys).1 ∧
      (t.release x keys).2.Twin (t'.release x keys).2 := by
  constructor
  · rw [release_fst h.left.size, release_fst h.right.size, h.owner?_eq]
  · exact h.of_frees (h.left.release x keys) (h.right.release x keys) (t.sameShape_release x keys)
      (t'.sameShape_release x keys) (t.frees_release x keys) (t'.frees_release x keys)

/-- Twins give back the same keys all together, in whatever order. -/
theorem releaseAll (h : t.Twin t') (x : Transaction) :
    (t.releaseAll x).1.Perm (t'.releaseAll x).1 ∧ (t.releaseAll x).2.Twin (t'.releaseAll x).2 := by
  have hback := releaseAll_spec h.left x
  have hback' := releaseAll_spec h.right x
  constructor
  · refine (List.perm_ext_iff_of_nodup hback.nodup hback'.nodup).2 fun k => ?_
    rw [hback.mem, hback'.mem, h.owner?_eq]
  · exact h.of_frees hback.sound hback'.sound hback.shape hback'.shape hback.frees hback'.frees

/-- Twins have as many keys with an owner. -/
theorem lockedCount_eq (h : t.Twin t') : t'.lockedCount = t.lockedCount := by
  have hcount := encard_locked h.left
  have hcount' := encard_locked h.right
  rw [h.owner?_eq, hcount] at hcount'
  exact_mod_cast hcount'.symm

/-- A request comes to the same on twins. -/
theorem accept (h : t.Twin t') (key : K → Text.Outline) (c : Context K) (r : LockRequest K) :
    (r.accept (handler key) t' c).1 = (r.accept (handler key) t c).1 ∧
      (r.accept (handler key) t' c).2.1 = (r.accept (handler key) t c).2.1 ∧
      (r.accept (handler key) t c).2.2.Twin (r.accept (handler key) t' c).2.2 := by
  unfold LockRequest.accept handler Handler.locking
  by_cases hempty : r.keys.isEmpty = true
  · simp only [if_pos hempty, true_and]
    exact h
  · simp only [if_neg hempty]
    cases r.mode with
    | acquire =>
      obtain ⟨hanswer, htwin⟩ := h.acquire r.boundary.transaction r.keys
      rcases ha : t.acquire r.boundary.transaction r.keys with ⟨a, u⟩
      rcases ha' : t'.acquire r.boundary.transaction r.keys with ⟨a', u'⟩
      rw [ha, ha'] at hanswer htwin
      obtain rfl : a' = a := hanswer
      cases a' with
      | ok granted => exact ⟨rfl, rfl, htwin⟩
      | error e => exact ⟨rfl, rfl, htwin⟩
    | release => exact ⟨rfl, rfl, (h.release _ _).2⟩

/-- **Every use shows the same on twins** and leaves twins behind. -/
theorem use (h : t.Twin t') (key : K → Text.Outline) (q : LockUse K) :
    LockSight.Alike (t.use key q).1 (t'.use key q).1 ∧ (t.use key q).2.Twin (t'.use key q).2 := by
  cases q with
  | call x call =>
    cases call with
    | acquire keys =>
      obtain ⟨hanswer, htwin⟩ := h.acquire x keys
      have hsight := congrArg (fun a => LockSight.reply (.acquired a)) hanswer
      exact ⟨.of_eq hsight, htwin⟩
    | release keys =>
      obtain ⟨hcount, htwin⟩ := h.release x keys
      have hsight := congrArg (fun n => LockSight.reply (K := K) (.released n)) hcount
      exact ⟨.of_eq hsight, htwin⟩
    | releaseAll =>
      obtain ⟨hperm, htwin⟩ := h.releaseAll x
      exact ⟨.releasedAll hperm, htwin⟩
  | owner k =>
    have howner : t'.owner? k = t.owner? k := congrFun h.owner?_eq k
    exact ⟨.of_eq (congrArg LockSight.owner howner), h⟩
  | isLocked k =>
    have hlocked : t'.isLocked k = t.isLocked k := congrArg Option.isSome (congrFun h.owner?_eq k)
    exact ⟨.of_eq (congrArg LockSight.isLocked hlocked), h⟩
  | lockedCount => exact ⟨.of_eq (congrArg LockSight.lockedCount h.lockedCount_eq), h⟩
  | visit c r =>
    obtain ⟨hanswer, hcontext, htwin⟩ := h.accept key c r
    exact ⟨.of_eq (congrArg₂ LockSight.visited hanswer hcontext), htwin⟩

end Twin

/-- **Stripes and hash are not seen.**  Let two tables be made that wait equally long, with any numbers
of stripes, be it none, and any hashes.  Whatever uses are made of them one after another, the same is
seen of each, errors included, but for the order of the keys that are given back all together.  And
after any uses `lockedCount` is the number of keys that have an owner. -/
theorem striping_unseen (stripes stripes' : Nat) (timeout : Duration) (hash hash' : K → UInt64)
    (key : K → Text.Outline) (uses : List (LockUse K)) :
    List.Forall₂ LockSight.Alike ((create stripes timeout hash).sights key uses)
        ((create stripes' timeout hash').sights key uses) ∧
      let t := uses.foldl (fun t u => (t.use key u).2) (create stripes timeout hash)
      {k | (t.owner? k).isSome}.encard = t.lockedCount := by
  have hrun : ∀ t t' : LockTable K, t.Twin t' →
      List.Forall₂ LockSight.Alike (t.sights key uses) (t'.sights key uses) ∧
        (uses.foldl (fun t u => (t.use key u).2) t).Sound := by
    induction uses with
    | nil => exact fun t t' h => ⟨.nil, h.left⟩
    | cons u rest ih =>
      intro t t' h
      obtain ⟨halike, hnext⟩ := h.use key u
      obtain ⟨hrest, hsound⟩ := ih _ _ hnext
      exact ⟨.cons halike hrest, hsound⟩
  obtain ⟨hsights, hsound⟩ := hrun _ _ (.create stripes stripes' timeout hash hash')
  exact ⟨hsights, encard_locked hsound⟩

end LockTable
end ClusterCache
