/-
# States that cannot be told apart

Two states of a strategy may differ inside and still name the same keys for ever after: the numbers that
a queue has handed out do not show, nor does the order in which a map is kept.  A `Likeness` of a
strategy is a relation between such states.  Every operation leads from like states to like states,
names the same key in both, and leaves as many keys behind; so like states give the same replies to all
requests (`Strategy.Likeness.replies_eq`).

Queues are alike if they list the same keys from front to back (`SequenceQueue.Like`), and slots if the
same keys stand in them (`Unordered.Like`).  The strategy with ghosts has a module of its own.
-/

import ClusterCache.Proofs.Eviction.Lirs.Bookkeeping

namespace ClusterCache

namespace Strategy

variable {K : Type} [DecidableEq K] {S : Strategy K} {s s' : S.State}

/-! ### Requests and replies -/

/-- The key that a request names, if it asks for one. -/
def named (S : Strategy K) (s : S.State) : S.Request → Option K
  | .pop sh => (S.pop sh s).1
  | .push _ | .access _ | .remove _ | .clear => none

/-- The state to which a request leads. -/
def next (S : Strategy K) (s : S.State) (q : S.Request) : S.State := (S.serve (s, ∅) q).1

/-- What is seen of some requests, one after another: the key that each of them names, and the number of
keys afterwards. -/
def replies (S : Strategy K) : S.State → List S.Request → List (Option K × Nat)
  | _, [] => []
  | s, q :: rest => (S.named s q, S.size (S.next s q)) :: replies S (S.next s q) rest

/-- Asking for a victim leaves the state that `pop` leaves. -/
theorem next_pop (S : Strategy K) (s : S.State) (sh : S.Shared) :
    S.next s (.pop sh) = (S.pop sh s).2.2 := serve_pop S s ∅ sh

/-- Requests may lead from the one state to the other. -/
inductive Reaches (S : Strategy K) (s₀ : S.State) : S.State → Prop
  | start : Reaches S s₀ s₀
  | next {s : S.State} (q : S.Request) : Reaches S s₀ s → Reaches S s₀ (S.next s q)

/-- What a strategy comes to by naming a victim can be reached. -/
theorem Reaches.pop {s₀ : S.State} {sh sh' : S.Shared} {k? : Option K} (h : S.Reaches s₀ s)
    (hp : S.pop sh s = (k?, sh', s')) : S.Reaches s₀ s' := by
  have hnext := h.next (.pop sh)
  rwa [next_pop, hp] at hnext

/-- What a strategy comes to by requests can be reached. -/
theorem reaches_foldl (S : Strategy K) (s₀ : S.State) (requests : List S.Request) :
    S.Reaches s₀ (requests.foldl S.next s₀) := by
  have hrun : ∀ s, S.Reaches s₀ s → S.Reaches s₀ (requests.foldl S.next s) := by
    induction requests with
    | nil => exact fun s h => h
    | cons q rest ih => exact fun s h => ih _ (h.next q)
  exact hrun s₀ .start

/-! ### Like states -/

/-- A relation between states that no request tells apart. -/
structure Likeness (S : Strategy K) where
  Like : S.State → S.State → Prop
  push : ∀ {s s'} k, Like s s' → Like (S.push s k) (S.push s' k)
  access : ∀ {s s'} k, Like s s' → Like (S.access s k) (S.access s' k)
  remove : ∀ {s s'} k, Like s s' → Like (S.remove s k) (S.remove s' k)
  /-- Both name the same key, or none. -/
  pop_fst : ∀ {s s'} sh, Like s s' → (S.pop sh s').1 = (S.pop sh s).1
  pop_shared : ∀ {s s'} sh, Like s s' → (S.pop sh s').2.1 = (S.pop sh s).2.1
  pop : ∀ {s s'} sh, Like s s' → Like (S.pop sh s).2.2 (S.pop sh s').2.2
  clear : ∀ {s s'}, Like s s' → Like (S.clear s) (S.clear s')
  size : ∀ {s s'}, Like s s' → S.size s' = S.size s
  patience : ∀ {s s'} held sh, Like s s' → S.patience held sh s' = S.patience held sh s

namespace Likeness

/-- A state is like itself, and that may be all. -/
def eq (S : Strategy K) : S.Likeness where
  Like s s' := s' = s
  push _ h := h ▸ rfl
  access _ h := h ▸ rfl
  remove _ h := h ▸ rfl
  pop_fst _ h := h ▸ rfl
  pop_shared _ h := h ▸ rfl
  pop _ h := h ▸ rfl
  clear h := h ▸ rfl
  size h := h ▸ rfl
  patience _ _ h := h ▸ rfl

variable (L : S.Likeness)

omit [DecidableEq K] in
/-- Like states name the same victim. -/
theorem named_eq (h : L.Like s s') (q : S.Request) : S.named s' q = S.named s q := by
  cases q with
  | pop sh => exact L.pop_fst sh h
  | push k | access k | remove k | clear => rfl

/-- Like states are alike after the same request. -/
theorem next (h : L.Like s s') (q : S.Request) : L.Like (S.next s q) (S.next s' q) := by
  cases q with
  | push k => exact L.push k h
  | access k => exact L.access k h
  | remove k => exact L.remove k h
  | pop sh =>
    rw [next_pop, next_pop]
    exact L.pop sh h
  | clear => exact L.clear h

omit [DecidableEq K] in
/-- Like states name the same key, and share the same afterwards. -/
theorem exists_pop (h : L.Like s s') (sh : S.Shared) :
    ∃ k? sh₁ m m', S.pop sh s = (k?, sh₁, m) ∧ S.pop sh s' = (k?, sh₁, m') ∧ L.Like m m' := by
  refine ⟨_, _, _, (S.pop sh s').2.2, rfl, ?_, L.pop sh h⟩
  rw [← L.pop_fst sh h, ← L.pop_shared sh h]

/-- **Like states give the same replies.** -/
theorem replies_eq (h : L.Like s s') (requests : List S.Request) :
    S.replies s' requests = S.replies s requests := by
  induction requests generalizing s s' with
  | nil => rfl
  | cons q rest ih =>
    have hnext := L.next h q
    rw [replies, replies, L.named_eq h, L.size hnext, ih hnext]

end Likeness
end Strategy

/-! ### Queues -/

variable {K : Type} [DecidableEq K] [Hashable K]

namespace SequenceQueue

variable {q q' : SequenceQueue K} {k : K}

/-- Two queues list the same keys, whatever their numbers. -/
structure Like (q q' : SequenceQueue K) : Prop where
  left : q.Coherent
  right : q'.Coherent
  toList_eq : q'.toList = q.toList

/-- A queue that was cleared is as an empty one. -/
theorem like_clear_empty (q : SequenceQueue K) : q.clear.Like empty :=
  ⟨coherent_clear q, coherent_empty, rfl⟩

/-- All queues are alike when cleared. -/
theorem like_clear (q q' : SequenceQueue K) : q.clear.Like q'.clear :=
  ⟨coherent_clear q, coherent_clear q', rfl⟩

namespace Like

/-- Like queues are equally long. -/
theorem size_eq (h : q.Like q') : q'.size = q.size := by
  rw [size_eq_length, size_eq_length, h.toList_eq]

/-- Like queues have the same front. -/
theorem front?_eq (h : q.Like q') : q'.front? = q.front? := by
  rw [front?_eq_head?, front?_eq_head?, h.toList_eq]

/-- Like queues contain the same keys. -/
theorem contains_eq (h : q.Like q') (k : K) : q'.contains k = q.contains k := by
  rw [Bool.eq_iff_iff, h.right.contains_iff, h.left.contains_iff, h.toList_eq]

/-- Like queues are alike after the same push. -/
theorem pushBack (h : q.Like q') (k : K) : (q.pushBack k).Like (q'.pushBack k) := by
  refine ⟨h.left.pushBack k, h.right.pushBack k, ?_⟩
  rw [h.right.toList_pushBack, h.left.toList_pushBack, h.toList_eq]

/-- Like queues are alike after the same touch. -/
theorem touch (h : q.Like q') (k : K) : (q.touch k).2.Like (q'.touch k).2 := by
  refine ⟨h.left.touch k, h.right.touch k, ?_⟩
  rw [h.right.toList_touch, h.left.toList_touch, h.toList_eq]

/-- Like queues are alike after the same removal. -/
theorem remove (h : q.Like q') (k : K) : (q.remove k).2.Like (q'.remove k).2 := by
  refine ⟨h.left.remove k, h.right.remove k, ?_⟩
  rw [h.right.toList_remove, h.left.toList_remove, h.toList_eq]

/-- Like queues pop the same key. -/
theorem popFront_fst (h : q.Like q') : q'.popFront.1 = q.popFront.1 := by
  rw [h.right.popFront_fst, h.left.popFront_fst, h.toList_eq]

/-- Like queues are alike after a pop. -/
theorem popFront (h : q.Like q') : q.popFront.2.Like q'.popFront.2 := by
  refine ⟨h.left.popFront, h.right.popFront, ?_⟩
  rw [h.right.toList_popFront, h.left.toList_popFront, h.toList_eq]

/-- The same key is taken out of both, or none. -/
theorem exists_popFront (h : q.Like q') : ∃ k? r r', q.popFront = (k?, r) ∧ q'.popFront = (k?, r') ∧
    r.Like r' := by
  refine ⟨q.popFront.1, q.popFront.2, q'.popFront.2, rfl, ?_, h.popFront⟩
  rw [← h.popFront_fst]

end Like
end SequenceQueue

/-- Queues that list the same keys. -/
def Lru.likeness : (Strategy.lru K).Likeness where
  Like s s' := s.queue.Like s'.queue
  push k h := h.pushBack k
  access k h := h.touch k
  remove k h := h.remove k
  pop_fst _ h := h.popFront_fst
  pop_shared _ _ := rfl
  pop _ h := h.popFront
  clear _ := SequenceQueue.like_clear _ _
  size h := h.size_eq
  patience _ _ h := h.size_eq

/-- Queues that list the same keys. -/
def Fifo.likeness : (Strategy.fifo K).Likeness where
  Like s s' := s.queue.Like s'.queue
  push k h := h.pushBack k
  access _ h := h
  remove k h := h.remove k
  pop_fst _ h := h.popFront_fst
  pop_shared _ _ := rfl
  pop _ h := h.popFront
  clear _ := SequenceQueue.like_clear _ _
  size h := h.size_eq
  patience _ _ h := h.size_eq

/-! ### Slots -/

namespace Unordered

variable {s s' : Unordered K}

/-- The same keys stand in the same slots, and the index is in step in both. -/
structure Like (s s' : Unordered K) : Prop where
  left : s.Sound
  right : s'.Sound
  slots_eq : s'.slots = s.slots

namespace Like

/-- The index of a state that is in step is told by the slots. -/
theorem get?_eq (h : s.Like s') (k : K) : s'.index.get? k = s.index.get? k := by
  refine Option.ext fun i => ?_
  rw [h.right.index_iff, h.left.index_iff, h.slots_eq]

/-- As many keys stand in the slots. -/
theorem size_eq (h : s.Like s') : s'.size = s.size := by
  rw [Unordered.size, Unordered.size, h.slots_eq]

/-- A key comes in in both, or was there in both. -/
theorem push (h : s.Like s') (k : K) : (s.push k).Like (s'.push k) := by
  refine ⟨h.left.push k, h.right.push k, ?_⟩
  have hcontains : s'.index.contains k = s.index.contains k := congrArg Option.isSome (h.get?_eq k)
  unfold Unordered.push
  rw [hcontains]
  split
  · exact h.slots_eq
  · exact congrArg (Array.push · k) h.slots_eq

/-- The same slot is emptied and filled again in both. -/
theorem remove (h : s.Like s') (k : K) : (s.remove k).Like (s'.remove k) := by
  refine ⟨h.left.remove k, h.right.remove k, ?_⟩
  unfold Unordered.remove
  rw [h.get?_eq k]
  cases s.index.get? k with
  | none => exact h.slots_eq
  | some i =>
    simp only [h.slots_eq]
    cases (swapRemove s.slots i)[i]? <;> rfl

/-- The same key is the victim. -/
theorem pop_fst (h : s.Like s') : s'.pop.1 = s.pop.1 := by
  rw [Unordered.pop_fst, Unordered.pop_fst, row, row, h.slots_eq]

/-- The last slot is emptied in both. -/
theorem pop (h : s.Like s') : s.pop.2.Like s'.pop.2 := by
  refine ⟨h.left.pop, h.right.pop, ?_⟩
  unfold Unordered.pop
  rw [h.slots_eq]
  split
  · exact h.slots_eq
  · rfl

end Like

/-- States without keys are like each other. -/
theorem like_init : (init : Unordered K).Like init := ⟨sound_init, sound_init, rfl⟩

/-- The same keys in the same slots. -/
def likeness : (Strategy.unordered K).Likeness where
  Like := Like
  push k h := h.push k
  access _ h := h
  remove k h := h.remove k
  pop_fst _ h := h.pop_fst
  pop_shared _ _ := rfl
  pop _ h := h.pop
  clear _ := like_init
  size h := h.size_eq
  patience _ _ h := h.size_eq

end Unordered
end ClusterCache
