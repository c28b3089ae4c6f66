/-
# Calls on a queue

Whoever calls a queue sees a list of distinct keys: a key that is put at the back leaves its old place,
a touch does the same to a key that is there, and the front is the head (`QueueCall.onList`).  The
replies to any calls one after another are those of the list, and so is what can be read afterwards
(`SequenceQueue.behaves_as_list`).

The same is true of a queue with numbers of 64 bits, for fewer calls than there are words.  A call
hands out one number at most, so the next one is never above the number of calls
(`SequenceQueue.Lockstep`).
-/

import Mathlib.Algebra.Group.Nat.Defs
import ClusterCache.Proofs.Eviction.SequenceQueue.Words

namespace ClusterCache

/-- What can be done to a queue. -/
inductive QueueCall (K : Type) where
  | pushBack (k : K)
  | touch (k : K)
  | remove (k : K)
  | popFront
  | clear

/-- What is seen of a call. -/
inductive QueueReply (K : Type) where
  | done
  /-- Whether the key was queued. -/
  | told (queued : Bool)
  /-- The key that was at the front, if there was one. -/
  | popped (k? : Option K)

/-- The replies to some calls, one after another, and the state that they leave; `step` is one call. -/
def replay {σ α β : Type} (step : σ → α → β × σ) (s : σ) : List α → List β × σ
  | [] => ([], s)
  | c :: rest => ((step s c).1 :: (replay step (step s c).2 rest).1, (replay step (step s c).2 rest).2)

section Calls

variable {K : Type} [DecidableEq K]

/-- What a call does to a list of keys, and the reply. -/
def QueueCall.onList (l : List K) : QueueCall K → QueueReply K × List K
  | .pushBack k => (.done, l.erase k ++ [k])
  | .touch k => (.told (decide (k ∈ l)), if k ∈ l then l.erase k ++ [k] else l)
  | .remove k => (.told (decide (k ∈ l)), l.erase k)
  | .popFront => (.popped l.head?, l.tail)
  | .clear => (.done, [])

variable [Hashable K]

/-- What a call does to a queue, and the reply. -/
def SequenceQueue.respond (q : SequenceQueue K) : QueueCall K → QueueReply K × SequenceQueue K
  | .pushBack k => (.done, q.pushBack k)
  | .touch k => (.told (q.touch k).1, (q.touch k).2)
  | .remove k => (.told (q.remove k).1, (q.remove k).2)
  | .popFront => (.popped q.popFront.1, q.popFront.2)
  | .clear => (.done, q.clear)

/-- What a call does to a queue with numbers of 64 bits, and the reply. -/
def WordQueue.respond (w : WordQueue K) : QueueCall K → QueueReply K × WordQueue K
  | .pushBack k => (.done, w.pushBack k)
  | .touch k => (.told (w.touch k).1, (w.touch k).2)
  | .remove k => (.told (w.remove k).1, (w.remove k).2)
  | .popFront => (.popped w.popFront.1, w.popFront.2)
  | .clear => (.done, w.clear)

end Calls

variable {K : Type} [DecidableEq K] [Hashable K] {n : Nat} {q : SequenceQueue K} {w : WordQueue K}
  {l : List K}

/-! ### One call -/

/-- A removal uses up no number. -/
theorem SequenceQueue.next_remove (q : SequenceQueue K) (k : K) : (q.remove k).2.next = q.next := by
  unfold remove
  split <;> rfl

/-- A pop uses up no number. -/
theorem SequenceQueue.next_popFront (q : SequenceQueue K) : q.popFront.2.next = q.next := by
  unfold popFront
  split <;> rfl

/-- A call hands out one number at most. -/
theorem SequenceQueue.next_respond_le (q : SequenceQueue K) (c : QueueCall K) :
    (q.respond c).2.next ≤ q.next + 1 := by
  cases c with
  | pushBack k => exact Nat.le_refl _
  | touch k =>
    show (q.touch k).2.next ≤ q.next + 1
    unfold touch
    split
    · exact Nat.le_refl _
    · exact Nat.le_succ _
  | remove k => exact Nat.le_succ_of_le (Nat.le_of_eq (q.next_remove k))
  | popFront => exact Nat.le_succ_of_le (Nat.le_of_eq q.next_popFront)
  | clear => exact Nat.le_succ _

/-- **A call does to the keys of a queue what it does to the list of them.** -/
theorem SequenceQueue.Coherent.respond (hq : q.Coherent) (c : QueueCall K) :
    (q.respond c).1 = (c.onList q.toList).1 ∧ (q.respond c).2.Coherent ∧
      (q.respond c).2.toList = (c.onList q.toList).2 := by
  cases c with
  | pushBack k => exact ⟨rfl, hq.pushBack k, hq.toList_pushBack k⟩
  | touch k =>
    have htold : (q.touch k).1 = decide (k ∈ q.toList) :=
      Bool.eq_iff_iff.2 ((hq.touch_fst k).trans decide_eq_true_iff.symm)
    exact ⟨congrArg QueueReply.told htold, hq.touch k, hq.toList_touch k⟩
  | remove k =>
    have htold : (q.remove k).1 = decide (k ∈ q.toList) :=
      Bool.eq_iff_iff.2 ((hq.remove_fst k).trans decide_eq_true_iff.symm)
    exact ⟨congrArg QueueReply.told htold, hq.remove k, hq.toList_remove k⟩
  | popFront => exact ⟨congrArg QueueReply.popped hq.popFront_fst, hq.popFront, hq.toList_popFront⟩
  | clear => exact ⟨rfl, coherent_clear q, toList_clear q⟩

/-- **A call does to a queue with words what it does to the queue that it tracks**, if there is a word
left. -/
theorem WordQueue.Tracks.respond (h : w.Tracks q) (hq : q.Coherent)
    (hroom : q.next + 1 < UInt64.size) (c : QueueCall K) :
    (w.respond c).1 = (q.respond c).1 ∧ (w.respond c).2.Tracks (q.respond c).2 := by
  cases c with
  | pushBack k => exact ⟨rfl, h.pushBack hroom k⟩
  | touch k =>
    obtain ⟨htold, htracks⟩ := h.touch hq hroom k
    exact ⟨congrArg QueueReply.told htold, htracks⟩
  | remove k =>
    obtain ⟨htold, htracks⟩ := h.remove k
    exact ⟨congrArg QueueReply.told htold, htracks⟩
  | popFront =>
    obtain ⟨hpopped, htracks⟩ := h.popFront hq
    exact ⟨congrArg QueueReply.popped hpopped, htracks⟩
  | clear => exact ⟨rfl, h.clear⟩

/-! ### All calls -/

/-- After `n` calls a queue lists the keys of the list, the next number is not above `n`, and the queue
with words has the same entries. -/
structure SequenceQueue.Lockstep (n : Nat) (q : SequenceQueue K) (w : WordQueue K) (l : List K) :
    Prop where
  coherent : q.Coherent
  toList_eq : q.toList = l
  next_le : q.next ≤ n
  tracks : w.Tracks q

namespace SequenceQueue.Lockstep

/-- All of them begin empty. -/
theorem start : Lockstep 0 (empty : SequenceQueue K) .empty [] :=
  ⟨coherent_empty, toList_empty, Nat.le_refl 0, WordQueue.tracks_empty⟩

/-- **One more call gets the same reply from all three**, and leaves them in lockstep. -/
theorem respond (h : Lockstep n q w l) (hroom : n + 1 < 2 ^ 64) (c : QueueCall K) :
    (q.respond c).1 = (c.onList l).1 ∧ (w.respond c).1 = (c.onList l).1 ∧
      Lockstep (n + 1) (q.respond c).2 (w.respond c).2 (c.onList l).2 := by
  obtain ⟨hcoherent, rfl, hnext, htracks⟩ := h
  have hword : q.next + 1 < UInt64.size := Nat.lt_of_le_of_lt (Nat.succ_le_succ hnext) hroom
  obtain ⟨hreply, hcoherent', hlist⟩ := hcoherent.respond c
  obtain ⟨hsame, htracks'⟩ := htracks.respond hcoherent hword c
  have hnext' := Nat.le_trans (q.next_respond_le c) (Nat.succ_le_succ hnext)
  exact ⟨hreply, hsame.trans hreply, hcoherent', hlist, hnext', htracks'⟩

/-- As long as the numbers fit a word, both queues answer every call as a list does, and stay in
lockstep with it. -/
theorem run (h : Lockstep n q w l) (calls : List (QueueCall K)) (hroom : n + calls.length < 2 ^ 64) :
    (replay SequenceQueue.respond q calls).1 = (replay QueueCall.onList l calls).1 ∧
      (replay WordQueue.respond w calls).1 = (replay QueueCall.onList l calls).1 ∧
      Lockstep (n + calls.length) (replay SequenceQueue.respond q calls).2
        (replay WordQueue.respond w calls).2 (replay QueueCall.onList l calls).2 := by
  induction calls generalizing n q w l with
  | nil => exact ⟨rfl, rfl, h⟩
  | cons c rest ih =>
    rw [List.length_cons] at hroom ⊢
    have hnow : n + 1 < 2 ^ 64 := by omega
    have hlater : n + 1 + rest.length < 2 ^ 64 := by omega
    obtain ⟨hq, hw, hnext⟩ := h.respond hnow c
    obtain ⟨hqs, hws, hend⟩ := ih hnext hlater
    rw [Nat.add_right_comm] at hend
    exact ⟨congrArg₂ List.cons hq hqs, congrArg₂ List.cons hw hws, hend⟩

end SequenceQueue.Lockstep

/-- **A queue is a list of distinct keys.**  Let fewer than 2⁶⁴ calls be made one after another, from
an empty queue on.  They get the replies that a list gets, be the numbers of the queue unbounded or words
of 64 bits.  What is queued afterwards is the list, in which no key comes twice: its head is the front,
its members are the keys that are found, and its length is the number of keys.  The two maps of the queue
are inverse to each other then, and all numbers in them are below the next one. -/
theorem SequenceQueue.behaves_as_list (calls : List (QueueCall K)) (hcalls : calls.length < 2 ^ 64) :
    let l := (replay QueueCall.onList [] calls).2
    let q := (replay SequenceQueue.respond .empty calls).2
    let w := (replay WordQueue.respond .empty calls).2
    (replay SequenceQueue.respond .empty calls).1 = (replay QueueCall.onList [] calls).1 ∧
    (replay WordQueue.respond .empty calls).1 = (replay QueueCall.onList [] calls).1 ∧
    l.Nodup ∧
    (q.toList = l ∧ q.front? = l.head? ∧ (∀ k, q.contains k = true ↔ k ∈ l) ∧ q.size = l.length) ∧
    (w.toList = l ∧ w.front? = l.head? ∧ (∀ k, w.contains k = true ↔ k ∈ l) ∧ w.size = l.length) ∧
    ((∀ n k, q.order[n]? = some k ↔ q.seqs.get? k = some n) ∧
      ∀ n k, q.order[n]? = some k → n < q.next) ∧
    (∀ n k, w.order[n]? = some k ↔ w.seqs.get? k = some n) ∧
      ∀ n k, w.order[n]? = some k → n < w.next := by
  intro l q w
  obtain ⟨hreplies, hwords, hend⟩ := Lockstep.start.run calls ((Nat.zero_add _).symm ▸ hcalls)
  obtain ⟨hq, hlist, -, hw⟩ : Lockstep (0 + calls.length) q w l := hend
  refine ⟨hreplies, hwords, hlist ▸ hq.nodup_toList, ⟨hlist, ?_, fun k => ?_, ?_⟩,
    ⟨?_, ?_, fun k => ?_, ?_⟩, ⟨hq.inverse, hq.fresh⟩, hw.inverse hq, fun n k => hw.fresh hq⟩
  · rw [q.front?_eq_head?, hlist]
  · rw [hq.contains_iff, hlist]
  · rw [q.size_eq_length, hlist]
  · rw [hw.toList_eq hq, hlist]
  · rw [hw.front?_eq hq, hlist]
  · rw [hw.contains_iff hq, hlist]
  · rw [hw.size_eq hq, hlist]

/-- Of three keys the first is touched and the second put at the back again; then the front is taken
out, and a key that is not there is touched and another one removed. -/
theorem SequenceQueue.behaves_as_list_moved :
    let calls : List (QueueCall Nat) :=
      [.pushBack 1, .pushBack 2, .pushBack 3, .touch 1, .pushBack 2, .popFront, .touch 3, .remove 1]
    calls.length < 2 ^ 64 ∧
    (replay WordQueue.respond .empty calls).1 =
      [.done, .done, .done, .told true, .done, .popped (some 3), .told false, .told true] ∧
    (replay SequenceQueue.respond .empty calls).2.toList = [2] := by
  intro calls
  have hcalls : calls.length < 2 ^ 64 := by decide
  obtain ⟨-, hwords, -, ⟨hlist, -⟩, -⟩ := behaves_as_list calls hcalls
  exact ⟨hcalls, hwords.trans rfl, hlist.trans rfl⟩

end ClusterCache
