/-
# A strategy is a set of keys

Whoever only looks at which keys a strategy names cannot tell the strategies that know the keys of
their shard from a set: a key that is pushed comes in, one that is removed or named goes out, and
nothing else makes a difference (`Strategy.serve`).  What the strategies know beyond that decides the
order in which the keys are named, but not which ones are (`Bounding.residents_exact`).

Each of them can list its residents without repetition, and counts them right
(`Bounding.exists_residents`).  The queues and the row are such lists; of the strategy with ghosts it
is the hot keys and the cold queue together.
-/

import Mathlib.Data.Finset.Card
import ClusterCache.Proofs.Cache.Shard
import ClusterCache.Proofs.Eviction.Lirs.Slots

namespace ClusterCache

variable {K : Type} [DecidableEq K] {S : Strategy K}

namespace Strategy

/-- What a strategy is told or asked. -/
inductive Request (S : Strategy K) where
  | push (k : K)
  | access (k : K)
  | remove (k : K)
  /-- It is asked for a victim, while the shards together remember `sh`. -/
  | pop (sh : S.Shared)
  | clear

/-- What a request does to a state, and to a set of keys that knows the requests and the victims
alone. -/
def serve (S : Strategy K) : S.State × Finset K → S.Request → S.State × Finset K
  | (s, R), .push k => (S.push s k, insert k R)
  | (s, R), .access k => (S.access s k, R)
  | (s, R), .remove k => (S.remove s k, R.erase k)
  | (s, R), .pop sh =>
    match S.pop sh s with
    | (some k, _, s) => (s, R.erase k)
    | (none, _, s) => (s, R)
  | (s, _), .clear => (S.clear s, ∅)

/-- Asked again and again, a strategy names these keys, and then none. -/
inductive Drains (S : Strategy K) : S.Shared → S.State → List K → Prop
  | done {sh sh' : S.Shared} {s s' : S.State} : S.pop sh s = (none, sh', s') → Drains S sh s []
  | next {sh sh' : S.Shared} {s s' : S.State} {k : K} {ks : List K} :
      S.pop sh s = (some k, sh', s') → Drains S sh' s' ks → Drains S sh s (k :: ks)

namespace Tracking

variable {T : S.Tracking} {s : S.State} {R : Finset K}

/-- The residents of a state are the members of a set. -/
structure Shows (T : S.Tracking) (s : S.State) (R : Finset K) : Prop where
  sound : T.Sound s
  resident_iff : ∀ a, T.Resident s a ↔ a ∈ R

/-- **Every request does to the residents what it does to the set.** -/
theorem Shows.serve (h : T.Shows s R) (q : S.Request) :
    T.Shows (S.serve (s, R) q).1 (S.serve (s, R) q).2 := by
  cases q with
  | push k =>
    refine ⟨T.sound_push k h.sound, fun a => ?_⟩
    show T.Resident (S.push s k) a ↔ a ∈ insert k R
    rw [T.resident_push h.sound, h.resident_iff, Finset.mem_insert]
  | access k =>
    exact ⟨T.sound_access k h.sound, fun a => (T.resident_access h.sound).trans (h.resident_iff a)⟩
  | remove k =>
    refine ⟨T.sound_remove k h.sound, fun a => ?_⟩
    show T.Resident (S.remove s k) a ↔ a ∈ R.erase k
    rw [T.resident_remove h.sound, h.resident_iff, Finset.mem_erase]
  | pop sh =>
    have hsound := T.sound_pop sh h.sound
    have hpop := fun a => T.resident_pop (a := a) sh h.sound
    simp only [Strategy.serve]
    rcases hp : S.pop sh s with ⟨_ | k, sh', s'⟩ <;> rw [hp] at hsound hpop
    · refine ⟨hsound, fun a => (hpop a).trans ?_⟩
      rw [h.resident_iff]
      exact and_iff_right nofun
    · have hnamed : ∀ a, some k ≠ some a ↔ a ≠ k := fun a =>
        not_congr ⟨fun he => (Option.some.inj he).symm, fun he => congrArg some he.symm⟩
      refine ⟨hsound, fun a => (hpop a).trans ?_⟩
      rw [h.resident_iff, Finset.mem_erase]
      exact and_congr_left fun _ => hnamed a
  | clear =>
    exact ⟨T.sound_clear s, fun a => iff_of_false (T.not_resident_clear s a) (Finset.notMem_empty a)⟩

/-- Whatever a strategy is asked, it shows the set that is led beside it. -/
theorem Shows.run (h : T.Shows s R) (requests : List S.Request) :
    T.Shows (requests.foldl S.serve (s, R)).1 (requests.foldl S.serve (s, R)).2 := by
  induction requests generalizing s R with
  | nil => exact h
  | cons q rest ih => exact ih (h.serve q)

omit [DecidableEq K] in
/-- None is named exactly if the set is empty. -/
theorem Shows.pop_eq_none_iff (h : T.Shows s R) (sh : S.Shared) :
    (S.pop sh s).1 = none ↔ R = ∅ := by
  constructor
  · intro hnone
    refine Finset.eq_empty_of_forall_notMem fun a ha => ?_
    have hresident : T.Resident s a := (h.resident_iff a).2 ha
    exact T.pop_none sh h.sound hnone a hresident
  · rintro rfl
    cases hp : (S.pop sh s).1 with
    | none => rfl
    | some k =>
      have hresident : T.Resident s k := T.pop_resident sh h.sound hp
      exact absurd ((h.resident_iff k).1 hresident) (Finset.notMem_empty k)

omit [DecidableEq K] in
/-- The key that is named is in the set. -/
theorem Shows.mem_of_pop (h : T.Shows s R) {sh : S.Shared} {k : K}
    (hp : (S.pop sh s).1 = some k) : k ∈ R :=
  (h.resident_iff k).1 (T.pop_resident sh h.sound hp)

/-- What is left after a key was named is the set without the key. -/
theorem Shows.of_pop (h : T.Shows s R) {sh sh' : S.Shared} {s' : S.State} {k : K}
    (hp : S.pop sh s = (some k, sh', s')) : T.Shows s' (R.erase k) := by
  have hshows := h.serve (.pop sh)
  simp only [Strategy.serve, hp] at hshows
  exact hshows

/-- **Draining names every member of the set once.** -/
theorem Shows.of_drains (h : T.Shows s R) {sh : S.Shared} {ks : List K} (hd : S.Drains sh s ks) :
    ks.Nodup ∧ ks.toFinset = R := by
  induction hd generalizing R with
  | done hp =>
    have hnobody := (h.pop_eq_none_iff _).1 (by rw [hp])
    exact ⟨List.nodup_nil, hnobody.symm⟩
  | @next sh sh' s s' k ks hp _ ih =>
    have hk : k ∈ R := h.mem_of_pop (by rw [hp])
    obtain ⟨hnodup, hset⟩ := ih (h.of_pop hp)
    constructor
    · refine List.nodup_cons.2 ⟨fun hmem => ?_, hnodup⟩
      rw [← List.mem_toFinset, hset] at hmem
      exact Finset.notMem_erase k R hmem
    · rw [List.toFinset_cons, hset, Finset.insert_erase hk]

/-- Draining comes to an end, since every key that is named leaves one less. -/
theorem Shows.exists_drains (h : T.Shows s R) (sh : S.Shared) : ∃ ks, S.Drains sh s ks := by
  induction hn : R.card generalizing s R sh with
  | zero =>
    have hnone := (h.pop_eq_none_iff sh).2 (Finset.card_eq_zero.1 hn)
    rcases hp : S.pop sh s with ⟨k?, sh', s'⟩
    rw [hp] at hnone
    obtain rfl : k? = none := hnone
    exact ⟨[], .done hp⟩
  | succ n ih =>
    rcases hp : S.pop sh s with ⟨_ | k, sh', s'⟩
    · exact ⟨[], .done hp⟩
    · have hk : k ∈ R := h.mem_of_pop (by rw [hp])
      have hcard := Finset.card_erase_of_mem hk
      obtain ⟨ks, hks⟩ := ih (h.of_pop hp) sh' (by omega)
      exact ⟨k :: ks, .next hp hks⟩

end Tracking
end Strategy

namespace Bounding

variable [Hashable K]

/-- The states that a strategy may begin with, whatever there is room for. -/
inductive Begins : {S : Strategy K} → Bounding K S → S.State → Prop
  | lru : Begins .lru (Lru.init : Lru K)
  | lirs (ratio : Float) (capacity hotSlots : Nat) :
      Begins (.lirs ratio) (Lirs.init capacity hotSlots : Lirs K)
  | fifo : Begins .fifo (Fifo.init : Fifo K)
  | unordered : Begins .unordered (Unordered.init : Unordered K)

/-- A strategy begins without residents. -/
theorem Begins.shows {B : Bounding K S} {s : S.State} (h : B.Begins s) : B.tracking.Shows s ∅ := by
  have hout : ∀ {resident : K → Prop}, (∀ a, ¬ resident a) → ∀ a, resident a ↔ a ∈ (∅ : Finset K) :=
    fun hnobody a => iff_of_false (hnobody a) (Finset.notMem_empty a)
  cases h with
  | lru => exact ⟨SequenceQueue.coherent_empty, hout fun _ => List.not_mem_nil⟩
  | lirs ratio capacity hotSlots =>
    have hnobody : ∀ a, ¬ Lirs.Resident (Lirs.init (K := K) capacity hotSlots) a := by
      simp [Lirs.Resident, Lirs.init]
    exact ⟨Lirs.sound_init capacity hotSlots, hout hnobody⟩
  | fifo => exact ⟨SequenceQueue.coherent_empty, hout fun _ => List.not_mem_nil⟩
  | unordered => exact ⟨Unordered.tracking.sound_init 0, hout fun _ => List.not_mem_nil⟩

/-- **Residents can be listed, and are counted right.** -/
theorem exists_residents (B : Bounding K S) {s : S.State} (hs : B.tracking.Sound s) :
    ∃ l : List K, l.Nodup ∧ (∀ a, a ∈ l ↔ B.tracking.Resident s a) ∧ S.size s = l.length := by
  cases B with
  | lru =>
    have hs : SequenceQueue.Coherent s.queue := hs
    exact ⟨s.queue.toList, hs.nodup_toList, fun _ => Iff.rfl, s.queue.size_eq_length⟩
  | lirs ratio =>
    have hs : Lirs.Sound s := hs
    refine ⟨_, hs.nodup_held, fun _ => hs.mem_held_iff, ?_⟩
    rw [hs.length_held, ← SequenceQueue.size_eq_length]
    rfl
  | fifo =>
    have hs : SequenceQueue.Coherent s.queue := hs
    exact ⟨s.queue.toList, hs.nodup_toList, fun _ => Iff.rfl, s.queue.size_eq_length⟩
  | unordered =>
    have hs : Unordered.Sound s := hs
    exact ⟨s.row, hs.nodup_row, fun _ => Iff.rfl, Unordered.size_eq_length_row s⟩

/-- The residents make up a set of the size that the strategy reports. -/
theorem exists_shows (B : Bounding K S) {s : S.State} (hs : B.tracking.Sound s) :
    ∃ R, B.tracking.Shows s R ∧ R.card = S.size s := by
  obtain ⟨l, hnodup, hmem, hsize⟩ := B.exists_residents hs
  refine ⟨l.toFinset, ⟨hs, fun a => ?_⟩, ?_⟩
  · rw [List.mem_toFinset, hmem]
  · rw [List.toFinset_card_of_nodup hnodup, hsize]

/-- **A strategy is the set of its residents.**  Whatever it is told and asked, let a set begin empty,
take in every key that is pushed, lose every key that is removed or named and all of them when the
strategy is cleared.  Then the strategy counts as many keys as the set has; it names a member of the
set, or none exactly if the set is empty; and asked until it names none it comes to an end, having
named every member once and no other key. -/
theorem residents_exact (B : Bounding K S) {s₀ s : S.State} (h₀ : B.Begins s₀)
    (requests : List S.Request) {R : Finset K} (hrun : requests.foldl S.serve (s₀, ∅) = (s, R)) :
    S.size s = R.card ∧
    (∀ sh, ((S.pop sh s).1 = none ↔ R = ∅) ∧ ∀ k, (S.pop sh s).1 = some k → k ∈ R) ∧
    ∀ sh, (∃ ks, S.Drains sh s ks) ∧ ∀ ks, S.Drains sh s ks → ks.Nodup ∧ ks.toFinset = R := by
  have hshows := h₀.shows.run requests
  rw [hrun] at hshows
  refine ⟨?_, fun sh => ⟨hshows.pop_eq_none_iff sh, fun k => hshows.mem_of_pop⟩,
    fun sh => ⟨hshows.exists_drains sh, fun ks => hshows.of_drains⟩⟩
  obtain ⟨R', hshows', hcard⟩ := B.exists_shows hshows.sound
  have hset : R' = R := by
    ext a
    rw [← hshows'.resident_iff, hshows.resident_iff]
  rw [← hcard, hset]

/-- Of keys 1, 2 and 3, of which 1 is hot, 2 is named and stays behind as a ghost, comes back hot, and
makes 1 cold, which is then removed.  And of keys in slots, 1 leaves its slot to 5, which is pushed
again there and then removed itself. -/
theorem residents_exact_ghost :
    (let S := Strategy.lirs Nat 0.5
    let p := List.foldl S.serve (Lirs.init 3 1, ∅) [
      .push 1, .push 2, .push 3, .pop (), .access 2, .push 2, .remove 1, .remove 7]
    p.2 = {2, 3} ∧ S.size p.1 = p.2.card ∧
    (∀ sh, ((S.pop sh p.1).1 = none ↔ p.2 = ∅) ∧ ∀ k, (S.pop sh p.1).1 = some k → k ∈ p.2) ∧
    ∀ sh, (∃ ks, S.Drains sh p.1 ks) ∧
      ∀ ks, S.Drains sh p.1 ks → ks.Nodup ∧ ks.toFinset = p.2) ∧
    let S := Strategy.unordered Nat
    let p := List.foldl S.serve (Unordered.init, ∅) [
      .push 0, .push 1, .push 2, .push 3, .push 4, .push 5, .remove 1, .push 5, .remove 5, .pop ()]
    p.2 = {0, 2, 4} ∧ S.size p.1 = p.2.card ∧
    (∀ sh, ((S.pop sh p.1).1 = none ↔ p.2 = ∅) ∧ ∀ k, (S.pop sh p.1).1 = some k → k ∈ p.2) ∧
    ∀ sh, (∃ ks, S.Drains sh p.1 ks) ∧
      ∀ ks, S.Drains sh p.1 ks → ks.Nodup ∧ ks.toFinset = p.2 :=
  ⟨⟨by decide +kernel, residents_exact (.lirs 0.5) (.lirs 0.5 3 1) _ Prod.mk.eta.symm⟩,
    ⟨by decide +kernel, residents_exact .unordered .unordered _ Prod.mk.eta.symm⟩⟩

end Bounding
end ClusterCache
