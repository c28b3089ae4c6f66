/-
# Strategies that come to the point

A shard asks its strategy again whenever a key is named that it does not hold.  This goes on until a
key is named that it holds, or none, and it may never end: nothing is asked of a strategy but that it
answers.  A strategy is *patient* if the number of keys that it declares is enough, whatever a shard
went through with it (`Strategy.Patient`).

Every strategy of which such numbers exist is patient with other numbers in their place
(`Strategy.exists_patient`).  All the strategies here are: the one without a bound because it names
none (`Strategy.patient_unbounded`), those that know their keys because each question leaves them one
key less (`Bounding.patient`), and the one behind a gate because there are only so many phantoms
(`Strategy.patient_gated`).
-/

import ClusterCache.Eviction.Gated
import ClusterCache.Eviction.Unbounded
import ClusterCache.Proofs.Eviction.Residents

namespace ClusterCache

variable {K : Type} {S : Strategy K}

namespace Strategy

/-- Asked again and again, a strategy names at most `n` keys before one that is held, or none. -/
inductive SettlesWithin (S : Strategy K) (held : K → Bool) : Nat → S.Shared → S.State → Prop
  | refuse {n : Nat} {sh sh' : S.Shared} {s s' : S.State} : S.pop sh s = (none, sh', s') →
      SettlesWithin S held n sh s
  | name {n : Nat} {sh sh' : S.Shared} {s s' : S.State} {k : K} : S.pop sh s = (some k, sh', s') →
      held k = true → SettlesWithin S held n sh s
  | pass {n : Nat} {sh sh' : S.Shared} {s s' : S.State} {k : K} : S.pop sh s = (some k, sh', s') →
      SettlesWithin S held n sh' s' → SettlesWithin S held (n + 1) sh s

/-- A shard may hold these keys while its strategy remembers `s`: the strategy was told of every key
that came in, was used or was taken out, and of no others, and whatever it named is not held any
more. -/
inductive Serves (S : Strategy K) : (K → Bool) → S.State → Prop
  | init (capacity : Nat) : Serves S (fun _ => false) (S.init capacity)
  | push {held held' : K → Bool} {s : S.State} {k : K} : Serves S held s → held k = false →
      (∀ a, held' a = true ↔ a = k ∨ held a = true) → Serves S held' (S.push s k)
  | access {held : K → Bool} {s : S.State} {k : K} : Serves S held s → held k = true →
      Serves S held (S.access s k)
  | remove {held held' : K → Bool} {s : S.State} {k : K} : Serves S held s → held k = true →
      (∀ a, held' a = true ↔ a ≠ k ∧ held a = true) → Serves S held' (S.remove s k)
  | pop {held held' : K → Bool} {s : S.State} (sh : S.Shared) : Serves S held s →
      (∀ a, held' a = true ↔ (S.pop sh s).1 ≠ some a ∧ held a = true) →
      Serves S held' (S.pop sh s).2.2
  | clear {held : K → Bool} {s : S.State} : Serves S held s →
      Serves S (fun _ => false) (S.clear s)

/-- It does not matter how the stored keys are told from the others. -/
theorem Serves.congr {held held' : K → Bool} {s : S.State} (h : S.Serves held s)
    (heq : ∀ a, held' a = true ↔ held a = true) : S.Serves held' s := by
  obtain rfl : held' = held := funext fun a => Bool.eq_iff_iff.2 (heq a)
  exact h

/-- A strategy never names more keys that its shard does not hold than it declares. -/
def Patient (S : Strategy K) : Prop :=
  ∀ held sh s, S.Serves held s → S.SettlesWithin held (S.patience held sh s) sh s

/-- The strategy that declares something else. -/
def withPatience (S : Strategy K) (patience : (K → Bool) → S.Shared → S.State → Nat) : Strategy K :=
  { S with patience }

section

variable {patience : (K → Bool) → S.Shared → S.State → Nat}

/-- What a strategy declares plays no part in what it remembers. -/
theorem serves_of_withPatience {held : K → Bool} {s : (S.withPatience patience).State}
    (h : (S.withPatience patience).Serves held s) : S.Serves held s := by
  induction h with
  | init capacity => exact .init capacity
  | push _ hk heq ih => exact .push ih hk heq
  | access _ hk ih => exact .access ih hk
  | remove _ hk heq ih => exact .remove ih hk heq
  | @pop held held' s sh _ heq ih => exact @Serves.pop _ S held held' s sh ih heq
  | clear _ ih => exact .clear ih

/-- How long a strategy is asked does not change how soon it settles. -/
theorem SettlesWithin.withPatience {held : K → Bool} {n : Nat} {sh : S.Shared} {s : S.State}
    (h : S.SettlesWithin held n sh s) : (S.withPatience patience).SettlesWithin held n sh s := by
  induction h with
  | refuse hp => exact .refuse hp
  | name hp hk => exact .name hp hk
  | pass hp _ ih => exact .pass hp ih

end

/-- **A strategy that comes to the point sooner or later can be given enough patience.** -/
theorem exists_patient (h : ∀ held sh s, S.Serves held s → ∃ n, S.SettlesWithin held n sh s) :
    ∃ patience, (S.withPatience patience).Patient := by
  classical
  refine ⟨fun held sh s => if hn : ∃ n, S.SettlesWithin held n sh s then hn.choose else 0,
    fun held sh s hs => ?_⟩
  have hn := h held sh s (serves_of_withPatience hs)
  have hpatience : (S.withPatience fun held sh s =>
      if hn : ∃ n, S.SettlesWithin held n sh s then hn.choose else 0).patience held sh s =
      hn.choose := dif_pos hn
  rw [hpatience]
  exact hn.choose_spec.withPatience

/-- Without a bound nothing is ever named, so nobody has to be patient. -/
theorem patient_unbounded (K : Type) : (unbounded K).Patient := fun _ _ _ _ => .refuse rfl

/-! ### Strategies that know their keys -/

/-- A state that was only served what a shard asks of it is sound. -/
theorem Tracking.sound_of_serves (T : S.Tracking) {held : K → Bool} {s : S.State}
    (h : S.Serves held s) : T.Sound s := by
  induction h with
  | init capacity => exact T.sound_init capacity
  | push _ _ _ ih => exact T.sound_push _ ih
  | access _ _ ih => exact T.sound_access _ ih
  | remove _ _ _ ih => exact T.sound_remove _ ih
  | pop sh _ _ ih => exact T.sound_pop sh ih
  | clear _ _ => exact T.sound_clear _

variable [DecidableEq K]

/-- Each question leaves one resident less, so a strategy names no more keys than it has residents. -/
theorem Tracking.Shows.settlesWithin {T : S.Tracking} {s : S.State} {R : Finset K}
    (h : T.Shows s R) {n : Nat} (hn : R.card ≤ n) (held : K → Bool) (sh : S.Shared) :
    S.SettlesWithin held n sh s := by
  induction n generalizing s R sh with
  | zero =>
    have hnone := (h.pop_eq_none_iff sh).2 (Finset.card_eq_zero.1 (Nat.le_zero.1 hn))
    rcases hp : S.pop sh s with ⟨k?, sh', s'⟩
    rw [hp] at hnone
    obtain rfl : k? = none := hnone
    exact .refuse hp
  | succ n ih =>
    rcases hp : S.pop sh s with ⟨_ | k, sh', s'⟩
    · exact .refuse hp
    · have hk : k ∈ R := h.mem_of_pop (by rw [hp])
      have hcard := Finset.card_erase_of_mem hk
      exact .pass hp (ih (h.of_pop hp) (by omega) sh')

end Strategy

variable [DecidableEq K] [Hashable K]

namespace Bounding

/-- What these strategies declare is the number of their residents. -/
theorem patience_eq (B : Bounding K S) (held : K → Bool) (sh : S.Shared) (s : S.State) :
    S.patience held sh s = S.size s := by
  cases B <;> rfl

/-- A strategy that bounds a shard is patient: it names each of its keys once. -/
theorem patient (B : Bounding K S) : S.Patient := by
  intro held sh s hs
  obtain ⟨R, hshows, hcard⟩ := B.exists_shows (B.tracking.sound_of_serves hs)
  rw [B.patience_eq, ← hcard]
  exact hshows.settlesWithin Nat.le.refl held sh

end Bounding

/-! ### A strategy that invents keys -/

namespace Strategy

/-- Behind a gate the queue is as sound as without one. -/
theorem sound_of_serves_gated {held : K → Bool} {s : (gated K).State}
    (h : (gated K).Serves held s) : Fifo.tracking.Sound s := by
  induction h with
  | init capacity => exact Fifo.tracking.sound_init capacity
  | push _ _ _ ih => exact Fifo.tracking.sound_push _ ih
  | access _ _ ih => exact Fifo.tracking.sound_access _ ih
  | remove _ _ _ ih => exact Fifo.tracking.sound_remove _ ih
  | pop gate _ _ ih =>
    simp only [gated]
    split
    · exact ih
    · split
      · exact ih
      · exact Fifo.tracking.sound_pop () ih
  | clear _ _ => exact Fifo.tracking.sound_clear _

/-- Each question leaves one phantom or one key of the queue less. -/
theorem Tracking.Shows.of_pop_gated {s s' : Fifo K} {R : Finset K} (h : Fifo.tracking.Shows s R)
    {gate gate' : Gate K} {k : K} (hp : (gated K).pop gate s = (some k, gate', s')) :
    ∃ R', Fifo.tracking.Shows s' R' ∧
      gate'.phantoms.length + R'.card + 1 = gate.phantoms.length + R.card := by
  simp only [gated] at hp
  split at hp
  · cases hp
  · split at hp
    · rename_i phantom hlast
      have hpos : gate.phantoms ≠ [] := fun hnil => by
        rw [hnil] at hlast
        cases hlast
      have hlength := List.length_pos_iff.2 hpos
      cases hp
      refine ⟨R, h, ?_⟩
      rw [List.length_dropLast]
      omega
    · rcases hq : s.pop with ⟨k?, s₁⟩
      rw [hq] at hp
      cases hp
      have hfifo : (fifo K).pop () s = (some k, (), s₁) := by
        show (s.pop.1, (), s.pop.2) = _
        rw [hq]
      have hcard := Finset.card_erase_add_one (h.mem_of_pop (congrArg Prod.fst hfifo))
      exact ⟨R.erase k, h.of_pop hfifo, by omega⟩

/-- A gated queue settles once its phantoms and its residents are named. -/
theorem settlesWithin_gated {s : Fifo K} {R : Finset K} (h : Fifo.tracking.Shows s R) {gate : Gate K}
    {n : Nat} (hn : gate.phantoms.length + R.card ≤ n) (held : K → Bool) :
    (gated K).SettlesWithin held n gate s := by
  induction n generalizing s R gate with
  | zero =>
    rcases hp : (gated K).pop gate s with ⟨_ | k, gate', s'⟩
    · exact .refuse hp
    · obtain ⟨R', -, hless⟩ := h.of_pop_gated hp
      omega
  | succ n ih =>
    rcases hp : (gated K).pop gate s with ⟨_ | k, gate', s'⟩
    · exact .refuse hp
    · obtain ⟨R', hshows, hless⟩ := h.of_pop_gated hp
      have hleft : gate'.phantoms.length + R'.card ≤ n := by omega
      exact .pass hp (ih hshows hleft)

/-- A gated queue is patient, phantoms included. -/
theorem patient_gated : (gated K).Patient := by
  intro held gate s hs
  have hsound := sound_of_serves_gated hs
  obtain ⟨R, hshows, hcard⟩ := Bounding.fifo.exists_shows hsound
  have hpatience : gate.phantoms.length + R.card = (gated K).patience held gate s :=
    congrArg (gate.phantoms.length + ·) hcard
  exact settlesWithin_gated hshows (Nat.le_of_eq hpatience) held

end Strategy
end ClusterCache
