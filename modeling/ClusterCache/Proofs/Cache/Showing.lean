/-
# What is seen of a call

Whoever makes a call sees its answer, hears of departures, and may ask how many records there are and
what the counters say (`Showing`).  Two showings are alike if all that is the same, where records are
compared by what a function `f` leaves of them, such as all but the hash of the key
(`Record.unhashed`), and the departures of one clearing, which has no order, may come in any order
(`Showing.Alike`).

If two systems are related, and a call shows the same on related systems and leaves them related, then
all calls show the same, one after another (`forall₂_showings`).
-/

import ClusterCache.Proofs.Cache.Order

namespace ClusterCache

/-! ### Showings -/

section

variable {K V : Type} {f : Record K V → Record K V}

/-- The record without the hash of its key. -/
def Record.unhashed (r : Record K V) : Record K V := { r with hash := 0 }

/-- The record without its number. -/
def Record.unnumbered (r : Record K V) : Record K V := { r with serial := 0 }

/-- There are two records or none, and `f` does not tell them apart. -/
theorem Record.cases_of_map_eq {o o' : Option (Record K V)} (h : o.map f = o'.map f) :
    (o = none ∧ o' = none) ∨ ∃ r r', o = some r ∧ o' = some r' ∧ f r = f r' := by
  cases o with
  | none => exact Or.inl ⟨rfl, Option.map_eq_none_iff.1 h.symm⟩
  | some r =>
    obtain ⟨r', hr', hf⟩ := Option.map_eq_some_iff.1 h.symm
    exact Or.inr ⟨r, r', rfl, hr', hf.symm⟩

/-- The answer with other records. -/
def Answer.map (f : Record K V → Record K V) : Answer K V → Answer K V
  | .stored r => .stored (f r)
  | .found r => .found (r.map f)
  | .flag b => .flag b
  | .count n => .count n
  | .done => .done

/-- An answer seen as it is stays as it is. -/
theorem Answer.map_id (a : Answer K V) : a.map id = a := by
  cases a with
  | found r => exact congrArg Answer.found (Option.map_id_apply (x := r))
  | stored | flag | count | done => rfl

namespace Departure

/-- The departure with another record. -/
def map (f : Record K V → Record K V) (d : Departure K V) : Departure K V := ⟨d.reason, f d.record⟩

/-- The same records leave for the same reasons, and in the same order but for clearings. -/
structure Alike (f : Record K V → Record K V) (ds ds' : List (Departure K V)) : Prop where
  perm : (ds.map (map f)).Perm (ds'.map (map f))
  order : (ds.map (map f)).filter (·.reason ≠ .clear) = (ds'.map (map f)).filter (·.reason ≠ .clear)

namespace Alike

variable {ds ds' ds'' : List (Departure K V)}

/-- What is told of the same records in the same order is told alike. -/
theorem of_map_eq (h : ds.map (map f) = ds'.map (map f)) : Alike f ds ds' :=
  ⟨h ▸ .refl _, by rw [h]⟩

/-- What is told alike is so from either side. -/
theorem symm (h : Alike f ds ds') : Alike f ds' ds := ⟨h.perm.symm, h.order.symm⟩

/-- What is told alike twice over is told alike. -/
theorem trans (h : Alike f ds ds') (h' : Alike f ds' ds'') : Alike f ds ds'' :=
  ⟨h.perm.trans h'.perm, h.order.trans h'.order⟩

/-- Departures of some records are seen as departures of what is seen of them. -/
theorem map_departures (f : Record K V → Record K V) (reason : Reason) (rs : List (Record K V)) :
    (Cache.departures reason rs).map (map f) = Cache.departures reason (rs.map f) := by
  rw [Cache.departures, Cache.departures, List.map_map, List.map_map]
  rfl

/-- Records that leave one by one for the same reason, in the same order. -/
theorem departures (reason : Reason) {rs rs' : List (Record K V)} (h : rs.map f = rs'.map f) :
    Alike f (Cache.departures reason rs) (Cache.departures reason rs') :=
  of_map_eq (by rw [map_departures, map_departures, h])

/-- A clearing has no order. -/
theorem clearing {rs rs' : List (Record K V)} (h : (rs.map f).Perm (rs'.map f)) :
    Alike f (Cache.departures .clear rs) (Cache.departures .clear rs') := by
  have hnone : ∀ rs : List (Record K V),
      (Cache.departures .clear rs).filter (·.reason ≠ .clear) = [] := fun rs => by
    refine List.filter_eq_nil_iff.2 fun d hd => ?_
    simp [(Cache.mem_departures_iff.1 hd).1]
  constructor
  · rw [map_departures, map_departures]
    exact h.map _
  · rw [map_departures, map_departures, hnone, hnone]

end Alike
end Departure

/-- What is seen of a call. -/
structure Showing (K V : Type) where
  answer : Answer K V
  /-- The departures told, the earliest first. -/
  told : List (Departure K V)
  /-- How many records there are afterwards. -/
  size : Nat
  /-- The counters afterwards. -/
  metrics : Metrics

/-- Two calls show the same: the records that are seen are the same as far as `f` tells, and the
counters are related by `M`. -/
structure Showing.Alike (f : Record K V → Record K V) (M : Metrics → Metrics → Prop)
    (a b : Showing K V) : Prop where
  answer : a.answer.map f = b.answer.map f
  told : Departure.Alike f a.told b.told
  size : a.size = b.size
  metrics : M a.metrics b.metrics

namespace Showing.Alike

variable {M M' M'' : Metrics → Metrics → Prop} {a b c : Showing K V}

/-- What is shown alike is so from either side. -/
theorem symm (h : Alike f Eq a b) : Alike f Eq b a :=
  ⟨h.answer.symm, h.told.symm, h.size.symm, h.metrics.symm⟩

/-- What is shown alike to something that shows the same up to `M` shows the same up to `M`. -/
theorem trans (h : Alike f Eq a b) (h' : Alike f M b c) : Alike f M a c :=
  ⟨h.answer.trans h'.answer, h.told.trans h'.told, h.size.trans h'.size, h.metrics ▸ h'.metrics⟩

/-- What shows the same up to `M` as something still does so as what is alike to that. -/
theorem trans_eq (h : Alike f M a b) (h' : Alike f Eq b c) : Alike f M a c :=
  ⟨h.answer.trans h'.answer, h.told.trans h'.told, h.size.trans h'.size, h'.metrics ▸ h.metrics⟩

/-- Whoever sees all of the records sees all that is left of them. -/
theorem of_id (h : Alike id Eq a b) (f : Record K V → Record K V) : Alike f Eq a b := by
  have hid : ∀ ds : List (Departure K V), ds.map (Departure.map id) = ds := List.map_id
  have hanswer := h.answer
  have hperm := h.told.perm
  have horder := h.told.order
  rw [Answer.map_id, Answer.map_id] at hanswer
  rw [hid, hid] at hperm horder
  have hreason : (fun d : Departure K V => decide (d.reason ≠ .clear)) ∘ Departure.map f =
      fun d => decide (d.reason ≠ .clear) := rfl
  refine ⟨by rw [hanswer], ⟨hperm.map _, ?_⟩, h.size, h.metrics⟩
  rw [List.filter_map, List.filter_map, hreason, horder]

end Showing.Alike
end

/-! ### One call after another -/

section

variable {K V σ σ' ι ι' : Type}

/-- What is seen of some calls, one after another. -/
def showings (respond : σ → ι → Showing K V × σ) : σ → List ι → List (Showing K V)
  | _, [] => []
  | s, x :: xs => (respond s x).1 :: showings respond (respond s x).2 xs

/-- What has become of a system after some calls. -/
def after (respond : σ → ι → Showing K V × σ) (s : σ) (xs : List ι) : σ :=
  xs.foldl (fun s x => (respond s x).2) s

/-- **Related systems show the same**, if every call shows the same on them and leaves them
related. -/
theorem forall₂_showings {respond : σ → ι → Showing K V × σ} {respond' : σ' → ι' → Showing K V × σ'}
    {R : σ → σ' → Prop} {A : Showing K V → Showing K V → Prop} (φ : ι → ι')
    (hstep : ∀ s s' x, R s s' →
      A (respond s x).1 (respond' s' (φ x)).1 ∧ R (respond s x).2 (respond' s' (φ x)).2)
    {s : σ} {s' : σ'} (h : R s s') (xs : List ι) :
    List.Forall₂ A (showings respond s xs) (showings respond' s' (xs.map φ)) := by
  induction xs generalizing s s' with
  | nil => exact .nil
  | cons x xs ih =>
    obtain ⟨hshow, hnext⟩ := hstep s s' x h
    exact .cons hshow (ih hnext)

end

/-! ### Caches and sessions -/

variable {K V : Type} [DecidableEq K] {S : Strategy K}

/-- A call on a cache that nobody listens to. -/
def Cache.respond (c : Cache S V) (x : Call S V) : Showing K V × Cache S V :=
  (⟨(c.perform x).1, (c.perform x).2.1, (c.perform x).2.2.size, (c.perform x).2.2.metrics⟩,
    (c.perform x).2.2)

namespace Session

variable {L : Listener S V}

/-- A call in a session. -/
def respond (s : Session L) (x : Call S V) : Showing K V × Session L :=
  (⟨(s.call x).1, (s.call x).2.since s.log.length, (s.call x).2.cache.size,
    (s.call x).2.cache.metrics⟩, (s.call x).2)

/-- A listener who makes no calls sees what is to be seen of the cache. -/
theorem respond_of_silent (hL : ∀ l d, (L.react l d).2 = []) (s : Session L) (x : Call S V) :
    (s.respond x).1 = (s.cache.respond x).1 ∧
      (s.respond x).2.cache = (s.cache.respond x).2 := by
  obtain ⟨hcache, hsince⟩ := call_of_silent hL s x
  refine ⟨?_, hcache⟩
  rw [respond, hsince, hcache]
  rfl

/-- Before a listener that does not call back, a session shows what its cache shows. -/
theorem showings_of_silent (hL : ∀ l d, (L.react l d).2 = []) (s : Session L)
    (xs : List (Call S V)) :
    showings respond s xs = showings Cache.respond s.cache xs ∧
      (after respond s xs).cache = after Cache.respond s.cache xs := by
  induction xs generalizing s with
  | nil => exact ⟨rfl, rfl⟩
  | cons x xs ih =>
    obtain ⟨hshow, hcache⟩ := respond_of_silent hL s x
    obtain ⟨hrest, hafter⟩ := ih (s.respond x).2
    have hlast : (after respond (s.respond x).2 xs).cache =
        after Cache.respond (s.cache.respond x).2 xs := by rw [hafter, hcache]
    refine ⟨?_, hlast⟩
    rw [showings, showings, hshow, hrest, hcache]

end Session
end ClusterCache
