/-
# What an acquisition answers

An acquisition that nobody interrupts asks for its keys in order.  As long as they are the requester's
or nobody's it goes on, and collects those that had no owner (`advance_append`).  At the first key of
another it stops.  So its answer can be told from the owners before it: it is granted if none of its
keys is another's, and then answers the keys that had no owner (`acquire_of_free`), or it is refused on
account of the first one that is another's, and leaves all owners as they were (`acquire_of_foreign`).

`acquire_whole_or_not` says so of every table that any calls may have led to, and what is read in the
fault.
-/

import ClusterCache.Proofs.Lock.Contention

namespace ClusterCache
namespace LockTable

variable {K : Type} [DecidableEq K] {t : LockTable K} {x y : Transaction} {k : K} {keys : List K}

/-! ### Each key once -/

/-- Keys may be selected before or after the repeated ones are left out. -/
theorem distinct_filter (p : K → Bool) (keys : List K) :
    distinct (keys.filter p) = (distinct keys).filter p := by
  induction keys with
  | nil => rfl
  | cons k rest ih =>
    have hswap : ((distinct rest).filter (· ≠ k)).filter p =
        ((distinct rest).filter p).filter (· ≠ k) := by
      rw [List.filter_filter, List.filter_filter]
      exact List.filter_congr fun a _ => Bool.and_comm _ _
    by_cases hk : p k = true
    · rw [List.filter_cons_of_pos hk, distinct, distinct, ih, List.filter_cons_of_pos hk, hswap]
    · have hno : ((distinct rest).filter p).filter (· ≠ k) = (distinct rest).filter p := by
        refine List.filter_eq_self.2 fun a ha => decide_eq_true ?_
        rintro rfl
        exact hk (List.mem_filter.1 ha).2
      rw [List.filter_cons_of_neg hk, distinct, ih, List.filter_cons_of_neg hk, hswap, hno]

/-- The keys of a request are asked for in the order in which they come first. -/
theorem distinct_eq_eraseDups : ∀ keys : List K, distinct keys = keys.eraseDups
  | [] => rfl
  | k :: rest => by
    have hne : (fun a => decide (a ≠ k)) = fun a => !a == k := by
      funext a
      by_cases h : a = k <;> simp [h]
    have ih := distinct_eq_eraseDups (rest.filter fun a => !a == k)
    rw [distinct, hne, ← distinct_filter, ih, List.eraseDups_cons]
termination_by keys => keys.length
decreasing_by
  rw [List.length_cons]
  exact Nat.lt_succ_of_le (List.length_filter_le ..)

/-- No key is left twice. -/
theorem nodup_distinct (keys : List K) : (distinct keys).Nodup := by
  induction keys with
  | nil => exact List.nodup_nil
  | cons k rest ih =>
    refine List.nodup_cons.2 ⟨fun hk => ?_, ih.filter _⟩
    exact of_decide_eq_true (List.mem_filter.1 hk).2 rfl

/-- The first key with a property is the first one of the keys taken once. -/
theorem find?_distinct (p : K → Bool) (keys : List K) : (distinct keys).find? p = keys.find? p := by
  rw [← List.head?_filter, ← List.head?_filter, ← distinct_filter]
  cases keys.filter p <;> rfl

/-! ### Going on -/

/-- The key is another's. -/
def isForeign (t : LockTable K) (x : Transaction) (k : K) : Bool := (t.owner? k).any (· ≠ x)

/-- A key is not in the way if it has no owner or is the requester's. -/
theorem isForeign_eq_false_iff :
    t.isForeign x k = false ↔ t.owner? k = none ∨ t.owner? k = some x := by
  unfold isForeign
  cases t.owner? k with
  | none => simp
  | some y => simp

/-- A key is in the way if another transaction owns it. -/
theorem isForeign_eq_true_iff : t.isForeign x k = true ↔ ∃ y, t.owner? k = some y ∧ y ≠ x := by
  unfold isForeign
  cases t.owner? k with
  | none => simp
  | some y => simp

/-- The keys that have no owner. -/
def free (t : LockTable K) (keys : List K) : List K := keys.filter fun k => t.owner? k = none

/-- The free ones among some keys are those without an owner. -/
theorem mem_free_iff : k ∈ t.free keys ↔ k ∈ keys ∧ t.owner? k = none := by
  rw [free, List.mem_filter, decide_eq_true_eq]

/-- **Asking for keys goes on past those that are not another's**, and takes those that have no
owner. -/
theorem advance_append (ht : 0 < t.stripes.size) (x : Transaction) (granted : List K)
    {before : List K} (after : List K) (hnd : before.Nodup)
    (hfree : ∀ k ∈ before, t.isForeign x k = false) :
    ∃ t', t.advance x granted (before ++ after) = t'.advance x (granted ++ t.free before) after ∧
      t.SameShape t' ∧ Takes x (· ∈ t.free before) t t' := by
  induction before generalizing t granted with
  | nil =>
    refine ⟨t, ?_, .refl t, .nothing (fun k => List.not_mem_nil) x t⟩
    rw [free, List.filter_nil, List.append_nil, List.nil_append]
  | cons a before ih =>
    obtain ⟨ha, hnd⟩ := List.nodup_cons.1 hnd
    obtain ⟨hnot, hfree⟩ := List.forall_mem_cons.1 hfree
    have hshape := t.sameShape_attempt x a
    rw [List.cons_append, advance]
    rcases attempt_cases ht x a with ⟨hfst, htakes⟩ | ⟨heq, howned⟩ | ⟨y, -, hforeign⟩
    · rcases hp : t.attempt x a with ⟨g, t₁⟩
      rw [hp] at hfst htakes hshape
      obtain rfl : g = .fresh := hfst
      -- Taking `a` changes nothing for the keys after it.
      have hother : ∀ k ∈ before, t₁.owner? k = t.owner? k := fun k hk =>
        htakes.owner?_eq fun he => ha (he ▸ hk)
      have hsame : t₁.free before = t.free before :=
        List.filter_congr fun k hk => by rw [hother k hk]
      have hmem : t.free (a :: before) = a :: t.free before :=
        List.filter_cons_of_pos (decide_eq_true (htakes.fresh a rfl))
      obtain ⟨t', hadvance, hshape', htakes'⟩ := ih (hshape.size.symm ▸ ht) (granted ++ [a]) hnd
        fun k hk => by rw [isForeign, hother k hk]; exact hfree k hk
      refine ⟨t', ?_, hshape.trans hshape', ?_⟩
      · simp only
        rw [hadvance, hsame, hmem, List.append_assoc, List.singleton_append]
      · rw [hsame] at htakes'
        refine (htakes.trans htakes').congr fun k => ?_
        rw [hmem, List.mem_cons]
    · have hmem : t.free (a :: before) = t.free before :=
        List.filter_cons_of_neg (by rw [howned]; simp)
      rw [heq, hmem]
      exact ih ht granted hnd hfree
    · exact absurd (isForeign_eq_true_iff.2 ⟨y, hforeign⟩) (by rw [hnot]; exact Bool.false_ne_true)

/-! ### Whole or not -/

/-- **An acquisition is granted if none of its keys is another's**, and answers those that had no
owner. -/
theorem acquire_of_free (ht : 0 < t.stripes.size) (hfree : ∀ k ∈ keys, t.isForeign x k = false) :
    (t.acquire x keys).1 = .ok (t.free keys).eraseDups ∧
      Takes x (· ∈ t.free keys) t (t.acquire x keys).2 := by
  have hanswer : t.free (distinct keys) = (t.free keys).eraseDups := by
    rw [free, ← distinct_filter, distinct_eq_eraseDups]
    rfl
  obtain ⟨t', hadvance, -, htakes⟩ := advance_append ht x [] [] (nodup_distinct keys)
    fun k hk => hfree k (mem_distinct.1 hk)
  rw [List.append_nil, List.nil_append, hanswer] at hadvance
  unfold acquire request
  rw [hadvance]
  refine ⟨rfl, htakes.congr fun k => ?_⟩
  rw [mem_free_iff, mem_free_iff, mem_distinct]

/-- Why `x` is refused a key of `y`. -/
def refusal (t : LockTable K) (x y : Transaction) (k : K) : LockError K :=
  if t.timeout.isZero then .conflict k y x else .timeout k y x t.timeout

/-- **An acquisition is refused if one of its keys is another's**, on account of the first of them, and
leaves all owners as they were. -/
theorem acquire_of_foreign (ht : 0 < t.stripes.size)
    (hfirst : keys.find? (t.isForeign x) = some k) (hk : t.owner? k = some y) :
    (t.acquire x keys).1 = .error (t.refusal x y k) ∧
      ∀ a, (t.acquire x keys).2.owner? a = t.owner? a := by
  rw [← find?_distinct, List.find?_eq_some_iff_append] at hfirst
  obtain ⟨hforeign, before, after, hkeys, hbefore⟩ := hfirst
  have hnd := nodup_distinct keys
  rw [hkeys, List.nodup_append] at hnd
  obtain ⟨t', hadvance, hshape, htakes⟩ := advance_append ht x [] (k :: after) hnd.1
    fun a ha => by simpa using hbefore a ha
  -- The key is not among those that were taken before it.
  have hmem : k ∉ t.free before := fun h =>
    hnd.2.2 k (mem_free_iff.1 h).1 k (List.mem_cons_self ..) rfl
  have hk' : t'.owner? k = some y := (htakes.owner?_eq hmem).trans hk
  have hyx : y ≠ x := by
    obtain ⟨z, hz, hzx⟩ := isForeign_eq_true_iff.1 hforeign
    rw [hk] at hz
    exact Option.some.inj hz ▸ hzx
  have hattempt : t'.attempt x k = (.blocked y, t') := by
    rcases attempt_cases (hshape.size.symm ▸ ht) x k with ⟨-, h⟩ | ⟨-, h⟩ | ⟨z, heq, h, -⟩
    · cases hk'.symm.trans (h.fresh k rfl)
    · exact absurd (Option.some.inj (hk'.symm.trans h)) hyx
    · cases Option.some.inj (hk'.symm.trans h)
      exact heq
  have hblocked : t.advance x [] (distinct keys) =
      (.blocked ⟨x, k :: after, [] ++ t.free before⟩ k y, t') := by
    rw [hkeys, hadvance, advance, hattempt]
  unfold acquire request
  rw [hblocked]
  refine ⟨?_, fun a => htakes.undo (t'.frees_release x _) a⟩
  simp only [settle, refusal, hshape.timeout]

omit [DecidableEq K] in
/-- What is read in the fault of a refusal. -/
theorem toFault_refusal (t : LockTable K) (x y : Transaction) (k : K) (key : K → Text.Outline) :
    ((t.refusal x y k).toFault key).kind =
        (if t.timeout.isZero then .lockConflict else .lockTimeout) ∧
      ((t.refusal x y k).toFault key).context =
        [("key", (key k).line), ("owner", y.text), ("requester", x.text)] ++
          if t.timeout.isZero then [] else [("timeout", t.timeout.decimalText)] := by
  unfold refusal
  split <;> exact ⟨rfl, rfl⟩

/-- **A request is granted as a whole or not at all.**  Let a table come out of any calls, whoever made
them and however their steps came one after another, and let then a request be made that nobody
interrupts.  If none of its keys is another's it answers those that had no owner, each once and in the
order in which they come first; all its keys are the requester's afterwards, and the other keys stay
as they were.  If one of them is another's it fails once its time to wait is up, and all keys stay as
they were; the fault says whether there was time to wait, and names the first such key and its owner. -/
theorem acquire_whole_or_not {ι : Type} [DecidableEq ι] (who : ι → Transaction)
    (turns : List (ι × Turn K)) (stripes : Nat) (timeout : Duration) (hash : K → UInt64)
    (x : Transaction) (keys : List K) (key : K → Text.Outline) :
    let t := (turns.foldl (Contention.turn who) (.start (create stripes timeout hash))).table
    match keys.find? (t.isForeign x) with
    | none => (t.acquire x keys).1 = .ok (keys.filter fun k => t.owner? k = none).eraseDups ∧
      ∀ k, (t.acquire x keys).2.owner? k = if k ∈ keys then some x else t.owner? k
    | some k => ∃ y e, t.owner? k = some y ∧ (t.acquire x keys).1 = .error e ∧
      (∀ a, (t.acquire x keys).2.owner? a = t.owner? a) ∧
      (e.toFault key).kind = (if timeout.isZero then .lockConflict else .lockTimeout) ∧
      (e.toFault key).context =
        [("key", (key k).line), ("owner", y.text), ("requester", x.text)] ++
          if timeout.isZero then [] else [("timeout", timeout.decimalText)] := by
  intro t
  have hshape : (create stripes timeout hash).SameShape t :=
    Contention.sameShape_turns who (.start _) turns
  have ht : 0 < t.stripes.size := hshape.size.symm ▸ size_pos_create stripes timeout hash
  cases hfind : keys.find? (t.isForeign x) with
  | none =>
    have hfree : ∀ k ∈ keys, t.isForeign x k = false := by simpa using hfind
    obtain ⟨hanswer, htakes⟩ := acquire_of_free ht hfree
    refine ⟨hanswer, fun k => ?_⟩
    by_cases hk : k ∈ keys
    · rw [if_pos hk]
      rcases isForeign_eq_false_iff.1 (hfree k hk) with hnone | howned
      · exact htakes.owned (mem_free_iff.2 ⟨hk, hnone⟩)
      · exact htakes.mono howned
    · rw [if_neg hk]
      exact htakes.owner?_eq fun h => hk (mem_free_iff.1 h).1
  | some k =>
    obtain ⟨y, hy, -⟩ := isForeign_eq_true_iff.1 (List.find?_some hfind)
    obtain ⟨herror, howner⟩ := acquire_of_foreign ht hfind hy
    obtain ⟨hkind, hcontext⟩ := toFault_refusal t x y k key
    rw [hshape.timeout] at hkind hcontext
    exact ⟨y, _, hy, herror, howner, hkind, hcontext⟩

end LockTable
end ClusterCache
