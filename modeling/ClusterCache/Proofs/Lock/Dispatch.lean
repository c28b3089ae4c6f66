/-
# What the contexts say is what the table says

Every transaction has a context of its own, in which the keys that are locked for it are noted.  The
context is brought up to date from the keys of a request, not from what the table granted or freed.
Still the two agree (`Counter.locked_iff`).  Of the keys of an acquisition that succeeds, all are the
transaction's afterwards, those that were its own before included; one that fails leaves all owners
as they were; and a key that a release takes out of the context although the transaction does not own
it was not in the context.
-/

import Mathlib.Logic.Function.Basic
import ClusterCache.Lock.Handler
import ClusterCache.Proofs.Lock.Table

namespace ClusterCache

variable {K : Type} [DecidableEq K]

namespace LockTable

/-- What can become of a request of `x` for `keys`. -/
inductive Handled (x : Transaction) (keys : List K) (c c' : Context K) (t t' : LockTable K) : Prop
  /-- There were no keys, or a key is another's. -/
  | unchanged : c' = c → (∀ k, t'.owner? k = t.owner? k) → Handled x keys c c' t t'
  /-- Keys without an owner are granted, and then all keys are the transaction's. -/
  | granted (granted : List K) : c' = c.lock keys → (∀ k ∈ granted, k ∈ keys) →
      Takes x (· ∈ granted) t t' → (∀ k ∈ keys, t'.owner? k = some x) → Handled x keys c c' t t'
  /-- Those that are the transaction's are freed. -/
  | freed : c' = c.unlock keys → Frees x (· ∈ keys) t t' → Handled x keys c c' t t'

/-- The handler notes in the context what it does to the table, whatever the request. -/
theorem handled {t : LockTable K} (ht : 0 < t.stripes.size) (key : K → Text.Outline)
    (r : LockRequest K) (c : Context K) :
    Handled r.boundary.transaction r.keys c (r.accept (handler key) t c).2.1 t
      (r.accept (handler key) t c).2.2 := by
  unfold LockRequest.accept handler Handler.locking
  by_cases hempty : r.keys.isEmpty = true
  · simp only [if_pos hempty]
    exact .unchanged rfl fun _ => rfl
  · simp only [if_neg hempty]
    cases r.mode with
    | acquire =>
      rcases acquire_cases ht r.boundary.transaction r.keys with
        ⟨granted, hok, hsub, htakes, howned⟩ | ⟨e, herror, howner⟩
      · rcases ha : t.acquire r.boundary.transaction r.keys with ⟨a, t'⟩
        rw [ha] at hok htakes howned
        obtain rfl : a = .ok granted := hok
        exact .granted granted rfl hsub htakes howned
      · rcases ha : t.acquire r.boundary.transaction r.keys with ⟨a, t'⟩
        rw [ha] at herror howner
        obtain rfl : a = .error e := herror
        exact .unchanged rfl howner
    | release =>
      have hfrees := t.frees_release r.boundary.transaction r.keys
      exact .freed rfl hfrees

/-- A request leaves everything as it was that is chosen when a table is made. -/
theorem sameShape_accept (t : LockTable K) (key : K → Text.Outline) (r : LockRequest K)
    (c : Context K) : t.SameShape (r.accept (handler key) t c).2.2 := by
  have hacquire := t.sameShape_acquire r.boundary.transaction r.keys
  unfold LockRequest.accept handler Handler.locking
  by_cases hempty : r.keys.isEmpty = true
  · simp only [if_pos hempty]
    exact .refl t
  · simp only [if_neg hempty]
    cases r.mode with
    | acquire =>
      rcases ha : t.acquire r.boundary.transaction r.keys with ⟨e | granted, t'⟩ <;>
        rw [ha] at hacquire <;> exact hacquire
    | release => exact t.sameShape_release _ _

end LockTable

/-- A lock table that requests are handed to one after another, and the context of each
transaction. -/
structure Counter (K : Type) where
  table : LockTable K
  contexts : Transaction → Context K

namespace Counter

variable {s : Counter K}

/-- Hands a request to the table, with the context of its transaction. -/
def dispatch (key : K → Text.Outline) (s : Counter K) (r : LockRequest K) : Counter K :=
  let (_, c, table) := r.accept (LockTable.handler key) s.table (s.contexts r.boundary.transaction)
  ⟨table, Function.update s.contexts r.boundary.transaction c⟩

/-- The locked keys of every context are those that its transaction owns. -/
def Agrees (s : Counter K) : Prop :=
  ∀ x k, k ∈ (s.contexts x).locked ↔ s.table.owner? k = some x

/-- Whatever becomes of a request, contexts and table agree afterwards if they did before. -/
theorem Agrees.dispatch (h : s.Agrees) (hs : 0 < s.table.stripes.size) (key : K → Text.Outline)
    (r : LockRequest K) : (s.dispatch key r).Agrees := by
  have hhandled := LockTable.handled hs key r (s.contexts r.boundary.transaction)
  intro y k
  have hbefore := h y k
  unfold Counter.dispatch
  generalize r.accept (LockTable.handler key) s.table (s.contexts r.boundary.transaction) = p
    at hhandled ⊢
  obtain ⟨answer, c', t'⟩ := p
  replace hhandled : LockTable.Handled _ _ _ c' _ t' := hhandled
  by_cases hy : y = r.boundary.transaction
  · subst hy
    show k ∈ (Function.update s.contexts _ c' _).locked ↔ t'.owner? k = some _
    rw [Function.update_self]
    cases hhandled with
    | unchanged hc howner =>
      have hkept := howner k
      rw [hc, hbefore, hkept]
    | granted granted hc hsub htakes howned =>
      rw [hc, Context.mem_locked_lock, hbefore]
      constructor
      · rintro (hk | hk)
        · exact htakes.mono hk
        · exact howned k hk
      · intro hk
        exact ((htakes.owner_iff k _).1 hk).imp id fun hx => hsub k hx.2
    | freed hc hfrees =>
      rw [hc, Context.mem_locked_unlock, hbefore]
      exact hfrees.owned_iff.symm
  · show k ∈ (Function.update s.contexts _ c' _).locked ↔ t'.owner? k = some _
    rw [Function.update_of_ne hy, hbefore]
    cases hhandled with
    | unchanged _ howner =>
      have hkept := howner k
      rw [hkept]
    | granted granted _ _ htakes _ =>
      rw [htakes.owner_iff]
      constructor
      · exact Or.inl
      · intro hk
        exact hk.resolve_right fun hx => hy hx.1
    | freed _ hfrees => exact (hfrees.other_iff hy).symm

/-- **Contexts and table agree.**  Whatever requests any transactions hand to an empty table one after
another, the locked keys of every context are those that its transaction owns in the end, if no
context had any in the beginning. -/
theorem locked_iff (stripes : Nat) (timeout : Duration) (hash : K → UInt64) (key : K → Text.Outline)
    {contexts : Transaction → Context K} (hempty : ∀ x, (contexts x).locked = [])
    (requests : List (LockRequest K)) (x : Transaction) (k : K) :
    k ∈ ((requests.foldl (dispatch key) ⟨.create stripes timeout hash, contexts⟩).contexts x).locked ↔
      (requests.foldl (dispatch key) ⟨.create stripes timeout hash, contexts⟩).table.owner? k =
        some x := by
  have hrun : ∀ (s : Counter K), s.Agrees → 0 < s.table.stripes.size →
      (requests.foldl (dispatch key) s).Agrees := by
    induction requests with
    | nil => exact fun s hs _ => hs
    | cons r rest ih =>
      intro s hs hsize
      have hshape := s.table.sameShape_accept key r (s.contexts r.boundary.transaction)
      exact ih _ (hs.dispatch hsize key r) (hshape.size.symm ▸ hsize)
  refine hrun _ (fun y a => ?_) (LockTable.size_pos_create stripes timeout hash) x k
  show a ∈ (contexts y).locked ↔ (LockTable.create stripes timeout hash).owner? a = some y
  rw [hempty, LockTable.owner?_create]
  exact iff_of_false List.not_mem_nil nofun

/-- Two transactions, of which the second is refused a key of the first and keeps none of the others
that it asked for, and gives back a key that is not its own. -/
theorem locked_iff_refused :
    let first : Transaction := ⟨1, ⟨"a"⟩⟩
    let second : Transaction := ⟨2, ⟨"b"⟩⟩
    let requests : List (LockRequest Nat) := [
      ⟨.new first, [1, 2, 2], .acquire⟩, ⟨.new second, [3, 1], .acquire⟩,
      ⟨.new second, [2], .release⟩, ⟨.new first, [2, 9], .release⟩, ⟨.new second, [], .acquire⟩]
    let s := requests.foldl (dispatch .nat)
      ⟨.create 2 .zero fun n => .ofNat n, fun x => { transaction := some x }⟩
    (s.contexts first).locked = [1] ∧ (s.contexts second).locked = [] ∧
      ∀ x k, k ∈ (s.contexts x).locked ↔ s.table.owner? k = some x := by
  refine ⟨by decide +kernel, by decide +kernel, fun x k => ?_⟩
  exact locked_iff 2 .zero (fun n => .ofNat n) .nat (fun _ => rfl) _ x k

end Counter
end ClusterCache
