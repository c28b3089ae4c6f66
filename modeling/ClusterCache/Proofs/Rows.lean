/-
# Things in rows

Records are spread over shards, and owners of keys over stripes.  Row by row they are listed as many
times as the rows say together (`total_eq_length_flatMap`), and no thing twice if it is found in no row
but its own (`nodup_flatMap_of_row`).  The length of a list that has nothing twice tells how many
things there are (`encard_eq_length`).
-/

import Mathlib.Data.Set.Card
import ClusterCache.Total

namespace ClusterCache

variable {α β : Type}

/-- If every size is the length of a row, the sizes sum up to the length of all rows together. -/
theorem total_eq_length_flatMap {size : α → Nat} {f : α → List β} (h : ∀ a, size a = (f a).length)
    (l : List α) : total size l = (l.flatMap f).length := by
  induction l with
  | nil => rfl
  | cons a l ih => rw [total_cons, List.flatMap_cons, List.length_append, ih, h]

/-- Things are listed once that are listed in no row but their own, and there once. -/
theorem nodup_flatMap_of_row {f : α → List β} {l : List α} (row : β → Nat)
    (hnd : ∀ a ∈ l, (f a).Nodup) (hrow : ∀ i a, l[i]? = some a → ∀ b ∈ f a, row b = i) :
    (l.flatMap f).Nodup := by
  refine List.nodup_flatMap.2 ⟨hnd, List.pairwise_iff_getElem.2 fun i j hi hj hlt b hb hb' => ?_⟩
  have h := hrow i _ (List.getElem?_eq_getElem hi) b hb
  have h' := hrow j _ (List.getElem?_eq_getElem hj) b hb'
  omega

/-- As many things are in a set as are in a list of them that has none twice. -/
theorem encard_eq_length [DecidableEq α] {p : α → Prop} {l : List α} (hnd : l.Nodup)
    (hmem : ∀ a, a ∈ l ↔ p a) : {a | p a}.encard = l.length := by
  have hset : {a | p a} = (l.toFinset : Set α) := by
    ext a
    rw [Set.mem_ofPred_eq, Finset.mem_coe, List.mem_toFinset, hmem]
  rw [hset, Set.encard_coe_eq_coe_finsetCard, List.toFinset_card_of_nodup hnd]

end ClusterCache
