/-
# Sums over a list
-/

namespace ClusterCache

/-- The sum of a measure over a list. -/
def total {α : Type} (f : α → Nat) (l : List α) : Nat := l.foldl (fun n a => n + f a) 0

/-- A sum taken from the left on starts from any number. -/
theorem foldl_eq_add_total {α : Type} (f : α → Nat) (l : List α) (n : Nat) :
    l.foldl (fun n a => n + f a) n = n + total f l := by
  unfold total
  induction l generalizing n with
  | nil => rfl
  | cons a rest ih => rw [List.foldl_cons, List.foldl_cons, ih, ih (0 + f a)]; omega

/-- Nothing sums up to nothing. -/
@[simp] theorem total_nil {α : Type} (f : α → Nat) : total f [] = 0 := rfl

/-- The first summand can be taken out of a sum. -/
@[simp] theorem total_cons {α : Type} (f : α → Nat) (a : α) (rest : List α) :
    total f (a :: rest) = f a + total f rest := by
  rw [total, List.foldl_cons, foldl_eq_add_total, Nat.zero_add]

end ClusterCache
