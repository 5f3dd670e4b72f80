import Mathlib.Data.List.Sort

namespace Sorted

variable {α : Type} [LinearOrder α] {l : List α} {i : Nat}

/-- In a sorted list, an element has those before it below it and those after it
    above it. -/
theorem count_of_sorted (hsorted : l.Pairwise (· ≤ ·)) (hi : i < l.length) :
    i + 1 ≤ l.countP (fun x => decide (x ≤ l[i])) ∧ l.countP (fun x => decide (x < l[i])) ≤ i := by
  have hget {j k : Nat} (hjk : j ≤ k) (hk : k < l.length) : l[j] ≤ l[k] := by
    rcases Nat.eq_or_lt_of_le hjk with rfl | hlt
    · exact le_rfl
    · exact List.pairwise_iff_getElem.mp hsorted j k _ hk hlt
  constructor
  · have hfirst : (l.take (i + 1)).countP (fun x => decide (x ≤ l[i])) = i + 1 := by
      have hall : ∀ x ∈ l.take (i + 1), decide (x ≤ l[i]) = true := by
        intro x hx
        obtain ⟨j, hj, rfl⟩ := List.mem_take_iff_getElem.mp hx
        exact decide_eq_true (hget (by omega) hi)
      rw [List.countP_eq_length.mpr hall, List.length_take]
      omega
    exact hfirst ▸ (List.take_sublist (i + 1) l).countP_le
  · have hrest : (l.drop i).countP (fun x => decide (x < l[i])) = 0 := by
      rw [List.countP_eq_zero]
      intro x hx
      obtain ⟨j, hj, rfl⟩ := List.mem_drop_iff_getElem.mp hx
      simpa using hget (Nat.le_add_right i j) (by omega)
    calc l.countP (fun x => decide (x < l[i]))
        = (l.take i ++ l.drop i).countP (fun x => decide (x < l[i])) := by rw [List.take_append_drop]
      _ = (l.take i).countP (fun x => decide (x < l[i])) := by rw [List.countP_append, hrest, Nat.add_zero]
      _ ≤ (l.take i).length := List.countP_le_length
      _ ≤ i := by simp

theorem headD_of_sorted (hsorted : l.Pairwise (· ≤ ·)) (hne : l ≠ []) (default : α) :
    l.headD default ∈ l ∧ ∀ x ∈ l, l.headD default ≤ x := by
  cases l with
  | nil => exact absurd rfl hne
  | cons first rest =>
    refine ⟨List.mem_cons_self, ?_⟩
    rintro x (_ | ⟨_, hx⟩)
    · exact le_rfl
    · exact (List.pairwise_cons.mp hsorted).1 x hx

theorem getLastD_of_sorted (hsorted : l.Pairwise (· ≤ ·)) (hne : l ≠ []) (default : α) :
    l.getLastD default ∈ l ∧ ∀ x ∈ l, x ≤ l.getLastD default := by
  rcases List.eq_nil_or_concat l with rfl | ⟨start, last, rfl⟩
  · exact absurd rfl hne
  · rw [List.concat_eq_append] at hsorted ⊢
    refine ⟨by simp, ?_⟩
    intro x hx
    rcases List.mem_append.mp hx with hx | hx
    · simpa using (List.pairwise_append.mp hsorted).2.2 x hx last (by simp)
    · simp_all

end Sorted
