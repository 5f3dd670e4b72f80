import Mathlib.Data.List.Nodup
import Mathlib.Data.List.Perm.Subperm

namespace CircularWalk

universe u v

variable {α : Type u}

/-- The first steps of a walk around `ring`, from the elements `it` before its
    end on, and from its start again whenever the end is reached. -/
def visit (ring : List α) : List α → Nat → List α
  | _, 0 => []
  | [], steps + 1 =>
    match ring with
    | [] => []
    | x :: rest => x :: visit ring rest steps
  | x :: rest, steps + 1 => x :: visit ring rest steps

theorem visit_append (ring it : List α) (steps : Nat) :
    visit ring it (it.length + steps) = it ++ visit ring [] steps := by
  induction it with
  | nil => simp
  | cons x it ih =>
    rw [List.length_cons, Nat.add_right_comm, visit, ih, List.cons_append]

theorem visit_wrap {ring : List α} (hring : ring ≠ []) (steps : Nat) :
    visit ring [] (ring.length + steps) = ring ++ visit ring [] steps := by
  obtain ⟨x, rest, rfl⟩ := List.exists_cons_of_ne_nil hring
  have hrest := visit_append (x :: rest) rest steps
  rw [List.length_cons, Nat.add_right_comm, visit, hrest, List.cons_append]

theorem visit_isPrefix (ring it : List α) {steps more : Nat} (hle : steps ≤ more) :
    List.IsPrefix (visit ring it steps) (visit ring it more) := by
  induction steps generalizing it more with
  | zero => exact List.nil_prefix
  | succ steps ih =>
    obtain ⟨more, rfl⟩ : ∃ n, more = n + 1 := ⟨more - 1, by omega⟩
    have hle' : steps ≤ more := by omega
    cases it with
    | cons x it => exact (List.prefix_cons_inj x).mpr (ih it hle')
    | nil =>
      cases ring with
      | nil => exact List.nil_prefix
      | cons x ring => exact (List.prefix_cons_inj x).mpr (ih ring hle')

theorem mem_of_mem_visit {ring it : List α} {steps : Nat} {x : α} (hit : ∀ y ∈ it, y ∈ ring)
    (hx : x ∈ visit ring it steps) : x ∈ ring := by
  induction steps generalizing it with
  | zero => simp [visit] at hx
  | succ steps ih =>
    cases it with
    | nil =>
      cases ring with
      | nil => simp [visit] at hx
      | cons y ring =>
        rw [visit, List.mem_cons] at hx
        rcases hx with rfl | hx
        · exact List.mem_cons_self
        · exact ih (fun z hz => List.mem_cons_of_mem _ hz) hx
    | cons y it =>
      rw [visit, List.mem_cons] at hx
      rcases hx with rfl | hx
      · exact hit x List.mem_cons_self
      · exact ih (fun z hz => hit z (List.mem_cons_of_mem _ hz)) hx

/-- The first `count` elements, if there are that many. -/
def first (count : Nat) (xs : List α) : Option (List α) :=
  if count ≤ xs.length then some (xs.take count) else none

theorem first_of_isPrefix {xs ys result : List α} {count : Nat} (hpart : List.IsPrefix xs ys)
    (hfirst : first count xs = some result) : first count ys = some result := by
  unfold first at hfirst ⊢
  split at hfirst
  · rename_i hcount
    obtain ⟨more, rfl⟩ := hpart
    rw [if_pos (by rw [List.length_append]; omega), List.take_append_of_le_length hcount]
    exact hfirst
  · exact absurd hfirst (by simp)

theorem first_length (xs : List α) : first xs.length xs = some xs := by
  simp [first]

theorem first_of_length_lt {xs : List α} {count : Nat} (hshort : xs.length < count) : first count xs = none := by
  rw [first, if_neg (by omega)]

variable [BEq α] [LawfulBEq α]

theorem nodup_eraseDups (xs : List α) : xs.eraseDups.Nodup := by
  generalize hlen : xs.length = n
  induction n using Nat.strongRecOn generalizing xs with
  | ind n ih =>
    cases xs with
    | nil => simp
    | cons x xs =>
      rw [List.eraseDups_cons, List.nodup_cons, List.mem_eraseDups]
      have hshort : (xs.filter fun y => !y == x).length < n := by
        have hle := List.length_filter_le (fun y => !y == x) xs
        rw [List.length_cons] at hlen
        omega
      exact ⟨by simp, ih _ hshort _ rfl⟩

/-- Elements met before add nothing. -/
theorem eraseDups_append_of_subset {xs ys : List α} (hsub : ∀ y ∈ ys, y ∈ xs) :
    (xs ++ ys).eraseDups = xs.eraseDups := by
  have hnone : ys.removeAll xs = [] := by
    rw [List.removeAll, List.filter_eq_nil_iff]
    intro y hy
    simp [hsub y hy]
  rw [List.eraseDups_append, hnone, List.eraseDups_nil, List.append_nil]

/-- One turn after the first passage of the end, a walk has met all it will. -/
theorem eraseDups_visit {ring it : List α} (hring : ring ≠ []) {steps : Nat}
    (hsteps : it.length + ring.length ≤ steps) : (visit ring it steps).eraseDups = (it ++ ring).eraseDups := by
  obtain ⟨more, rfl⟩ := Nat.exists_eq_add_of_le hsteps
  rw [Nat.add_assoc, visit_append, visit_wrap hring, ← List.append_assoc]
  apply eraseDups_append_of_subset
  intro y hy
  have hy' : y ∈ ring := mem_of_mem_visit (by simp) hy
  exact List.mem_append_right _ hy'

/-- Leaving elements out of a walk leaves them out of what it collects. -/
theorem eraseDups_filter (p : α → Bool) (xs : List α) : (xs.filter p).eraseDups = xs.eraseDups.filter p := by
  generalize hlen : xs.length = n
  induction n using Nat.strongRecOn generalizing xs with
  | ind n ih =>
    cases xs with
    | nil => simp
    | cons x xs =>
      have hshort : (xs.filter fun y => !y == x).length < n := by
        have hle := List.length_filter_le (fun y => !y == x) xs
        rw [List.length_cons] at hlen
        omega
      have hrest := ih _ hshort _ rfl
      rw [List.eraseDups_cons]
      by_cases hx : p x
      · rw [List.filter_cons_of_pos hx, List.filter_cons_of_pos hx, List.eraseDups_cons, ← hrest, List.filter_comm]
      · rw [List.filter_cons_of_neg hx, List.filter_cons_of_neg hx, ← hrest, List.filter_filter]
        congr 1
        apply List.filter_congr
        intro y _
        by_cases hy : y = x <;> simp [hy, hx]

/-- A walk that moves away from its start meets the nearer of two owners first:
    the first passage of the one comes before every passage of the other. -/
theorem pairwise_eraseDups_map {β : Type v} {owner : β → α} {R : β → β → Prop} {walk : List β}
    (hwalk : walk.Pairwise R) :
    (walk.map owner).eraseDups.Pairwise fun a b =>
      ∃ x ∈ walk, owner x = a ∧ ∀ y ∈ walk, owner y = b → R x y := by
  generalize hlen : walk.length = n
  induction n using Nat.strongRecOn generalizing walk with
  | ind n ih =>
    cases walk with
    | nil => simp
    | cons x walk =>
      rw [List.pairwise_cons] at hwalk
      let others := walk.filter fun y => !owner y == owner x
      have hothers {y : β} (hy : y ∈ x :: walk) (hne : owner y ≠ owner x) : y ∈ others := by
        rcases List.mem_cons.mp hy with rfl | hy
        · exact absurd rfl hne
        · exact List.mem_filter.mpr ⟨hy, by simpa using hne⟩
      have howners : (walk.map owner).filter (fun b => !b == owner x) = others.map owner := by
        rw [List.filter_map]
        rfl
      have hshort : others.length < n := by
        have hle : others.length ≤ walk.length := List.length_filter_le _ _
        rw [List.length_cons] at hlen
        omega
      have htail := ih _ hshort (hwalk.2.filter _) rfl
      have hne {b : α} (hb : b ∈ (others.map owner).eraseDups) : b ≠ owner x := by
        rw [List.mem_eraseDups, ← howners, List.mem_filter] at hb
        simpa using hb.2
      rw [List.map_cons, List.eraseDups_cons, howners, List.pairwise_cons]
      constructor
      · intro b hb
        refine ⟨x, List.mem_cons_self, rfl, ?_⟩
        rintro y hy rfl
        exact hwalk.1 y (List.mem_filter.mp (hothers hy (hne hb))).1
      · refine htail.imp_of_mem ?_
        rintro a b - hb ⟨first, hfirst, rfl, hbefore⟩
        refine ⟨first, List.mem_cons_of_mem _ (List.mem_filter.mp hfirst).1, rfl, ?_⟩
        rintro y hy rfl
        exact hbefore y (hothers hy (hne hb)) rfl

/-- Collecting the elements not collected yet. -/
def gather (result walk : List α) : List α :=
  walk.foldl (fun result x => if x ∈ result then result else result ++ [x]) result

theorem gather_of_nil (result : List α) : gather result [] = result := rfl

theorem gather_cons (result : List α) (x : α) (walk : List α) :
    gather result (x :: walk) = gather (if x ∈ result then result else result ++ [x]) walk := rfl

theorem gather_eq (result walk : List α) : gather result walk = result ++ (walk.removeAll result).eraseDups := by
  induction walk generalizing result with
  | nil => simp [gather]
  | cons x walk ih =>
    rw [gather_cons, ih]
    by_cases hx : x ∈ result
    · simp [hx, List.removeAll]
    · rw [if_neg hx, List.append_assoc]
      congr 1
      simp only [List.removeAll, List.elem_eq_mem, hx, decide_false, Bool.not_false, List.filter_cons_of_pos,
        List.eraseDups_cons, List.singleton_append, List.filter_filter]
      congr 2
      apply List.filter_congr
      intro y _
      by_cases hy : y = x <;> simp [hy]

theorem gather_nil (walk : List α) : gather [] walk = walk.eraseDups := by
  simp [gather_eq, List.removeAll]

theorem result_isPrefix_gather (result walk : List α) : List.IsPrefix result (gather result walk) := by
  rw [gather_eq]
  exact List.prefix_append _ _

end CircularWalk
