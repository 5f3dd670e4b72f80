import Mathlib.Data.List.Perm.Basic

namespace List

universe u v

variable {α : Type u}

/-- Overwriting an element with the last one, and dropping the last one. -/
def swapRemove (entries : List α) (i : Nat) : List α :=
  match entries.getLast? with
  | none => entries
  | some last => (entries.set i last).dropLast

theorem map_swapRemove {β : Type v} (f : α → β) (entries : List α) (i : Nat) :
    (entries.swapRemove i).map f = (entries.map f).swapRemove i := by
  unfold swapRemove
  rw [getLast?_map]
  cases entries.getLast? with
  | none => rfl
  | some last => simp [map_set]

theorem swapRemove_cons_succ (x : α) {entries : List α} (hne : entries ≠ []) (i : Nat) :
    (x :: entries).swapRemove (i + 1) = x :: entries.swapRemove i := by
  unfold swapRemove
  obtain ⟨front, last, rfl⟩ : ∃ front last, entries = front ++ [last] := by
    rcases eq_nil_or_concat entries with rfl | ⟨front, last, rfl⟩
    · exact absurd rfl hne
    · exact ⟨front, last, concat_eq_append⟩
  rw [← cons_append, getLast?_concat, getLast?_concat]
  dsimp only
  rw [cons_append, set_cons_succ, dropLast_cons_of_ne_nil]
  simp

/-- What comes before the removed element stays in its place, and what comes
    after it stays, in some order. -/
theorem exists_swapRemove_append_cons (done : List α) (x : α) (todo : List α) :
    ∃ rest, (done ++ x :: todo).swapRemove done.length = done ++ rest ∧ rest.Perm todo := by
  rcases eq_nil_or_concat todo with rfl | ⟨front, last, rfl⟩
  · exact ⟨[], by simp [swapRemove], .refl _⟩
  · refine ⟨last :: front, ?_, ?_⟩
    · have hlast : (done ++ x :: (front ++ [last])).getLast? = some last := by
        rw [← cons_append, ← append_assoc, getLast?_concat]
      rw [swapRemove, concat_eq_append, hlast]
      dsimp only
      rw [set_append_right _ _ (Nat.le_refl _), Nat.sub_self, set_cons_zero, ← cons_append, ← append_assoc,
        dropLast_concat]
    · rw [concat_eq_append]
      exact (perm_append_singleton last front).symm

theorem exists_eq_append_cons_of_getElem? {entries : List α} {i : Nat} {x : α} (hget : entries[i]? = some x) :
    ∃ done todo, entries = done ++ x :: todo ∧ done.length = i := by
  obtain ⟨hlt, rfl⟩ := getElem?_eq_some_iff.mp hget
  refine ⟨entries.take i, entries.drop (i + 1), ?_, length_take_of_le (Nat.le_of_lt hlt)⟩
  rw [← drop_eq_getElem_cons hlt, take_append_drop]

theorem perm_cons_swapRemove {entries : List α} {i : Nat} {x : α} (hget : entries[i]? = some x) :
    entries.Perm (x :: entries.swapRemove i) := by
  obtain ⟨done, todo, rfl, rfl⟩ := exists_eq_append_cons_of_getElem? hget
  obtain ⟨rest, hswap, hrest⟩ := exists_swapRemove_append_cons done x todo
  rw [hswap]
  exact perm_middle.trans ((hrest.symm.append_left done).cons x)

end List
