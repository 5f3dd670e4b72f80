import Kv.HashRing
import Kv.Lib.CircularWalk

open CircularWalk

namespace kv.ConsistentHashRing

variable (hash : Bytes → UInt64)

theorem lower_bound_subset {ring : Std.TreeMap UInt64 Bytes} {pos : UInt64} {entry : UInt64 × Bytes}
    (hentry : entry ∈ lower_bound ring pos) : entry ∈ ring.toList :=
  (List.dropWhile_sublist _).subset hentry

/-- The loop collects what the walk meets, up to `count` distinct nodes. -/
theorem get_nodes_loop_eq (ring : List (UInt64 × Bytes)) {count : Nat} (fuel : Nat) (it : List (UInt64 × Bytes))
    {result : List Bytes} (hlen : result.length ≤ count) :
    get_nodes_loop ring count fuel it result =
      first count (gather result (visit (ring.map Prod.snd) (it.map Prod.snd) fuel)) := by
  induction fuel generalizing it result with
  | zero =>
    rcases Nat.lt_or_ge result.length count with hshort | hfull
    · rw [get_nodes_loop, if_pos hshort]
      exact (first_of_length_lt hshort).symm
    · obtain rfl : count = result.length := by omega
      rw [visit, gather_of_nil, first_length]
      simp [get_nodes_loop]
  | succ fuel ih =>
    rcases Nat.lt_or_ge result.length count with hshort | hfull
    · have hnext (id : Bytes) : (if id ∈ result then result else result ++ [id]).length ≤ count := by
        split
        · exact hlen
        · rw [List.length_append, List.length_singleton]
          omega
      rw [get_nodes_loop, if_pos hshort]
      cases it with
      | cons entry it => simpa [visit, gather_cons] using ih it (hnext entry.2)
      | nil =>
        cases ring with
        | nil => exact (first_of_length_lt hshort).symm
        | cons entry ring => simpa [visit, gather_cons] using ih ring (hnext entry.2)
    · -- The loop ends here, and what it would meet next only comes behind the result.
      obtain rfl : count = result.length := by omega
      have hall := first_of_isPrefix
        (result_isPrefix_gather result (visit (ring.map Prod.snd) (it.map Prod.snd) (fuel + 1)))
        (first_length result)
      rw [hall]
      simp [get_nodes_loop]

/-- A loop that ends at all ends within two turns of the ring. -/
theorem get_nodes_loop_two_turns {ring it : List (UInt64 × Bytes)} {count fuel : Nat} {result : List Bytes}
    (hit : it.length ≤ ring.length) (hloop : get_nodes_loop ring count fuel it [] = some result) :
    get_nodes_loop ring count (2 * ring.length) it [] = some result := by
  rw [get_nodes_loop_eq ring _ _ (Nat.zero_le _), gather_nil] at hloop ⊢
  refine first_of_isPrefix ?_ hloop
  by_cases hring : ring = []
  · subst hring
    obtain rfl : it = [] := List.length_eq_zero_iff.mp (by simpa using hit)
    cases fuel <;> simp [visit]
  have hring' : ring.map Prod.snd ≠ [] := by simpa using hring
  -- With little fuel the walk is a part of two turns; with much it adds nothing to them.
  rcases Nat.le_total fuel (2 * ring.length) with hle | hge
  · obtain ⟨more, hmore⟩ := visit_isPrefix (ring.map Prod.snd) (it.map Prod.snd) hle
    rw [← hmore, List.eraseDups_append]
    exact List.prefix_append _ _
  · have hturns {steps : Nat} (hmany : 2 * ring.length ≤ steps) :
        (visit (ring.map Prod.snd) (it.map Prod.snd) steps).eraseDups =
          (it.map Prod.snd ++ ring.map Prod.snd).eraseDups :=
      eraseDups_visit hring' (by simp only [List.length_map]; omega)
    simp only [hturns hge, hturns le_rfl, List.prefix_rfl]

/-- The nodes in the order in which a walk from the key first meets them. -/
def owners (self : ConsistentHashRing) (key : Bytes) : List Bytes :=
  ((lower_bound self.ring_ (hash key) ++ self.ring_.toList).map Prod.snd).eraseDups

theorem nodup_owners (self : ConsistentHashRing) (key : Bytes) : (self.owners hash key).Nodup :=
  nodup_eraseDups _

theorem mem_owners_iff (self : ConsistentHashRing) (key node_id : Bytes) :
    node_id ∈ self.owners hash key ↔ ∃ pos : UInt64, self.ring_[pos]? = some node_id := by
  rw [owners, List.mem_eraseDups, List.mem_map]
  constructor
  · rintro ⟨⟨pos, id⟩, hentry, rfl⟩
    refine ⟨pos, Std.TreeMap.mem_toList_iff_getElem?_eq_some.mp ?_⟩
    rw [List.mem_append] at hentry
    rcases hentry with hentry | hentry
    · exact lower_bound_subset hentry
    · exact hentry
  · rintro ⟨pos, hpos⟩
    exact ⟨(pos, node_id), List.mem_append_right _ (Std.TreeMap.mem_toList_iff_getElem?_eq_some.mpr hpos), rfl⟩

theorem lower_bound_length_le (ring : Std.TreeMap UInt64 Bytes) (pos : UInt64) :
    (lower_bound ring pos).length ≤ ring.toList.length :=
  (List.dropWhile_sublist _).length_le

/-- `get_nodes` returns the first owners, or never returns if it asks for more
    than there are. -/
theorem get_nodes_eq (self : ConsistentHashRing) (key : Bytes) (count : Nat) (hring : ¬ self.ring_.isEmpty) :
    self.get_nodes hash key count =
      (first (min count self.nodes_.length) (self.owners hash key)).map .ok := by
  have hring' : self.ring_.toList.map Prod.snd ≠ [] := by
    rw [ne_eq, List.map_eq_nil_iff, ← List.isEmpty_iff, Std.TreeMap.isEmpty_toList]
    exact hring
  have hlength := lower_bound_length_le self.ring_ (hash key)
  rw [get_nodes, if_neg hring, get_nodes_loop_eq _ _ _ (Nat.zero_le _), gather_nil,
    eraseDups_visit hring' (by simp only [List.length_map]; omega), ← List.map_append, ← owners]

end kv.ConsistentHashRing
