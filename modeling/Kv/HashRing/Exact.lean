import Mathlib.Data.List.Dedup
import Kv.HashRing.History

open CircularWalk

namespace kv.ConsistentHashRing

variable {hash : Bytes → UInt64}

theorem pairwise_toList (ring : Std.TreeMap UInt64 Bytes) : ring.toList.Pairwise fun a b => a.1 < b.1 :=
  Std.TreeMap.ordered_keys_toList.imp Std.compare_eq_lt.mp

theorem nodup_toList (ring : Std.TreeMap UInt64 Bytes) : ring.toList.Nodup :=
  (pairwise_toList ring).imp fun hlt heq => absurd (heq ▸ hlt) (UInt64.lt_irrefl _)

/-- A map that holds the entries of some owners lists exactly these, in the same
    order. -/
theorem toList_eq_filter {ring part : Std.TreeMap UInt64 Bytes} {p : Bytes → Bool}
    (hpart : ∀ (pos : UInt64) (id : Bytes), part[pos]? = some id ↔ ring[pos]? = some id ∧ p id) :
    part.toList = ring.toList.filter fun entry => p entry.2 := by
  have hsorted := (pairwise_toList ring).filter fun entry => p entry.2
  refine List.Perm.eq_of_pairwise ?_ (pairwise_toList part) hsorted ?_
  · intro a b _ _ hab hba
    exact absurd (UInt64.lt_trans hab hba) (UInt64.lt_irrefl _)
  · rw [List.perm_ext_iff_of_nodup (nodup_toList part) ((nodup_toList ring).filter _)]
    rintro ⟨pos, id⟩
    rw [List.mem_filter, Std.TreeMap.mem_toList_iff_getElem?_eq_some, Std.TreeMap.mem_toList_iff_getElem?_eq_some]
    exact hpart pos id

/-- The entries before `lower_bound(pos)` are those below `pos`. -/
theorem lower_bound_eq_filter (ring : Std.TreeMap UInt64 Bytes) (pos : UInt64) :
    lower_bound ring pos = ring.toList.filter fun entry => ¬ entry.1 < pos := by
  have hsorted := pairwise_toList ring
  unfold lower_bound
  generalize ring.toList = entries at hsorted ⊢
  induction entries with
  | nil => rfl
  | cons entry entries ih =>
    rw [List.pairwise_cons] at hsorted
    by_cases hbelow : entry.1 < pos
    · rw [List.dropWhile_cons_of_pos (by simpa using hbelow), List.filter_cons_of_neg (by simpa using hbelow)]
      exact ih hsorted.2
    · rw [List.dropWhile_cons_of_neg (by simpa using hbelow), List.filter_cons_of_pos (by simpa using hbelow)]
      congr 1
      refine (List.filter_eq_self.mpr ?_).symm
      intro later hlater
      have habove := hsorted.1 later hlater
      simp only [UInt64.not_lt, decide_eq_true_eq] at hbelow ⊢
      exact UInt64.le_trans hbelow (UInt64.le_of_lt habove)

/-- The primary is the first owner that a walk from the key meets. -/
theorem get_node_eq (hash : Bytes → UInt64) (self : ConsistentHashRing) (key : Bytes) :
    self.get_node hash key =
      match (self.owners hash key).head? with
      | none => .error (ascii "ConsistentHashRing::get_node: ring has no nodes")
      | some node_id => .ok node_id := by
  unfold get_node owners
  cases hlist : self.ring_.toList with
  | nil => simp [lower_bound, hlist]
  | cons first rest =>
    cases hbound : lower_bound self.ring_ (hash key) with
    | nil => simp [List.eraseDups_cons]
    | cons entry entries => simp [List.eraseDups_cons]

/-- Both lookups read no more of the ring than its entries in order. -/
theorem get_node_congr {self other : ConsistentHashRing} (hlist : self.ring_.toList = other.ring_.toList)
    (key : Bytes) : self.get_node hash key = other.get_node hash key := by
  simp only [get_node, lower_bound, hlist]

theorem get_nodes_congr {self other : ConsistentHashRing} (hlist : self.ring_.toList = other.ring_.toList)
    (hlength : self.nodes_.length = other.nodes_.length) (key : Bytes) (count : Nat) :
    self.get_nodes hash key count = other.get_nodes hash key count := by
  simp only [get_nodes, lower_bound, ← Std.TreeMap.isEmpty_toList, hlist, hlength]

/-- Every node that is present owns all its positions, and no other node owns
    any. -/
def Exact (hash : Bytes → UInt64) (self : ConsistentHashRing) : Prop :=
  ∀ (pos : UInt64) (node_id : Bytes), self.ring_[pos]? = some node_id ↔
    node_id ∈ self.nodes_ ∧ ∃ i < self.virtual_nodes_per_node_, position hash node_id i = pos

theorem NoCollisions.mono {vnodes : Nat} {ids some_ids : List Bytes} (hcoll : NoCollisions hash vnodes ids)
    (hsub : some_ids ⊆ ids) : NoCollisions hash vnodes some_ids :=
  fun id hid other hother => hcoll id (hsub hid) other (hsub hother)

/-- Where no positions collide, `Placed` becomes exact: nothing is overwritten
    by an insertion, and a removal erases nothing of another node. -/
theorem exact_of_updates {vnodes : Nat} {updates : List Update}
    (hcoll : NoCollisions hash vnodes (updates.map Update.node_id)) : (of_updates hash vnodes updates).Exact hash := by
  induction updates using List.reverseRecOn with
  | nil =>
    intro pos node_id
    simp [of_updates]
  | append_singleton updates last ih =>
    have hexact := ih (hcoll.mono (by simp))
    intro pos owner
    refine ⟨placed_of_updates vnodes _ pos owner, ?_⟩
    rintro ⟨hmem, i, hi, hpos⟩
    have hlast : last.node_id ∈ (updates ++ [last]).map Update.node_id := by simp
    have howner : owner ∈ (updates ++ [last]).map Update.node_id :=
      mem_map_node_id_of_present (mem_of_updates_nodes_iff.mp hmem)
    rw [of_updates_virtual_nodes] at hi
    -- A position of the owner can be claimed by the last call only if it is about the owner.
    have hclaims (hclaims : ∃ j < vnodes, position hash last.node_id j = pos) : last.node_id = owner := by
      obtain ⟨j, hj, hpos'⟩ := hclaims
      by_contra hne
      exact hcoll last.node_id hlast owner howner hne j hj i hi (hpos'.trans hpos.symm)
    rw [of_updates_snoc] at hmem ⊢
    cases last with
    | add_node id =>
      rw [update, getElem?_add_node, of_updates_virtual_nodes]
      split
      · rename_i hclaimed
        exact congrArg some (hclaims hclaimed)
      · rename_i hfree
        have hold : owner ∈ (of_updates hash vnodes updates).nodes_ := by
          have hne : owner ≠ id := by
            rintro rfl
            exact hfree ⟨i, hi, hpos⟩
          simpa [update, add_node, hne] using hmem
        exact (hexact pos owner).mpr ⟨hold, i, by simpa using hi, hpos⟩
    | remove_node id =>
      obtain ⟨hold, hne⟩ : owner ∈ (of_updates hash vnodes updates).nodes_ ∧ owner ≠ id := by
        simpa [update, remove_node] using hmem
      have hfree : ¬ ∃ j < vnodes, position hash id j = pos := fun hclaimed => hne (hclaims hclaimed).symm
      rw [update, getElem?_remove_node, of_updates_virtual_nodes, if_neg hfree]
      exact (hexact pos owner).mpr ⟨hold, i, by simpa using hi, hpos⟩

section Rings

variable {self part : ConsistentHashRing}

/-- The owners on an exact ring are the nodes present, whatever the key. -/
theorem Exact.mem_owners_iff (hexact : self.Exact hash) (hvnodes : 1 ≤ self.virtual_nodes_per_node_) {key id : Bytes} :
    id ∈ self.owners hash key ↔ id ∈ self.nodes_ := by
  rw [ConsistentHashRing.mem_owners_iff]
  constructor
  · rintro ⟨pos, hpos⟩
    exact ((hexact pos id).mp hpos).1
  · intro hid
    exact ⟨_, (hexact _ id).mpr ⟨hid, 0, hvnodes, rfl⟩⟩

/-- Two exact rings differ as their nodes do. -/
theorem Exact.toList_filter (hself : self.Exact hash) (hpart : part.Exact hash)
    (hvnodes : part.virtual_nodes_per_node_ = self.virtual_nodes_per_node_) {p : Bytes → Bool}
    (hnodes : ∀ id, id ∈ part.nodes_ ↔ id ∈ self.nodes_ ∧ p id) :
    part.ring_.toList = self.ring_.toList.filter fun entry => p entry.2 := by
  apply toList_eq_filter
  intro pos id
  rw [hself, hpart, hnodes, hvnodes, and_right_comm]

/-- Where one ring has some of the nodes of the other, its walks leave out the
    rest and keep the order. -/
theorem Exact.owners_filter (hself : self.Exact hash) (hpart : part.Exact hash)
    (hvnodes : part.virtual_nodes_per_node_ = self.virtual_nodes_per_node_) {p : Bytes → Bool}
    (hnodes : ∀ id, id ∈ part.nodes_ ↔ id ∈ self.nodes_ ∧ p id) (key : Bytes) :
    part.owners hash key = (self.owners hash key).filter p := by
  rw [owners, owners, lower_bound_eq_filter, lower_bound_eq_filter, hself.toList_filter hpart hvnodes hnodes,
    List.filter_comm, ← List.filter_append, ← eraseDups_filter, List.filter_map]
  rfl

/-- Exact rings with the same nodes list the same entries, however they were
    built. -/
theorem Exact.toList_eq (hself : self.Exact hash) (hpart : part.Exact hash)
    (hvnodes : part.virtual_nodes_per_node_ = self.virtual_nodes_per_node_)
    (hnodes : ∀ id, id ∈ part.nodes_ ↔ id ∈ self.nodes_) : part.ring_.toList = self.ring_.toList := by
  have hall := hself.toList_filter hpart hvnodes (p := fun _ => true) (by simpa using hnodes)
  simpa using hall

theorem Exact.length_owners (hexact : self.Exact hash) (hvnodes : 1 ≤ self.virtual_nodes_per_node_) (key : Bytes) :
    (self.owners hash key).length = self.nodes_.dedup.length := by
  refine List.Perm.length_eq ?_
  rw [List.perm_ext_iff_of_nodup (nodup_owners hash self key) (List.nodup_dedup _)]
  intro id
  rw [hexact.mem_owners_iff hvnodes, List.mem_dedup]

theorem Exact.isEmpty_iff (hexact : self.Exact hash) (hvnodes : 1 ≤ self.virtual_nodes_per_node_) :
    self.ring_.isEmpty ↔ self.nodes_ = [] := by
  rw [← Std.TreeMap.isEmpty_toList, List.isEmpty_iff, List.eq_nil_iff_forall_not_mem, List.eq_nil_iff_forall_not_mem]
  constructor
  · intro hempty id hid
    refine hempty (position hash id 0, id) ?_
    rw [Std.TreeMap.mem_toList_iff_getElem?_eq_some, hexact]
    exact ⟨hid, 0, hvnodes, rfl⟩
  · rintro hnone ⟨pos, id⟩ hentry
    rw [Std.TreeMap.mem_toList_iff_getElem?_eq_some, hexact] at hentry
    exact hnone id hentry.1

/-- On an exact ring of distinct nodes `get_nodes` returns the first owners. -/
theorem Exact.get_nodes_eq_take (hexact : self.Exact hash) (hvnodes : 1 ≤ self.virtual_nodes_per_node_)
    (hne : self.nodes_ ≠ []) (hnodup : self.nodes_.Nodup) (key : Bytes) (count : Nat) :
    self.get_nodes hash key count =
      some (.ok ((self.owners hash key).take (min count self.nodes_.length))) := by
  have hring : ¬ self.ring_.isEmpty := fun hempty => hne ((hexact.isEmpty_iff hvnodes).mp hempty)
  have hlength : (self.owners hash key).length = self.nodes_.length := by
    rw [hexact.length_owners hvnodes, hnodup.dedup]
  rw [get_nodes_eq hash self key count hring, first, if_pos (by omega), Option.map_some]

end Rings

end kv.ConsistentHashRing
