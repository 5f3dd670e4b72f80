import Mathlib.Data.List.Induction
import Kv.HashRing.Walk

open CircularWalk

namespace kv.ConsistentHashRing

variable {hash : Bytes → UInt64}

private theorem getElem?_foldl_insert (ring : Std.TreeMap UInt64 Bytes) (node_id : Bytes) (pos : UInt64) (n : Nat) :
    ((List.range n).foldl (fun ring i => ring.insert (position hash node_id i) node_id) ring)[pos]? =
      if ∃ i < n, position hash node_id i = pos then some node_id else ring[pos]? := by
  induction n with
  | zero => simp
  | succ n ih =>
    rw [List.range_succ, List.foldl_append, List.foldl_cons, List.foldl_nil, Std.TreeMap.getElem?_insert, ih]
    by_cases hlast : position hash node_id n = pos
    · rw [if_pos (by rw [hlast, Std.compare_self]), if_pos ⟨n, by omega, hlast⟩]
    · rw [if_neg fun heq => hlast (Std.LawfulEqOrd.eq_of_compare heq)]
      have hsame : (∃ i < n, position hash node_id i = pos) ↔ ∃ i < n + 1, position hash node_id i = pos := by
        constructor
        · rintro ⟨i, hi, hpos⟩
          exact ⟨i, by omega, hpos⟩
        · rintro ⟨i, hi, hpos⟩
          have hne : i ≠ n := by
            rintro rfl
            exact hlast hpos
          exact ⟨i, by omega, hpos⟩
      simp only [hsame]

/-- A new node takes its positions and leaves the others as they were. -/
theorem getElem?_add_node (self : ConsistentHashRing) (node_id : Bytes) (pos : UInt64) :
    (self.add_node hash node_id).ring_[pos]? =
      if ∃ i < self.virtual_nodes_per_node_, position hash node_id i = pos then some node_id
      else self.ring_[pos]? :=
  getElem?_foldl_insert self.ring_ node_id pos _

/-- Every position belongs to a node that is present. -/
def Sound (self : ConsistentHashRing) : Prop :=
  ∀ (pos : UInt64) (node_id : Bytes), self.ring_[pos]? = some node_id → node_id ∈ self.nodes_

theorem Sound.add_node {self : ConsistentHashRing} (hsound : self.Sound) (node_id : Bytes) :
    (self.add_node hash node_id).Sound := by
  intro pos owner howner
  rw [getElem?_add_node] at howner
  change owner ∈ self.nodes_ ++ [node_id]
  split at howner
  · obtain rfl : node_id = owner := Option.some.inj howner
    simp
  · exact List.mem_append_left _ (hsound pos owner howner)

/-- The ring of a router: its nodes added one by one. -/
def of_nodes (hash : Bytes → UInt64) (virtual_nodes_per_node : Nat) (ids : List Bytes) : ConsistentHashRing :=
  ids.foldl (add_node hash) { virtual_nodes_per_node_ := virtual_nodes_per_node }

theorem of_nodes_snoc (vnodes : Nat) (ids : List Bytes) (id : Bytes) :
    of_nodes hash vnodes (ids ++ [id]) = (of_nodes hash vnodes ids).add_node hash id := by
  simp [of_nodes]

@[simp]
theorem of_nodes_nodes (vnodes : Nat) (ids : List Bytes) : (of_nodes hash vnodes ids).nodes_ = ids := by
  induction ids using List.reverseRecOn with
  | nil => rfl
  | append_singleton ids id ih => rw [of_nodes_snoc, add_node, ih]

@[simp]
theorem of_nodes_virtual_nodes (vnodes : Nat) (ids : List Bytes) :
    (of_nodes hash vnodes ids).virtual_nodes_per_node_ = vnodes := by
  induction ids using List.reverseRecOn with
  | nil => rfl
  | append_singleton ids id ih => rw [of_nodes_snoc, add_node, ih]

/-- The ring is empty when the nodes have no positions, or there are none. -/
theorem of_nodes_isEmpty_iff (vnodes : Nat) (ids : List Bytes) :
    (of_nodes hash vnodes ids).ring_.isEmpty ↔ vnodes = 0 ∨ ids = [] := by
  rw [Std.TreeMap.isEmpty_iff_forall_not_mem]
  induction ids using List.reverseRecOn with
  | nil => simp [of_nodes]
  | append_singleton ids id ih =>
    simp only [List.append_eq_nil_iff, List.cons_ne_self, and_false, or_false]
    constructor
    · intro hempty
      by_contra hpos
      -- The last node is never overwritten.
      refine hempty (position hash id 0) ?_
      rw [← Std.TreeMap.isSome_getElem?_iff_mem, of_nodes_snoc, getElem?_add_node,
        if_pos ⟨0, by rw [of_nodes_virtual_nodes]; omega, rfl⟩]
      rfl
    · rintro rfl pos hmem
      rw [← Std.TreeMap.isSome_getElem?_iff_mem, of_nodes_snoc, getElem?_add_node, if_neg (by simp),
        Std.TreeMap.isSome_getElem?_iff_mem] at hmem
      exact ih.mpr (.inl rfl) pos hmem

theorem sound_of_nodes (vnodes : Nat) (ids : List Bytes) : (of_nodes hash vnodes ids).Sound := by
  induction ids using List.reverseRecOn with
  | nil =>
    intro pos owner howner
    exact absurd howner (by simp [of_nodes])
  | append_singleton ids id ih =>
    rw [of_nodes_snoc]
    exact ih.add_node id

/-- No two nodes claim the same ring position. -/
def NoCollisions (hash : Bytes → UInt64) (vnodes : Nat) (ids : List Bytes) : Prop :=
  ∀ id ∈ ids, ∀ other ∈ ids, id ≠ other → ∀ i < vnodes, ∀ j < vnodes,
    position hash id i ≠ position hash other j

instance (hash : Bytes → UInt64) (vnodes : Nat) (ids : List Bytes) : Decidable (NoCollisions hash vnodes ids) :=
  inferInstanceAs (Decidable (∀ id ∈ ids, ∀ other ∈ ids, id ≠ other → ∀ i < vnodes, ∀ j < vnodes,
    position hash id i ≠ position hash other j))

theorem getElem?_of_nodes {vnodes : Nat} {ids : List Bytes} (hcoll : NoCollisions hash vnodes ids) {id : Bytes}
    (hid : id ∈ ids) {i : Nat} (hi : i < vnodes) :
    (of_nodes hash vnodes ids).ring_[position hash id i]? = some id := by
  induction ids using List.reverseRecOn with
  | nil => simp at hid
  | append_singleton ids last ih =>
    rw [of_nodes_snoc, getElem?_add_node, of_nodes_virtual_nodes]
    by_cases heq : id = last
    · subst heq
      rw [if_pos ⟨i, hi, rfl⟩]
    · rw [if_neg]
      · have hmem : id ∈ ids := by simpa [heq] using hid
        apply ih _ hmem
        intro a ha b hb
        exact hcoll a (List.mem_append_left _ ha) b (List.mem_append_left _ hb)
      · rintro ⟨j, hj, hpos⟩
        exact hcoll id hid last (by simp) heq i hi j hj hpos.symm

theorem get_nodes_ok_cases {self : ConsistentHashRing} {key : Bytes} {count : Nat} {nodes : List Bytes}
    (hget : self.get_nodes hash key count = some (.ok nodes)) :
    nodes = (self.owners hash key).take (min count self.nodes_.length) := by
  by_cases hring : self.ring_.isEmpty
  · simp [get_nodes, hring] at hget
  · rw [get_nodes_eq hash self key count hring, first] at hget
    split at hget
    · simpa using hget.symm
    · simp at hget

/-- A preference list has no node twice. -/
theorem get_nodes_nodup {self : ConsistentHashRing} {key : Bytes} {count : Nat} {nodes : List Bytes}
    (hget : self.get_nodes hash key count = some (.ok nodes)) : nodes.Nodup := by
  rw [get_nodes_ok_cases hget]
  exact (nodup_owners hash self key).sublist (List.take_sublist _ _)

/-- A preference list names only nodes that are present. -/
theorem Sound.get_nodes_subset {self : ConsistentHashRing} (hsound : self.Sound) {key : Bytes} {count : Nat}
    {nodes : List Bytes} (hget : self.get_nodes hash key count = some (.ok nodes)) {id : Bytes} (hid : id ∈ nodes) :
    id ∈ self.nodes_ := by
  rw [get_nodes_ok_cases hget] at hid
  obtain ⟨pos, hpos⟩ := (mem_owners_iff hash self key id).mp ((List.take_sublist _ _).subset hid)
  exact hsound pos id hpos

/-- A preference list of at least one node is not empty. -/
theorem Sound.get_nodes_ne_nil {self : ConsistentHashRing} (hsound : self.Sound) {key : Bytes} {count : Nat}
    {nodes : List Bytes} (hcount : 1 ≤ count) (hget : self.get_nodes hash key count = some (.ok nodes)) :
    nodes ≠ [] := by
  have hring : self.ring_.toList ≠ [] := by
    intro hempty
    rw [← List.isEmpty_iff, Std.TreeMap.isEmpty_toList] at hempty
    simp [get_nodes, hempty] at hget
  obtain ⟨⟨pos, id⟩, hentry⟩ := List.exists_mem_of_ne_nil _ hring
  have hpos := Std.TreeMap.mem_toList_iff_getElem?_eq_some.mp hentry
  have howner : 0 < (self.owners hash key).length :=
    List.length_pos_of_mem ((mem_owners_iff hash self key id).mpr ⟨pos, hpos⟩)
  have hnode : 0 < self.nodes_.length := List.length_pos_of_mem (hsound pos id hpos)
  rw [get_nodes_ok_cases hget, ← List.length_pos_iff, List.length_take]
  omega

/-- On a ring of distinct nodes without collisions `get_nodes` returns, with as
    many nodes as asked for as long as there are any. -/
theorem get_nodes_of_nodes {vnodes : Nat} {ids : List Bytes} (hids : ids.Nodup) (hne : ids ≠ [])
    (hvnodes : 1 ≤ vnodes) (hcoll : NoCollisions hash vnodes ids) (key : Bytes) (count : Nat) :
    ∃ nodes, (of_nodes hash vnodes ids).get_nodes hash key count = some (.ok nodes) ∧
      nodes.length = min count ids.length := by
  have howners : ids ⊆ (of_nodes hash vnodes ids).owners hash key := by
    intro id hid
    rw [mem_owners_iff]
    exact ⟨_, getElem?_of_nodes hcoll hid hvnodes⟩
  have hcount : ids.length ≤ ((of_nodes hash vnodes ids).owners hash key).length :=
    (List.subperm_of_subset hids howners).length_le
  have hring : ¬ (of_nodes hash vnodes ids).ring_.isEmpty := by
    obtain ⟨id, hid⟩ := List.exists_mem_of_ne_nil ids hne
    intro hempty
    have hpos := getElem?_of_nodes hcoll hid hvnodes
    rw [Std.TreeMap.getElem?_of_isEmpty hempty] at hpos
    exact absurd hpos (by simp)
  refine ⟨_, by rw [get_nodes_eq hash _ key count hring, first, of_nodes_nodes, if_pos (by omega)]; rfl, ?_⟩
  rw [List.length_take]
  omega

end kv.ConsistentHashRing
