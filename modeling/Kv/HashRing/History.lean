import Kv.HashRing.Build
import Kv.Lib.Transition

namespace kv.ConsistentHashRing

variable {hash : Bytes → UInt64}

/-- A call that changes the ring. -/
inductive Update
  | add_node (node_id : Bytes)
  | remove_node (node_id : Bytes)
  deriving DecidableEq

def Update.node_id : Update → Bytes
  | .add_node node_id => node_id
  | .remove_node node_id => node_id

def update (hash : Bytes → UInt64) (self : ConsistentHashRing) : Update → ConsistentHashRing
  | .add_node node_id => self.add_node hash node_id
  | .remove_node node_id => self.remove_node hash node_id

/-- The ring that a sequence of calls makes of an empty one. -/
def of_updates (hash : Bytes → UInt64) (virtual_nodes_per_node : Nat) (updates : List Update) : ConsistentHashRing :=
  updates.foldl (update hash) { virtual_nodes_per_node_ := virtual_nodes_per_node }

theorem of_updates_snoc (vnodes : Nat) (updates : List Update) (last : Update) :
    of_updates hash vnodes (updates ++ [last]) = (of_updates hash vnodes updates).update hash last := by
  simp [of_updates]

@[simp]
theorem update_virtual_nodes (self : ConsistentHashRing) (change : Update) :
    (self.update hash change).virtual_nodes_per_node_ = self.virtual_nodes_per_node_ := by
  cases change <;> rfl

@[simp]
theorem of_updates_virtual_nodes (vnodes : Nat) (updates : List Update) :
    (of_updates hash vnodes updates).virtual_nodes_per_node_ = vnodes := by
  induction updates using List.reverseRecOn with
  | nil => rfl
  | append_singleton updates last ih => rw [of_updates_snoc, update_virtual_nodes, ih]

theorem of_updates_map_add_node (vnodes : Nat) (ids : List Bytes) :
    of_updates hash vnodes (ids.map .add_node) = of_nodes hash vnodes ids := by
  rw [of_updates, of_nodes, List.foldl_map]
  rfl

/-- Added, and not removed since. -/
def Present (updates : List Update) (node_id : Bytes) : Prop :=
  ∃ before after, updates = before ++ .add_node node_id :: after ∧ .remove_node node_id ∉ after

theorem not_present_nil (node_id : Bytes) : ¬ Present [] node_id := by
  rintro ⟨before, after, hsplit, _⟩
  simp at hsplit

theorem present_snoc_iff {updates : List Update} {last : Update} {node_id : Bytes} :
    Present (updates ++ [last]) node_id ↔
      last = .add_node node_id ∨ Present updates node_id ∧ last ≠ .remove_node node_id := by
  constructor
  · rintro ⟨before, after, hsplit, hkept⟩
    rcases Transition.snoc_eq_append_cons hsplit with ⟨-, -, hlast⟩ | ⟨after', rfl, hinit⟩
    · exact .inl hlast
    · simp only [List.mem_append, List.mem_singleton, not_or] at hkept
      exact .inr ⟨⟨before, after', hinit, hkept.1⟩, fun heq => hkept.2 heq.symm⟩
  · rintro (rfl | ⟨⟨before, after, rfl, hkept⟩, hlast⟩)
    · exact ⟨updates, [], rfl, by simp⟩
    · refine ⟨before, after ++ [last], by simp, ?_⟩
      simp only [List.mem_append, List.mem_singleton, not_or]
      exact ⟨hkept, fun heq => hlast heq.symm⟩

/-- The node list holds what was added and not removed since. -/
theorem mem_of_updates_nodes_iff {vnodes : Nat} {updates : List Update} {node_id : Bytes} :
    node_id ∈ (of_updates hash vnodes updates).nodes_ ↔ Present updates node_id := by
  induction updates using List.reverseRecOn with
  | nil => simp [of_updates, not_present_nil]
  | append_singleton updates last ih =>
    rw [of_updates_snoc, present_snoc_iff, ← ih]
    cases last with
    | add_node id => simp [update, add_node, or_comm, @eq_comm _ id node_id]
    | remove_node id => simp [update, remove_node, @eq_comm _ id node_id]

theorem mem_map_node_id_of_present {updates : List Update} {node_id : Bytes} (hpresent : Present updates node_id) :
    node_id ∈ updates.map Update.node_id := by
  obtain ⟨before, after, rfl, _⟩ := hpresent
  simp [Update.node_id]

/-- No node was added while it was present. -/
def Fresh (updates : List Update) : Prop :=
  ∀ before node_id after, updates = before ++ .add_node node_id :: after → ¬ Present before node_id

theorem Fresh.of_snoc {updates : List Update} {last : Update} (hfresh : Fresh (updates ++ [last])) :
    Fresh updates := by
  rintro before node_id after rfl
  exact hfresh before node_id (after ++ [last]) (by simp)

theorem Fresh.nodup_nodes {vnodes : Nat} {updates : List Update} (hfresh : Fresh updates) :
    (of_updates hash vnodes updates).nodes_.Nodup := by
  induction updates using List.reverseRecOn with
  | nil => exact List.nodup_nil
  | append_singleton updates last ih =>
    have hnodup := ih hfresh.of_snoc
    rw [of_updates_snoc]
    cases last with
    | add_node id =>
      have hnew : id ∉ (of_updates hash vnodes updates).nodes_ :=
        fun hmem => hfresh updates id [] rfl (mem_of_updates_nodes_iff.mp hmem)
      exact List.nodup_append.mpr ⟨hnodup, List.nodup_singleton id, by
        rintro a ha b hb rfl
        exact hnew (by rwa [← List.mem_singleton.mp hb])⟩
    | remove_node id => exact hnodup.filter _

private theorem getElem?_foldl_erase (ring : Std.TreeMap UInt64 Bytes) (node_id : Bytes) (pos : UInt64) (n : Nat) :
    ((List.range n).foldl (fun ring i => ring.erase (position hash node_id i)) ring)[pos]? =
      if ∃ i < n, position hash node_id i = pos then none else ring[pos]? := by
  induction n with
  | zero => simp
  | succ n ih =>
    rw [List.range_succ, List.foldl_append, List.foldl_cons, List.foldl_nil, Std.TreeMap.getElem?_erase, ih]
    simp only [Std.LawfulEqCmp.compare_eq_iff_eq, Nat.lt_succ_iff_lt_or_eq, or_and_right, exists_or,
      exists_eq_left]
    by_cases hlast : position hash node_id n = pos
    · simp [hlast]
    · simp [hlast]

/-- A removed node gives up its positions, whoever owned them. -/
theorem getElem?_remove_node (self : ConsistentHashRing) (node_id : Bytes) (pos : UInt64) :
    (self.remove_node hash node_id).ring_[pos]? =
      if ∃ i < self.virtual_nodes_per_node_, position hash node_id i = pos then none else self.ring_[pos]? :=
  getElem?_foldl_erase self.ring_ node_id pos _

/-- Every owner is present and stands at a position of its own. Colliding
    positions may have passed from one node to another, but only to one that
    claims them. -/
def Placed (hash : Bytes → UInt64) (self : ConsistentHashRing) : Prop :=
  ∀ (pos : UInt64) (node_id : Bytes), self.ring_[pos]? = some node_id →
    node_id ∈ self.nodes_ ∧ ∃ i < self.virtual_nodes_per_node_, position hash node_id i = pos

theorem Placed.sound {self : ConsistentHashRing} (hplaced : self.Placed hash) : self.Sound :=
  fun pos node_id howner => (hplaced pos node_id howner).1

theorem Placed.update {self : ConsistentHashRing} (hplaced : self.Placed hash) (change : Update) :
    (self.update hash change).Placed hash := by
  intro pos owner howner
  cases change with
  | add_node id =>
    change owner ∈ self.nodes_ ++ [id] ∧ _
    rw [ConsistentHashRing.update, getElem?_add_node] at howner
    split at howner
    · rename_i hclaims
      obtain rfl : id = owner := Option.some.inj howner
      exact ⟨by simp, hclaims⟩
    · obtain ⟨hmem, hclaims⟩ := hplaced pos owner howner
      exact ⟨List.mem_append_left _ hmem, hclaims⟩
  | remove_node id =>
    change owner ∈ self.nodes_.filter (· ≠ id) ∧ _
    rw [ConsistentHashRing.update, getElem?_remove_node] at howner
    split at howner
    · simp at howner
    · rename_i hkept
      obtain ⟨hmem, hclaims⟩ := hplaced pos owner howner
      have hne : owner ≠ id := by
        rintro rfl
        exact hkept hclaims
      exact ⟨List.mem_filter.mpr ⟨hmem, by simpa using hne⟩, hclaims⟩

theorem placed_of_updates (vnodes : Nat) (updates : List Update) : (of_updates hash vnodes updates).Placed hash := by
  induction updates using List.reverseRecOn with
  | nil =>
    intro pos owner howner
    exact absurd howner (by simp [of_updates])
  | append_singleton updates last ih =>
    rw [of_updates_snoc]
    exact ih.update last

end kv.ConsistentHashRing
