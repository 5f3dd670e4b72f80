import Kv.HashRing.Exact

open CircularWalk

namespace kv.ConsistentHashRing

variable {hash : Bytes → UInt64} {self part : ConsistentHashRing}

/-- The preference lists of a key on two rings, one of which has a node `x` less.
    The full lists agree but for `x`, and the primary changes only if it was `x`,
    to the second node of the longer list. -/
def OnlyLoses (hash : Bytes → UInt64) (self part : ConsistentHashRing) (x key : Bytes) : Prop :=
  ∃ primary second rest,
    self.get_nodes hash key self.node_count = some (.ok (primary :: second :: rest)) ∧
    part.get_nodes hash key part.node_count = some (.ok ((primary :: second :: rest).filter (· ≠ x))) ∧
    self.get_node hash key = .ok primary ∧
    part.get_node hash key = .ok (if primary = x then second else primary)

theorem Exact.get_nodes_node_count (hexact : self.Exact hash) (hvnodes : 1 ≤ self.virtual_nodes_per_node_)
    (hne : self.nodes_ ≠ []) (hnodup : self.nodes_.Nodup) (key : Bytes) :
    self.get_nodes hash key self.node_count = some (.ok (self.owners hash key)) := by
  have hlength : (self.owners hash key).length = self.node_count := by
    rw [hexact.length_owners hvnodes, hnodup.dedup, node_count]
  rw [hexact.get_nodes_eq_take hvnodes hne hnodup, ← node_count, min_self, ← hlength, List.take_length]

theorem Exact.onlyLoses (hself : self.Exact hash) (hpart : part.Exact hash)
    (hvnodes : 1 ≤ self.virtual_nodes_per_node_)
    (hsame : part.virtual_nodes_per_node_ = self.virtual_nodes_per_node_) {x : Bytes}
    (hnodes : ∀ id, id ∈ part.nodes_ ↔ id ∈ self.nodes_ ∧ id ≠ x) (hx : x ∈ self.nodes_)
    (hself' : self.nodes_.Nodup) (hpart' : part.nodes_.Nodup) {y : Bytes} (hy : y ∈ part.nodes_) (key : Bytes) :
    OnlyLoses hash self part x key := by
  have howners : part.owners hash key = (self.owners hash key).filter (· ≠ x) :=
    hself.owners_filter hpart hsame (by simpa using hnodes) key
  have hfull := hself.get_nodes_node_count hvnodes (List.ne_nil_of_mem hx) hself' key
  have hfull' := hpart.get_nodes_node_count (hsame ▸ hvnodes) (List.ne_nil_of_mem hy) hpart' key
  have hxmem : x ∈ self.owners hash key := (hself.mem_owners_iff hvnodes).mpr hx
  obtain ⟨hyself, hyx⟩ := (hnodes y).mp hy
  have hymem : y ∈ self.owners hash key := (hself.mem_owners_iff hvnodes).mpr hyself
  have hdistinct := nodup_owners hash self key
  have hprimary := get_node_eq hash self key
  have hprimary' := get_node_eq hash part key
  rw [howners] at hfull' hprimary'
  -- Two different owners make the list at least two long.
  generalize self.owners hash key = list at *
  match list, hdistinct with
  | [], _ => simp at hxmem
  | [only], _ =>
    obtain rfl := List.mem_singleton.mp hxmem
    exact absurd (List.mem_singleton.mp hymem) hyx
  | primary :: second :: rest, hdistinct =>
    refine ⟨primary, second, rest, hfull, hfull', hprimary, ?_⟩
    rw [hprimary']
    by_cases hprimaryx : primary = x
    · subst hprimaryx
      have hsecond : second ≠ primary := by
        rintro rfl
        simp at hdistinct
      simp [hsecond]
    · simp [hprimaryx]

/-- Minimal disruption. On a ring of distinct nodes without collisions, removing
    a node, or adding a new one, changes the full preference list of every key
    by that node alone. -/
theorem minimal_disruption {vnodes : Nat} (hvnodes : 1 ≤ vnodes) {updates : List Update} {x : Bytes}
    (hcoll : NoCollisions hash vnodes (x :: updates.map Update.node_id))
    (hnodup : (of_updates hash vnodes updates).nodes_.Nodup)
    (hother : ∃ y ∈ (of_updates hash vnodes updates).nodes_, y ≠ x) (key : Bytes) :
    let ring := of_updates hash vnodes updates
    (x ∈ ring.nodes_ → OnlyLoses hash ring (ring.remove_node hash x) x key) ∧
    (x ∉ ring.nodes_ → OnlyLoses hash (ring.add_node hash x) ring x key) := by
  intro ring
  obtain ⟨y, hy, hyx⟩ := hother
  have hring : ring.Exact hash := exact_of_updates (hcoll.mono (List.subset_cons_self ..))
  have hvnodes' : 1 ≤ ring.virtual_nodes_per_node_ := by simpa [ring] using hvnodes
  have hnext (last : Update) (hlast : last.node_id = x) : (ring.update hash last).Exact hash := by
    have hexact : (of_updates hash vnodes (updates ++ [last])).Exact hash :=
      exact_of_updates (hcoll.mono (by simp [hlast]))
    rwa [of_updates_snoc] at hexact
  constructor
  · intro hx
    have hremoved : (ring.remove_node hash x).Exact hash := hnext (.remove_node x) rfl
    refine hring.onlyLoses hremoved hvnodes' rfl (by simp [remove_node]) hx hnodup (hnodup.filter _)
      (y := y) ?_ key
    exact List.mem_filter.mpr ⟨hy, by simpa using hyx⟩
  · intro hx
    have hadded : (ring.add_node hash x).Exact hash := hnext (.add_node x) rfl
    have hnodes (id : Bytes) : id ∈ ring.nodes_ ↔ id ∈ (ring.add_node hash x).nodes_ ∧ id ≠ x := by
      by_cases hid : id = x
      · simp [hid, hx]
      · simp [add_node, hid]
    have hnodup' : (ring.add_node hash x).nodes_.Nodup := by
      simp only [add_node, List.nodup_append, List.nodup_singleton, List.mem_singleton, true_and]
      refine ⟨hnodup, ?_⟩
      rintro a ha b rfl rfl
      exact hx ha
    exact hadded.onlyLoses hring hvnodes' rfl hnodes (by simp [add_node]) hnodup' hnodup hy key

theorem minimal_disruption_example :
    let ids := [ascii "127.0.0.1:7001", ascii "127.0.0.1:7002", ascii "127.0.0.1:7003"]
    let ring := of_updates fnv1a_hash 2 (ids.map .add_node)
    NoCollisions fnv1a_hash 2 (ascii "127.0.0.1:7002" :: ids) ∧
    OnlyLoses fnv1a_hash ring (ring.remove_node fnv1a_hash (ascii "127.0.0.1:7002")) (ascii "127.0.0.1:7002")
      (ascii "key") := by
  have hcoll : NoCollisions fnv1a_hash 2 [ascii "127.0.0.1:7002", ascii "127.0.0.1:7001", ascii "127.0.0.1:7002",
    ascii "127.0.0.1:7003"] := by decide +kernel
  exact ⟨hcoll, (minimal_disruption (by decide) hcoll (by decide +kernel) (by decide +kernel) _).1 (by decide +kernel)⟩

/-- `get_nodes` on any ring without collisions: it throws where the ring is
    empty, and else returns as many distinct nodes as there are, up to `count`,
    unless some node is listed twice and `count` asks for more than there are.
    Then the loop never ends. -/
theorem get_nodes_ends_iff {vnodes : Nat} (hvnodes : 1 ≤ vnodes) {updates : List Update}
    (hcoll : NoCollisions hash vnodes (updates.map Update.node_id)) (key : Bytes) (count : Nat) :
    let ring := of_updates hash vnodes updates
    ((ring.ring_.isEmpty ∧
        ring.get_nodes hash key count = some (.error (ascii "ConsistentHashRing::get_nodes: ring has no nodes"))) ∨
      ∃ nodes, ring.get_nodes hash key count = some (.ok nodes) ∧ nodes.Nodup ∧
        nodes.length = min count ring.nodes_.dedup.length ∧ ∀ id ∈ nodes, id ∈ ring.nodes_) ↔
    ring.nodes_.Nodup ∨ count ≤ ring.nodes_.dedup.length := by
  intro ring
  have hexact : ring.Exact hash := exact_of_updates hcoll
  have hvnodes' : 1 ≤ ring.virtual_nodes_per_node_ := by simpa [ring] using hvnodes
  by_cases hempty : ring.ring_.isEmpty
  · have hnone := (hexact.isEmpty_iff hvnodes').mp hempty
    exact iff_of_true (.inl ⟨hempty, by rw [get_nodes, if_pos hempty]⟩) (.inl (by simp [hnone]))
  have hlength := hexact.length_owners hvnodes' key
  have hdedup : ring.nodes_.dedup.length ≤ ring.nodes_.length := (List.dedup_sublist _).length_le
  constructor
  · rintro (⟨hempty', _⟩ | ⟨nodes, hget, -, hnodes, -⟩)
    · exact absurd hempty' hempty
    · have hall := get_nodes_ok_cases hget
      rw [hall, List.length_take, hlength] at hnodes
      rw [get_nodes_eq hash ring key count hempty, first, hlength] at hget
      split at hget
      · rename_i henough
        rcases Nat.lt_or_ge ring.nodes_.dedup.length count with hmany | hfew
        · have hsame : ring.nodes_.dedup = ring.nodes_ := (List.dedup_sublist _).eq_of_length_le (by omega)
          exact .inl (List.dedup_eq_self.mp hsame)
        · exact .inr hfew
      · simp at hget
  · intro hends
    have hcount : min count ring.nodes_.length = min count ring.nodes_.dedup.length := by
      rcases hends with hnodup | hfew
      · rw [hnodup.dedup]
      · omega
    have hget : ring.get_nodes hash key count =
        some (.ok ((ring.owners hash key).take (min count ring.nodes_.dedup.length))) := by
      rw [get_nodes_eq hash ring key count hempty, first, hcount, if_pos (by omega), Option.map_some]
    exact .inr ⟨_, hget, get_nodes_nodup hget, by rw [List.length_take]; omega,
      fun id hid => (placed_of_updates vnodes updates).sound.get_nodes_subset hget hid⟩

theorem get_nodes_ends_example :
    let ids := [ascii "127.0.0.1:7001", ascii "127.0.0.1:7001", ascii "127.0.0.1:7002"]
    let ring := of_updates fnv1a_hash 2 (ids.map .add_node)
    NoCollisions fnv1a_hash 2 ids ∧ ring.nodes_.dedup.length = 2 ∧
    ∃ nodes, ring.get_nodes fnv1a_hash (ascii "key") 2 = some (.ok nodes) ∧ nodes.Nodup ∧ nodes.length = 2 := by
  intro ids ring
  have hcoll : NoCollisions fnv1a_hash 2 ids := by decide +kernel
  have hdistinct : ring.nodes_.dedup.length = 2 := by decide +kernel
  have hring : ¬ ring.ring_.isEmpty := by decide +kernel
  have hcoll' : NoCollisions fnv1a_hash 2 ((ids.map Update.add_node).map Update.node_id) := hcoll
  refine ⟨hcoll, hdistinct, ?_⟩
  rcases (get_nodes_ends_iff (by decide) hcoll' (ascii "key") 2).mpr (.inr hdistinct.ge) with
    ⟨hempty, _⟩ | ⟨nodes, hget, hnodup, hlength, _⟩
  · exact absurd hempty hring
  · exact ⟨nodes, hget, hnodup, by rw [hlength, hdistinct, min_self]⟩

/-- A router started with one node listed twice: no number of iterations ends
    the loop of its first request with two replicas. -/
theorem get_nodes_spins :
    let ids := [ascii "127.0.0.1:7001", ascii "127.0.0.1:7001"]
    let ring := of_updates fnv1a_hash 150 (ids.map .add_node)
    NoCollisions fnv1a_hash 150 ids ∧
    ring.get_nodes fnv1a_hash (ascii "key") 2 = none ∧
    ∀ fuel, get_nodes_loop ring.ring_.toList (min 2 ring.nodes_.length) fuel
      (lower_bound ring.ring_ (fnv1a_hash (ascii "key"))) [] = none := by
  intro ids ring
  have hcoll : NoCollisions fnv1a_hash 150 ids := by simp [NoCollisions, ids]
  have hexact : ring.Exact fnv1a_hash := exact_of_updates hcoll
  have hvnodes : 1 ≤ ring.virtual_nodes_per_node_ := by simp [ring]
  have hring : ¬ ring.ring_.isEmpty := by
    rw [hexact.isEmpty_iff hvnodes]
    decide
  have hget : ring.get_nodes fnv1a_hash (ascii "key") 2 = none := by
    have hlength := hexact.length_owners hvnodes (ascii "key")
    have hshort : ring.nodes_.dedup.length < min 2 ring.nodes_.length := by decide
    rw [get_nodes_eq fnv1a_hash ring _ 2 hring, first_of_length_lt (by omega), Option.map_none]
  refine ⟨hcoll, hget, ?_⟩
  intro fuel
  by_contra hends
  obtain ⟨result, hloop⟩ := Option.ne_none_iff_exists'.mp hends
  have htwo := get_nodes_loop_two_turns (lower_bound_length_le _ _) hloop
  rw [get_nodes, if_neg hring, htwo] at hget
  simp at hget

end kv.ConsistentHashRing
