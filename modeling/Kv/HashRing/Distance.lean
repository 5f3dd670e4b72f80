import Mathlib.Data.List.Nodup
import Mathlib.Data.List.TakeWhile
import Kv.HashRing.Exact

open CircularWalk

namespace kv.ConsistentHashRing

variable {hash : Bytes → UInt64} {self : ConsistentHashRing}

def positions (self : ConsistentHashRing) (node_id : Bytes) : List UInt64 :=
  (self.ring_.toList.filter fun entry => entry.2 = node_id).map Prod.fst

theorem mem_positions_iff {node_id : Bytes} {pos : UInt64} :
    pos ∈ self.positions node_id ↔ (pos, node_id) ∈ self.ring_.toList := by
  simp [positions]

/-- How far a position lies clockwise from the key, modulo the size of the ring. -/
def clockwise (hash : Bytes → UInt64) (key : Bytes) (pos : UInt64) : Nat := (pos - hash key).toNat

theorem clockwise_eq (hash : Bytes → UInt64) (key : Bytes) (pos : UInt64) :
    clockwise hash key pos =
      if pos < hash key then pos.toNat + 2 ^ 64 - (hash key).toNat else pos.toNat - (hash key).toNat := by
  have hpos := pos.toNat_lt
  have hkey := (hash key).toNat_lt
  simp only [clockwise, UInt64.toNat_sub, UInt64.lt_iff_toNat_lt]
  split <;> omega

/-- The distance of the nearest of a node's positions. -/
def distance (hash : Bytes → UInt64) (self : ConsistentHashRing) (key node_id : Bytes) : Nat :=
  ((self.positions node_id).map (clockwise hash key)).min?.getD 0

/-- All entries of the ring once, from the key on. -/
def turn (hash : Bytes → UInt64) (self : ConsistentHashRing) (key : Bytes) : List (UInt64 × Bytes) :=
  lower_bound self.ring_ (hash key) ++ self.ring_.toList.takeWhile fun entry => entry.1 < hash key

theorem takeWhile_append_lower_bound (ring : Std.TreeMap UInt64 Bytes) (pos : UInt64) :
    ring.toList.takeWhile (fun entry => entry.1 < pos) ++ lower_bound ring pos = ring.toList :=
  List.takeWhile_append_dropWhile

theorem mem_turn_iff {key : Bytes} {entry : UInt64 × Bytes} :
    entry ∈ self.turn hash key ↔ entry ∈ self.ring_.toList := by
  rw [turn, List.mem_append, or_comm, ← List.mem_append, takeWhile_append_lower_bound]

/-- One turn meets all the owners there are. -/
theorem owners_eq_turn (key : Bytes) : self.owners hash key = ((self.turn hash key).map Prod.snd).eraseDups := by
  have hlist : lower_bound self.ring_ (hash key) ++ self.ring_.toList =
      self.turn hash key ++ lower_bound self.ring_ (hash key) := by
    rw [turn, List.append_assoc, takeWhile_append_lower_bound]
  rw [owners, hlist, List.map_append]
  apply eraseDups_append_of_subset
  intro id hid
  rw [turn, List.map_append]
  exact List.mem_append_left _ hid

/-- A turn moves away from the key all the time. -/
theorem pairwise_turn (hash : Bytes → UInt64) (self : ConsistentHashRing) (key : Bytes) :
    (self.turn hash key).Pairwise fun a b => clockwise hash key a.1 < clockwise hash key b.1 := by
  have hsorted := pairwise_toList self.ring_
  have hbelow {entry : UInt64 × Bytes}
      (hentry : entry ∈ self.ring_.toList.takeWhile fun entry => entry.1 < hash key) : entry.1 < hash key := by
    simpa using List.mem_takeWhile_imp hentry
  have habove {entry : UInt64 × Bytes} (hentry : entry ∈ lower_bound self.ring_ (hash key)) :
      ¬ entry.1 < hash key := by
    rw [lower_bound_eq_filter, List.mem_filter] at hentry
    simpa using hentry.2
  rw [turn, List.pairwise_append]
  refine ⟨(hsorted.sublist (List.dropWhile_sublist _)).imp_of_mem ?_,
    (hsorted.sublist (List.takeWhile_sublist _)).imp_of_mem ?_, ?_⟩
  · intro a b ha hb hab
    have ha' := habove ha
    rw [clockwise_eq, clockwise_eq, if_neg ha', if_neg (habove hb)]
    rw [UInt64.lt_iff_toNat_lt] at hab ha'
    omega
  · intro a b ha hb hab
    have hkey := (hash key).toNat_lt
    rw [clockwise_eq, clockwise_eq, if_pos (hbelow ha), if_pos (hbelow hb)]
    rw [UInt64.lt_iff_toNat_lt] at hab
    omega
  · intro a ha b hb
    have hlast := a.1.toNat_lt
    have hkey := (hash key).toNat_lt
    rw [clockwise_eq, clockwise_eq, if_neg (habove ha), if_pos (hbelow hb)]
    omega

theorem distance_spec {key node_id : Bytes} (howner : node_id ∈ self.owners hash key) :
    (∃ pos, (pos, node_id) ∈ self.ring_.toList ∧ clockwise hash key pos = self.distance hash key node_id) ∧
    ∀ pos, (pos, node_id) ∈ self.ring_.toList → self.distance hash key node_id ≤ clockwise hash key pos := by
  obtain ⟨pos, hpos⟩ := (mem_owners_iff hash self key node_id).mp howner
  rw [← Std.TreeMap.mem_toList_iff_getElem?_eq_some, ← mem_positions_iff] at hpos
  obtain ⟨least, hleast⟩ := Option.isSome_iff_exists.mp
    (List.isSome_min?_of_mem (List.mem_map_of_mem (f := clockwise hash key) hpos))
  have hdistance : self.distance hash key node_id = least := by rw [distance, hleast, Option.getD_some]
  obtain ⟨hmem, hmin⟩ := List.min?_eq_some_iff.mp hleast
  rw [hdistance]
  constructor
  · obtain ⟨pos', hpos', heq⟩ := List.mem_map.mp hmem
    exact ⟨pos', mem_positions_iff.mp hpos', heq⟩
  · intro pos' hpos'
    exact hmin _ (List.mem_map_of_mem (mem_positions_iff.mpr hpos'))

/-- A walk from the key meets its owners by increasing distance. -/
theorem pairwise_owners (hash : Bytes → UInt64) (self : ConsistentHashRing) (key : Bytes) :
    (self.owners hash key).Pairwise fun a b => self.distance hash key a < self.distance hash key b := by
  rw [owners_eq_turn]
  refine (pairwise_eraseDups_map (pairwise_turn hash self key)).imp_of_mem ?_
  rw [← owners_eq_turn]
  rintro a b ha hb ⟨⟨pos, owner⟩, hentry, rfl, hbefore⟩
  rw [mem_turn_iff] at hentry
  obtain ⟨⟨pos', hentry', hnearest⟩, -⟩ := distance_spec hb
  have hlt := hbefore (pos', b) (mem_turn_iff.mpr hentry') rfl
  have hle : self.distance hash key owner ≤ clockwise hash key pos := (distance_spec ha).2 pos hentry
  exact hnearest ▸ Nat.lt_of_le_of_lt hle hlt

/-- The nodes that are present, the nearest to the key first. -/
def by_distance (hash : Bytes → UInt64) (self : ConsistentHashRing) (key : Bytes) : List Bytes :=
  self.nodes_.mergeSort fun a b => self.distance hash key a ≤ self.distance hash key b

theorem Exact.owners_eq_by_distance (hexact : self.Exact hash) (hvnodes : 1 ≤ self.virtual_nodes_per_node_)
    (hnodup : self.nodes_.Nodup) (key : Bytes) : self.owners hash key = self.by_distance hash key := by
  have hpairwise := pairwise_owners hash self key
  have hperm : (self.owners hash key).Perm self.nodes_ := by
    rw [List.perm_ext_iff_of_nodup (nodup_owners hash self key) hnodup]
    intro id
    exact hexact.mem_owners_iff hvnodes
  -- No two nodes are equally far, so there is only one order by distance.
  have hinjective : ((self.owners hash key).map (self.distance hash key)).Nodup :=
    List.pairwise_map.mpr (hpairwise.imp fun hlt => Nat.ne_of_lt hlt)
  have hsorted : (self.by_distance hash key).Pairwise fun a b =>
      self.distance hash key a ≤ self.distance hash key b := by
    refine (List.pairwise_mergeSort ?_ ?_ self.nodes_).imp of_decide_eq_true
    · simpa using fun a b c => Nat.le_trans
    · simpa using fun a b => Nat.le_total _ _
  refine List.Perm.eq_of_pairwise ?_ (hpairwise.imp Nat.le_of_lt) hsorted
    (hperm.trans (List.mergeSort_perm _ _).symm)
  intro a b ha hb hab hba
  have hb' : b ∈ self.owners hash key := hperm.mem_iff.mpr ((List.mergeSort_perm _ _).mem_iff.mp hb)
  exact List.inj_on_of_nodup_map hinjective ha hb' (Nat.le_antisymm hab hba)

/-- `get_nodes` on a ring of distinct nodes without collisions: it returns the
    nodes by their clockwise distance from the key, up to `count` of them, and
    the first is the one `get_node` returns. -/
theorem get_nodes_by_distance {vnodes : Nat} (hvnodes : 1 ≤ vnodes) {updates : List Update}
    (hcoll : NoCollisions hash vnodes (updates.map Update.node_id))
    (hne : (of_updates hash vnodes updates).nodes_ ≠ []) (hnodup : (of_updates hash vnodes updates).nodes_.Nodup)
    (key : Bytes) (count : Nat) :
    let ring := of_updates hash vnodes updates
    ∃ nodes, ring.get_nodes hash key count = some (.ok nodes) ∧
      nodes = (ring.by_distance hash key).take (min count ring.node_count) ∧ nodes.Nodup ∧
      (1 ≤ count → ∃ primary, nodes.head? = some primary ∧ ring.get_node hash key = .ok primary) := by
  intro ring
  have hexact : ring.Exact hash := exact_of_updates hcoll
  have hvnodes' : 1 ≤ ring.virtual_nodes_per_node_ := by simpa [ring] using hvnodes
  have howners := hexact.owners_eq_by_distance hvnodes' hnodup key
  have hget := hexact.get_nodes_eq_take hvnodes' hne hnodup key count
  refine ⟨_, hget, by rw [howners, node_count], get_nodes_nodup hget, ?_⟩
  intro hcount
  have hpos : 0 < ring.nodes_.length := List.length_pos_iff.mpr hne
  have hlength : (ring.owners hash key).length = ring.nodes_.length := by
    rw [hexact.length_owners hvnodes', hnodup.dedup]
  have hprimary := get_node_eq hash ring key
  cases hlist : ring.owners hash key with
  | nil =>
    rw [hlist, List.length_nil] at hlength
    omega
  | cons primary rest =>
    rw [hlist] at hprimary
    obtain ⟨n, hn⟩ : ∃ n, min count ring.nodes_.length = n + 1 := ⟨min count ring.nodes_.length - 1, by omega⟩
    exact ⟨primary, by rw [hn, List.take_succ_cons, List.head?_cons], hprimary⟩

theorem get_nodes_by_distance_example :
    let ids := [ascii "127.0.0.1:7001", ascii "127.0.0.1:7002", ascii "127.0.0.1:7003"]
    let ring := of_updates fnv1a_hash 2 (ids.map .add_node)
    NoCollisions fnv1a_hash 2 ids ∧
    ∃ nodes, ring.get_nodes fnv1a_hash (ascii "key") 2 = some (.ok nodes) ∧
      nodes = (ring.by_distance fnv1a_hash (ascii "key")).take 2 := by
  intro ids ring
  have hcoll : NoCollisions fnv1a_hash 2 ((ids.map Update.add_node).map Update.node_id) := by decide +kernel
  obtain ⟨nodes, hget, hnodes, -⟩ :=
    get_nodes_by_distance (by decide) hcoll (by decide +kernel) (by decide +kernel) (ascii "key") 2
  exact ⟨hcoll, nodes, hget, hnodes⟩

end kv.ConsistentHashRing
