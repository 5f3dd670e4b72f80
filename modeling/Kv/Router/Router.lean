import Kv.HashRing.Build

namespace kv

structure NodeAddress where
  host : Bytes
  port : UInt16 := 0
  deriving DecidableEq, Repr

def NodeAddress.id (self : NodeAddress) : Bytes := self.host ++ ascii ":" ++ to_string self.port.toNat

/-- `alive_` of a `FailureDetector`. -/
abbrev Liveness := Bytes → Option Bool

namespace Liveness

/-- Every node starts out alive. -/
def create (nodes : List NodeAddress) : Liveness :=
  fun id => if (nodes.map NodeAddress.id).contains id then some true else none

def is_alive (self : Liveness) (node_id : Bytes) : Bool :=
  match self node_id with
  | none => false
  | some alive => alive

/-- `mark_up` and `mark_down`. -/
abbrev mark (self : Liveness) (node_id : Bytes) (up : Bool) : Liveness := Function.update self node_id (some up)

theorem is_alive_mark (self : Liveness) (other : Bytes) (up : Bool) (node_id : Bytes) :
    (self.mark other up).is_alive node_id = if node_id = other then up else self.is_alive node_id := by
  by_cases heq : node_id = other
  · simp [is_alive, heq]
  · simp [is_alive, heq]

end Liveness

/-- What a router is built from. None of it changes afterwards. -/
structure Router where
  nodes_ : List NodeAddress
  ring_ : ConsistentHashRing
  replication_factor_ : Nat

namespace Router

/-- The constructor. -/
def create (nodes : List NodeAddress) (virtual_nodes_per_node replication_factor : Nat) : Router where
  nodes_ := nodes
  ring_ := .of_nodes fnv1a_hash virtual_nodes_per_node (nodes.map NodeAddress.id)
  replication_factor_ := max 1 replication_factor

def find_address (self : Router) (node_id : Bytes) : Option NodeAddress :=
  self.nodes_.find? fun n => n.id = node_id

/-- The preference list of a key, where `get_nodes` returns one. -/
def preference_list (self : Router) (key : Bytes) : Option (List Bytes) :=
  match self.ring_.get_nodes fnv1a_hash key self.replication_factor_ with
  | some (.ok nodes) => some nodes
  | _ => none

theorem preference_list_eq_some_iff {self : Router} {key : Bytes} {nodes : List Bytes} :
    self.preference_list key = some nodes ↔
      self.ring_.get_nodes fnv1a_hash key self.replication_factor_ = some (.ok nodes) := by
  unfold preference_list
  split
  · rename_i nodes' hget
    simp [hget]
  · rename_i hnone
    simpa using hnone nodes

theorem preference_list_nodup {self : Router} {key : Bytes} {nodes : List Bytes}
    (hlist : self.preference_list key = some nodes) : nodes.Nodup :=
  ConsistentHashRing.get_nodes_nodup (preference_list_eq_some_iff.mp hlist)

theorem find_address_id {self : Router} {node_id : Bytes} {addr : NodeAddress}
    (hfind : self.find_address node_id = some addr) : addr.id = node_id := by
  simpa using List.find?_some hfind

/-- The ring never returns an unknown node id. -/
def Known (self : Router) : Prop :=
  ∀ key ids, self.preference_list key = some ids → ∀ id ∈ ids, ∃ addr ∈ self.nodes_, addr.id = id

theorem Known.find_address {self : Router} (hknown : self.Known) {key : Bytes} {ids : List Bytes}
    (hlist : self.preference_list key = some ids) {id : Bytes} (hid : id ∈ ids) :
    ∃ addr, self.find_address id = some addr := by
  obtain ⟨addr, haddr, rfl⟩ := hknown key ids hlist id hid
  rw [← Option.isSome_iff_exists]
  exact List.find?_isSome.mpr ⟨addr, haddr, by simp⟩

variable {nodes : List NodeAddress} {vnodes replicas : Nat}

theorem known_create : (create nodes vnodes replicas).Known := by
  intro key ids hlist id hid
  have hsound : (create nodes vnodes replicas).ring_.Sound := ConsistentHashRing.sound_of_nodes vnodes _
  have hmem := hsound.get_nodes_subset (preference_list_eq_some_iff.mp hlist) hid
  have hnodes : (create nodes vnodes replicas).ring_.nodes_ = nodes.map NodeAddress.id :=
    ConsistentHashRing.of_nodes_nodes vnodes _
  rw [hnodes, List.mem_map] at hmem
  exact hmem

/-- A router of distinct nodes without collisions has a preference list with a
    primary for every key. -/
theorem exists_preference_list (hne : nodes ≠ []) (hids : (nodes.map NodeAddress.id).Nodup) (hvnodes : 1 ≤ vnodes)
    (hcoll : ConsistentHashRing.NoCollisions fnv1a_hash vnodes (nodes.map NodeAddress.id)) (key : Bytes) :
    ∃ primary replicas', (create nodes vnodes replicas).preference_list key = some (primary :: replicas') := by
  obtain ⟨ids, hget, hlength⟩ := ConsistentHashRing.get_nodes_of_nodes hids (by simpa using hne) hvnodes hcoll key
    (max 1 replicas)
  cases ids with
  | nil =>
    have hpos : 0 < nodes.length := List.length_pos_iff.mpr hne
    simp only [List.length_nil, List.length_map] at hlength
    omega
  | cons primary rest => exact ⟨primary, rest, preference_list_eq_some_iff.mpr hget⟩

end Router

end kv
