import Kv.HashRing.Exact
import Kv.Router.Router

namespace kv.Router

open ConsistentHashRing

variable {nodes permuted : List NodeAddress} {vnodes replicas : Nat}

/-- The order in which the nodes are listed does not matter. -/
theorem preference_list_perm (hperm : nodes.Perm permuted)
    (hcoll : NoCollisions fnv1a_hash vnodes (nodes.map NodeAddress.id)) (key : Bytes) :
    (create nodes vnodes replicas).preference_list key = (create permuted vnodes replicas).preference_list key := by
  have hids := hperm.map NodeAddress.id
  have hexact {ids : List Bytes} (hcoll : NoCollisions fnv1a_hash vnodes ids) :
      (of_nodes fnv1a_hash vnodes ids).Exact fnv1a_hash := by
    rw [← of_updates_map_add_node]
    refine exact_of_updates ?_
    rwa [List.map_map, show Update.node_id ∘ Update.add_node = id from rfl, List.map_id]
  have hlist : (of_nodes fnv1a_hash vnodes (nodes.map NodeAddress.id)).ring_.toList =
      (of_nodes fnv1a_hash vnodes (permuted.map NodeAddress.id)).ring_.toList := by
    refine (hexact (hcoll.mono hids.symm.subset)).toList_eq (hexact hcoll) (by simp) ?_
    intro id
    rw [of_nodes_nodes, of_nodes_nodes]
    exact hids.mem_iff
  have hget : (of_nodes fnv1a_hash vnodes (nodes.map NodeAddress.id)).get_nodes fnv1a_hash key (max 1 replicas) =
      (of_nodes fnv1a_hash vnodes (permuted.map NodeAddress.id)).get_nodes fnv1a_hash key (max 1 replicas) :=
    get_nodes_congr hlist (by simpa using hids.length_eq) key _
  simp only [preference_list, create, hget]

end kv.Router

namespace kv.ConsistentHashRing

/-- History independence. Two sequences of calls that leave the same nodes
    present build rings that route every key alike, and give it the same
    preference lists if neither adds a node twice. Routers started with permuted
    node lists have the same preference lists. -/
theorem history_independence (hash : Bytes → UInt64) (vnodes : Nat) :
    (∀ first second : List Update, NoCollisions hash vnodes ((first ++ second).map Update.node_id) →
      (∀ id, Present first id ↔ Present second id) →
      (∀ key, (of_updates hash vnodes first).get_node hash key = (of_updates hash vnodes second).get_node hash key) ∧
      (Fresh first → Fresh second → ∀ key count,
        (of_updates hash vnodes first).get_nodes hash key count =
          (of_updates hash vnodes second).get_nodes hash key count)) ∧
    ∀ nodes permuted : List NodeAddress, nodes.Perm permuted →
      NoCollisions fnv1a_hash vnodes (nodes.map NodeAddress.id) → ∀ replicas key,
      (Router.create nodes vnodes replicas).preference_list key =
        (Router.create permuted vnodes replicas).preference_list key := by
  refine ⟨?_, fun nodes permuted hperm hcoll replicas key => Router.preference_list_perm hperm hcoll key⟩
  intro first second hcoll hsame
  rw [List.map_append] at hcoll
  have hfirst : (of_updates hash vnodes first).Exact hash := exact_of_updates (hcoll.mono (by simp))
  have hsecond : (of_updates hash vnodes second).Exact hash := exact_of_updates (hcoll.mono (by simp))
  have hmem (id : Bytes) : id ∈ (of_updates hash vnodes first).nodes_ ↔
      id ∈ (of_updates hash vnodes second).nodes_ := by
    rw [mem_of_updates_nodes_iff, mem_of_updates_nodes_iff]
    exact hsame id
  have hlist := hsecond.toList_eq hfirst (by simp) hmem
  refine ⟨get_node_congr hlist, ?_⟩
  intro hfresh hfresh'
  have hperm := (List.perm_ext_iff_of_nodup hfresh.nodup_nodes hfresh'.nodup_nodes).mpr hmem
  exact get_nodes_congr hlist hperm.length_eq

/-- A node that left and came back, and the same nodes in the other order. -/
theorem history_independence_example :
    let a := ascii "127.0.0.1:7001"
    let b := ascii "127.0.0.1:7002"
    let first : List Update := [.add_node a, .add_node b, .remove_node a, .remove_node a, .add_node a]
    let second : List Update := [.add_node a, .add_node b]
    NoCollisions fnv1a_hash 2 ((first ++ second).map Update.node_id) ∧
    (of_updates fnv1a_hash 2 first).nodes_ ≠ (of_updates fnv1a_hash 2 second).nodes_ ∧
    ∀ key, (of_updates fnv1a_hash 2 first).get_node fnv1a_hash key =
      (of_updates fnv1a_hash 2 second).get_node fnv1a_hash key := by
  intro a b first second
  have hcoll : NoCollisions fnv1a_hash 2 ((first ++ second).map Update.node_id) := by decide +kernel
  have hfirst : (of_updates fnv1a_hash 2 first).nodes_ = [b, a] := by decide +kernel
  have hsecond : (of_updates fnv1a_hash 2 second).nodes_ = [a, b] := by decide +kernel
  have hsame (id : Bytes) : Present first id ↔ Present second id := by
    rw [← @mem_of_updates_nodes_iff fnv1a_hash 2 first, ← @mem_of_updates_nodes_iff fnv1a_hash 2 second,
      hfirst, hsecond]
    simp [or_comm]
  exact ⟨hcoll, by rw [hfirst, hsecond]; decide, ((history_independence fnv1a_hash 2).1 first second hcoll hsame).1⟩

end kv.ConsistentHashRing
