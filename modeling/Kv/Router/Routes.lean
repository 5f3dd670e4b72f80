import Kv.HashRing.Exact
import Kv.Router.Restarts

namespace kv.ConsistentHashRing

variable {hash : Bytes → UInt64}

theorem Sound.get_node_mem {self : ConsistentHashRing} (hsound : self.Sound) {key id : Bytes}
    (hget : self.get_node hash key = .ok id) : id ∈ self.nodes_ := by
  rw [get_node_eq] at hget
  split at hget
  · simp at hget
  · rename_i owner howner
    obtain rfl := Except.ok.inj hget
    obtain ⟨pos, hpos⟩ := (mem_owners_iff hash self key owner).mp (List.mem_of_head? howner)
    exact hsound pos owner hpos

end kv.ConsistentHashRing

namespace kv.router

open Transition ConsistentHashRing

/-- A router whose ring is built with any hash function. -/
def routerOf (hash : Bytes → UInt64) (nodes : List NodeAddress) (vnodes replicas : Nat) : Router where
  nodes_ := nodes
  ring_ := of_nodes hash vnodes (nodes.map NodeAddress.id)
  replication_factor_ := max 1 replicas

example : routerOf fnv1a_hash = Router.create := rfl

theorem known_routerOf (hash : Bytes → UInt64) (nodes : List NodeAddress) (vnodes replicas : Nat) :
    (routerOf hash nodes vnodes replicas).Known := by
  intro key ids hlist id hid
  have hsound : (routerOf hash nodes vnodes replicas).ring_.Sound := sound_of_nodes vnodes _
  have hmem := hsound.get_nodes_subset (Router.preference_list_eq_some_iff.mp hlist) hid
  rwa [routerOf, of_nodes_nodes, List.mem_map] at hmem

/-- No stale routes, whatever the hash function and however positions collide.
    The owners on a ring are nodes that were added and not removed since, and
    the lookups return no others. In a router, where the nodes are added once
    and never removed, every node that a lookup returns has an address and a
    liveness entry, at all times, and no request ever asks for a connection to
    an unknown one. -/
theorem no_stale_routes (hash : Bytes → UInt64) (vnodes : Nat) :
    (∀ updates : List Update,
      let ring := of_updates hash vnodes updates
      (∀ (pos : UInt64) (owner : Bytes), ring.ring_[pos]? = some owner → owner ∈ ring.nodes_) ∧
      (∀ id, id ∈ ring.nodes_ ↔ Present updates id) ∧
      (∀ key id, ring.get_node hash key = .ok id → Present updates id) ∧
      (∀ key count ids, ring.get_nodes hash key count = some (.ok ids) → ∀ id ∈ ids, Present updates id)) ∧
    ∀ (nodes : List NodeAddress) (replicas : Nat),
      let router := routerOf hash nodes vnodes replicas
      ∀ P trace s, Run (system router) P (system router).init trace s →
      (∀ key id, router.ring_.get_node hash key = .ok id →
        router.find_address id ≠ none ∧ s.shared.alive_ id ≠ none) ∧
      (∀ key count ids, router.ring_.get_nodes hash key count = some (.ok ids) → ∀ id ∈ ids,
        router.find_address id ≠ none ∧ s.shared.alive_ id ≠ none) ∧
      ∀ t r, (s.threads t).pc = .routing r → ∀ id ∈ r.preference_list,
        router.find_address id ≠ none ∧ s.shared.alive_ id ≠ none := by
  constructor
  · intro updates ring
    have hsound : ring.Sound := (placed_of_updates vnodes updates).sound
    refine ⟨hsound, fun id => mem_of_updates_nodes_iff, ?_, ?_⟩
    · intro key id hget
      exact mem_of_updates_nodes_iff.mp (hsound.get_node_mem hget)
    · intro key count ids hget id hid
      exact mem_of_updates_nodes_iff.mp (hsound.get_nodes_subset hget hid)
  · intro nodes replicas router P trace s hrun
    have hknown := known_routerOf hash nodes vnodes replicas
    have hsane := sane_of_run hknown hrun
    have hsound : router.ring_.Sound := sound_of_nodes vnodes _
    have hnode {id : Bytes} (hid : id ∈ router.ring_.nodes_) :
        router.find_address id ≠ none ∧ s.shared.alive_ id ≠ none := by
      obtain ⟨addr, haddr, rfl⟩ : ∃ addr ∈ nodes, addr.id = id := by
        simpa [router, routerOf] using hid
      refine ⟨?_, hsane.known addr haddr⟩
      rw [← Option.isSome_iff_ne_none]
      exact List.find?_isSome.mpr ⟨addr, haddr, by simp⟩
    refine ⟨fun key id hget => hnode (hsound.get_node_mem hget),
      fun key count ids hget id hid => hnode (hsound.get_nodes_subset hget hid), ?_⟩
    intro t r hpc id hid
    have hlist := ((hsane.threads t).routing r hpc).listed
    exact hnode (hsound.get_nodes_subset (Router.preference_list_eq_some_iff.mp hlist) hid)

end kv.router
